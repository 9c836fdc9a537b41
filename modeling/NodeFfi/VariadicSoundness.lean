import NodeFfi.VariadicCalls

/-! When a generator's cache answers rightly. A key is the joined ids of a return
type and argument types; whoever was cached under it was built from types whose ids
join to the same text, and that is the same list of types when no call has the type
numbered zero right after an extendable one. -/
namespace NodeFfi.Variadic

open TransitionSystem

/-- Every key a generator has a function under is the key of the function's own
types, every answer has the key of the function it gave, and every function was
built for some answer. -/
structure Sound (s : State) : Prop where
  numbered : s.types.Numbered
  fixed : ∀ generator ∈ s.generators, (∀ t ∈ generator.fixedArgTypes, t ∈ s.types.numbered) ∧
    generator.fixedKey.flatten = keyOf s.types.numbered generator.fixedArgTypes
  cached : ∀ generator ∈ s.generators, ∀ key n, generator.cache.lookup key = some n →
    ∃ function, s.functions[n]? = some function ∧
      (∀ t ∈ function.signature, t ∈ s.types.numbered) ∧
      key = keyOf s.types.numbered function.signature
  answered : ∀ answer ∈ s.answers, ∃ function, s.functions[answer.function]? = some function ∧
    (∀ t ∈ answer.signature, t ∈ s.types.numbered) ∧
    (∀ t ∈ function.signature, t ∈ s.types.numbered) ∧
    keyOf s.types.numbered answer.signature = keyOf s.types.numbered function.signature
  built : ∀ function ∈ s.functions, ∃ answer ∈ s.answers,
    answer.signature = function.signature

theorem sound_initial (existing : Nat) : Sound (initial existing) where
  numbered := ⟨rfl, List.nodup_nil, by simp [initial]⟩
  fixed := by simp [initial]
  cached := by simp [initial]
  answered := by simp [initial]
  built := by simp [initial]

section
variable {names : String → Option Naming} {s : State} {types : Types}

/-- Numbering more types changes nothing that is known. -/
theorem Sound.later (sound : Sound s) (numbered : types.Numbered)
    (grows : s.types.numbered <+: types.numbered) : Sound { s with types } where
  numbered := numbered
  fixed := by
    intro generator inside
    obtain ⟨known, key⟩ := sound.fixed generator inside
    exact ⟨fun t listed => grows.subset (known t listed), by rw [key, keyOf_grows grows known]⟩
  cached := by
    intro generator inside key n hit
    obtain ⟨function, found, known, same⟩ := sound.cached generator inside key n hit
    exact ⟨function, found, fun t listed => grows.subset (known t listed),
      by rw [same, keyOf_grows grows known]⟩
  answered := by
    intro answer inside
    obtain ⟨function, found, asked, known, same⟩ := sound.answered answer inside
    refine ⟨function, found, fun t listed => grows.subset (asked t listed),
      fun t listed => grows.subset (known t listed), ?_⟩
    rw [keyOf_grows grows asked, keyOf_grows grows known, same]
  built := sound.built

theorem Sound.answer (sound : Sound s) {g n : Nat} {rtnType : TypeRef} {argTypes : List TypeRef}
    {function : Function} (found : s.functions[n]? = some function)
    (asked : ∀ t ∈ rtnType :: argTypes, t ∈ s.types.numbered)
    (known : ∀ t ∈ function.signature, t ∈ s.types.numbered)
    (same : keyOf s.types.numbered (rtnType :: argTypes) =
      keyOf s.types.numbered function.signature) : Sound (s.answer g rtnType argTypes n) where
  numbered := sound.numbered
  fixed := sound.fixed
  cached := sound.cached
  answered := by
    intro answer inside
    rcases List.mem_append.mp inside with before | new
    · exact sound.answered answer before
    · rw [List.mem_singleton.mp new]
      exact ⟨function, found, asked, known, same⟩
  built := by
    intro f inside
    obtain ⟨answer, before, made⟩ := sound.built f inside
    exact ⟨answer, List.mem_append_left _ before, made⟩

/-- A generator changes its `returnType` and nothing that its cache depends on. -/
theorem Sound.setReturnType (sound : Sound s) {g : Nat} {generator : Generator}
    (found : s.generators[g]? = some generator) (returnType : TypeArg) :
    Sound { s with generators := s.generators.set g { generator with returnType } } where
  numbered := sound.numbered
  fixed := by
    intro other inside
    rcases List.mem_or_eq_of_mem_set inside with before | rfl
    · exact sound.fixed other before
    · exact sound.fixed generator (List.mem_of_getElem? found)
  cached := by
    intro other inside
    rcases List.mem_or_eq_of_mem_set inside with before | rfl
    · exact sound.cached other before
    · exact sound.cached generator (List.mem_of_getElem? found)
  answered := sound.answered
  built := sound.built

/-- A function is built for a call, cached under the call's own key and returned. -/
theorem Sound.build (sound : Sound s) {g : Nat} {generator : Generator} {asked : Asked}
    (found : s.generators[g]? = some generator)
    (known : ∀ t ∈ asked.signature, t ∈ s.types.numbered)
    (own : asked.key = keyOf s.types.numbered asked.signature) :
    Sound (State.answer
      { s with
        functions := s.functions ++ [asked.function generator]
        generators := s.generators.set g (asked.cached generator s.functions.length) }
      g asked.rtnType asked.argTypes s.functions.length) := by
  have kept : ∀ {n : Nat} {f function : Function}, s.functions[n]? = some f →
      (s.functions ++ [function])[n]? = some f := by
    intro n f function here
    obtain ⟨inside, _⟩ := List.getElem?_eq_some_iff.mp here
    rw [List.getElem?_append_left inside, here]
  exact
    { numbered := sound.numbered
      fixed := by
        intro other inside
        rcases List.mem_or_eq_of_mem_set inside with before | rfl
        · exact sound.fixed other before
        · exact sound.fixed generator (List.mem_of_getElem? found)
      cached := by
        intro other inside k n hit
        rcases List.mem_or_eq_of_mem_set inside with before | rfl
        · obtain ⟨function, here, facts⟩ := sound.cached other before k n hit
          exact ⟨function, kept here, facts⟩
        · by_cases new : k = asked.key
          · subst k
            obtain rfl : s.functions.length = n := by simpa [Asked.cached] using hit
            exact ⟨_, List.getElem?_concat_length, known, own⟩
          · obtain ⟨function, here, facts⟩ := sound.cached generator
              (List.mem_of_getElem? found) k n (by
                rwa [Asked.cached, List.lookup_cons, beq_false_of_ne new] at hit)
            exact ⟨function, kept here, facts⟩
      answered := by
        intro answer inside
        rcases List.mem_append.mp inside with before | new
        · obtain ⟨function, here, facts⟩ := sound.answered answer before
          exact ⟨function, kept here, facts⟩
        · rw [List.mem_singleton.mp new]
          exact ⟨_, List.getElem?_concat_length, known, known, rfl⟩
      built := by
        intro function inside
        rcases List.mem_append.mp inside with before | new
        · obtain ⟨answer, asked, made⟩ := sound.built function before
          exact ⟨answer, List.mem_append_left _ asked, made⟩
        · rw [List.mem_singleton.mp new]
          exact ⟨_, List.mem_append_right _ (List.mem_singleton_self _), rfl⟩ }

/-- Whether the cache answers, a function is built or the call throws. -/
theorem Sound.lookUp (sound : Sound s) {g : Nat} {generator : Generator} {asked : Asked}
    (prepared : Bool) (found : s.generators[g]? = some generator)
    (known : ∀ t ∈ asked.signature, t ∈ s.types.numbered)
    (own : asked.key = keyOf s.types.numbered asked.signature) :
    Sound (lookUp s g generator asked prepared) := by
  cases looked : generator.cache.lookup asked.key with
  | some n =>
    obtain ⟨function, here, built, same⟩ :=
      sound.cached generator (List.mem_of_getElem? found) _ n looked
    rw [lookUp_of_hit looked]
    exact sound.answer here known built (own.symm.trans same)
  | none =>
    by_cases builds : Builds generator asked prepared
    · rw [lookUp_of_builds builds]
      exact sound.build found known own
    · rwa [lookUp_of_throws looked builds]

theorem Sound.create (sound : Sound s) (returnType : TypeArg) (fixedArgTypes : List TypeArg) :
    Sound (create names s returnType fixedArgTypes) := by
  have coerced := coerceTypes_named names sound.numbered fixedArgTypes
  unfold Variadic.create
  split
  · next after thrown =>
    rw [thrown] at coerced
    exact sound.later coerced.numbered coerced.grows
  · next argTypes middle returned =>
    rw [returned] at coerced
    have ids := coerced.append (getIds_named coerced.numbered argTypes)
    have later := sound.later ids.numbered ids.grows
    exact
      { later with
        fixed := by
          intro other inside
          rcases List.mem_append.mp inside with before | new
          · exact later.fixed other before
          · rw [List.mem_singleton.mp new]
            exact ⟨ids.known, ids.text⟩
        cached := by
          intro other inside key n hit
          rcases List.mem_append.mp inside with before | new
          · exact later.cached other before key n hit
          · rw [List.mem_singleton.mp new] at hit
            cases hit }

/-- **One step keeps the invariant**: what a generator caches and answers is always
under the key of the types it was built from. -/
theorem sound_step {t : State} {label : Label} (sound : Sound s)
    (next : step names s label = some t) : Sound t := by
  cases label with
  | newType proto =>
    cases next
    exact sound.later ⟨sound.numbered.counter, sound.numbered.nodup, sound.numbered.ids⟩
      List.prefix_rfl
  | create returnType fixedArgTypes =>
    cases next
    exact sound.create returnType fixedArgTypes
  | setReturnType g returnType =>
    obtain ⟨generator, found, rfl⟩ := Option.map_eq_some_iff.mp next
    exact sound.setReturnType found returnType
  | call g args typed prepared =>
    obtain ⟨generator, found, rfl⟩ := Option.map_eq_some_iff.mp next
    obtain ⟨fixed, text⟩ := sound.fixed generator (List.mem_of_getElem? found)
    rw [call_eq]
    split
    · next after thrown =>
      have later := ask_grows names sound.numbered generator args typed
      rw [thrown] at later
      exact sound.later later.1 later.2
    · next asked after returned =>
      have named := ask_named sound.numbered fixed text returned
      exact (sound.later named.numbered named.grows).lookUp prepared found named.known named.text

end

/-- The invariant holds wherever a run leads. -/
theorem sound_of_reaches {names : String → Option Naming} {existing : Nat} {s : State}
    (reached : Reaches (step names) (fun _ _ => True) (initial existing) s) : Sound s :=
  reached.invariant Sound (sound_initial existing) fun _ _ _ sound _ next => sound_step sound next

/-- The call's return and argument types do not have the type numbered zero right
after an extendable one. -/
def Distinguishable (s : State) (answer : Answer) : Prop :=
  Separated (answer.signature.map s.types.numbered.idxOf)

theorem signature_eq_of_key {numbered types others : List TypeRef} (few : numbered.length ≤ 0x10000)
    (known : ∀ t ∈ types, t ∈ numbered) (known' : ∀ t ∈ others, t ∈ numbered)
    (separated : Separated (types.map numbered.idxOf))
    (separated' : Separated (others.map numbered.idxOf))
    (same : keyOf numbered types = keyOf numbered others) : types = others := by
  have bounded : ∀ {l : List TypeRef}, (∀ t ∈ l, t ∈ numbered) →
      ∀ n ∈ l.map numbered.idxOf, n < 0x10000 := by
    intro l inside n listed
    obtain ⟨t, member, rfl⟩ := List.mem_map.mp listed
    exact Nat.lt_of_lt_of_le (List.idxOf_lt_length_of_mem (inside t member)) few
  have back : ∀ {l : List TypeRef}, (∀ t ∈ l, t ∈ numbered) →
      (l.map numbered.idxOf).map (numbered[·]?) = l.map some := by
    intro l inside
    rw [List.map_map]
    exact List.map_congr_left fun t listed => List.getElem?_idxOf (inside t listed)
  have numbers := joined_inj (bounded known) (bounded known') separated separated' same
  apply List.map_injective_iff.mpr fun _ _ => Option.some.inj
  rw [← back known, ← back known', numbers]

/-- **Every call is answered with its own function**, in every run that numbers no
more than 2^16 types and in which no answered call has the type numbered zero right
after an extendable one. -/
theorem answered_as_asked {names : String → Option Naming} {existing : Nat} {s : State}
    (reached : Reaches (step names) (fun _ _ => True) (initial existing) s)
    (few : s.types.counter ≤ 0x10000)
    (distinguishable : ∀ answer ∈ s.answers, Distinguishable s answer) :
    ∀ answer ∈ s.answers, ∃ function, s.functions[answer.function]? = some function ∧
      function.rtnType = answer.rtnType ∧ function.argTypes = answer.argTypes := by
  have sound := sound_of_reaches reached
  rw [sound.numbered.counter] at few
  intro answer inside
  obtain ⟨function, found, asked, known, same⟩ := sound.answered answer inside
  obtain ⟨builder, earlier, made⟩ := sound.built function (List.mem_of_getElem? found)
  have separated := distinguishable builder earlier
  rw [Distinguishable, made] at separated
  have signatures := signature_eq_of_key few asked known (distinguishable answer inside) separated same
  injection signatures with rtnType argTypes
  exact ⟨function, found, rtnType.symm, argTypes.symm⟩

/-- Seventeen types in use, and a generator with one fixed argument. -/
def seventeenTypes : List Label :=
  [.create (.object 0) ((List.range 17).map .object), .create (.object 3) [.object 2]]

/-- Two calls with the same types, another return type in between, and a new pointer
type for each `'pointer'`. -/
theorem answered_as_asked_twice :
    ∃ s, Reaches (step fun _ => some (.derived 0)) (fun _ _ => True) (initial 20) s ∧
      s.answers = [⟨1, 3, [2, 5], 0⟩, ⟨1, 4, [2, 5], 1⟩, ⟨1, 4, [2, 20], 2⟩, ⟨1, 3, [2, 5], 0⟩] ∧
      ∀ answer ∈ s.answers, ∃ function, s.functions[answer.function]? = some function ∧
        function.rtnType = answer.rtnType ∧ function.argTypes = answer.argTypes := by
  obtain ⟨s, reached, found⟩ := exists_reaches (step fun _ => some (.derived 0)) (fun _ _ => True)
    (initial 20) (seventeenTypes ++
      [.call 1 [.object 5] 1 true, .setReturnType 1 (.object 4), .call 1 [.object 5] 1 true,
       .call 1 [.name "pointer"] 1 true, .setReturnType 1 (.object 3), .call 1 [.object 5] 1 true])
    (fun s => s.answers = [⟨1, 3, [2, 5], 0⟩, ⟨1, 4, [2, 5], 1⟩, ⟨1, 4, [2, 20], 2⟩, ⟨1, 3, [2, 5], 0⟩] ∧
      s.types.counter ≤ 0x10000 ∧
      ∀ answer ∈ s.answers, Separated (answer.signature.map s.types.numbered.idxOf)) (by decide)
  obtain ⟨answers, few, distinguishable⟩ := of_decide_eq_true found
  exact ⟨s, reached, answers, answered_as_asked reached few distinguishable⟩

/-- A call with the types numbered one and zero, then a call with the type numbered
sixteen: the second is answered with the function of the first. -/
theorem answered_as_another :
    ∃ s, Reaches (step fun _ => none) (fun _ _ => True) (initial 20) s ∧
      s.types.counter = 17 ∧ s.answers = [⟨1, 3, [2, 1, 0], 0⟩, ⟨1, 3, [2, 16], 0⟩] ∧
      s.functions = [⟨.object 3, 1, 3, [2, 1, 0]⟩] ∧
      ¬ ∀ answer ∈ s.answers, ∃ function, s.functions[answer.function]? = some function ∧
        function.rtnType = answer.rtnType ∧ function.argTypes = answer.argTypes := by
  obtain ⟨s, reached, found⟩ := exists_reaches (step fun _ => none) (fun _ _ => True)
    (initial 20)
    (seventeenTypes ++ [.call 1 [.object 1, .object 0] 2 true, .call 1 [.object 16] 1 true])
    (fun s => s.types.counter = 17 ∧ s.answers = [⟨1, 3, [2, 1, 0], 0⟩, ⟨1, 3, [2, 16], 0⟩] ∧
      s.functions = [⟨.object 3, 1, 3, [2, 1, 0]⟩]) (by decide)
  obtain ⟨counter, answers, functions⟩ := of_decide_eq_true found
  refine ⟨s, reached, counter, answers, functions, ?_⟩
  intro right
  obtain ⟨function, here, _, argTypes⟩ := right ⟨1, 3, [2, 16], 0⟩ (by simp [answers])
  obtain rfl : ⟨.object 3, 1, 3, [2, 1, 0]⟩ = function := by simpa [functions] using here
  cases argTypes

end NodeFfi.Variadic
