import NodeFfi.TypeEvolution
import NodeFfi.VariadicSoundness
import Mathlib.Data.Finset.Card

/-! Which calls of a generator are answered with the function of an earlier call. A
type that is named `'pointer'` or by a name that ends in `'*'` is a new object for
each call, with an id of its own; all other types are what they were. -/
namespace NodeFfi.Variadic

open TransitionSystem

section
variable (names : String → Option Naming)

/-- `ref.coerceType` returns the same type whenever it is given this. -/
def TypeArg.plain : TypeArg → Bool
  | .object _ => true
  | .name text => match names text with
    | some (.derived _) => false
    | _ => true

/-- The type it then returns. -/
def TypeArg.resolve : TypeArg → Option TypeRef
  | .object type => some type
  | .name text => match names text with
    | some (.registered type) => some type
    | _ => none

/-- A call that returned: what the caller gave, what the generator's `returnType` was
then, and the function. -/
structure Call where
  generator : Nat
  args : List TypeArg
  returnType : TypeArg
  function : Nat
  deriving DecidableEq, Repr

/-- The state, and the calls that returned, in order. -/
structure History where
  state : State
  calls : List Call

/-- The call that a step answered, if it answered one. -/
def recorded (s : State) (label : Label) (t : State) : List Call :=
  match label with
  | .call g args _ _ =>
    s.generators[g]?.toList.flatMap fun generator =>
      (t.answers.drop s.answers.length).map fun answer =>
        ⟨g, args, generator.returnType, answer.function⟩
  | _ => []

namespace History

def initial (existing : Nat) : History := ⟨Variadic.initial existing, []⟩

def step (h : History) (label : Label) : Option History :=
  (Variadic.step names h.state label).map fun t => ⟨t, h.calls ++ recorded h.state label t⟩

/-- The argument lists that a generator was called with, each with the return type. -/
def lists (h : History) (g : Nat) : Finset (TypeArg × List TypeArg) :=
  ((h.calls.filter (·.generator = g)).map fun call => (call.returnType, call.args)).toFinset

/-- **Same arguments, same function**, and no more functions in a cache than there were
argument lists; these are counted without the return types as long as there is one. -/
structure Reused (h : History) : Prop where
  same : ∀ a ∈ h.calls, ∀ b ∈ h.calls, a.generator = b.generator → a.args = b.args →
    a.returnType = b.returnType → a.function = b.function
  few : ∀ g, ∀ generator ∈ h.state.generators[g]?, generator.cache.length ≤ (h.lists g).card
  few_lists : ∀ g, ∀ generator ∈ h.state.generators[g]?, ∀ returnType,
    (∀ call ∈ h.calls, call.generator = g → call.returnType = returnType) →
      generator.cache.length ≤ ((h.lists g).image Prod.snd).card

/-- A call that gives the list and has the return type of an earlier one gives no name
that a new type is derived for. -/
def PlainlyRepeated (h : History) : Label → Prop
  | .call g args _ _ =>
    ∀ generator ∈ h.state.generators[g]?,
      (generator.returnType, args) ∈ h.lists g →
        ∀ arg ∈ generator.returnType :: args, arg.plain names
  | _ => True

instance (h : History) : DecidablePred (h.PlainlyRepeated names)
  | .call g args _ _ =>
    inferInstanceAs (Decidable (∀ generator ∈ h.state.generators[g]?,
      (generator.returnType, args) ∈ h.lists g →
        ∀ arg ∈ generator.returnType :: args, arg.plain names = true))
  | .newType _ => isTrue trivial
  | .create _ _ => isTrue trivial
  | .setReturnType _ _ => isTrue trivial

end History

variable {names} {types after : Types}

/-! ## What a call with plain arguments asks for -/

theorem coerceType_of_plain {arg : TypeArg} {t : TypeRef} (plain : arg.plain names)
    (coerced : (coerceType names types arg).1 = some t) : arg.resolve names = some t := by
  cases arg with
  | object type =>
    obtain ⟨_, same⟩ := Option.ite_none_right_eq_some.mp coerced
    exact same
  | name name =>
    unfold coerceType at coerced
    unfold TypeArg.plain at plain
    unfold TypeArg.resolve
    cases looked : names name with
    | none =>
      simp only [looked] at coerced
      cases coerced
    | some naming =>
      cases naming with
      | registered type => simpa only [looked] using coerced
      | derived pointee =>
        simp only [looked] at plain
        cases plain

theorem collect_of_plain {args : List TypeArg} {typed : Nat} {argTypes : List TypeRef}
    {key : List (List Char)} (plain : ∀ arg ∈ args, arg.plain names)
    (collected : (collect names types typed args).1 = some (argTypes, key)) :
    args.map (TypeArg.resolve names) = argTypes.map some := by
  induction args generalizing types typed argTypes key with
  | nil =>
    unfold collect at collected
    cases collected
    rfl
  | cons arg rest further =>
    cases typed with
    | zero => cases collected
    | succ typed =>
      unfold collect at collected
      rcases coerced : coerceType names types arg with ⟨_ | t, middle⟩
      · rw [coerced] at collected
        cases collected
      · have own := coerceType_of_plain (plain arg (List.mem_cons_self ..)) (by rw [coerced])
        rw [coerced] at collected
        rcases returned : collect names (getId middle t).2 typed rest with
          ⟨_ | ⟨ts, ids⟩, after⟩
        · simp only [returned] at collected
          cases collected
        · simp only [returned] at collected
          cases collected
          have others := further (fun a inside => plain a (List.mem_cons_of_mem _ inside))
            (by rw [returned])
          rw [List.map_cons, List.map_cons, own, others]

/-- **Plain arguments ask for the same types in every call.** -/
theorem ask_argTypes {generator : Generator} {args : List TypeArg} {typed : Nat} {asked : Asked}
    (returned : ask names types generator args typed = (some asked, after)) :
    ∃ argTypes, asked.argTypes = generator.fixedArgTypes ++ argTypes ∧
      ((∀ arg ∈ generator.returnType :: args, arg.plain names) →
        generator.returnType.resolve names = some asked.rtnType ∧
          args.map (TypeArg.resolve names) = argTypes.map some) := by
  unfold ask at returned
  split at returned
  · cases returned
  · next argTypes key middle collected =>
    split at returned
    · cases returned
    · next rtnType later coerced =>
      obtain ⟨same, rfl⟩ := Prod.mk.inj returned
      obtain rfl := Option.some.inj same
      refine ⟨argTypes, rfl, ?_⟩
      intro plain
      constructor
      · exact coerceType_of_plain (plain _ (List.mem_cons_self ..)) (by rw [coerced])
      · exact collect_of_plain (fun a inside => plain a (List.mem_cons_of_mem _ inside))
          (by rw [collected])

/-! ## What is in the cache for the calls that returned -/

/-- No name among what the caller gave is one that a new type is derived for. -/
def Call.Plain (names : String → Option Naming) (call : Call) : Prop :=
  ∀ arg ∈ call.returnType :: call.args, arg.plain names

/-- The generator still has the call's function, under the key of some types; if the
call is plain, they are the ones that its arguments stand for. -/
def Stored (names : String → Option Naming) (s : State) (call : Call) : Prop :=
  ∃ generator, s.generators[call.generator]? = some generator ∧
    ∃ rtnType argTypes,
      (∀ t ∈ rtnType :: (generator.fixedArgTypes ++ argTypes), t ∈ s.types.numbered) ∧
      generator.cache.lookup
        (keyOf s.types.numbered (rtnType :: (generator.fixedArgTypes ++ argTypes))) =
          some call.function ∧
      (call.Plain names → call.returnType.resolve names = some rtnType ∧
        call.args.map (TypeArg.resolve names) = argTypes.map some)

variable {s t : State} {label : Label} {a b : Call}

/-- Two plain calls with the same list are stored under the same key. -/
theorem Stored.function_eq (first : Stored names s a) (second : Stored names s b)
    (generators : a.generator = b.generator) (args : a.args = b.args)
    (returnTypes : a.returnType = b.returnType) (plain : a.Plain names) : a.function = b.function := by
  obtain ⟨generator, found, rtnType, argTypes, _, hit, denotes⟩ := first
  obtain ⟨other, found', rtnType', argTypes', _, hit', denotes'⟩ := second
  obtain ⟨rtn, list⟩ := denotes plain
  obtain ⟨rtn', list'⟩ := denotes' (by rwa [Call.Plain, ← args, ← returnTypes])
  rw [← generators] at found'
  rw [← returnTypes] at rtn'
  rw [← args] at list'
  obtain rfl := Option.some.inj (found.symm.trans found')
  obtain rfl := Option.some.inj (rtn.symm.trans rtn')
  obtain rfl := List.map_injective_iff.mpr (fun _ _ => Option.some.inj) (list.symm.trans list')
  exact Option.some.inj (hit.symm.trans hit')

/-- What is found in a cache is found there after more was put into it. -/
theorem lookup_of_builds {generator : Generator} {asked : Asked} {prepared : Bool} {key : List Char}
    {n m : Nat} (builds : Builds generator asked prepared)
    (hit : generator.cache.lookup key = some n) :
    ((asked.key, m) :: generator.cache).lookup key = some n := by
  have other : key ≠ asked.key := by
    rintro rfl
    cases builds.missed.symm.trans hit
  rwa [List.lookup_cons, beq_false_of_ne other]

/-- **A stored call stays stored.** -/
theorem Stored.step (stored : Stored names s a) (next : Variadic.step names s label = some t) :
    Stored names t a := by
  obtain ⟨generator, found, rtnType, argTypes, known, hit, denotes⟩ := stored
  have grows := (step_evolves next).numbered
  obtain ⟨later, found', fixed, cache⟩ := generator_after next found
  refine ⟨later, found', rtnType, argTypes, ?_, ?_, denotes⟩
  · rw [fixed]
    exact fun u listed => grows.subset (known u listed)
  · rw [fixed, keyOf_grows grows known]
    rcases cache with same | ⟨_, _, _, _, _, _, _, builds, added⟩
    · rwa [same]
    · rw [added]
      exact lookup_of_builds builds hit

/-- A call that finds its key in the cache, be it that it has just put it there. -/
theorem stored_of_ask (sound : Sound s) {g n : Nat} {generator later : Generator}
    {args : List TypeArg} {typed : Nat} {asked : Asked}
    (found : s.generators[g]? = some generator)
    (returned : ask names s.types generator args typed = (some asked, t.types))
    (found' : t.generators[g]? = some later) (fixed : later.fixedArgTypes = generator.fixedArgTypes)
    (hit : later.cache.lookup asked.key = some n) :
    Stored names t ⟨g, args, generator.returnType, n⟩ := by
  obtain ⟨known, text⟩ := sound.fixed generator (List.mem_of_getElem? found)
  have named := ask_named sound.numbered known text returned
  obtain ⟨argTypes, split, plainly⟩ := ask_argTypes returned
  have signature : asked.signature = asked.rtnType :: (later.fixedArgTypes ++ argTypes) := by
    rw [fixed, ← split]
    rfl
  refine ⟨later, found', asked.rtnType, argTypes, ?_, ?_, plainly⟩
  · rw [← signature]
    exact named.known
  · rw [← signature, ← named.text, hit]

/-- What a step records: nothing, or a call that is then stored. -/
theorem recorded_cases (sound : Sound s) (next : Variadic.step names s label = some t) :
    recorded s label t = [] ∨
      ∃ g args typed prepared generator n, label = .call g args typed prepared ∧
        s.generators[g]? = some generator ∧
        recorded s label t = [⟨g, args, generator.returnType, n⟩] ∧
        Stored names t ⟨g, args, generator.returnType, n⟩ := by
  cases label with
  | newType proto => exact .inl rfl
  | create returnType fixedArgTypes => exact .inl rfl
  | setReturnType g returnType => exact .inl rfl
  | call g args typed prepared =>
    obtain ⟨generator, found, rfl | ⟨asked, types, n, returned, hit, rfl⟩ |
      ⟨asked, types, returned, builds, rfl⟩⟩ := call_cases next
    · left
      simp [recorded, found]
    · right
      refine ⟨g, args, typed, prepared, generator, n, rfl, found, ?_, ?_⟩
      · simp [recorded, found, State.answer]
      · exact stored_of_ask sound found returned found rfl hit
    · right
      obtain ⟨inside, _⟩ := List.getElem?_eq_some_iff.mp found
      refine ⟨g, args, typed, prepared, generator, s.functions.length, rfl, found, ?_, ?_⟩
      · simp [recorded, found, State.answer]
      · exact stored_of_ask sound found returned (List.getElem?_set_self inside) rfl
          (List.lookup_cons_self ..)

/-! ## Runs -/

namespace History

/-- Every call that returned is stored, and what is counted and compared is right. -/
structure Kept (names : String → Option Naming) (h : History) : Prop where
  sound : Sound h.state
  stored : ∀ call ∈ h.calls, Stored names h.state call
  same : ∀ a ∈ h.calls, ∀ b ∈ h.calls, a.generator = b.generator → a.args = b.args →
    a.returnType = b.returnType → a.function = b.function
  few : ∀ g generator, h.state.generators[g]? = some generator →
    generator.cache.length ≤ (h.lists g).card

variable {h h' : History}

theorem mem_lists {g : Nat} {entry : TypeArg × List TypeArg} :
    entry ∈ h.lists g ↔ ∃ call ∈ h.calls, call.generator = g ∧
      (call.returnType, call.args) = entry := by
  simp [lists, and_assoc]

theorem kept_initial (existing : Nat) : Kept names (initial existing) where
  sound := sound_initial existing
  stored := by simp [initial]
  same := by simp [initial]
  few := by simp [initial, Variadic.initial]

/-- A call that repeats a plain one finds its key in the cache. -/
theorem Kept.hit (kept : Kept names h) {g : Nat} {generator : Generator} {args : List TypeArg}
    {typed : Nat} {asked : Asked} {after : Types} (found : h.state.generators[g]? = some generator)
    (repeated : (generator.returnType, args) ∈ h.lists g)
    (plain : ∀ arg ∈ generator.returnType :: args, arg.plain names)
    (returned : ask names h.state.types generator args typed = (some asked, after)) :
    ∃ n, generator.cache.lookup asked.key = some n := by
  obtain ⟨call, earlier, rfl, same⟩ := mem_lists.mp repeated
  obtain ⟨sameReturn, sameArgs⟩ := Prod.mk.inj same
  obtain ⟨stored, here, rtnType, argTypes, known, hit, denotes⟩ := kept.stored call earlier
  obtain rfl := Option.some.inj (here.symm.trans found)
  obtain ⟨rtn, list⟩ := denotes (by rwa [Call.Plain, sameReturn, sameArgs])
  obtain ⟨fixed, text⟩ := kept.sound.fixed _ (List.mem_of_getElem? found)
  have named := ask_named kept.sound.numbered fixed text returned
  obtain ⟨argTypes', split, plainly⟩ := ask_argTypes returned
  obtain ⟨rtn', list'⟩ := plainly plain
  rw [← sameReturn] at rtn'
  rw [← sameArgs] at list'
  obtain rfl := List.map_injective_iff.mpr (fun _ _ => Option.some.inj) (list.symm.trans list')
  have signature : asked.signature = rtnType :: (stored.fixedArgTypes ++ argTypes) := by
    rw [Asked.signature, split, Option.some.inj (rtn'.symm.trans rtn)]
  exact ⟨call.function, by rw [named.text, signature, keyOf_grows named.grows known, hit]⟩

/-- Calls of other generators do not count, and repeated ones count once. -/
theorem lists_append {g : Nat} {t : State} {more : List Call} :
    h.lists g ⊆ History.lists ⟨t, h.calls ++ more⟩ g := by
  intro entry inside
  obtain ⟨call, earlier, found⟩ := mem_lists.mp inside
  exact mem_lists.mpr ⟨call, List.mem_append_left _ earlier, found⟩

theorem lists_insert {call : Call} {t : State} :
    History.lists ⟨t, h.calls ++ [call]⟩ call.generator =
      insert (call.returnType, call.args) (h.lists call.generator) := by
  ext entry
  rw [mem_lists, Finset.mem_insert, mem_lists]
  constructor
  · rintro ⟨other, inside, own, rfl⟩
    rcases List.mem_append.mp inside with before | new
    · exact .inr ⟨other, before, own, rfl⟩
    · rw [List.mem_singleton.mp new]
      exact .inl rfl
  · rintro (rfl | ⟨other, before, own, same⟩)
    · exact ⟨call, List.mem_append_right _ (List.mem_singleton_self _), rfl, rfl⟩
    · exact ⟨other, List.mem_append_left _ before, own, same⟩

/-- A cache grows by one for a list that was not given before. -/
theorem few_step (kept : Kept names h) (plainly : h.PlainlyRepeated names label)
    (next : Variadic.step names h.state label = some t) (g : Nat) (generator : Generator)
    (found : t.generators[g]? = some generator) :
    generator.cache.length ≤ (History.lists ⟨t, h.calls ++ recorded h.state label t⟩ g).card := by
  cases present : h.state.generators[g]? with
  | none =>
    rw [cache_of_new next present found]
    exact Nat.zero_le _
  | some before =>
    have bounded := kept.few g before present
    obtain ⟨later, here, _, stays | ⟨args, typed, prepared, asked, types, rfl, returned, builds, grows⟩⟩ :=
      generator_after next present
    · obtain rfl := Option.some.inj (found.symm.trans here)
      rw [stays]
      exact Nat.le_trans bounded (Finset.card_le_card lists_append)
    · obtain rfl := Option.some.inj (found.symm.trans here)
      have fresh : (before.returnType, args) ∉ h.lists g := by
        intro repeated
        obtain ⟨n, hit⟩ :=
          kept.hit present repeated (plainly before present repeated) returned
        cases builds.missed.symm.trans hit
      have one : recorded h.state (.call g args typed prepared) t =
          [⟨g, args, before.returnType, h.state.functions.length⟩] := by
        rw [step_of_builds present returned builds next]
        simp [recorded, present, State.answer]
      rw [one, lists_insert, Finset.card_insert_of_notMem fresh, grows, List.length_cons]
      exact Nat.succ_le_succ bounded

/-- **One step keeps the invariant** when a repeated call is plain. -/
theorem kept_step (kept : Kept names h) (plainly : h.PlainlyRepeated names label)
    (next : step names h label = some h') : Kept names h' := by
  obtain ⟨t, moved, rfl⟩ := Option.map_eq_some_iff.mp next
  have still : ∀ call ∈ h.calls, Stored names t call :=
    fun call inside => (kept.stored call inside).step moved
  have few := few_step kept plainly moved
  rcases recorded_cases kept.sound moved with
    nothing | ⟨g, args, typed, prepared, generator, n, rfl, found, one, stored⟩
  · rw [nothing, List.append_nil] at few ⊢
    exact ⟨sound_step kept.sound moved, still, kept.same, few⟩
  · rw [one] at few ⊢
    have repeats : ∀ a ∈ h.calls, a.generator = g → a.args = args →
        a.returnType = generator.returnType → a.function = n := by
      intro a earlier own sameArgs sameReturn
      have listed : (generator.returnType, args) ∈ h.lists g :=
        mem_lists.mpr ⟨a, earlier, own, by rw [sameArgs, sameReturn]⟩
      have plain := plainly generator found listed
      exact (still a earlier).function_eq stored own sameArgs sameReturn
        (by rwa [Call.Plain, sameArgs, sameReturn])
    refine ⟨sound_step kept.sound moved, ?_, ?_, few⟩
    · intro call inside
      rcases List.mem_append.mp inside with before | new
      · exact still call before
      · rw [List.mem_singleton.mp new]
        exact stored
    · intro a inside_a b inside_b own sameArgs sameReturn
      rcases List.mem_append.mp inside_a with before_a | new_a <;>
        rcases List.mem_append.mp inside_b with before_b | new_b
      · exact kept.same a before_a b before_b own sameArgs sameReturn
      · rw [List.mem_singleton.mp new_b] at own sameArgs sameReturn ⊢
        exact repeats a before_a own sameArgs sameReturn
      · rw [List.mem_singleton.mp new_a] at own sameArgs sameReturn ⊢
        exact (repeats b before_b own.symm sameArgs.symm sameReturn.symm).symm
      · rw [List.mem_singleton.mp new_a, List.mem_singleton.mp new_b]

theorem Kept.reused (kept : Kept names h) : h.Reused where
  same := kept.same
  few := fun g generator found => kept.few g generator found
  few_lists := by
    intro g generator found returnType only
    rw [Finset.card_image_of_injOn]
    · exact kept.few g generator found
    · intro entry inside entry' inside' same
      obtain ⟨call, earlier, own, rfl⟩ := mem_lists.mp inside
      obtain ⟨call', earlier', own', rfl⟩ := mem_lists.mp inside'
      exact Prod.ext ((only call earlier own).trans (only call' earlier' own').symm) same

/-- **Same arguments, same function**: in every run in which no call that repeats an
earlier one gives a name that a new type is derived for. -/
theorem reused_of_plain {existing : Nat}
    (reached : Reaches (step names) (PlainlyRepeated names) (initial existing) h) : h.Reused :=
  (reached.invariant (Kept names) (kept_initial existing)
    fun _ _ _ kept plainly next => kept_step kept plainly next).reused

end History

end

namespace History

/-- A plain name, and the name of a pointer. -/
def intAndPointer (name : String) : Option Naming :=
  if name = "int" then some (.registered 1) else if name = "pointer" then some (.derived 0) else none

/-- The same list twice, with a pointer's and a failing call in between. -/
theorem reused_twice :
    ∃ h, Reaches (step intAndPointer) (PlainlyRepeated intAndPointer) (initial 6) h ∧
      h.calls.map Call.function = [0, 1, 0] ∧ h.Reused := by
  obtain ⟨h, reached, found⟩ := exists_reaches (step intAndPointer) (PlainlyRepeated intAndPointer)
    (initial 6)
    [.create (.object 3) [.object 2], .call 0 [.name "int", .object 5] 2 true,
     .call 0 [.name "pointer"] 1 true, .call 0 [.name "double"] 1 true, .call 0 [.object 4] 1 false,
     .call 0 [.name "int", .object 5] 2 true]
    (fun h => h.calls.map Call.function = [0, 1, 0]) (by decide)
  exact ⟨h, reached, of_decide_eq_true found, reused_of_plain reached⟩

/-- `'pointer'` twice: two functions are built for the one list. -/
theorem pointer_not_reused :
    ∃ h, Reaches (step intAndPointer) (fun _ _ => True) (initial 6) h ∧
      h.calls = [⟨0, [.name "pointer"], .object 3, 0⟩, ⟨0, [.name "pointer"], .object 3, 1⟩] ∧
      ¬ h.Reused := by
  obtain ⟨h, reached, found⟩ := exists_reaches (step intAndPointer) (fun _ _ => True) (initial 6)
    [.create (.object 3) [.object 2], .call 0 [.name "pointer"] 1 true,
     .call 0 [.name "pointer"] 1 true]
    (fun h => h.calls = [⟨0, [.name "pointer"], .object 3, 0⟩, ⟨0, [.name "pointer"], .object 3, 1⟩])
    (by decide)
  have calls := of_decide_eq_true found
  refine ⟨h, reached, calls, ?_⟩
  intro reused
  have same := reused.same ⟨0, [.name "pointer"], .object 3, 0⟩ (by simp [calls])
    ⟨0, [.name "pointer"], .object 3, 1⟩ (by simp [calls]) rfl rfl rfl
  cases same

end History

end NodeFfi.Variadic
