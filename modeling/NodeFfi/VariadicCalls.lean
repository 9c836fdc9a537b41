import NodeFfi.VariadicNaming

/-! What a call of a generator comes to: it coerces and numbers its types, and then
either a cached function answers it, or one is built, or it throws. -/
namespace NodeFfi.Variadic

/-- What a call asks for, once it has coerced its types: the return type, the types
of all arguments and the key. -/
structure Asked where
  rtnType : TypeRef
  argTypes : List TypeRef
  key : List Char

/-- The return type and the argument types, as the key has them. -/
def Asked.signature (asked : Asked) : List TypeRef := asked.rtnType :: asked.argTypes

section
variable (names : String → Option Naming)

/-- The part of a call before the cache is looked at; `none` if it throws there. -/
def ask (types : Types) (generator : Generator) (args : List TypeArg) (typed : Nat) :
    Option Asked × Types :=
  match collect names types typed args with
  | (none, types) => (none, types)
  | (some (argTypes, key), types) =>
    match coerceType names types generator.returnType with
    | (none, types) => (none, types)
    | (some rtnType, types) =>
      let rtnName := getId types rtnType
      (some ⟨rtnType, generator.fixedArgTypes ++ argTypes,
        rtnName.1 ++ (generator.fixedKey ++ key).flatten⟩, rtnName.2)

/-- The part of a call from the cache on. -/
def lookUp (s : State) (g : Nat) (generator : Generator) (asked : Asked) (prepared : Bool) : State :=
  match generator.cache.lookup asked.key with
  | some function => s.answer g asked.rtnType asked.argTypes function
  | none => build s g generator asked.key asked.rtnType asked.argTypes prepared

theorem call_eq (s : State) (g : Nat) (generator : Generator) (args : List TypeArg) (typed : Nat)
    (prepared : Bool) :
    call names s g generator args typed prepared =
      match ask names s.types generator args typed with
      | (none, types) => { s with types }
      | (some asked, types) => lookUp { s with types } g generator asked prepared := by
  unfold call ask finish
  rcases collect names s.types typed args with ⟨_ | ⟨argTypes, key⟩, middle⟩
  · rfl
  · dsimp only
    rcases coerceType names middle generator.returnType with ⟨_ | rtnType, after⟩ <;> rfl

variable {names} {s t : State} {g : Nat} {generator : Generator} {args : List TypeArg} {typed : Nat}
  {types after : Types}

/-- A function is built: the call does not find its key, and `CIF_var` returns. -/
structure Builds (generator : Generator) (asked : Asked) (prepared : Bool) : Prop where
  missed : generator.cache.lookup asked.key = none
  prepared : prepared = true
  fixed : 1 ≤ generator.fixedArgTypes.length

instance (generator : Generator) (asked : Asked) (prepared : Bool) :
    Decidable (Builds generator asked prepared) :=
  decidable_of_iff (generator.cache.lookup asked.key = none ∧ prepared = true ∧
      1 ≤ generator.fixedArgTypes.length)
    ⟨fun ⟨missed, prepared, fixed⟩ => ⟨missed, prepared, fixed⟩,
      fun builds => ⟨builds.missed, builds.prepared, builds.fixed⟩⟩

/-- The function a call builds. -/
def Asked.function (asked : Asked) (generator : Generator) : Function :=
  ⟨generator.declared, generator.fixedArgTypes.length, asked.rtnType, asked.argTypes⟩

/-- The generator with that function in its cache. -/
def Asked.cached (asked : Asked) (generator : Generator) (function : Nat) : Generator :=
  { generator with cache := (asked.key, function) :: generator.cache }

theorem lookUp_of_hit {asked : Asked} {prepared : Bool} {n : Nat}
    (hit : generator.cache.lookup asked.key = some n) :
    lookUp s g generator asked prepared = s.answer g asked.rtnType asked.argTypes n := by
  rw [lookUp, hit]

theorem lookUp_of_builds {asked : Asked} {prepared : Bool} (builds : Builds generator asked prepared) :
    lookUp s g generator asked prepared =
      State.answer
        { s with
          functions := s.functions ++ [asked.function generator]
          generators := s.generators.set g (asked.cached generator s.functions.length) }
        g asked.rtnType asked.argTypes s.functions.length := by
  rw [lookUp, builds.missed]
  exact if_pos ⟨builds.prepared, builds.fixed⟩

theorem lookUp_of_throws {asked : Asked} {prepared : Bool}
    (missed : generator.cache.lookup asked.key = none) (throws : ¬ Builds generator asked prepared) :
    lookUp s g generator asked prepared = s := by
  rw [lookUp, missed]
  exact if_neg fun returns => throws ⟨missed, returns.1, returns.2⟩

variable (names) in
/-- Whether it throws or not, a call numbers more types, if any. -/
theorem ask_grows (numbered : types.Numbered) (generator : Generator) (args : List TypeArg)
    (typed : Nat) :
    (ask names types generator args typed).2.Numbered ∧
      types.numbered <+: (ask names types generator args typed).2.numbered := by
  have first := collect_named names numbered typed args
  unfold ask
  split
  · next thrown =>
    rwa [thrown] at first
  · next argTypes key middle collected =>
    rw [collected] at first
    have second := coerceType_named names first.numbered generator.returnType
    split
    · next thrown =>
      rw [thrown] at second
      exact ⟨second.numbered, first.grows.trans second.grows⟩
    · next rtnType later coerced =>
      rw [coerced] at second
      have third := second.append (getId_named second.numbered rtnType)
      exact ⟨third.numbered, first.grows.trans third.grows⟩

/-- **A call** that gets to the cache has looked up the ids of the types it asks for. -/
theorem ask_named {asked : Asked} (numbered : types.Numbered)
    (fixed : ∀ t ∈ generator.fixedArgTypes, t ∈ types.numbered)
    (text : generator.fixedKey.flatten = keyOf types.numbered generator.fixedArgTypes)
    (returned : ask names types generator args typed = (some asked, after)) :
    Named types after asked.signature asked.key := by
  unfold ask at returned
  split at returned
  · cases returned
  · next argTypes key middle collected =>
    have first := collect_named names numbered typed args
    rw [collected] at first
    split at returned
    · cases returned
    · next rtnType later coerced =>
      have second := coerceType_named names first.numbered generator.returnType
      rw [coerced] at second
      have third := second.append (getId_named second.numbered rtnType)
      obtain ⟨same, rfl⟩ := Prod.mk.inj returned
      obtain rfl := Option.some.inj same
      have known_fixed : ∀ t ∈ generator.fixedArgTypes, t ∈ middle.numbered :=
        fun t listed => first.grows.subset (fixed t listed)
      have fixed_text : generator.fixedKey.flatten = keyOf middle.numbered generator.fixedArgTypes := by
        rw [text, keyOf_grows first.grows fixed]
      exact
        { numbered := third.numbered
          grows := first.grows.trans third.grows
          known := by
            intro t listed
            rcases List.mem_cons.mp listed with rfl | listed
            · exact third.known t (List.mem_singleton_self _)
            · rcases List.mem_append.mp listed with left | right
              · exact third.grows.subset (known_fixed t left)
              · exact third.grows.subset (first.known t right)
          text := by
            have rtnName : (getId later rtnType).1 = keyOf (getId later rtnType).2.numbered [rtnType] :=
              third.text
            rw [Asked.signature, ← List.singleton_append, keyOf_append, keyOf_append, ← rtnName,
              keyOf_grows third.grows known_fixed, keyOf_grows third.grows first.known,
              ← fixed_text, ← first.text, List.flatten_append] }

/-- **What a call can do**: throw, be answered by the cache, or build a function. -/
theorem call_cases {prepared : Bool} (next : step names s (.call g args typed prepared) = some t) :
    ∃ generator, s.generators[g]? = some generator ∧
      (t = { s with types := (ask names s.types generator args typed).2 } ∨
      (∃ asked types n, ask names s.types generator args typed = (some asked, types) ∧
        generator.cache.lookup asked.key = some n ∧
        t = State.answer { s with types } g asked.rtnType asked.argTypes n) ∨
      ∃ asked types, ask names s.types generator args typed = (some asked, types) ∧
        Builds generator asked prepared ∧
        t = State.answer
          { s with
            types
            functions := s.functions ++ [asked.function generator]
            generators := s.generators.set g (asked.cached generator s.functions.length) }
          g asked.rtnType asked.argTypes s.functions.length) := by
  obtain ⟨generator, found, rfl⟩ := Option.map_eq_some_iff.mp next
  refine ⟨generator, found, ?_⟩
  rw [call_eq]
  rcases returned : ask names s.types generator args typed with ⟨_ | asked, types⟩
  · exact .inl rfl
  · cases looked : generator.cache.lookup asked.key with
    | some n => exact .inr (.inl ⟨asked, types, n, rfl, looked, lookUp_of_hit looked⟩)
    | none =>
      by_cases builds : Builds generator asked prepared
      · exact .inr (.inr ⟨asked, types, rfl, builds, lookUp_of_builds builds⟩)
      · exact .inl (lookUp_of_throws looked builds)

theorem step_of_builds {asked : Asked} {prepared : Bool} (found : s.generators[g]? = some generator)
    (returned : ask names s.types generator args typed = (some asked, types))
    (builds : Builds generator asked prepared)
    (next : step names s (.call g args typed prepared) = some t) :
    t = State.answer
      { s with
        types
        functions := s.functions ++ [asked.function generator]
        generators := s.generators.set g (asked.cached generator s.functions.length) }
      g asked.rtnType asked.argTypes s.functions.length := by
  rw [step, found, Option.map_some, call_eq, returned] at next
  exact (Option.some.inj next).symm.trans (lookUp_of_builds builds)

/-- What becomes of a generator: its cache stays, unless a call of it builds a function. -/
theorem generator_after {label : Label} (next : step names s label = some t)
    (found : s.generators[g]? = some generator) :
    ∃ later, t.generators[g]? = some later ∧ later.fixedArgTypes = generator.fixedArgTypes ∧
      (later.cache = generator.cache ∨
      ∃ args typed prepared asked types, label = .call g args typed prepared ∧
        ask names s.types generator args typed = (some asked, types) ∧
        Builds generator asked prepared ∧
        later.cache = (asked.key, s.functions.length) :: generator.cache) := by
  obtain ⟨inside, _⟩ := List.getElem?_eq_some_iff.mp found
  cases label with
  | newType proto =>
    cases next
    exact ⟨generator, found, rfl, .inl rfl⟩
  | create returnType fixedArgTypes =>
    cases next
    unfold create
    split
    · exact ⟨generator, found, rfl, .inl rfl⟩
    · exact ⟨generator, (List.getElem?_append_left inside).trans found, rfl, .inl rfl⟩
  | setReturnType changed returnType =>
    obtain ⟨before, here, rfl⟩ := Option.map_eq_some_iff.mp next
    by_cases same : changed = g
    · subst changed
      obtain rfl := Option.some.inj (here.symm.trans found)
      exact ⟨_, List.getElem?_set_self inside, rfl, .inl rfl⟩
    · exact ⟨generator, (List.getElem?_set_ne same).trans found, rfl, .inl rfl⟩
  | call called args typed prepared =>
    obtain ⟨before, here, rfl | ⟨_, _, _, _, _, rfl⟩ | ⟨asked, types, returned, builds, rfl⟩⟩ :=
      call_cases next
    · exact ⟨generator, found, rfl, .inl rfl⟩
    · exact ⟨generator, found, rfl, .inl rfl⟩
    · by_cases same : called = g
      · subst called
        obtain rfl := Option.some.inj (here.symm.trans found)
        exact ⟨_, List.getElem?_set_self inside, rfl, .inr
          ⟨args, typed, prepared, asked, types, rfl, returned, builds, rfl⟩⟩
      · exact ⟨generator, (List.getElem?_set_ne same).trans found, rfl, .inl rfl⟩

/-- A generator starts with an empty cache. -/
theorem cache_of_new {label : Label} (next : step names s label = some t)
    (absent : s.generators[g]? = none) (found : t.generators[g]? = some generator) :
    generator.cache = [] := by
  have outside := List.getElem?_eq_none_iff.mp absent
  cases label with
  | newType proto =>
    cases next
    cases absent.symm.trans found
  | create returnType fixedArgTypes =>
    cases next
    unfold create at found
    split at found
    · cases absent.symm.trans found
    · rw [List.getElem?_append_right outside] at found
      rw [List.mem_singleton.mp (List.mem_of_getElem? found)]
  | setReturnType changed returnType =>
    obtain ⟨before, here, rfl⟩ := Option.map_eq_some_iff.mp next
    rw [List.getElem?_eq_none (by rw [List.length_set]; exact outside)] at found
    cases found
  | call called args typed prepared =>
    obtain ⟨before, here, rfl | ⟨_, _, _, _, _, rfl⟩ | ⟨asked, types, returned, builds, rfl⟩⟩ :=
      call_cases next
    · cases absent.symm.trans found
    · cases absent.symm.trans found
    · rw [State.answer, List.getElem?_eq_none (by rw [List.length_set]; exact outside)] at found
      cases found

end

end NodeFfi.Variadic
