import NodeFfi.TypeEvolution
import NodeFfi.VariadicSoundness

/-! The return type of a variadic function, which its cif is prepared with and its
proxy reads the result by: the one is what the generator was created with, the other
what its `returnType` property is when the function is built. -/
namespace NodeFfi.Variadic

open TransitionSystem

/-- The type that a name leads to. -/
def Naming.target : Naming → TypeRef
  | .registered type => type
  | .derived pointee => pointee

/-- The C type of what `ref.coerceType` makes of a name. -/
def Naming.meaning {γ : Type} (pointerTo : γ → γ) (cType : TypeRef → γ) : Naming → γ
  | .registered type => cType type
  | .derived pointee => pointerTo (cType pointee)

/-- Names lead to types that there are from the start. -/
def Registered (names : String → Option Naming) (existing : Nat) : Prop :=
  ∀ name, ∀ naming ∈ names name, naming.target < existing

/-- The arguments that a caller hands over. -/
def Label.arguments : Label → List TypeArg
  | .newType _ => []
  | .create returnType fixedArgTypes => returnType :: fixedArgTypes
  | .setReturnType _ returnType => [returnType]
  | .call _ args _ _ => args

/-- Nobody holds an object that does not exist. -/
def TypeArg.held (allocated : Nat) : TypeArg → Bool
  | .object type => type < allocated
  | .name _ => true

/-- The run of the generators, and the C type that each type object denotes. -/
structure Denoted (γ : Type) where
  state : State
  cType : TypeRef → γ

variable {γ : Type}

namespace Denoted

/-- `existing` types, which denote what `meanings` says. -/
def initial (existing : Nat) (meanings : TypeRef → γ) : Denoted γ :=
  ⟨Variadic.initial existing, meanings⟩

section
variable (names : String → Option Naming) (pointerTo : γ → γ) (meanings : TypeRef → γ)

/-- The C type that an argument denotes once it is coerced, if it can be. -/
def meaning (d : Denoted γ) : TypeArg → Option γ
  | .object type => some (d.cType type)
  | .name name => (names name).map (Naming.meaning pointerTo d.cType)

/-- The C types after a step: a type that some code created denotes what it was
created for, a type that `ref.coerceType` created is a pointer to its prototype's. -/
def cTypeAfter (d : Denoted γ) (label : Label) (after : Types) (type : TypeRef) : γ :=
  if type < d.state.types.allocated then d.cType type
  else match label, after.proto type with
    | .newType _, _ => meanings type
    | _, some pointee => pointerTo (d.cType pointee)
    | _, none => d.cType type

/-- `CIF_var` does not return when the return type cannot be coerced. -/
def returns (d : Denoted γ) : Label → Bool
  | .call g _ _ true =>
    d.state.generators[g]?.all fun generator => (d.meaning names pointerTo generator.declared).isSome
  | _ => true

def step (d : Denoted γ) (label : Label) : Option (Denoted γ) :=
  if label.arguments.all (TypeArg.held d.state.types.allocated) ∧ d.returns names pointerTo label then
    (Variadic.step names d.state label).map fun t =>
      ⟨t, d.cTypeAfter pointerTo meanings label t.types⟩
  else none

/-- **The cif and the proxy agree**: every call that was answered got a function whose
cif was prepared with a return type that denotes the proxy's. -/
def Agree (d : Denoted γ) : Prop :=
  ∀ answer ∈ d.state.answers, ∃ function ∈ d.state.functions[answer.function]?,
    d.meaning names pointerTo function.cifReturn = some (d.cType function.rtnType)

/-- A call that builds a function does so while the generator's `returnType` denotes
what the generator was created with. -/
def AsDeclared (d : Denoted γ) : Label → Prop
  | .call g args typed prepared =>
    ∀ generator ∈ d.state.generators[g]?,
      ∀ asked ∈ (ask names d.state.types generator args typed).1, Builds generator asked prepared →
        d.meaning names pointerTo generator.returnType = d.meaning names pointerTo generator.declared
  | _ => True

instance [DecidableEq γ] : DecidablePred (Agree names pointerTo) :=
  fun d => inferInstanceAs (Decidable (∀ answer ∈ d.state.answers, _))

instance [DecidableEq γ] (d : Denoted γ) : DecidablePred (AsDeclared names pointerTo d)
  | .call g args typed prepared =>
    inferInstanceAs (Decidable (∀ generator ∈ d.state.generators[g]?,
      ∀ asked ∈ (ask names d.state.types generator args typed).1, Builds generator asked prepared →
        d.meaning names pointerTo generator.returnType =
          d.meaning names pointerTo generator.declared))
  | .newType _ => isTrue trivial
  | .create _ _ => isTrue trivial
  | .setReturnType _ _ => isTrue trivial

/-- Functions agree, and generators and functions have types that exist. -/
structure Kept (existing : Nat) (d : Denoted γ) : Prop where
  sound : Sound d.state
  existing : existing ≤ d.state.types.allocated
  generators : ∀ generator ∈ d.state.generators,
    generator.declared.held d.state.types.allocated ∧
      generator.returnType.held d.state.types.allocated
  functions : ∀ function ∈ d.state.functions,
    function.cifReturn.held d.state.types.allocated ∧
      function.rtnType < d.state.types.allocated ∧
      d.meaning names pointerTo function.cifReturn = some (d.cType function.rtnType)

variable {names pointerTo meanings} {existing : Nat} {d d' : Denoted γ} {label : Label}

theorem step_eq (next : step names pointerTo meanings d label = some d') :
    (∀ arg ∈ label.arguments, arg.held d.state.types.allocated) ∧
      ∃ t, Variadic.step names d.state label = some t ∧
        d' = ⟨t, d.cTypeAfter pointerTo meanings label t.types⟩ := by
  obtain ⟨possible, next⟩ := Option.ite_none_right_eq_some.mp next
  obtain ⟨t, moved, rfl⟩ := Option.map_eq_some_iff.mp next
  exact ⟨List.all_eq_true.mp possible.1, t, moved, rfl⟩

theorem TypeArg.held_mono {arg : TypeArg} {allocated more : Nat} (grows : allocated ≤ more)
    (held : arg.held allocated) : arg.held more := by
  cases arg with
  | object type => exact decide_eq_true (Nat.lt_of_lt_of_le (of_decide_eq_true held) grows)
  | name => rfl

theorem cTypeAfter_of_lt {after : Types} {type : TypeRef} (old : type < d.state.types.allocated) :
    d.cTypeAfter pointerTo meanings label after type = d.cType type := if_pos old

/-- What is held before a step denotes the same after it. -/
theorem meaning_stays (registered : Registered names existing) (enough : existing ≤ d.state.types.allocated)
    {arg : TypeArg} (held : arg.held d.state.types.allocated) (t : State) :
    Denoted.meaning names pointerTo ⟨t, d.cTypeAfter pointerTo meanings label t.types⟩ arg =
      d.meaning names pointerTo arg := by
  have stays : ∀ type < d.state.types.allocated,
      d.cTypeAfter pointerTo meanings label t.types type = d.cType type :=
    fun type old => cTypeAfter_of_lt old
  cases arg with
  | object type => exact congrArg some (stays type (of_decide_eq_true held))
  | name name =>
    apply Option.map_congr
    intro naming looked
    have old := Nat.lt_of_lt_of_le (registered name naming looked) enough
    cases naming with
    | registered type => exact stays type old
    | derived pointee => exact congrArg pointerTo (stays pointee old)

variable (pointerTo meanings) in
/-- The return type that a call coerces denotes what the `returnType` property does. -/
theorem meaning_returned (registered : Registered names existing)
    (enough : existing ≤ d.state.types.allocated) (g : Nat) (prepared : Bool)
    {generator : Generator} {args : List TypeArg} {typed : Nat} {asked : Asked} {after : Types}
    (held : generator.returnType.held d.state.types.allocated)
    (returned : ask names d.state.types generator args typed = (some asked, after)) :
    asked.rtnType < after.allocated ∧ d.meaning names pointerTo generator.returnType =
      some (d.cTypeAfter pointerTo meanings (.call g args typed prepared) after asked.rtnType) := by
  obtain ⟨middle, first, coerced, last⟩ := ask_returned returned
  have before := first.extends
  have later := last.extends
  have grows := (ask_evolves names d.state.types generator args typed).extends.allocated
  rw [returned] at grows
  cases asks : generator.returnType with
  | object type =>
    rw [asks] at held coerced
    have old : type < d.state.types.allocated := of_decide_eq_true held
    obtain ⟨_, same⟩ := Option.ite_none_right_eq_some.mp coerced
    obtain rfl := Option.some.inj same
    exact ⟨Nat.lt_of_lt_of_le old grows, by rw [cTypeAfter_of_lt old]; rfl⟩
  | name name =>
    rw [asks] at coerced later
    unfold coerceType at coerced later
    cases looked : names name with
    | none =>
      simp only [looked] at coerced
      cases coerced
    | some naming =>
      have old := Nat.lt_of_lt_of_le (registered name naming looked) enough
      have denotes : d.meaning names pointerTo (.name name) = some (naming.meaning pointerTo d.cType) := by
        rw [meaning, looked, Option.map_some]
      cases naming with
      | registered type =>
        simp only [looked] at coerced
        obtain rfl := Option.some.inj coerced
        refine ⟨Nat.lt_of_lt_of_le old grows, denotes.trans ?_⟩
        exact congrArg some (cTypeAfter_of_lt old).symm
      | derived pointee =>
        simp only [looked] at coerced later
        have new : middle.allocated = asked.rtnType := Option.some.inj coerced
        have inside : middle.allocated < (middle.create (some pointee)).allocated := Nat.lt_succ_self _
        have proto : after.proto asked.rtnType = some pointee := by
          rw [← new, later.proto _ inside]
          exact Function.update_self ..
        have young : ¬ asked.rtnType < d.state.types.allocated := by
          rw [← new]
          exact Nat.not_lt.mpr before.allocated
        have created : d.cTypeAfter pointerTo meanings (.call g args typed prepared) after
            asked.rtnType = pointerTo (d.cType pointee) := by
          simp only [cTypeAfter, if_neg young, proto]
        exact ⟨new ▸ Nat.lt_of_lt_of_le inside later.allocated, by rw [created, denotes]; rfl⟩

theorem kept_initial (existing : Nat) :
    Kept names pointerTo existing (initial existing meanings) where
  sound := sound_initial existing
  existing := Nat.le_refl _
  generators := by simp [initial, Variadic.initial]
  functions := by simp [initial, Variadic.initial]

variable {t : State}

/-- The generators after a step were there before, have another cache or another
`returnType`, or were created by it. -/
theorem generators_held (kept : Kept names pointerTo existing d)
    (held : ∀ arg ∈ label.arguments, arg.held d.state.types.allocated)
    (next : Variadic.step names d.state label = some t) :
    ∀ generator ∈ t.generators, generator.declared.held d.state.types.allocated ∧
      generator.returnType.held d.state.types.allocated := by
  intro generator inside
  cases label with
  | newType proto =>
    cases next
    exact kept.generators generator inside
  | create returnType fixedArgTypes =>
    cases next
    have own := held returnType (List.mem_cons_self ..)
    unfold create at inside
    split at inside
    · exact kept.generators generator inside
    · rcases List.mem_append.mp inside with before | new
      · exact kept.generators generator before
      · rw [List.mem_singleton.mp new]
        exact ⟨own, own⟩
  | setReturnType g returnType =>
    obtain ⟨changed, found, rfl⟩ := Option.map_eq_some_iff.mp next
    rcases List.mem_or_eq_of_mem_set inside with before | rfl
    · exact kept.generators generator before
    · exact ⟨(kept.generators changed (List.mem_of_getElem? found)).1,
        held returnType (List.mem_singleton_self _)⟩
  | call g args typed prepared =>
    obtain ⟨called, found, rfl | ⟨_, _, _, _, _, rfl⟩ | ⟨_, _, _, _, rfl⟩⟩ := call_cases next
    · exact kept.generators generator inside
    · exact kept.generators generator inside
    · rcases List.mem_or_eq_of_mem_set inside with before | rfl
      · exact kept.generators generator before
      · exact kept.generators called (List.mem_of_getElem? found)

/-- A function after a step was there before, or the step is a call that built it. -/
theorem function_cases (next : Variadic.step names d.state label = some t) {function : Function}
    (inside : function ∈ t.functions) :
    function ∈ d.state.functions ∨
      ∃ g args typed prepared generator asked, label = .call g args typed prepared ∧
        d.state.generators[g]? = some generator ∧
        ask names d.state.types generator args typed = (some asked, t.types) ∧
        Builds generator asked prepared ∧ function = asked.function generator := by
  cases label with
  | newType proto =>
    cases next
    exact .inl inside
  | create returnType fixedArgTypes =>
    cases next
    unfold create at inside
    split at inside <;> exact .inl inside
  | setReturnType g returnType =>
    obtain ⟨_, _, rfl⟩ := Option.map_eq_some_iff.mp next
    exact .inl inside
  | call g args typed prepared =>
    obtain ⟨generator, found, rfl | ⟨_, _, _, _, _, rfl⟩ | ⟨asked, _, returned, builds, rfl⟩⟩ :=
      call_cases next
    · exact .inl inside
    · exact .inl inside
    · rcases List.mem_append.mp inside with before | new
      · exact .inl before
      · exact .inr ⟨g, args, typed, prepared, generator, asked, rfl, found, returned, builds,
          List.mem_singleton.mp new⟩

/-- **One step keeps the invariant** when what it builds is built as declared. -/
theorem kept_step (registered : Registered names existing) (kept : Kept names pointerTo existing d)
    (asDeclared : d.AsDeclared names pointerTo label)
    (next : step names pointerTo meanings d label = some d') : Kept names pointerTo existing d' := by
  obtain ⟨held, t, moved, rfl⟩ := step_eq next
  have grows := (step_evolves moved).extends.allocated
  refine ⟨sound_step kept.sound moved, Nat.le_trans kept.existing grows, ?_, ?_⟩
  · intro generator inside
    obtain ⟨declared, returnType⟩ := generators_held kept held moved generator inside
    exact ⟨TypeArg.held_mono grows declared, TypeArg.held_mono grows returnType⟩
  · intro function inside
    rcases function_cases moved inside with before |
      ⟨g, args, typed, prepared, generator, asked, rfl, found, returned, builds, rfl⟩
    · obtain ⟨cifReturn, rtnType, agrees⟩ := kept.functions function before
      refine ⟨TypeArg.held_mono grows cifReturn, Nat.lt_of_lt_of_le rtnType grows, ?_⟩
      rw [meaning_stays registered kept.existing cifReturn, agrees]
      exact congrArg some (cTypeAfter_of_lt rtnType).symm
    · obtain ⟨declared, returnType⟩ := kept.generators generator (List.mem_of_getElem? found)
      obtain ⟨rtnType, denotes⟩ :=
        meaning_returned pointerTo meanings registered kept.existing g prepared returnType returned
      refine ⟨TypeArg.held_mono grows declared, rtnType, ?_⟩
      rw [meaning_stays registered kept.existing (by exact declared)]
      have here : asked ∈ (ask names d.state.types generator args typed).1 := by rw [returned]; rfl
      exact (asDeclared generator found asked here builds).symm.trans denotes

theorem Kept.agree (kept : Kept names pointerTo existing d) : d.Agree names pointerTo := by
  intro answer inside
  obtain ⟨function, found, _⟩ := kept.sound.answered answer inside
  exact ⟨function, found, (kept.functions function (List.mem_of_getElem? found)).2.2⟩

/-- A function that is not built as declared disagrees with its cif. -/
theorem disagree_of_step (registered : Registered names existing)
    (kept : Kept names pointerTo existing d) (otherwise : ¬ d.AsDeclared names pointerTo label)
    (next : step names pointerTo meanings d label = some d') : ¬ d'.Agree names pointerTo := by
  obtain ⟨_, t, moved, rfl⟩ := step_eq next
  intro agree
  apply otherwise
  cases label with
  | newType proto => trivial
  | create returnType fixedArgTypes => trivial
  | setReturnType g returnType => trivial
  | call g args typed prepared =>
    intro generator found asked here builds
    obtain ⟨types, returned⟩ : ∃ types, ask names d.state.types generator args typed =
        (some asked, types) := ⟨_, Prod.ext here rfl⟩
    rw [Option.mem_def] at found
    obtain ⟨declared, returnType⟩ := kept.generators generator (List.mem_of_getElem? found)
    obtain ⟨_, denotes⟩ :=
      meaning_returned pointerTo meanings registered kept.existing g prepared returnType returned
    obtain rfl := step_of_builds found returned builds moved
    obtain ⟨function, here, agrees⟩ :=
      agree _ (List.mem_append_right _ (List.mem_singleton_self _))
    obtain rfl : asked.function generator = function := by
      simpa [State.answer] using here
    rw [meaning_stays registered kept.existing (by exact declared)] at agrees
    exact denotes.trans agrees.symm

/-- **The cif and the proxy agree on the return type exactly in the runs where every
function is built while `returnType` denotes what its generator was created with.** -/
theorem agree_iff_asDeclared (registered : Registered names existing) (labels : List Label) :
    Along (step names pointerTo meanings) (Agree names pointerTo) (initial existing meanings) labels ↔
      EachStep (step names pointerTo meanings) (AsDeclared names pointerTo)
        (initial existing meanings) labels :=
  along_iff_eachStep (fun _ kept => kept.agree)
    (fun _ _ _ kept asDeclared next => kept_step registered kept asDeclared next)
    (fun _ _ _ kept otherwise next => disagree_of_step registered kept otherwise next)
    (kept_initial existing) labels

end

/-- Only `'pointer'` is a name. -/
def onlyPointer (name : String) : Option Naming := if name = "pointer" then some (.derived 0) else none

/-- A generator declared to return `'pointer'`, used as such, and again after the
property has been set to another pointer of the same type. -/
theorem agree_after_assignment :
    Along (step onlyPointer (· + 100) id) (Agree onlyPointer (· + 100)) (initial 6 id)
      [.create (.name "pointer") [.object 2], .call 0 [.object 5] 1 true, .newType none,
       .setReturnType 0 (.name "pointer"), .call 0 [.name "pointer", .object 6] 2 true] := by
  have registered : Registered onlyPointer 6 := by
    intro name naming looked
    obtain ⟨_, same⟩ := Option.ite_none_right_eq_some.mp looked
    obtain rfl := Option.some.inj same
    decide
  exact (agree_iff_asDeclared registered _).mpr (by decide)

/-- The property is assigned before the first call: the cif is prepared for the type
numbered three, and the result is read as the type numbered four. -/
theorem disagree_after_assignment :
    ¬ Along (step onlyPointer (· + 100) id) (Agree onlyPointer (· + 100)) (initial 6 id)
      [.create (.object 3) [.object 2], .setReturnType 0 (.object 4), .call 0 [.object 5] 1 true] := by
  decide

end Denoted
end NodeFfi.Variadic
