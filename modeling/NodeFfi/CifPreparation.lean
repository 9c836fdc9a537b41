import NodeFfi.TypeCaching
import NodeFfi.TransitionSystem

/-! What is prepared from the cached types, in any number of calls: what it would be in a
fresh process, until a failure leaves a size in a type that the calls share. -/
namespace NodeFfi.CifPreparation

open TransitionSystem

section
variable {w : Nat} {p : Platform w} {fields : Nat → List (JsType w)} {world world' : World w}

/-! ## What libffi is given -/

theorem laid_fields {rest : List (JsType w)}
    (each : ∀ field ∈ rest, (∀ d ∈ descriptor p field, d.Laid (elements p fields)) ∧
      ∀ type n, field = .array type n → ∀ d ∈ descriptor p type, d.Laid (elements p fields))
    {members : List (Descriptor w)} (made : fieldDescriptors p rest = some members) :
    ∀ d ∈ members, d.Laid (elements p fields) := by
  induction rest generalizing members with
  | nil =>
    cases made
    exact fun d inside => absurd inside List.not_mem_nil
  | cons field rest further =>
    rw [List.forall_mem_cons] at each
    by_cases isArray : ∃ type n, field = .array type n
    · obtain ⟨type, n, rfl⟩ := isArray
      obtain ⟨first, head, onward⟩ := Option.bind_eq_some_iff.mp made
      obtain ⟨others, tail, same⟩ := Option.bind_eq_some_iff.mp onward
      cases same
      rw [List.forall_mem_append]
      refine ⟨?_, further each.2 tail⟩
      split at head
      · obtain ⟨d, inner, same⟩ := Option.bind_eq_some_iff.mp head
        cases same
        intro e inside
        rw [List.eq_of_mem_replicate inside]
        exact each.1.2 type n rfl d inner
      · cases head
        rw [List.forall_mem_singleton]
        exact .basic
    · have alone : ∀ type n, field ≠ .array type n := fun type n same => isArray ⟨type, n, same⟩
      rw [fieldDescriptors_alone alone] at made
      obtain ⟨first, head, onward⟩ := Option.bind_eq_some_iff.mp made
      obtain ⟨others, tail, same⟩ := Option.bind_eq_some_iff.mp onward
      cases same
      rw [List.forall_mem_cons]
      exact ⟨each.1.1 first head, further each.2 tail⟩

theorem laid_of_declared {t : JsType w} (declared : t.Declared fields) :
    (∀ d ∈ descriptor p t, d.Laid (elements p fields)) ∧
      ∀ type n, t = .array type n → ∀ d ∈ descriptor p type, d.Laid (elements p fields) := by
  induction declared with
  | given =>
    refine ⟨?_, nofun⟩
    rintro d ⟨⟩
    exact .basic
  | unknown => exact ⟨nofun, nofun⟩
  | array inner ih =>
    constructor
    · rintro d ⟨⟩
      exact .basic
    · rintro type n ⟨⟩
      exact ih.1
  | @struct object each ih =>
    refine ⟨?_, nofun⟩
    intro d made
    obtain ⟨members, found, rfl⟩ := Option.map_eq_some_iff.mp made
    have same : members = elements p fields object := by rw [elements, found]; rfl
    have laid := laid_fields ih found
    rw [same] at laid ⊢
    exact .aggregate laid

theorem laid_of_descriptors {types : List (JsType w)} (declared : ∀ t ∈ types, t.Declared fields)
    {ds : List (Descriptor w)} (made : descriptors p types = some ds) :
    ∀ d ∈ ds, d.Laid (elements p fields) := by
  induction types generalizing ds with
  | nil =>
    cases made
    exact fun d inside => absurd inside List.not_mem_nil
  | cons t rest further =>
    rw [List.forall_mem_cons] at declared
    obtain ⟨first, head, onward⟩ := Option.bind_eq_some_iff.mp made
    obtain ⟨others, tail, same⟩ := Option.bind_eq_some_iff.mp onward
    cases same
    rw [List.forall_mem_cons]
    exact ⟨(laid_of_declared declared.1).1 first head, further declared.2 tail⟩

/-- What libffi makes of the types of a cif, in a process where nothing was prepared before. -/
def initializedAll : List (FfiType w) → Option (List (FfiType w))
  | [] => some []
  | t :: rest =>
    (initialized t).bind fun first => (initializedAll rest).bind fun others => some (first :: others)

/-- The first of the types that is no valid typedef. -/
def firstInvalid (types : List (FfiType w)) : Option (FfiType w) :=
  types.find? fun t => (initialized t).isNone

theorem initializedAll_cons {t u : FfiType w} (ready : initialized t = some u) (rest : List (FfiType w)) :
    initializedAll (t :: rest) = (initializedAll rest).map (u :: ·) := by
  rw [initializedAll, ready, Option.bind_some]
  cases initializedAll rest <;> rfl

theorem initializedAll_refused {t : FfiType w} (refused : initialized t = none) (rest : List (FfiType w)) :
    initializedAll (t :: rest) = none := by
  rw [initializedAll, refused, Option.bind_none]

theorem firstInvalid_cons {t u : FfiType w} (ready : initialized t = some u) (rest : List (FfiType w)) :
    firstInvalid (t :: rest) = firstInvalid rest :=
  List.find?_cons_of_neg (by rw [ready]; simp)

theorem firstInvalid_refused {t : FfiType w} (refused : initialized t = none) (rest : List (FfiType w)) :
    firstInvalid (t :: rest) = some t :=
  List.find?_cons_of_pos (by rw [refused]; rfl)

theorem prepareAll_cons (d : Descriptor w) (rest : List (Descriptor w)) (f : Extents w) :
    prepareAll (d :: rest) f =
      if (d.prepare f).1 then prepareAll rest (d.prepare f).2 else (false, (d.prepare f).2) := by
  rw [prepareAll]
  rcases d.prepare f with ⟨ready, g⟩
  cases ready <;> rfl

/-- What preparing the types of a cif does. -/
structure PreparedAll (E : Nat → List (Descriptor w)) (ds : List (Descriptor w)) (f : Extents w) :
    Prop where
  succeeded : ∀ ts, initializedAll (ds.map Descriptor.blank) = some ts →
    (prepareAll ds f).1 = true ∧ ds.map (Descriptor.read (prepareAll ds f).2) = ts
  failed : initializedAll (ds.map Descriptor.blank) = none → (prepareAll ds f).1 = false
  kept : ∀ a, (f a).size ≠ 0 → (prepareAll ds f).2 a = f a
  frame : ∀ a ∉ Descriptor.addressesAll ds, (prepareAll ds f).2 a = f a
  clean : (∀ t ∈ firstInvalid (ds.map Descriptor.blank), t.traceless) → Descriptor.Clean E (prepareAll ds f).2

theorem preparedAll {E : Nat → List (Descriptor w)} {ds : List (Descriptor w)} {f : Extents w}
    (laid : ∀ d ∈ ds, d.Laid E) (clean : Descriptor.Clean E f) : PreparedAll E ds f := by
  induction ds generalizing f with
  | nil => exact ⟨by rintro ts ⟨⟩; exact ⟨rfl, rfl⟩, nofun, fun _ _ => rfl, fun _ _ => rfl, fun _ => clean⟩
  | cons d rest further =>
    rw [List.forall_mem_cons] at laid
    have first := Descriptor.prepared laid.1 clean
    have frame : ∀ a ∉ d.addresses, (d.prepare f).2 a = f a := fun _ apart => Descriptor.prepare_frame apart f
    have status := first.status
    cases valid : initialized d.blank with
    | none =>
      rw [valid, Option.isSome_none] at status
      have stopped : prepareAll (d :: rest) f = (false, (d.prepare f).2) := by
        rw [prepareAll_cons, status]
        rfl
      refine ⟨?_, fun _ => by rw [stopped], by rw [stopped]; exact first.kept, ?_, ?_⟩
      · intro ts found
        rw [List.map_cons, initializedAll_refused valid] at found
        cases found
      · intro a apart
        rw [Descriptor.addressesAll, List.mem_append, not_or] at apart
        rw [stopped]
        exact frame a apart.1
      · intro traceless
        rw [List.map_cons, firstInvalid_refused valid] at traceless
        rw [stopped]
        exact first.clean (.inr (traceless _ rfl))
    | some t =>
      rw [valid, Option.isSome_some] at status
      have onward : prepareAll (d :: rest) f = prepareAll rest (d.prepare f).2 := by
        rw [prepareAll_cons, if_pos status]
      have later := further laid.2 (first.clean (.inl (by rw [valid]; rfl)))
      have read : d.read (prepareAll rest (d.prepare f).2).2 = t := by
        have done : d.read (d.prepare f).2 = t := first.result t valid
        have sized : ∀ a ∈ d.addresses, ((d.prepare f).2 a).size ≠ 0 :=
          Descriptor.sized_addresses (by rw [done]; exact Descriptor.sized_of_initialized valid)
        rw [Descriptor.read_congr fun a inside => later.kept a (sized a inside), done]
      refine ⟨?_, ?_, ?_, ?_, ?_⟩
      · intro ts found
        rw [List.map_cons, initializedAll_cons valid] at found
        obtain ⟨others, tail, rfl⟩ := Option.map_eq_some_iff.mp found
        obtain ⟨ok, reads⟩ := later.succeeded others tail
        rw [onward, List.map_cons, read, reads]
        exact ⟨ok, rfl⟩
      · intro found
        rw [List.map_cons, initializedAll_cons valid] at found
        rw [onward]
        exact later.failed (Option.map_eq_none_iff.mp found)
      · intro a sized
        rw [onward, later.kept a (by rwa [first.kept a sized]), first.kept a sized]
      · intro a apart
        rw [Descriptor.addressesAll, List.mem_append, not_or] at apart
        rw [onward, later.frame a apart.2, frame a apart.1]
      · intro traceless
        rw [List.map_cons, firstInvalid_cons valid] at traceless
        rw [onward]
        exact later.clean traceless

/-! ## What a call gives -/

/-- What `ffi_prep_cif_core` makes of types that nothing was prepared from before. -/
def coreExpected (p : Platform w) (nfixedargs : Option Nat) (abi : Int) (rtype : Descriptor w)
    (types : List (Descriptor w)) : Outcome w :=
  if ¬ (abi > p.firstAbi ∧ abi < p.lastAbi) then .error .FFI_BAD_ABI
  else
    match initializedAll ((rtype :: types).map Descriptor.blank) with
    | some (rtype :: types) => .of (p.machdep nfixedargs abi rtype types) rtype types
    | _ => .error .FFI_BAD_TYPEDEF

/-- What a call gives in a process where nothing was prepared before. -/
def expected (p : Platform w) (request : Request fields) : Outcome w :=
  if request.numFixedArgs = some 0 then .assertion
  else
    match descriptor p request.rtype.val, descriptors p (request.types.map Subtype.val) with
    | some rtype, some types => coreExpected p request.numFixedArgs request.abi rtype types
    | _, _ => .assertion

/-- A failure of this call leaves no size in what is shared: it does not get to libffi, or the
first of its types that is no valid typedef is traceless. -/
def Traceless (p : Platform w) (_ : World w) (request : Request fields) : Prop :=
  ∀ rtype types, descriptor p request.rtype.val = some rtype →
    descriptors p (request.types.map Subtype.val) = some types →
      request.numFixedArgs ≠ some 0 → request.abi > p.firstAbi → request.abi < p.lastAbi →
        ∀ t ∈ firstInvalid ((rtype :: types).map Descriptor.blank), t.traceless

theorem declared_types (request : Request fields) :
    ∀ t ∈ request.types.map Subtype.val, t.Declared fields := by
  intro t inside
  obtain ⟨declared, _, rfl⟩ := List.mem_map.mp inside
  exact declared.2

/-- The memory after `ffi_prep_cif_core`, in a consistent world. -/
theorem consistent_prepared {ds : List (Descriptor w)} (consistent : Consistent p fields world)
    (laid : ∀ d ∈ ds, d.Laid (elements p fields)) (covered : Covered (Descriptor.addressesAll ds) world)
    (traceless : ∀ t ∈ firstInvalid (ds.map Descriptor.blank), t.traceless) :
    Consistent p fields { world with extents := (prepareAll ds world.extents).2 } := by
  have prepared := preparedAll laid consistent.clean
  refine ⟨consistent.cached, consistent.within, ?_, prepared.clean traceless⟩
  intro n absent
  have apart : n ∉ Descriptor.addressesAll ds := by
    intro inside
    have cached := covered n inside
    rw [absent] at cached
    cases cached
  exact (congrArg Extent.size (prepared.frame n apart)).trans (consistent.unset n absent)

theorem core_outcome {E : Nat → List (Descriptor w)} {rtype : Descriptor w}
    {types : List (Descriptor w)} {f : Extents w} (prepared : PreparedAll E (rtype :: types) f)
    (nfixedargs : Option Nat) (abi : Int) :
    Outcome.of (ffi_prep_cif_core p nfixedargs abi rtype types f).1
        (rtype.read (ffi_prep_cif_core p nfixedargs abi rtype types f).2)
        (types.map (Descriptor.read (ffi_prep_cif_core p nfixedargs abi rtype types f).2)) =
      coreExpected p nfixedargs abi rtype types := by
  rw [ffi_prep_cif_core, coreExpected]
  split
  · rfl
  · rcases ran : prepareAll (rtype :: types) f with ⟨ready, g⟩
    cases found : initializedAll ((rtype :: types).map Descriptor.blank) with
    | none =>
      have failed := prepared.failed found
      rw [ran] at failed
      cases failed
      rfl
    | some ts =>
      obtain ⟨ok, reads⟩ := prepared.succeeded ts found
      rw [ran] at ok reads
      cases ok
      cases reads
      rfl

theorem core_extents (nfixedargs : Option Nat) (abi : Int) (rtype : Descriptor w)
    (types : List (Descriptor w)) (f : Extents w) :
    (ffi_prep_cif_core p nfixedargs abi rtype types f).2 =
      if ¬ (abi > p.firstAbi ∧ abi < p.lastAbi) then f else (prepareAll (rtype :: types) f).2 := by
  rw [ffi_prep_cif_core]
  split
  · rfl
  · rcases prepareAll (rtype :: types) f with ⟨ready, g⟩
    cases ready <;> rfl

/-- **One call**: in a consistent world it gives what it gives in a fresh process, and if a
failure of it leaves no trace, the world stays consistent. -/
theorem prepareCif_consistent (consistent : Consistent p fields world) (request : Request fields) :
    (prepareCif p request world).1 = expected p request ∧
      (Traceless p world request → Consistent p fields (prepareCif p request world).2) := by
  rw [prepareCif, expected]
  split
  · exact ⟨rfl, fun _ => consistent⟩
  · next counted =>
    obtain ⟨same, grows, inside⟩ := (typed request.rtype.2).1 world consistent nofun
    have laid := (laid_of_declared (p := p) request.rtype.2).1
    rcases found : typeOf p request.rtype.val world with ⟨result, world'⟩
    rw [found] at same grows inside
    cases result with
    | none =>
      rw [← same]
      exact ⟨rfl, fun _ => grows.consistent⟩
    | some rtype =>
      obtain ⟨sameAll, onward, insideAll⟩ :=
        typesOf_returns (declared_types request) world' grows.consistent nofun
      have laidAll : ∀ ds, descriptors p (request.types.map Subtype.val) = some ds →
          ∀ d ∈ ds, d.Laid (elements p fields) := fun _ => laid_of_descriptors (declared_types request)
      rcases foundAll : typesOf p (request.types.map Subtype.val) world' with ⟨results, world''⟩
      rw [foundAll] at sameAll onward insideAll
      cases results with
      | none =>
        rw [← same, ← sameAll]
        refine ⟨by simp only [foundAll], fun _ => ?_⟩
        simp only [foundAll]
        exact onward.consistent
      | some types =>
        have allLaid : ∀ d ∈ rtype :: types, d.Laid (elements p fields) :=
          List.forall_mem_cons.mpr ⟨laid rtype same.symm, laidAll types sameAll.symm⟩
        have covered : Covered (Descriptor.addressesAll (rtype :: types)) world'' :=
          List.forall_mem_append.mpr
            ⟨(inside rtype same.symm).grows onward, insideAll types sameAll.symm⟩
        have prepared := preparedAll allLaid onward.consistent.clean
        constructor
        · rw [← same, ← sameAll]
          simp only [foundAll]
          exact core_outcome prepared ..
        · intro traceless
          simp only [foundAll]
          rw [core_extents]
          split
          · exact onward.consistent
          · next accepted =>
            obtain ⟨low, high⟩ := not_not.mp accepted
            exact consistent_prepared onward.consistent allLaid covered
              (traceless rtype types same.symm sameAll.symm counted low high)

/-! ## Any number of calls -/

/-- **Preparing a cif does not depend on earlier failures**: in this world every call gives
what it gives in a fresh process; in particular none accepts an invalid typedef. -/
structure AsFresh (p : Platform w) (fields : Nat → List (JsType w)) (world : World w) : Prop where
  same : ∀ request : Request fields,
    (prepareCif p request world).1 = (prepareCif p request World.initial).1
  refused : ∀ request : Request fields, ∀ t ∈ request.rtype :: request.types,
    ∀ d ∈ descriptor p t.val, d.blank.Invalid →
      ∀ rtype types, (prepareCif p request world).1 ≠ .cif rtype types

theorem consistent_initial : Consistent p fields World.initial :=
  ⟨nofun, nofun, fun _ _ => rfl, fun _ _ => .inl rfl⟩

theorem initializedAll_eq_none {ts : List (FfiType w)} {t : FfiType w} (inside : t ∈ ts)
    (refused : initialized t = none) : initializedAll ts = none := by
  induction ts with
  | nil => cases inside
  | cons first rest further =>
    rcases List.mem_cons.mp inside with rfl | later
    · exact initializedAll_refused refused rest
    · cases ready : initialized first with
      | none => exact initializedAll_refused ready rest
      | some u => rw [initializedAll_cons ready, further later, Option.map_none]

theorem mem_descriptors {types : List (JsType w)} {ds : List (Descriptor w)}
    (made : descriptors p types = some ds) {t : JsType w} (inside : t ∈ types) :
    ∃ d ∈ ds, descriptor p t = some d := by
  induction types generalizing ds with
  | nil => cases inside
  | cons first rest further =>
    obtain ⟨d, head, onward⟩ := Option.bind_eq_some_iff.mp made
    obtain ⟨others, tail, same⟩ := Option.bind_eq_some_iff.mp onward
    cases same
    rcases List.mem_cons.mp inside with rfl | later
    · exact ⟨d, List.mem_cons_self .., head⟩
    · obtain ⟨e, member, found⟩ := further tail later
      exact ⟨e, List.mem_cons_of_mem _ member, found⟩

/-- No call accepts an invalid typedef in a fresh process. -/
theorem expected_ne_cif {request : Request fields} {t : { t : JsType w // t.Declared fields }}
    (inside : t ∈ request.rtype :: request.types) {d : Descriptor w}
    (made : descriptor p t.val = some d) (invalid : d.blank.Invalid) (rtype : FfiType w)
    (types : List (FfiType w)) : expected p request ≠ .cif rtype types := by
  rw [expected]
  split
  · nofun
  · cases head : descriptor p request.rtype.val with
    | none => nofun
    | some r =>
      cases tail : descriptors p (request.types.map Subtype.val) with
      | none => nofun
      | some ts =>
        have all : descriptors p ((request.rtype :: request.types).map Subtype.val) = some (r :: ts) := by
          rw [List.map_cons, descriptors, head, tail]
          rfl
        obtain ⟨e, member, found⟩ := mem_descriptors all (List.mem_map_of_mem inside)
        cases made.symm.trans found
        have refused : initializedAll ((r :: ts).map Descriptor.blank) = none :=
          initializedAll_eq_none (List.mem_map_of_mem member) invalid.refused
        simp only [coreExpected, refused]
        split <;> nofun

theorem asFresh_of_consistent (consistent : Consistent p fields world) : AsFresh p fields world where
  same := by
    intro request
    rw [(prepareCif_consistent consistent request).1,
      (prepareCif_consistent consistent_initial request).1]
  refused := by
    intro request t inside d made invalid rtype types
    rw [(prepareCif_consistent consistent request).1]
    exact expected_ne_cif inside made invalid rtype types

/-- **Every call is as in a fresh process**, after any calls whose failures leave no trace. -/
theorem asFresh_of_traceless (reached : Reaches (step p) (@Traceless w fields p) World.initial world) :
    AsFresh p fields world := by
  apply asFresh_of_consistent
  apply reached.invariant (Consistent p fields) consistent_initial
  intro world request world' consistent traceless next
  cases next
  exact (prepareCif_consistent consistent request).2 traceless

end

/-! ## Two processes -/

/-- x86-64, with a `ffi_prep_cif_machdep` that takes every type. -/
def x64 : Platform 64 := ⟨⟨8, 8⟩, 1, 5, fun _ _ _ _ => .FFI_OK⟩

def int : JsType 64 := .given 4 4 (.value (.int true .w32))

/-- A call that passes one argument of struct type 0 and returns an `int`. -/
def takesStruct {fields : Nat → List (JsType 64)}
    (declared : (JsType.struct 0 (fields 0)).Declared fields) : Request fields where
  numFixedArgs := none
  rtype := ⟨int, .given⟩
  types := [⟨.struct 0 (fields 0), declared⟩]
  abi := 2

/-- Struct type 0 holds an empty struct type, and then an `int`. -/
def emptyFirst : Nat → List (JsType 64)
  | 0 => [.struct 1 [], int]
  | _ => []

theorem emptyFirst_declared : (JsType.struct 0 (emptyFirst 0)).Declared emptyFirst := by
  refine .struct ?_
  simp only [emptyFirst, List.forall_mem_cons, List.not_mem_nil, false_implies, implies_true, and_true]
  exact ⟨@JsType.Declared.struct _ emptyFirst 1 nofun, .given⟩

/-- The call fails, and goes on failing. -/
theorem fails_again :
    ∃ world, Reaches (step x64) (@Traceless 64 emptyFirst x64) World.initial world ∧
      (prepareCif x64 (takesStruct emptyFirst_declared) World.initial).1 = .error .FFI_BAD_TYPEDEF ∧
      (world.ffi_type 0).isSome ∧ AsFresh x64 emptyFirst world := by
  have traceless : Traceless x64 World.initial (takesStruct emptyFirst_declared) := by
    rintro rtype types ⟨⟩ ⟨⟩ _ _ _ t ⟨⟩
    rfl
  have reached : Reaches (step x64) (@Traceless 64 emptyFirst x64) World.initial _ :=
    Reaches.start.step traceless rfl
  exact ⟨_, reached, rfl, rfl, asFresh_of_traceless reached⟩

/-- Struct type 0 holds an `int`, and then an empty struct type. -/
def emptyLast : Nat → List (JsType 64)
  | 0 => [int, .struct 1 []]
  | _ => []

theorem emptyLast_declared : (JsType.struct 0 (emptyLast 0)).Declared emptyLast := by
  refine .struct ?_
  simp only [emptyLast, List.forall_mem_cons, List.not_mem_nil, false_implies, implies_true, and_true]
  exact ⟨.given, @JsType.Declared.struct _ emptyLast 1 nofun⟩

/-- The call fails; made again, it returns a cif, with a struct of four bytes whose second
element has no size. -/
theorem accepted_after_failure :
    ∃ world, Reaches (step x64) (fun _ (_ : Request emptyLast) => True) World.initial world ∧
      (prepareCif x64 (takesStruct emptyLast_declared) World.initial).1 = .error .FFI_BAD_TYPEDEF ∧
      (prepareCif x64 (takesStruct emptyLast_declared) world).1 =
        .cif (.basic 4 4 (.value (.int true .w32)))
          [.aggregate 4 4 [.basic 4 4 (.value (.int true .w32)), .aggregate 0 0 []]] ∧
      ¬ AsFresh x64 emptyLast world := by
  have reached : Reaches (step x64) (fun _ (_ : Request emptyLast) => True) World.initial
      (prepareCif x64 (takesStruct emptyLast_declared) World.initial).2 :=
    Reaches.start.step trivial rfl
  refine ⟨_, reached, rfl, rfl, ?_⟩
  intro fresh
  cases fresh.same (takesStruct emptyLast_declared)

end NodeFfi.CifPreparation
