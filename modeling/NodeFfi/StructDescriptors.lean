import NodeFfi.StructDefinitions
import NodeFfi.TransitionSystem

/-! What `Type` caches on struct types: for each that has an `ffi_type`, the elements are what
`Type` has for its fields, as long as no field comes later. -/
namespace NodeFfi.StructDefinitions

open TransitionSystem Relation CifPreparation TypeMemory

section
variable {m : DataModel} {fields : Nat → List TypeRef} {world world' world'' : Caches m}

/-! ## The cached descriptors -/

/-- The elements of every `ffi_type` are those of the fields, down to types without fields; and
where there is none, nothing has been computed. -/
structure Consistent (fields : Nat → List TypeRef) (world : Caches m) : Prop where
  cached : ∀ n d, world.ffi_type n = some d → ∃ elements, d = .aggregate n elements ∧
    listed world TypeRef.element (fields n) = some elements
  finite : ∀ n d, world.ffi_type n = some d → Acc (Below fields) n
  unset : ∀ n, world.ffi_type n = none → (world.extents n).size = 0

/-- What calls of `Type` do: no `ffi_type` is replaced, and only what is new is touched. -/
structure Grows (fields : Nat → List TypeRef) (world world' : Caches m) : Prop where
  consistent : Consistent fields world'
  kept : ∀ n d, world.ffi_type n = some d → world'.ffi_type n = some d
  extents : ∀ n, world'.extents n = world.extents n ∨ (world.ffi_type n = none ∧ world'.extents n = ⟨0, 0⟩)

theorem Grows.refl (consistent : Consistent fields world) : Grows fields world world :=
  ⟨consistent, fun _ _ => id, fun _ => .inl rfl⟩

theorem Grows.trans (first : Grows fields world world') (second : Grows fields world' world'') :
    Grows fields world world'' where
  consistent := second.consistent
  kept n d there := second.kept n d (first.kept n d there)
  extents := by
    intro n
    rcases second.extents n with same | ⟨absent, zero⟩
    · rw [same]
      exact first.extents n
    · right
      refine ⟨?_, zero⟩
      cases before : world.ffi_type n with
      | none => rfl
      | some d => cases absent.symm.trans (first.kept n d before)

theorem resolved_mono (kept : ∀ n d, world.ffi_type n = some d → world'.ffi_type n = some d) {type : TypeRef}
    {d : Descriptor m.sizeBits} (resolves : resolved world type = some d) : resolved world' type = some d := by
  cases type with
  | struct object => exact kept object d resolves
  | _ => exact resolves

theorem listed_mono (kept : ∀ n d, world.ffi_type n = some d → world'.ffi_type n = some d)
    {element : TypeRef → TypeRef × Nat} {rest : List TypeRef} {elements : List (Descriptor m.sizeBits)}
    (lists : listed world element rest = some elements) : listed world' element rest = some elements := by
  induction rest generalizing elements with
  | nil => exact lists
  | cons field rest further =>
    obtain ⟨d, resolves, onward⟩ := Option.bind_eq_some_iff.mp lists
    obtain ⟨others, tail, rfl⟩ := Option.map_eq_some_iff.mp onward
    rw [listed, resolved_mono kept resolves, Option.bind_some, further tail]
    rfl

/-- Every field that is listed has an `ffi_type`. -/
theorem listed_resolves {element : TypeRef → TypeRef × Nat} {rest : List TypeRef}
    {elements : List (Descriptor m.sizeBits)} (lists : listed world element rest = some elements) :
    ∀ field ∈ rest, ∃ d, resolved world (element field).1 = some d := by
  induction rest generalizing elements with
  | nil => nofun
  | cons field rest further =>
    obtain ⟨d, resolves, onward⟩ := Option.bind_eq_some_iff.mp lists
    obtain ⟨others, tail, _⟩ := Option.map_eq_some_iff.mp onward
    rw [List.forall_mem_cons]
    exact ⟨⟨d, resolves⟩, further tail⟩

/-- What is listed is the `ffi_type` of a field. -/
theorem mem_listed {element : TypeRef → TypeRef × Nat} {rest : List TypeRef}
    {elements : List (Descriptor m.sizeBits)} (lists : listed world element rest = some elements)
    {e : Descriptor m.sizeBits} (inside : e ∈ elements) : ∃ field ∈ rest, resolved world (element field).1 = some e := by
  induction rest generalizing elements with
  | nil =>
    cases lists
    cases inside
  | cons field rest further =>
    obtain ⟨d, resolves, onward⟩ := Option.bind_eq_some_iff.mp lists
    obtain ⟨others, tail, rfl⟩ := Option.map_eq_some_iff.mp onward
    rcases List.mem_append.mp inside with own | later
    · rw [List.eq_of_mem_replicate own]
      exact ⟨field, List.mem_cons_self, resolves⟩
    · obtain ⟨other, member, there⟩ := further tail later
      exact ⟨other, List.mem_cons_of_mem _ member, there⟩

theorem listed_congr {element element' : TypeRef → TypeRef × Nat} {rest : List TypeRef}
    (same : ∀ field ∈ rest, element field = element' field) :
    listed world element rest = listed world element' rest := by
  induction rest with
  | nil => rfl
  | cons field rest further =>
    rw [List.forall_mem_cons] at same
    rw [listed, listed, same.1, further same.2]

/-- What is below a struct type with an `ffi_type` has one. -/
theorem Consistent.below (consistent : Consistent fields world) {n k : Nat} {d : Descriptor m.sizeBits}
    (there : world.ffi_type n = some d) (below : Below fields k n) : ∃ e, world.ffi_type k = some e := by
  obtain ⟨elements, _, lists⟩ := consistent.cached n d there
  obtain ⟨field, member, same⟩ := below
  obtain ⟨e, resolves⟩ := listed_resolves lists field member
  rw [same] at resolves
  exact ⟨e, resolves⟩

theorem Consistent.path (consistent : Consistent fields world) {n k : Nat} {d : Descriptor m.sizeBits}
    (there : world.ffi_type n = some d) (path : ReflTransGen (Below fields) k n) : ∃ e, world.ffi_type k = some e := by
  induction path using ReflTransGen.head_induction_on with
  | refl => exact ⟨d, there⟩
  | head below _ later =>
    obtain ⟨e, found⟩ := later
    exact consistent.below found below

/-! ## A call of `Type` -/

/-- What a call of `Type` for this type does, and what it returns. -/
structure Made (fields : Nat → List TypeRef) (type : TypeRef) (world : Caches m)
    (run : Option (Descriptor m.sizeBits) × Caches m) : Prop where
  grows : Grows fields world run.2
  resolves : ∀ d, run.1 = some d → resolved run.2 type = some d
  within : ∀ d, run.1 = some d → ∀ k, world.ffi_type k = none → run.2.ffi_type k ≠ none →
    ∃ n, type = .struct n ∧ ReflTransGen (Below fields) k n

theorem Made.constant {type : TypeRef} {d : Descriptor m.sizeBits} (consistent : Consistent fields world)
    (resolves : resolved world type = some d) : Made fields type world (some d, world) :=
  ⟨.refl consistent, by rintro e ⟨⟩; exact resolves, fun _ _ _ absent present => absurd absent present⟩

theorem Made.thrown {type : TypeRef} (consistent : Consistent fields world) : Made fields type world (none, world) :=
  ⟨.refl consistent, nofun, nofun⟩

/-- What the second pass over some fields does. -/
structure Filled (fields : Nat → List TypeRef) (rest : List TypeRef) (world : Caches m)
    (run : Option (List (Descriptor m.sizeBits)) × Caches m) : Prop where
  grows : Grows fields world run.2
  lists : ∀ elements, run.1 = some elements → listed run.2 TypeRef.element rest = some elements
  within : ∀ elements, run.1 = some elements → ∀ k, world.ffi_type k = none → run.2.ffi_type k ≠ none →
    ∃ field ∈ rest, ∃ n, field.element.1 = .struct n ∧ ReflTransGen (Below fields) k n

theorem fieldElements_filled {resolve : TypeRef → Caches m → Option (Descriptor m.sizeBits) × Caches m}
    (rest : List TypeRef)
    (each : ∀ type world, Consistent fields world → Made fields type world (resolve type world))
    (consistent : Consistent fields world) : Filled fields rest world (fieldElements resolve rest world) := by
  induction rest generalizing world with
  | nil => exact ⟨.refl consistent, by rintro elements ⟨⟩; rfl, fun _ _ k absent present => absurd absent present⟩
  | cons field rest further =>
    have made := each field.element.1 world consistent
    rw [fieldElements]
    rcases found : resolve field.element.1 world with ⟨result, between⟩
    rw [found] at made
    cases result with
    | none => exact ⟨made.grows, nofun, nofun⟩
    | some d =>
      have filled := further made.grows.consistent
      simp only [andThen]
      rcases ran : fieldElements resolve rest between with ⟨result, final⟩
      rw [ran] at filled
      cases result with
      | none => exact ⟨made.grows.trans filled.grows, nofun, nofun⟩
      | some others =>
        refine ⟨made.grows.trans filled.grows, ?_, ?_⟩
        · rintro elements ⟨⟩
          rw [listed, resolved_mono filled.grows.kept (made.resolves d rfl), Option.bind_some, filled.lists others rfl]
          rfl
        · rintro elements ⟨⟩ k absent present
          by_cases soon : between.ffi_type k = none
          · obtain ⟨other, member, n, same, path⟩ := filled.within others rfl k soon present
            exact ⟨other, List.mem_cons_of_mem _ member, n, same, path⟩
          · obtain ⟨n, same, path⟩ := made.within d rfl k absent soon
            exact ⟨field, List.mem_cons_self, n, same, path⟩

theorem create_self (world : Caches m) (object : Nat) (elements : List (Descriptor m.sizeBits)) :
    (world.create object elements).ffi_type object = some (.aggregate object elements) := Function.update_self ..

theorem create_other {object n : Nat} (world : Caches m) (elements : List (Descriptor m.sizeBits))
    (other : n ≠ object) : (world.create object elements).ffi_type n = world.ffi_type n :=
  Function.update_of_ne other ..

/-- The `ffi_type` of a struct type whose fields have theirs. -/
theorem create_grows {object : Nat} {elements : List (Descriptor m.sizeBits)} (consistent : Consistent fields world)
    (absent : world.ffi_type object = none) (lists : listed world TypeRef.element (fields object) = some elements) :
    Grows fields world (world.create object elements) := by
  have kept : ∀ n d, world.ffi_type n = some d → (world.create object elements).ffi_type n = some d := by
    intro n d there
    rw [create_other world elements (by rintro rfl; cases absent.symm.trans there), there]
  refine ⟨⟨?_, ?_, ?_⟩, kept, ?_⟩
  · intro n d there
    by_cases own : n = object
    · subst n
      cases (create_self world object elements).symm.trans there
      exact ⟨elements, rfl, listed_mono kept lists⟩
    · rw [create_other world elements own] at there
      obtain ⟨members, rfl, found⟩ := consistent.cached n d there
      exact ⟨members, rfl, listed_mono kept found⟩
  · intro n d there
    by_cases own : n = object
    · subst n
      apply acc_of_fields
      intro field member k same
      obtain ⟨e, resolves⟩ := listed_resolves lists field member
      rw [same] at resolves
      exact consistent.finite k e resolves
    · rw [create_other world elements own] at there
      exact consistent.finite n d there
  · intro n none
    by_cases own : n = object
    · subst n
      cases (create_self world object elements).symm.trans none
    · rw [create_other world elements own] at none
      have same : (world.create object elements).extents n = world.extents n := Function.update_of_ne own ..
      rw [same]
      exact consistent.unset n none
  · intro n
    by_cases own : n = object
    · subst n
      exact .inr ⟨absent, Function.update_self ..⟩
    · exact .inl (Function.update_of_ne own ..)

/-- **A call of `Type`** keeps every `ffi_type`, and makes those that it lacks. -/
theorem typeOf_made (depth : Nat) (type : TypeRef) (consistent : Consistent fields world) :
    Made fields type world (typeOf fields depth type world) := by
  induction depth generalizing type world with
  | zero => exact .thrown consistent
  | succ depth further =>
    cases type with
    | unknown => exact .thrown consistent
    | struct object =>
      rw [typeOf]
      cases there : world.ffi_type object with
      | some d => exact .constant consistent there
      | none =>
        have filled := fieldElements_filled (fields object) (fun type _ before => further type before) consistent
        rcases ran : fieldElements (typeOf fields depth) (fields object) world with ⟨result, between⟩
        rw [ran] at filled
        cases result with
        | none => exact ⟨filled.grows, nofun, nofun⟩
        | some elements =>
          have lists := filled.lists elements rfl
          have finite : Acc (Below fields) object := by
            apply acc_of_fields
            intro field member n same
            obtain ⟨e, resolves⟩ := listed_resolves lists field member
            rw [same] at resolves
            exact filled.grows.consistent.finite n e resolves
          -- The struct type is not among those that its fields have made.
          have still : between.ffi_type object = none := by
            by_contra present
            obtain ⟨field, member, n, same, path⟩ := filled.within elements rfl object there present
            exact not_below_self finite (TransGen.tail' path ⟨field, member, same⟩)
          refine ⟨filled.grows.trans (create_grows filled.grows.consistent still lists), ?_, ?_⟩
          · rintro d ⟨⟩
            exact create_self ..
          · rintro d ⟨⟩ k absent present
            refine ⟨object, rfl, ?_⟩
            by_cases own : k = object
            · rw [own]
            · change (between.create object elements).ffi_type k ≠ none at present
              rw [create_other between elements own] at present
              obtain ⟨field, member, n, same, path⟩ := filled.within elements rfl k absent present
              exact path.tail ⟨field, member, same⟩
    | _ => exact .constant consistent rfl

theorem typesOf_grows (depth : Nat) (types : List TypeRef) (consistent : Consistent fields world) :
    Grows fields world (typesOf fields depth types world).2 ∧
      ∀ ds, (typesOf fields depth types world).1 = some ds →
        types.map (resolved (typesOf fields depth types world).2) = ds.map some := by
  induction types generalizing world with
  | nil => exact ⟨.refl consistent, by rintro ds ⟨⟩; rfl⟩
  | cons type rest further =>
    have made := typeOf_made depth type consistent
    rw [typesOf]
    rcases found : typeOf fields depth type world with ⟨result, between⟩
    rw [found] at made
    cases result with
    | none => exact ⟨made.grows, nofun⟩
    | some d =>
      obtain ⟨grows, resolve⟩ := further made.grows.consistent
      simp only [andThen]
      rcases ran : typesOf fields depth rest between with ⟨result, final⟩
      rw [ran] at grows resolve
      cases result with
      | none => exact ⟨made.grows.trans grows, nofun⟩
      | some others =>
        refine ⟨made.grows.trans grows, ?_⟩
        rintro ds ⟨⟩
        rw [List.map_cons, resolve others rfl, resolved_mono grows.kept (made.resolves d rfl)]
        rfl

/-! ## What libffi is given -/

theorem resolved_cases {type : TypeRef} {d : Descriptor m.sizeBits} (resolves : resolved world type = some d) :
    (∃ size alignment code, d = .basic size alignment code) ∨ ∃ n, type = .struct n ∧ world.ffi_type n = some d := by
  cases type with
  | struct n => exact .inr ⟨n, rfl, resolves⟩
  | unknown => cases resolves
  | _ =>
    cases resolves
    exact .inl ⟨_, _, _, rfl⟩

theorem mem_of_listed {element : TypeRef → TypeRef × Nat} {rest : List TypeRef}
    {elements : List (Descriptor m.sizeBits)} (lists : listed world element rest = some elements) {field : TypeRef}
    (inside : field ∈ rest) (some_of_it : 0 < (element field).2) {e : Descriptor m.sizeBits}
    (resolves : resolved world (element field).1 = some e) : e ∈ elements := by
  induction rest generalizing elements with
  | nil => cases inside
  | cons first rest further =>
    obtain ⟨d, head, onward⟩ := Option.bind_eq_some_iff.mp lists
    obtain ⟨others, tail, rfl⟩ := Option.map_eq_some_iff.mp onward
    rcases List.mem_cons.mp inside with rfl | later
    · cases head.symm.trans resolves
      exact List.mem_append_left _ (List.mem_replicate.mpr ⟨some_of_it.ne', rfl⟩)
    · exact List.mem_append_right _ (further tail later)

/-- Induction along the struct types in one another, where they have an `ffi_type`. -/
theorem Consistent.induct (consistent : Consistent fields world) {motive : Nat → Descriptor m.sizeBits → Prop}
    (aggregate : ∀ n elements, world.ffi_type n = some (.aggregate n elements) →
      listed world TypeRef.element (fields n) = some elements →
      (∀ k d, Below fields k n → world.ffi_type k = some d → motive k d) → motive n (.aggregate n elements))
    {n : Nat} {d : Descriptor m.sizeBits} (there : world.ffi_type n = some d) : motive n d := by
  have finite := consistent.finite n d there
  induction finite generalizing d with
  | intro n _ further =>
    obtain ⟨elements, rfl, lists⟩ := consistent.cached n d there
    exact aggregate n elements there lists fun k d below cached => further k below cached

/-- The aggregates in an `ffi_type` are those of the struct types in its own. -/
theorem Consistent.addresses_iff (consistent : Consistent fields world) {n a : Nat} {d : Descriptor m.sizeBits}
    (there : world.ffi_type n = some d) : a ∈ d.addresses ↔ ReflTransGen (Below fields) a n := by
  refine consistent.induct (motive := fun n d => a ∈ d.addresses ↔ ReflTransGen (Below fields) a n) ?_ there
  intro n elements there lists further
  rw [Descriptor.addresses, List.mem_cons, Descriptor.addressesAll_eq, List.mem_flatMap]
  constructor
  · rintro (rfl | ⟨e, inside, within⟩)
    · exact .refl
    · obtain ⟨field, member, resolves⟩ := mem_listed lists inside
      rcases resolved_cases resolves with ⟨_, _, _, rfl⟩ | ⟨k, same, cached⟩
      · cases within
      · have below : Below fields k n := ⟨field, member, same⟩
        exact ((further k e below cached).mp within).tail below
  · intro path
    rcases path.cases_tail with rfl | ⟨k, path, below⟩
    · exact .inl rfl
    · obtain ⟨e, cached⟩ := consistent.below there below
      obtain ⟨field, member, same⟩ := id below
      refine .inr ⟨e, ?_, (further k e below cached).mpr path⟩
      exact mem_of_listed lists member (element_count_pos field) (by rw [same]; exact cached)

/-- The elements of the `ffi_type` of each struct type. -/
def elementsOf (world : Caches m) (n : Nat) : List (Descriptor m.sizeBits) :=
  match world.ffi_type n with
  | some (.aggregate _ elements) => elements
  | _ => []

theorem elementsOf_cached {n : Nat} {elements : List (Descriptor m.sizeBits)}
    (there : world.ffi_type n = some (.aggregate n elements)) : elementsOf world n = elements := by
  rw [elementsOf, there]

theorem Consistent.laid (consistent : Consistent fields world) {n : Nat} {d : Descriptor m.sizeBits}
    (there : world.ffi_type n = some d) : d.Laid (elementsOf world) := by
  refine consistent.induct (motive := fun _ d => d.Laid (elementsOf world)) ?_ there
  intro n elements there lists further
  rw [← elementsOf_cached there]
  apply Descriptor.Laid.aggregate
  intro e inside
  rw [elementsOf_cached there] at inside
  obtain ⟨field, member, resolves⟩ := mem_listed lists inside
  rcases resolved_cases resolves with ⟨_, _, _, rfl⟩ | ⟨k, same, cached⟩
  · exact .basic
  · exact further k e ⟨field, member, same⟩ cached

theorem Consistent.laid_resolved (consistent : Consistent fields world) {type : TypeRef} {d : Descriptor m.sizeBits}
    (resolves : resolved world type = some d) : d.Laid (elementsOf world) := by
  rcases resolved_cases resolves with ⟨_, _, _, rfl⟩ | ⟨n, _, cached⟩
  · exact .basic
  · exact consistent.laid cached

/-- What libffi is given has no aggregate but those of struct types. -/
theorem Consistent.covered (consistent : Consistent fields world) {types : List TypeRef}
    {ds : List (Descriptor m.sizeBits)} (resolves : types.map (resolved world) = ds.map some) {a : Nat}
    (inside : a ∈ Descriptor.addressesAll ds) : ∃ e, world.ffi_type a = some e := by
  rw [Descriptor.addressesAll_eq, List.mem_flatMap] at inside
  obtain ⟨d, member, within⟩ := inside
  have there : some d ∈ types.map (resolved world) := by
    rw [resolves]
    exact List.mem_map_of_mem member
  obtain ⟨type, _, found⟩ := List.mem_map.mp there
  rcases resolved_cases found with ⟨_, _, _, rfl⟩ | ⟨n, _, cached⟩
  · cases within
  · exact consistent.path cached ((consistent.addresses_iff cached).mp within)

theorem prepareAll_frame {ds : List (Descriptor m.sizeBits)} {a : Nat} (apart : a ∉ Descriptor.addressesAll ds)
    (f : Extents m.sizeBits) : (prepareAll ds f).2 a = f a := by
  induction ds generalizing f with
  | nil => rfl
  | cons d rest further =>
    rw [Descriptor.addressesAll, List.mem_append, not_or] at apart
    rw [prepareAll_cons]
    split
    · rw [further apart.2, Descriptor.prepare_frame apart.1]
    · exact Descriptor.prepare_frame apart.1 f

/-- Computing sizes changes no `ffi_type`. -/
theorem Consistent.prepared (consistent : Consistent fields world) {types : List TypeRef}
    {ds : List (Descriptor m.sizeBits)} (resolves : types.map (resolved world) = ds.map some) :
    Consistent fields { world with extents := (prepareAll ds world.extents).2 } := by
  have kept : ∀ n d, world.ffi_type n = some d →
      ({ world with extents := (prepareAll ds world.extents).2 } : Caches m).ffi_type n = some d :=
    fun _ _ => id
  refine ⟨?_, consistent.finite, ?_⟩
  · intro n d there
    obtain ⟨elements, same, lists⟩ := consistent.cached n d there
    exact ⟨elements, same, listed_mono kept lists⟩
  · intro n absent
    have apart : n ∉ Descriptor.addressesAll ds := by
      intro inside
      obtain ⟨e, there⟩ := consistent.covered resolves inside
      cases absent.symm.trans there
    change ((prepareAll ds world.extents).2 n).size = 0
    rw [prepareAll_frame apart]
    exact consistent.unset n absent

/-! ## Cifs -/

variable {target : Target m} {s s' : Process m} {request : Request}

/-- A cif is prepared from the `ffi_type`s of its types, unless something throws before. -/
theorem prepareCif_cases (target : Target m) (s : Process m) (request : Request) :
    ((prepareCif target s request).1 = .assertion ∧ ((prepareCif target s request).2 = s.world ∨
      (prepareCif target s request).2 = (typesOf s.fields request.depth request.all s.world).2)) ∨
    ∃ rtype types world, typesOf s.fields request.depth request.all s.world = (some (rtype :: types), world) ∧
      let core := ffi_prep_cif_core target.platform request.numFixedArgs request.abi rtype types world.extents
      prepareCif target s request = (.of core.1 (rtype.read core.2) (types.map (Descriptor.read core.2)),
        { world with extents := core.2 }) := by
  rw [prepareCif]
  split
  · exact .inl ⟨rfl, .inl rfl⟩
  · rcases typesOf s.fields request.depth request.all s.world with ⟨_ | _ | ⟨rtype, types⟩, world⟩
    · exact .inl ⟨rfl, .inr rfl⟩
    · exact .inl ⟨rfl, .inr rfl⟩
    · exact .inr ⟨rtype, types, world, rfl, rfl⟩

theorem prepareCif_consistent (consistent : Consistent s.fields s.world) :
    Consistent s.fields (prepareCif target s request).2 := by
  obtain ⟨grows, resolve⟩ := typesOf_grows request.depth request.all consistent
  rcases prepareCif_cases target s request with ⟨_, same | same⟩ | ⟨rtype, types, world, found, same⟩
  · rw [same]
    exact consistent
  · rw [same]
    exact grows.consistent
  · rw [found] at grows resolve
    rw [same]
    simp only [core_extents]
    split
    · exact grows.consistent
    · exact grows.consistent.prepared (resolve _ rfl)

theorem outcome_of_cif {status : Status} {rtype rtype' : FfiType m.sizeBits} {types types' : List (FfiType m.sizeBits)}
    (prepared : Outcome.of status rtype types = .cif rtype' types') :
    status = .FFI_OK ∧ rtype' = rtype ∧ types' = types := by
  cases status with
  | FFI_OK =>
    cases prepared
    exact ⟨rfl, rfl, rfl⟩
  | FFI_BAD_TYPEDEF => cases prepared
  | FFI_BAD_ABI => cases prepared

theorem element_eq_expected {field : TypeRef} (reads : misreads field = false) : field.element = expected field := by
  cases field with
  | pointer target =>
    apply element_self
    intro array found some_of_it
    have inside : array ∈ target.elementType := found
    rw [misreads, Option.mem_def.mp inside] at reads
    simp [some_of_it] at reads
  | _ => rfl

/-- What a cif uses has an `ffi_type` when the types of the cif have theirs. -/
theorem Consistent.used (consistent : Consistent fields world) {types : List TypeRef} {ds : List (Descriptor m.sizeBits)}
    (resolves : types.map (resolved world) = ds.map some) {n : Nat} (used : Used fields types n) :
    ∃ d, world.ffi_type n = some d ∧ n ∈ Descriptor.addressesAll ds := by
  obtain ⟨object, inside, path⟩ := used
  have there : resolved world (.struct object) ∈ ds.map some := by
    rw [← resolves]
    exact List.mem_map_of_mem inside
  obtain ⟨e, member, same⟩ := List.mem_map.mp there
  have cached : world.ffi_type object = some e := same.symm
  obtain ⟨d, found⟩ := consistent.path cached path
  exact ⟨d, found, Descriptor.addresses_element member ((consistent.addresses_iff cached).mpr path)⟩

/-- **Fields are followed** where each `ffi_type` is of the fields as they are. -/
theorem followsFields_of_consistent (consistent : Consistent s.fields s.world) {event : Event}
    (unseen : Unseen s event) : FollowsFields target s event := by
  cases event with
  | cif request =>
    intro rtype' types' accepted
    obtain ⟨grows, resolve⟩ := typesOf_grows request.depth request.all consistent
    rcases prepareCif_cases target s request with ⟨threw, _⟩ | ⟨rtype, types, world, found, same⟩
    · rw [threw] at accepted
      cases accepted
    · rw [found] at grows resolve
      have resolves := resolve _ rfl
      rw [same] at accepted ⊢
      obtain ⟨_, rfl, rfl⟩ := outcome_of_cif accepted
      generalize (ffi_prep_cif_core target.platform request.numFixedArgs request.abi rtype types world.extents).2 = f
      have kept : ∀ type, resolved { world with extents := f } type = resolved world type := by
        intro type
        cases type <;> rfl
      constructor
      · have mapped := congrArg (List.map (Option.map (Descriptor.read f))) resolves
        rw [List.map_map, List.map_map] at mapped
        simp only [kept]
        exact mapped.trans (by simp)
      · intro n used
        obtain ⟨d, there, _⟩ := grows.consistent.used resolves used
        obtain ⟨elements, rfl, lists⟩ := grows.consistent.cached n d there
        refine ⟨elements, there, ?_⟩
        rw [← listed_congr fun field member => element_eq_expected (unseen n used field member)]
        exact listed_mono (fun _ _ => by exact id) lists
  | _ => trivial

/-! ## Runs -/

/-- A field of a struct type without an `ffi_type` is in no `ffi_type`. -/
theorem Consistent.define {fields' : Nat → List TypeRef} {object : Nat} (consistent : Consistent fields world)
    (absent : world.ffi_type object = none) (same : ∀ n, n ≠ object → fields' n = fields n) :
    Consistent fields' world := by
  have other : ∀ {n d}, world.ffi_type n = some d → fields' n = fields n := by
    intro n d there
    apply same
    rintro rfl
    cases absent.symm.trans there
  refine ⟨?_, ?_, consistent.unset⟩
  · intro n d there
    rw [other there]
    exact consistent.cached n d there
  · intro n d there
    have finite := consistent.finite n d there
    induction finite generalizing d with
    | intro n _ further =>
      constructor
      rintro k ⟨field, member, element⟩
      rw [other there] at member
      have below : Below fields k n := ⟨field, member, element⟩
      obtain ⟨e, cached⟩ := consistent.below there below
      exact further k below e cached

theorem consistent_initial (packed : Nat → Bool) :
    Consistent (Process.initial m packed).fields (Process.initial m packed).world :=
  ⟨nofun, nofun, fun _ _ => rfl⟩

/-- Where the assignment changes nothing. -/
theorem apply_set {α : Type} (s : Process m) (object n : Nat) {type : StructType} (member : StructType → α)
    (same : member type = member (s.types object)) : member ((s.set object type).types n) = member (s.types n) := by
  by_cases own : n = object
  · rw [own, Process.set_self, same]
  · rw [Process.set_other s type own]

theorem fields_same (s : Process m) {object : Nat} {type : StructType} (same : type.fields = (s.types object).fields) :
    (s.set object type).fields = s.fields := by
  funext n
  exact apply_set s object n (fun struct => struct.fields.map Prod.snd) (by rw [same])

/-- **A step keeps each `ffi_type` up to date** unless it defines a field on one that is cached. -/
theorem step_consistent (consistent : Consistent s.fields s.world) {event : Event} (unseen : Unseen s event)
    (next : step target s event = some s') : Consistent s'.fields s'.world := by
  cases event with
  | defineProperty object key type shape =>
    rw [step] at next
    split at next
    · next accepts =>
      split at next
      · cases next
        apply consistent.define (unseen accepts)
        intro n other
        rw [Process.fields, Process.set_other s _ other]
        rfl
      · cases next
    · cases next
      exact consistent
  | createInstance object =>
    cases next
    have same : (s.set object { s.types object with instanceCreated := true }).fields = s.fields := fields_same s rfl
    rw [same]
    exact consistent
  | type depth t =>
    cases next
    exact (typeOf_made depth t consistent).grows.consistent
  | cif request =>
    cases next
    exact prepareCif_consistent consistent

end

end NodeFfi.StructDefinitions
