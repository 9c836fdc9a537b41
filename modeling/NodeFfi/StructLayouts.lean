import NodeFfi.StructDescriptors

/-! The sizes that libffi computes for the cached descriptors, and those of `ref-struct`: both lay
out the same fields, as long as a field that comes later is seen by both. -/
namespace NodeFfi.StructDefinitions

open AlignedLayout TransitionSystem Relation CifPreparation TypeMemory RefType

section
variable {m : DataModel} {target : Target m} {s s' : Process m} {request : Request}
  {fields fields' : Nat → List TypeRef} {shapes shapes' : Nat → Shape} {world world' : Caches m}

/-! ## What `ref-struct` has laid out -/

/-- A type with a size: no array or field is of a struct type without fields. -/
def Solid (fields : Nat → List TypeRef) : TypeRef → Prop
  | .void => False
  | .array type fixedLength => fixedLength = 0 ∨ Solid fields type
  | .struct object => fields object ≠ []
  | _ => True

theorem solid_of_positive (empty : ∀ n, fields n = [] → shapes n = .empty) {type : TypeRef}
    (large : positive shapes type = true) : Solid fields type := by
  induction type with
  | void => cases large
  | array type fixedLength ih =>
    rw [positive, Bool.or_eq_true, beq_iff_eq] at large
    exact large.imp_right ih
  | struct object =>
    intro none
    rw [positive, empty object none] at large
    simp [Shape.empty] at large
  | _ => trivial

theorem Solid.mono (more : ∀ n, fields n ≠ [] → fields' n ≠ []) {type : TypeRef} (solid : Solid fields type) :
    Solid fields' type := by
  induction type with
  | array type fixedLength ih => exact Or.imp_right ih solid
  | struct object => exact more object solid
  | _ => exact solid

theorem reads_of_natural {n : Nat} {field : TypeRef} (placed : natural n field = true) : misreads field = false := by
  cases field with
  | pointer target => simpa [natural, elementNatural] using placed
  | _ => rfl

theorem natural_ne {n k : Nat} {field : TypeRef} (placed : natural n field = true)
    (same : field.element.1 = .struct k) : k ≠ n := by
  cases field with
  | array type fixedLength =>
    change (if fixedLength > 0 then (type, fixedLength) else (.array type fixedLength, 1)).1 = _ at same
    split at same
    · next some_of_it =>
      cases same
      simpa [natural, elementNatural, Nat.pos_iff_ne_zero.mp some_of_it] using placed
    · cases same
  | struct object =>
    cases same
    simpa [natural, misreads, elementNatural] using placed
  | pointer target =>
    rw [element_eq_expected (reads_of_natural placed)] at same
    cases same
  | _ => cases same

theorem constant_shape {type : TypeRef} {t : RefType} (fixed : constant type = some t) :
    shapeOf m shapes type = t.shape m := by
  induction type generalizing t with
  | array type fixedLength ih =>
    rw [constant] at fixed
    rw [shapeOf]
    split at fixed
    · next none_of_it =>
      cases fixed
      rw [if_pos none_of_it, shape]
    · next some_of_it =>
      obtain ⟨u, inner, rfl⟩ := Option.map_eq_some_iff.mp fixed
      rw [if_neg some_of_it, ih inner, shape]
  | scalar s =>
    cases fixed
    rw [shapeOf, shape]
  | pointer target =>
    cases fixed
    rw [shapeOf, shape]
  | _ => cases fixed

/-- What a field places depends on no struct type but its own. -/
theorem items_congr {n : Nat} {field : TypeRef} (placed : natural n field = true)
    (same : ∀ k, field.element.1 = .struct k → shapes k = shapes' k) : items m shapes field = items m shapes' field := by
  cases field with
  | array type fixedLength =>
    rw [items, items]
    split
    · next none_of_it => rw [shapeOf, shapeOf, if_pos none_of_it, if_pos none_of_it]
    · next some_of_it =>
      rw [element_array type (Nat.pos_of_ne_zero some_of_it)] at same
      congr 1
      cases type with
      | struct k => exact same k rfl
      | array inner length =>
        have fixed : (constant (.array inner length)).isSome = true := by
          simpa [natural, elementNatural, some_of_it] using placed
        obtain ⟨t, fixed⟩ := Option.isSome_iff_exists.mp fixed
        rw [constant_shape fixed, constant_shape fixed]
      | _ => rfl
  | struct k => exact congrArg (fun shape => [shape]) (same k rfl)
  | _ => rfl

/-- Struct types with their fields laid out as they are. -/
structure LaidOut (s : Process m) : Prop where
  empty : ∀ n, s.fields n = [] → s.shapes n = .empty
  fresh : ∀ n, (s.types n).packed = false → (∀ field ∈ s.fields n, natural n field = true) →
    s.shapes n = .sequence ((s.fields n).flatMap (items m s.shapes))
  solid : ∀ n, ∀ field ∈ s.fields n, Solid s.fields field

theorem LaidOut.congr (laidOut : LaidOut s) (fields : s'.fields = s.fields) (shapes : s'.shapes = s.shapes)
    (packed : ∀ n, (s'.types n).packed = (s.types n).packed) : LaidOut s' := by
  refine ⟨?_, ?_, ?_⟩
  · rw [fields, shapes]
    exact laidOut.empty
  · intro n unpacked
    rw [packed] at unpacked
    rw [fields, shapes]
    exact laidOut.fresh n unpacked
  · rw [fields]
    exact laidOut.solid

theorem laidOut_initial (packed : Nat → Bool) : LaidOut (Process.initial m packed) := by
  refine ⟨fun _ _ => rfl, ?_, ?_⟩
  · intro n _ _
    change Shape.empty = .sequence []
    simp [Shape.sequence, Shape.finish, Shape.empty]
  · intro n field inside
    cases inside

theorem mem_insertField {key : Key} {type : TypeRef} {l : List (Key × TypeRef)} {entry : Key × TypeRef} :
    entry ∈ insertField key type l ↔ entry = (key, type) ∨ entry ∈ l := by
  induction l with
  | nil => cases key <;> simp [insertField]
  | cons first rest further =>
    rcases first with ⟨first, firstType⟩
    cases key with
    | name n =>
      simp only [insertField, List.mem_append, List.mem_singleton]
      exact or_comm
    | index i =>
      cases first with
      | name n => simp [insertField]
      | index j =>
        rw [insertField]
        split
        · simp
        · simp only [List.mem_cons, further]
          tauto

theorem mem_defined {key : Key} {type field : TypeRef} {l : List (Key × TypeRef)}
    (inside : field ∈ (insertField key type l).map Prod.snd) : field = type ∨ field ∈ l.map Prod.snd := by
  obtain ⟨entry, member, rfl⟩ := List.mem_map.mp inside
  rcases mem_insertField.mp member with rfl | old
  · exact .inl rfl
  · exact .inr (List.mem_map_of_mem old)

/-- A new field, on a struct type that no other has in it. -/
theorem LaidOut.define {object : Nat} {key : Key} {type : TypeRef} {shape : Shape} (laidOut : LaidOut s)
    (accepts : s.Accepts object key type)
    (recalculated : s.Recalculated object ((insertField key type (s.types object).fields).map Prod.snd) shape)
    (apart : ∀ n, ¬ Below s.fields object n) :
    LaidOut (s.set object
      { s.types object with fields := insertField key type (s.types object).fields, shape }) := by
  generalize isNew : s.set object
    { s.types object with fields := insertField key type (s.types object).fields, shape } = new
  have own : new.types object = { s.types object with fields := insertField key type (s.types object).fields, shape } := by
    rw [← isNew, Process.set_self]
  have others : ∀ n, n ≠ object → new.types n = s.types n := by
    intro n other
    rw [← isNew, Process.set_other s _ other]
  have ownFields : new.fields object = (insertField key type (s.types object).fields).map Prod.snd := by
    rw [Process.fields, own]
  have otherFields : ∀ n, n ≠ object → new.fields n = s.fields n := by
    intro n other
    rw [Process.fields, others n other]
    rfl
  have otherShapes : ∀ n, n ≠ object → s.shapes n = new.shapes n := by
    intro n other
    rw [Process.shapes, Process.shapes, others n other]
  have defined : type ∈ new.fields object := by
    rw [ownFields]
    exact List.mem_map_of_mem (mem_insertField.mpr (.inl rfl))
  have more : ∀ n, s.fields n ≠ [] → new.fields n ≠ [] := by
    intro n some_of_it
    by_cases same : n = object
    · subst n
      exact List.ne_nil_of_mem defined
    · rwa [otherFields n same]
  refine ⟨?_, ?_, ?_⟩
  · intro n none
    by_cases same : n = object
    · subst n
      exact absurd none (List.ne_nil_of_mem defined)
    · rw [← otherShapes n same]
      exact laidOut.empty n (by rw [← otherFields n same, none])
  · intro n unpacked placed
    by_cases same : n = object
    · subst n
      rw [ownFields] at placed ⊢
      have result : new.shapes object = shape := by rw [Process.shapes, own]
      rw [own] at unpacked
      rw [result, recalculated unpacked placed]
      congr 1
      apply List.flatMap_congr
      intro field member
      exact items_congr (placed field member) fun k is => otherShapes k (natural_ne (placed field member) is)
    · rw [otherFields n same] at placed ⊢
      rw [others n same] at unpacked
      rw [← otherShapes n same, laidOut.fresh n unpacked placed]
      congr 1
      apply List.flatMap_congr
      intro field member
      apply items_congr (placed field member)
      intro k is
      apply otherShapes
      rintro rfl
      exact apart n ⟨field, member, is⟩
  · intro n field member
    by_cases same : n = object
    · subst n
      rw [ownFields] at member
      rcases mem_defined member with rfl | old
      · exact (solid_of_positive laidOut.empty accepts.2.1).mono more
      · exact (laidOut.solid object field old).mono more
    · rw [otherFields n same] at member
      exact (laidOut.solid n field member).mono more

/-! ## The trees that both lay out -/

theorem blank_basic (c : CType) : (basic m c).blank = c.ffiType m := rfl

theorem constant_placeable {type : TypeRef} {t : RefType} (fixed : constant type = some t)
    (solid : Solid fields type) : t.Placeable := by
  induction type generalizing t with
  | array type fixedLength ih =>
    rw [constant] at fixed
    split at fixed
    · cases fixed
      simp [Placeable]
    · next some_of_it =>
      obtain ⟨u, inner, rfl⟩ := Option.map_eq_some_iff.mp fixed
      exact placeable_array.mpr ⟨Nat.pos_of_ne_zero some_of_it, ih inner (solid.resolve_left some_of_it)⟩
  | scalar s =>
    cases fixed
    simp [Placeable]
  | pointer target =>
    cases fixed
    simp [Placeable]
  | _ => cases fixed

/-- The pointers of the trees are to nothing that `Type` reads. -/
theorem pointer_direct : ¬ Misread (.pointer .void) ∧ Direct (.pointer .void) :=
  ⟨fun misread => misread nofun, by simp [Direct]⟩

theorem constant_direct {type : TypeRef} {t : RefType} (fixed : constant type = some t) :
    ¬ Misread t ∧ Direct t := by
  induction type generalizing t with
  | array type fixedLength ih =>
    rw [constant] at fixed
    split at fixed
    · cases fixed
      exact pointer_direct
    · obtain ⟨u, inner, rfl⟩ := Option.map_eq_some_iff.mp fixed
      simpa [Misread, Direct] using (ih inner).2
  | scalar s =>
    cases fixed
    simp [Misread, Direct]
  | pointer target =>
    cases fixed
    exact pointer_direct
  | _ => cases fixed

/-- A tree for a type as the element of an array, and its `ffi_type`. -/
structure Tree (m : DataModel) (shapes : Nat → Shape) (type : TypeRef) (d : Descriptor m.sizeBits) (t : RefType) :
    Prop where
  blank : d.blank = ffiType m t
  shape : shapeOf m shapes type = t.shape m
  placeable : t.Placeable
  direct : ¬ Misread t ∧ Direct t
  inArray : ∀ count, Encodable m (.array t count)
  single : (∀ inner fixedLength, type ≠ .array inner fixedLength) → ∀ inner fixedLength, t ≠ .array inner fixedLength

/-- A tree for the elements that one field has. -/
structure FieldTree (m : DataModel) (shapes : Nat → Shape) (field : TypeRef) (d : Descriptor m.sizeBits) (t : RefType) :
    Prop where
  blank : (List.replicate (expected field).2 d).map Descriptor.blank = fieldFfiTypes m t
  items : items m shapes field = t.items m
  placeable : t.Placeable
  direct : ¬ Misread t ∧ Direct t
  encodable : Encodable m t

/-- The parts of a field's conditions, for a type that is no array. -/
theorem field_single (m : DataModel) (shapes : Nat → Shape) (n : Nat) {field : TypeRef}
    (one : ∀ inner fixedLength, field ≠ .array inner fixedLength) :
    expected field = (field, 1) ∧ items m shapes field = [shapeOf m shapes field] ∧
      (natural n field = true → elementNatural n field = true ∧ field.element.1 = field) ∧
      (Leafwise m field → elementLeafwise m field) := by
  have same : expected field = (field, 1) := by
    cases field with
    | array inner fixedLength => exact absurd rfl (one inner fixedLength)
    | _ => rfl
  refine ⟨same, ?_, ?_, ?_⟩
  · cases field with
    | array inner fixedLength => exact absurd rfl (one inner fixedLength)
    | _ => rfl
  · intro placed
    have both : (!misreads field && elementNatural n field) = true := by
      cases field with
      | array inner fixedLength => exact absurd rfl (one inner fixedLength)
      | _ => exact placed
    rw [Bool.and_eq_true, Bool.not_eq_true'] at both
    exact ⟨both.2, by rw [element_eq_expected both.1, same]⟩
  · intro leafwise
    cases field with
    | array inner fixedLength => exact absurd rfl (one inner fixedLength)
    | _ => exact leafwise

theorem encodable_array {t : RefType} (single : ∀ type fixedLength, t ≠ .array type fixedLength) (count : Nat) :
    Encodable m (.array t count) ↔ Encodable m t := by
  cases t with
  | array type fixedLength => exact absurd rfl (single type fixedLength)
  | _ => simp [Encodable]

theorem Tree.alone {type : TypeRef} {d : Descriptor m.sizeBits} {t : RefType} (tree : Tree m shapes type d t)
    (one : ∀ inner fixedLength, type ≠ .array inner fixedLength) : FieldTree m shapes type d t := by
  have single := tree.single one
  obtain ⟨same, placed, _⟩ := field_single m shapes 0 one
  refine ⟨?_, ?_, tree.placeable, tree.direct, ?_⟩
  · rw [same, fieldFfiTypes_alone single tree.direct.1, ← tree.blank]
    rfl
  · rw [placed, items_alone single, tree.shape]
  · exact (encodable_array single 1).mp (tree.inArray 1)

theorem Tree.array {type : TypeRef} {d : Descriptor m.sizeBits} {t : RefType} (tree : Tree m shapes type d t)
    {count : Nat} (some_of_it : 0 < count) : FieldTree m shapes (.array type count) d (.array t count) := by
  refine ⟨?_, ?_, placeable_array.mpr ⟨some_of_it, tree.placeable⟩, ?_, tree.inArray count⟩
  · rw [expected, if_pos some_of_it, fieldFfiTypes_array some_of_it, List.map_replicate, tree.blank]
  · rw [StructDefinitions.items, if_neg some_of_it.ne', RefType.items, tree.shape]
  · simpa [Misread, Direct] using tree.direct.2

/-- What is known of a struct type: its tree. -/
structure StructTree (s : Process m) (n : Nat) (d : Descriptor m.sizeBits) (members : List RefType) : Prop where
  blank : d.blank = ffiType m (.struct members)
  shape : s.shapes n = (RefType.struct members).shape m
  direct : Direct (.struct members)
  encodable : Encodable m (.struct members)
  placeable : s.fields n ≠ [] → (RefType.struct members).Placeable

/-- An element type that is laid out as it is encoded. -/
theorem tree_of_element {n : Nat} {type : TypeRef} {d : Descriptor m.sizeBits}
    (nested : ∀ k, type = .struct k → s.world.ffi_type k = some d → ∃ members, StructTree s k d members)
    (placed : elementNatural n type = true) (leafwise : elementLeafwise m type) (solid : Solid s.fields type)
    (resolves : resolved s.world type = some d) : ∃ t, Tree m s.shapes type d t := by
  cases type with
  | void => exact solid.elim
  | unknown => cases placed
  | scalar scalar =>
    cases resolves
    refine ⟨.scalar scalar, rfl, by rw [shapeOf, shape], by simp [Placeable], by simp [Misread, Direct], ?_, by simp⟩
    exact fun count => (encodable_array (by simp) count).mpr leafwise
  | pointer target =>
    cases resolves
    exact ⟨.pointer .void, rfl, by rw [shapeOf, shape], by simp [Placeable],
      pointer_direct, by simp [Encodable], by simp⟩
  | struct k =>
    obtain ⟨members, tree⟩ := nested k rfl resolves
    refine ⟨.struct members, tree.blank, tree.shape, tree.placeable solid, ⟨id, tree.direct⟩, ?_, by simp⟩
    exact fun count => (encodable_array (by simp) count).mpr tree.encodable
  | array inner length =>
    cases resolves
    obtain ⟨t, fixed⟩ := Option.isSome_iff_exists.mp placed
    have shaped := leafwise t fixed
    have pointers : ffiType m t = CType.pointer.ffiType m ∧ ∀ count, Encodable m (.array t count) := by
      rw [constant] at fixed
      split at fixed
      · cases fixed
        exact ⟨by rw [ffiType], by simp [Encodable]⟩
      · obtain ⟨u, _, rfl⟩ := Option.map_eq_some_iff.mp fixed
        exact ⟨by rw [ffiType], fun count => by simpa [Encodable] using shaped⟩
    refine ⟨t, ?_, constant_shape fixed, constant_placeable fixed solid, constant_direct fixed, pointers.2,
      fun none => (none _ _ rfl).elim⟩
    rw [blank_basic, pointers.1]

/-- A field that is laid out as it is encoded. -/
theorem tree_of_field {n : Nat} {field : TypeRef} {d : Descriptor m.sizeBits}
    (nested : ∀ k, field.element.1 = .struct k → s.world.ffi_type k = some d → ∃ members, StructTree s k d members)
    (placed : natural n field = true) (leafwise : Leafwise m field) (solid : Solid s.fields field)
    (resolves : resolved s.world (expected field).1 = some d) : ∃ t, FieldTree m s.shapes field d t := by
  by_cases isArray : ∃ type fixedLength, field = .array type fixedLength
  · obtain ⟨type, fixedLength, rfl⟩ := isArray
    by_cases some_of_it : 0 < fixedLength
    · rw [expected, if_pos some_of_it] at resolves
      rw [element_array type some_of_it] at nested
      have inner : elementNatural n type = true := by simpa [natural, some_of_it.ne'] using placed
      obtain ⟨t, tree⟩ := tree_of_element nested inner (leafwise some_of_it) (solid.resolve_left some_of_it.ne') resolves
      exact ⟨.array t fixedLength, tree.array some_of_it⟩
    · obtain rfl : fixedLength = 0 := by omega
      cases resolves
      refine ⟨.pointer .void, rfl, ?_, by simp [Placeable], pointer_direct, by simp [Encodable]⟩
      rw [StructDefinitions.items, if_pos rfl, shapeOf, if_pos rfl, RefType.items, shape]
      simp
  · have one : ∀ type fixedLength, field ≠ .array type fixedLength := fun type n same => isArray ⟨type, n, same⟩
    obtain ⟨same, _, naturally, leaves⟩ := field_single m s.shapes n one
    obtain ⟨inner, element⟩ := naturally placed
    rw [same] at resolves
    rw [element] at nested
    obtain ⟨t, tree⟩ := tree_of_element nested inner (leaves leafwise) solid resolves
    exact ⟨t, tree.alone one⟩

theorem trees_of_fields {n : Nat} {rest : List TypeRef} {elements : List (Descriptor m.sizeBits)}
    (nested : ∀ field ∈ rest, ∀ k d, field.element.1 = .struct k → s.world.ffi_type k = some d →
      ∃ members, StructTree s k d members)
    (plain : ∀ field ∈ rest, natural n field = true ∧ Leafwise m field) (solid : ∀ field ∈ rest, Solid s.fields field)
    (lists : listed s.world expected rest = some elements) :
    ∃ members : List RefType, members.length = rest.length ∧
      elements.map Descriptor.blank = members.flatMap (fieldFfiTypes m) ∧
      rest.flatMap (items m s.shapes) = members.flatMap (RefType.items m) ∧
      ∀ t ∈ members, t.Placeable ∧ (¬ Misread t ∧ Direct t) ∧ Encodable m t := by
  induction rest generalizing elements with
  | nil =>
    cases lists
    exact ⟨[], rfl, rfl, rfl, nofun⟩
  | cons field rest further =>
    rw [List.forall_mem_cons] at nested plain solid
    obtain ⟨d, head, onward⟩ := Option.bind_eq_some_iff.mp lists
    obtain ⟨others, tail, rfl⟩ := Option.map_eq_some_iff.mp onward
    obtain ⟨t, tree⟩ := tree_of_field (fun k => nested.1 k d) plain.1.1 plain.1.2 solid.1 head
    obtain ⟨members, length, blank, placed, each⟩ := further nested.2 plain.2 solid.2 tail
    refine ⟨t :: members, by rw [List.length_cons, List.length_cons, length], ?_, ?_, ?_⟩
    · rw [List.map_append, tree.blank, blank, List.flatMap_cons]
    · rw [List.flatMap_cons, List.flatMap_cons, tree.items, placed]
    · rw [List.forall_mem_cons]
      exact ⟨⟨tree.placeable, tree.direct, tree.encodable⟩, each⟩

/-- **The two layouts are of one tree** for a struct type all of whose parts are plain. -/
theorem structTree (consistent : Consistent s.fields s.world) (laidOut : LaidOut s) {n : Nat}
    {d : Descriptor m.sizeBits} (there : s.world.ffi_type n = some d)
    (plain : ∀ k, ReflTransGen (Below s.fields) k n → s.Plain k) : ∃ members, StructTree s n d members := by
  refine consistent.induct (motive := fun n d => (∀ k, ReflTransGen (Below s.fields) k n → s.Plain k) →
    ∃ members, StructTree s n d members) ?_ there plain
  intro n elements there lists further plain
  have own := plain n .refl
  have reads : ∀ field ∈ s.fields n, field.element = expected field := fun field member =>
    element_eq_expected (reads_of_natural (own.fields field member).1)
  rw [listed_congr reads] at lists
  obtain ⟨members, length, blank, placed, each⟩ := trees_of_fields
    (fun field member k e same found =>
      further k e ⟨field, member, same⟩ found fun j path => plain j (path.tail ⟨field, member, same⟩))
    own.fields (laidOut.solid n) lists
  refine ⟨members, ?_, ?_, ?_, ?_, ?_⟩
  · rw [Descriptor.blank, Descriptor.read, Descriptor.readAll_eq, ffiType_struct, ← blank]
    rfl
  · rw [laidOut.fresh n own.unpacked fun field member => (own.fields field member).1, placed, shape_struct]
  · simp only [Direct]
    exact fun t inside => (each t inside).2.1
  · simp only [Encodable]
    exact fun t inside => (each t inside).2.2
  · intro some_of_it
    refine placeable_struct.mpr ⟨?_, fun t inside => (each t inside).1⟩
    rintro rfl
    exact some_of_it (List.length_eq_zero_iff.mp length.symm)

/-- libffi computes the size that `ref-struct` has. -/
theorem StructTree.agrees {n : Nat} {d : Descriptor m.sizeBits} {members : List RefType}
    (tree : StructTree s n d members) (some_of_it : s.fields n ≠ []) (fits : (s.types n).shape.size < 2 ^ m.sizeBits) :
    ∃ t, initialized d.blank = some t ∧ t.size.toNat = (s.types n).shape.size := by
  have size : (s.types n).shape.size = (RefType.struct members).storageSize m := congrArg Shape.size tree.shape
  rw [size] at fits ⊢
  obtain ⟨t, ready, same, _⟩ :=
    layoutAgrees_of_encodable ⟨tree.placeable some_of_it, by simp⟩ tree.direct.written tree.encodable fits
  exact ⟨t, by rw [tree.blank, ready], same⟩

/-! ## What libffi has computed -/

/-- Each `ffi_type` counts as not initialised or has been initialised in full. -/
def Computed (world : Caches m) : Prop :=
  ∀ n d, world.ffi_type n = some d → (world.extents n).size = 0 ∨ initialized d.blank = some (d.read world.extents)

theorem computed_grows (computed : Computed world) (consistent : Consistent fields world)
    (grows : Grows fields world world') : Computed world' := by
  intro n d there
  cases before : world.ffi_type n with
  | none =>
    left
    rcases grows.extents n with same | ⟨_, zero⟩
    · rw [same]
      exact consistent.unset n before
    · rw [zero]
  | some e =>
    cases (grows.kept n e before).symm.trans there
    have same : ∀ a ∈ d.addresses, world'.extents a = world.extents a := by
      intro a inside
      obtain ⟨e, cached⟩ := consistent.path before ((consistent.addresses_iff before).mp inside)
      rcases grows.extents a with same | ⟨absent, _⟩
      · exact same
      · cases absent.symm.trans cached
    have own : n ∈ d.addresses := (consistent.addresses_iff before).mpr .refl
    rw [same n own, Descriptor.read_congr same]
    exact computed n d before

theorem clean_of_computed (computed : Computed world) (consistent : Consistent fields world) :
    Descriptor.Clean (elementsOf world) world.extents := by
  intro a _
  cases there : world.ffi_type a with
  | none => exact .inl (consistent.unset a there)
  | some d =>
    obtain ⟨elements, rfl, _⟩ := consistent.cached a d there
    rw [Descriptor.Done, elementsOf_cached there]
    exact computed a _ there

theorem computed_of_clean {f : Extents m.sizeBits} (consistent : Consistent fields world)
    (clean : Descriptor.Clean (elementsOf world) f) : Computed { world with extents := f } := by
  intro n d there
  have cached : world.ffi_type n = some d := there
  obtain ⟨elements, rfl, _⟩ := consistent.cached n d cached
  have laid := consistent.laid cached
  rw [← elementsOf_cached cached] at laid ⊢
  exact clean n laid

/-- The types of a call to libffi, with the descriptors that it is given. -/
structure Given (s : Process m) (request : Request) (ds : List (Descriptor m.sizeBits)) : Prop where
  consistent : Consistent s.fields s.world
  computed : Computed s.world
  laidOut : LaidOut s
  plain : ∀ n, Used s.fields request.all n → s.Plain n
  resolves : request.all.map (resolved s.world) = ds.map some

theorem Given.laid {ds : List (Descriptor m.sizeBits)} (given : Given s request ds) :
    ∀ d ∈ ds, ∃ type ∈ request.all, resolved s.world type = some d ∧ d.Laid (elementsOf s.world) := by
  intro d inside
  have there : some d ∈ request.all.map (resolved s.world) := by
    rw [given.resolves]
    exact List.mem_map_of_mem inside
  obtain ⟨type, member, found⟩ := List.mem_map.mp there
  exact ⟨type, member, found, given.consistent.laid_resolved found⟩

theorem Given.agrees {ds : List (Descriptor m.sizeBits)} (given : Given s request ds) {n : Nat}
    {d : Descriptor m.sizeBits} (used : Used s.fields request.all n) (there : s.world.ffi_type n = some d)
    (some_of_it : s.fields n ≠ []) : ∃ t, initialized d.blank = some t ∧ t.size.toNat = (s.types n).shape.size := by
  obtain ⟨object, inside, path⟩ := used
  obtain ⟨members, tree⟩ := structTree given.consistent given.laidOut there
    fun k deeper => given.plain k ⟨object, inside, deeper.trans path⟩
  exact tree.agrees some_of_it (given.plain n ⟨object, inside, path⟩).fits

theorem empty_elements {n : Nat} {d : Descriptor m.sizeBits} (consistent : Consistent fields world)
    (there : world.ffi_type n = some d) (none_of_it : fields n = []) : d = .aggregate n [] := by
  obtain ⟨elements, rfl, lists⟩ := consistent.cached n d there
  rw [none_of_it] at lists
  cases lists
  rfl

/-- A type that libffi refuses is a struct type without fields, and leaves no trace. -/
theorem Given.traceless {ds : List (Descriptor m.sizeBits)} (given : Given s request ds) :
    ∀ t ∈ firstInvalid (ds.map Descriptor.blank), t.traceless = true := by
  intro t first
  have refused : initialized t = none := by simpa using List.find?_some first
  obtain ⟨d, inside, rfl⟩ := List.mem_map.mp (List.mem_of_find?_eq_some first)
  obtain ⟨type, member, found, _⟩ := given.laid d inside
  rcases resolved_cases found with ⟨_, _, _, rfl⟩ | ⟨n, rfl, cached⟩
  · rfl
  · by_cases none_of_it : s.fields n = []
    · rw [empty_elements given.consistent cached none_of_it]
      rfl
    · obtain ⟨u, ready, _⟩ := given.agrees ⟨n, member, .refl⟩ cached none_of_it
      cases refused.symm.trans ready

theorem initializedAll_blank {ds : List (Descriptor m.sizeBits)} {f : Extents m.sizeBits}
    (ready : initializedAll (ds.map Descriptor.blank) = some (ds.map (Descriptor.read f))) :
    ∀ d ∈ ds, initialized d.blank = some (d.read f) := by
  induction ds with
  | nil => nofun
  | cons d rest further =>
    obtain ⟨first, head, onward⟩ := Option.bind_eq_some_iff.mp ready
    obtain ⟨others, tail, same⟩ := Option.bind_eq_some_iff.mp onward
    obtain ⟨rfl, rfl⟩ := List.cons.inj (Option.some.inj same)
    rw [List.forall_mem_cons]
    exact ⟨head, further tail⟩

/-- What libffi leaves: still each `ffi_type` as new or done, and those that a prepared cif uses
with the sizes that `ref-struct` has. -/
theorem Given.prepared {ds : List (Descriptor m.sizeBits)} (given : Given s request ds) :
    Computed { s.world with extents := (prepareAll ds s.world.extents).2 } ∧
      ((prepareAll ds s.world.extents).1 = true → ∀ n, Used s.fields request.all n →
        ((prepareAll ds s.world.extents).2 n).size.toNat = (s.types n).shape.size) := by
  have clean := clean_of_computed given.computed given.consistent
  have laid : ∀ d ∈ ds, d.Laid (elementsOf s.world) := by
    intro d inside
    obtain ⟨_, _, _, laid⟩ := given.laid d inside
    exact laid
  have prepared := preparedAll laid clean
  have computed := computed_of_clean given.consistent (prepared.clean given.traceless)
  refine ⟨computed, ?_⟩
  intro accepted n used
  have ready : initializedAll (ds.map Descriptor.blank) =
      some (ds.map (Descriptor.read (prepareAll ds s.world.extents).2)) := by
    cases found : initializedAll (ds.map Descriptor.blank) with
    | none => cases accepted.symm.trans (prepared.failed found)
    | some ts => rw [(prepared.succeeded ts found).2]
  obtain ⟨d, there, inside⟩ := given.consistent.used given.resolves used
  have sized : ((prepareAll ds s.world.extents).2 n).size ≠ 0 := by
    rw [Descriptor.addressesAll_eq, List.mem_flatMap] at inside
    obtain ⟨e, member, within⟩ := inside
    exact Descriptor.sized_addresses (Descriptor.sized_of_initialized (initializedAll_blank ready e member)) n within
  have done := (computed n d there).resolve_left sized
  have some_of_it : s.fields n ≠ [] := by
    intro none_of_it
    have refused : initialized d.blank = none := by
      rw [empty_elements given.consistent there none_of_it]
      exact FfiType.Invalid.empty.refused
    cases refused.symm.trans done
  obtain ⟨t, initial, size⟩ := given.agrees used there some_of_it
  cases initial.symm.trans done
  rw [Descriptor.read_size] at size
  obtain ⟨elements, rfl, _⟩ := given.consistent.cached n d there
  exact size

/-! ## Runs -/

theorem core_accepted {p : Platform m.sizeBits} {nfixedargs : Option Nat} {abi : Int} {rtype : Descriptor m.sizeBits}
    {types : List (Descriptor m.sizeBits)} {f : Extents m.sizeBits}
    (accepted : (ffi_prep_cif_core p nfixedargs abi rtype types f).1 = .FFI_OK) :
    (prepareAll (rtype :: types) f).1 = true ∧
      (ffi_prep_cif_core p nfixedargs abi rtype types f).2 = (prepareAll (rtype :: types) f).2 := by
  rw [ffi_prep_cif_core] at accepted ⊢
  by_cases valid : abi > p.firstAbi ∧ abi < p.lastAbi
  · rw [if_neg (not_not.mpr valid)] at accepted ⊢
    generalize prepareAll (rtype :: types) f = result at accepted ⊢
    rcases result with ⟨ready, g⟩
    cases ready with
    | false => cases accepted
    | true => exact ⟨rfl, rfl⟩
  · rw [if_pos valid] at accepted
    cases accepted

/-- A process whose struct types are as both sides know them. -/
structure Kept (s : Process m) : Prop where
  consistent : Consistent s.fields s.world
  computed : Computed s.world
  laidOut : LaidOut s

theorem kept_initial (packed : Nat → Bool) : Kept (Process.initial m packed) :=
  ⟨consistent_initial packed, nofun, laidOut_initial packed⟩

theorem unseen_of_settled {event : Event} (settled : Settled s event) : Unseen s event := by
  cases event with
  | defineProperty object key type shape => exact fun accepts => (settled accepts).1
  | cif request => exact fun n used field member => reads_of_natural ((settled n used).fields field member).1
  | _ => trivial

/-- The types of the call, once `Type` has been called for each. -/
theorem Kept.given (kept : Kept s) (plain : ∀ n, Used s.fields request.all n → s.Plain n)
    {ds : List (Descriptor m.sizeBits)} {world : Caches m}
    (found : typesOf s.fields request.depth request.all s.world = (some ds, world)) :
    Given { s with world } request ds := by
  obtain ⟨grows, resolve⟩ := typesOf_grows request.depth request.all kept.consistent
  rw [found] at grows resolve
  exact ⟨grows.consistent, computed_grows kept.computed kept.consistent grows,
    kept.laidOut.congr rfl rfl fun _ => rfl,
    fun n used => ⟨(plain n used).unpacked, (plain n used).fits, (plain n used).fields⟩, resolve ds rfl⟩

theorem prepareCif_computed (kept : Kept s) (plain : ∀ n, Used s.fields request.all n → s.Plain n) :
    Computed (prepareCif target s request).2 := by
  obtain ⟨grows, _⟩ := typesOf_grows request.depth request.all kept.consistent
  have computed := computed_grows kept.computed kept.consistent grows
  rcases prepareCif_cases target s request with ⟨_, same | same⟩ | ⟨rtype, types, world, found, same⟩
  · rw [same]
    exact kept.computed
  · rw [same]
    exact computed
  · have given := kept.given plain found
    rw [same]
    simp only [core_extents]
    split
    · exact given.computed
    · exact given.prepared.1

/-- **Sizes are followed** where cifs use plain struct types. -/
theorem followsSizes_of_kept (kept : Kept s) {event : Event} (settled : Settled s event) :
    FollowsSizes target s event := by
  cases event with
  | cif request =>
    intro rtype' types' accepted n used
    rcases prepareCif_cases target s request with ⟨threw, _⟩ | ⟨rtype, types, world, found, same⟩
    · rw [threw] at accepted
      cases accepted
    · have given := kept.given settled found
      rw [same] at accepted ⊢
      obtain ⟨prepared, extents⟩ := core_accepted (outcome_of_cif accepted).1
      simp only [extents]
      exact given.prepared.2 prepared n used
  | _ => trivial

theorem step_kept (kept : Kept s) {event : Event} (settled : Settled s event) (next : step target s event = some s') :
    Kept s' := by
  have consistent := step_consistent kept.consistent (unseen_of_settled settled) next
  cases event with
  | defineProperty object key type shape =>
    rw [step] at next
    split at next
    · next accepts =>
      split at next
      · next recalculated =>
        cases next
        exact ⟨consistent, kept.computed, kept.laidOut.define accepts recalculated (settled accepts).2⟩
      · cases next
    · cases next
      exact kept
  | createInstance object =>
    cases next
    refine ⟨consistent, kept.computed, kept.laidOut.congr (fields_same s rfl) ?_ ?_⟩
    · funext n
      exact apply_set s object n (·.shape) rfl
    · exact fun n => apply_set s object n (·.packed) rfl
  | type depth t =>
    cases next
    exact ⟨consistent, computed_grows kept.computed kept.consistent (typeOf_made depth t kept.consistent).grows,
      kept.laidOut.congr rfl rfl fun _ => rfl⟩
  | cif request =>
    cases next
    exact ⟨consistent, prepareCif_computed kept settled,
      kept.laidOut.congr rfl rfl fun _ => rfl⟩

/-- **Cached descriptors follow the fields** as long as no field is defined on a struct type that
has one; and libffi computes the sizes that `ref-struct` has, as long as no field is defined on a
struct type that another has in it either. -/
theorem definitions_followed (target : Target m) (packed : Nat → Bool) (events : List Event) :
    (EachStep (step target) Unseen (.initial m packed) events →
      EachStep (step target) (FollowsFields target) (.initial m packed) events) ∧
    (EachStep (step target) Settled (.initial m packed) events →
      EachStep (step target) (fun s event => FollowsFields target s event ∧ FollowsSizes target s event)
        (.initial m packed) events) := by
  constructor
  · refine EachStep.imp (fun s event s' (consistent : Consistent s.fields s.world) unseen next => ?_) ?_ ?_
    · exact step_consistent consistent unseen next
    · exact fun s event consistent unseen => followsFields_of_consistent consistent unseen
    · exact consistent_initial packed
  · refine EachStep.imp (fun s event s' (kept : Kept s) settled next => step_kept kept settled next) ?_ (kept_initial packed)
    intro s event kept settled
    exact ⟨followsFields_of_consistent kept.consistent (unseen_of_settled settled), followsSizes_of_kept kept settled⟩

end

/-! ## A struct type that is given to `CIF` twice -/

/-- x86-64, with a `ffi_prep_cif_machdep` that takes every type. -/
def x64 : Target lp64 := ⟨1, 5, fun _ _ _ _ => .FFI_OK⟩

def int : TypeRef := .scalar (.named .int)

/-- A function that takes the struct. -/
def takesStruct : Request := ⟨none, int, [.struct 0], 2, 2⟩

/-- `S.defineProperty('a', 'int')`. -/
def defineFirst : Event := .defineProperty 0 (.name "a") int (.sequence [.atom 4 4])

/-- `S.defineProperty('b', 'double')`, after that. -/
def defineSecond : Event := .defineProperty 0 (.name "b") (.scalar .double) (.sequence [.atom 4 4, .atom 8 8])

/-- No struct type has another in it. -/
def Flat (s : Process lp64) : Prop := ∀ n, ∀ field ∈ s.fields n, field = int ∨ field = .scalar .double

theorem Flat.not_below {s : Process lp64} (flat : Flat s) (k n : Nat) : ¬ Below s.fields k n := by
  rintro ⟨field, inside, same⟩
  rcases flat n field inside with rfl | rfl <;> cases same

theorem Flat.set {s : Process lp64} (flat : Flat s) (object : Nat) (type : StructType)
    (each : ∀ field ∈ type.fields.map Prod.snd, field = int ∨ field = .scalar .double) : Flat (s.set object type) := by
  intro n field inside
  rw [Process.fields] at inside
  by_cases own : n = object
  · rw [own, Process.set_self] at inside
    exact each field inside
  · rw [Process.set_other s type own] at inside
    exact flat n field inside

/-- Both fields are there before the cif. -/
theorem defined_first : EachStep (step x64) (fun s event => FollowsFields x64 s event ∧ FollowsSizes x64 s event)
    (.initial lp64 fun _ => false) [defineFirst, defineSecond, .cif takesStruct] := by
  apply (definitions_followed x64 (fun _ => false) _).2
  have flat : Flat (.initial lp64 fun _ => false) := by
    rintro n field ⟨⟩
  rintro s₁ ⟨⟩
  refine ⟨fun _ => ⟨rfl, flat.not_below 0⟩, ?_⟩
  have flat₁ := flat.set 0 ⟨false, [(.name "a", int)], .sequence [.atom 4 4], false⟩ (by simp)
  rintro s₂ ⟨⟩
  refine ⟨fun _ => ⟨rfl, flat₁.not_below 0⟩, ?_⟩
  have flat₂ := flat₁.set 0 ⟨false, [(.name "a", int), (.name "b", .scalar .double)],
    .sequence [.atom 4 4, .atom 8 8], false⟩ (by simp)
  rintro s₃ ⟨⟩
  refine ⟨?_, trivial⟩
  rintro n ⟨object, inside, path⟩
  obtain rfl : n = object := by
    rcases path.cases_head with same | ⟨k, below, _⟩
    · exact same
    · exact absurd below (flat₂.not_below n k)
  obtain rfl : n = 0 := by simpa [Request.all, takesStruct, int] using inside
  refine ⟨rfl, by decide, ?_⟩
  intro field member
  rcases flat₂ 0 field member with rfl | rfl
  · exact ⟨rfl, by simp [Leafwise, elementLeafwise, int, Encodable, Scalar.Encodable]⟩
  · exact ⟨rfl, by simp [Leafwise, elementLeafwise, Encodable, Scalar.Encodable]⟩

/-- The second field comes after a cif: the next one has the struct with one field and four bytes,
where `S.size` is 16. -/
theorem defined_late :
    ¬ EachStep (step x64) (FollowsFields x64) (.initial lp64 fun _ => false)
        [defineFirst, .cif takesStruct, defineSecond, .cif takesStruct] ∧
      ¬ EachStep (step x64) (FollowsSizes x64) (.initial lp64 fun _ => false)
        [defineFirst, .cif takesStruct, defineSecond, .cif takesStruct] := by
  constructor
  · intro each
    obtain ⟨follows, _⟩ := (((each _ rfl).2 _ rfl).2 _ rfl).2 _ rfl
    obtain ⟨_, lists⟩ := follows _ _ rfl
    obtain ⟨elements, ⟨⟩, ⟨⟩⟩ := lists 0 ⟨0, by decide, .refl⟩
  · intro each
    obtain ⟨follows, _⟩ := (((each _ rfl).2 _ rfl).2 _ rfl).2 _ rfl
    exact absurd (follows _ _ rfl 0 ⟨0, by decide, .refl⟩) (by decide)

end NodeFfi.StructDefinitions
