import NodeFfi.TypeDescriptors

/-! When libffi and `ref-struct` agree on a layout. The two compute it
independently, from trees that `Type` relates by flattening arrays. They agree on the
types that it encodes leaf for leaf, as long as the size fits a `size_t`, and on no
others that have not both of two things it gets wrong: arrays of arrays, and pointers
to arrays. -/
namespace NodeFfi
open AlignedLayout RefType

variable {m : DataModel} {w : Nat}

/-- libffi, once the `elements` arrays are walked, gives the type the size and the
alignment that `ref` gives it, and each scalar leaf its offset. -/
def LayoutAgrees (m : DataModel) (t : RefType) : Prop :=
  ∃ ft, initialized (ffiType m t) = some ft ∧ ft.size.toNat = t.storageSize m ∧
    ft.alignment = t.storageAlignment m ∧ ft.leaves = (t.shape m).leaves

/-- The types that are passed to C as themselves: an array is passed by reference. -/
def ByValue (t : RefType) : Prop := t.Placeable ∧ ∀ type fixedLength, t ≠ .array type fixedLength

/-- A type that reads no `fixedLength` above 0. -/
def ReadsNone (t : RefType) : Prop := ∀ array ∈ t.elementType, array.2 = 0

/-- A pointer that `Type`, when it is the type of a field, takes for an array. -/
def Misread : RefType → Prop
  | .pointer pointee => ¬ ReadsNone pointee
  | _ => False

/-- No field of the type, at any depth, is taken for an array it points to. -/
def Direct : RefType → Prop
  | .struct fields => ∀ field ∈ fields, ¬ Misread field ∧ Direct field
  | .array type _ => Direct type
  | _ => True

/-- No array in the type has elements that are arrays. -/
def Flat : RefType → Prop
  | .struct fields => ∀ field ∈ fields, Flat field
  | .array (.array _ _) _ => False
  | .array type _ => Flat type
  | _ => True

/-- `Type` encodes the type as one leaf with the size and the alignment of a pointer. -/
inductive OneWord (m : DataModel) : RefType → Prop
  | scalar {s} (extent : ((s.ffiType m).size m, (s.ffiType m).alignment m) =
      (CType.pointer.size m, CType.pointer.alignment m)) : OneWord m (.scalar s)
  | pointer {pointee} : OneWord m (.pointer pointee)
  | array {type fixedLength} : OneWord m (.array type fixedLength)
  | struct {field} (read : ReadsNone field) (word : OneWord m field) : OneWord m (.struct [field])
  | element {field type} (read : field.elementType = some (type, 1)) (word : OneWord m type) :
      OneWord m (.struct [field])

/-- A field that reads one element, which `Type` encodes as it would a pointer. -/
def ReadsWord (m : DataModel) (field : RefType) : Prop :=
  ∃ type, field.elementType = some (type, 1) ∧ OneWord m type

/-- Each pointer field that is taken for an array is encoded as a pointer all the same. -/
def Written (m : DataModel) : RefType → Prop
  | .struct fields => ∀ field ∈ fields, (Misread field → ReadsWord m field) ∧ Written m field
  | .array type _ => Written m type
  | _ => True

/-- One leaf with the size and the alignment of a pointer. -/
def PointerShaped (m : DataModel) (t : RefType) : Prop :=
  (t.shape m).extents = [(CType.pointer.size m, CType.pointer.alignment m)]

/-- A built-in type whose descriptor has its size and alignment. The exceptions are
`longlong` and `ulonglong`, whose entries in `FFI_TYPES` are those of `long` and
`unsigned long`, and `Object`, whose entry is that of a pointer. -/
def Scalar.Encodable (m : DataModel) (s : Scalar) : Prop :=
  (s = .named .longlong ∨ s = .named .ulonglong → m.long = .eight) ∧
    (s = .Object → m.objectSize = m.pointer.bytes)

/-- `Type` encodes each leaf by an `ffi_type` of its size and alignment. It does not
where a built-in type's descriptor is another type's, and in an array whose elements are
arrays, each of which is encoded as one pointer. -/
def Encodable (m : DataModel) : RefType → Prop
  | .void => False
  | .scalar s => s.Encodable m
  | .pointer _ => True
  | .struct fields => ∀ field ∈ fields, Encodable m field
  | .array (.array type fixedLength) _ => PointerShaped m (.array type fixedLength)
  | .array type _ => Encodable m type

/-! ## The elements array -/

/-- What the second pass of `Type` writes for one field. -/
def fieldFfiTypes (m : DataModel) (field : RefType) : List (FfiType m.sizeBits) :=
  (arrayElements m field).getD [ffiType m field]

theorem fieldElements_eq (fields : List RefType) :
    fieldElements m fields = fields.flatMap (fieldFfiTypes m) := by
  induction fields with
  | nil => rfl
  | cons field rest ih => rw [fieldElements, ih, List.flatMap_cons, fieldFfiTypes]

theorem ffiType_struct (fields : List RefType) :
    ffiType m (.struct fields) = .aggregate 0 0 (fields.flatMap (fieldFfiTypes m)) := by
  rw [ffiType, fieldElements_eq]

theorem arrayElements_eq (t : RefType) : arrayElements m t = t.elementType.bind fun array =>
    if array.2 > 0 then some (List.replicate array.2 (ffiType m array.1)) else none := by
  induction t with
  | array type fixedLength ih => rfl
  | pointer pointee ih => exact ih
  | void => rfl
  | scalar s => rfl
  | struct fields ih => rfl

theorem fieldFfiTypes_none {field : RefType} (read : ReadsNone field) :
    fieldFfiTypes m field = [ffiType m field] := by
  rw [fieldFfiTypes, arrayElements_eq]
  cases found : field.elementType with
  | none => rfl
  | some array =>
    have none := read array found
    rw [Option.bind_some, if_neg (by omega)]
    rfl

theorem fieldFfiTypes_some {field type : RefType} {fixedLength : Nat}
    (read : field.elementType = some (type, fixedLength)) (positive : 0 < fixedLength) :
    fieldFfiTypes m field = List.replicate fixedLength (ffiType m type) := by
  rw [fieldFfiTypes, arrayElements_eq, read, Option.bind_some, if_pos positive, Option.getD_some]

theorem fieldFfiTypes_array {type : RefType} {fixedLength : Nat} (positive : 0 < fixedLength) :
    fieldFfiTypes m (.array type fixedLength) = List.replicate fixedLength (ffiType m type) :=
  fieldFfiTypes_some rfl positive

theorem readsNone_scalar (s : Scalar) : ReadsNone (.scalar s) := nofun

theorem readsNone_struct (fields : List RefType) : ReadsNone (.struct fields) := nofun

theorem readsNone_of_single {field : RefType}
    (single : ∀ type fixedLength, field ≠ .array type fixedLength) (read : ¬ Misread field) :
    ReadsNone field := by
  cases field with
  | array type fixedLength => exact absurd rfl (single type fixedLength)
  | pointer pointee => exact not_not.mp read
  | void => exact nofun
  | scalar s => exact readsNone_scalar s
  | struct fields => exact readsNone_struct fields

theorem fieldFfiTypes_alone {field : RefType}
    (single : ∀ type fixedLength, field ≠ .array type fixedLength) (read : ¬ Misread field) :
    fieldFfiTypes m field = [ffiType m field] :=
  fieldFfiTypes_none (readsNone_of_single single read)

theorem not_misread {field : RefType} (read : ReadsNone field) : ¬ Misread field := by
  cases field with
  | pointer pointee => exact not_not_intro read
  | _ => exact id

theorem flat_array {type : RefType} {fixedLength : Nat} : Flat (.array type fixedLength) ↔
    (∀ inner length, type ≠ .array inner length) ∧ Flat type := by
  cases type <;> simp [Flat]

theorem readsNone_or (field : RefType) :
    ReadsNone field ∨ ∃ type fixedLength, field.elementType = some (type, fixedLength) ∧ 0 < fixedLength := by
  cases found : field.elementType with
  | none =>
    left
    intro array inside
    rw [found] at inside
    cases inside
  | some array =>
    rcases Nat.eq_zero_or_pos array.2 with none | positive
    · left
      intro other inside
      rw [found] at inside
      cases inside
      exact none
    · exact .inr ⟨array.1, array.2, rfl, positive⟩

theorem items_alone {field : RefType}
    (single : ∀ type fixedLength, field ≠ .array type fixedLength) : field.items m = [field.shape m] := by
  cases field with
  | array type fixedLength => exact absurd rfl (single type fixedLength)
  | void => rfl
  | scalar s => rfl
  | pointer pointee => rfl
  | struct fields => rfl

/-- A scalar's descriptor has its size and alignment unless it is a `longlong` on a
target where `long` is narrower, or an `Object` that `ref` keeps in more than a pointer. -/
theorem scalar_extent (s : Scalar) :
    ((s.ffiType m).size m, (s.ffiType m).alignment m) = (s.size m, s.alignment m) ↔ s.Encodable m := by
  cases s with
  | named name =>
    cases name <;> cases h : m.long <;>
      simp [Scalar.Encodable, Scalar.ffiType, Scalar.size, Scalar.alignment, Scalar.ctype, Typedef.ownFfiType,
        Typedef.prototype, ffiTypeLong, CType.size, CType.logSize, CType.alignment, CType.logAlignment, Word.width,
        IntWidth.log, h]
  | Object =>
    simp [Scalar.Encodable, Scalar.ffiType, Scalar.size, Scalar.alignment, Scalar.ctype, CType.size_pointer, eq_comm]
  | sized signed width => simp [Scalar.Encodable, Scalar.ffiType, Scalar.size, Scalar.alignment, Scalar.ctype]
  | float => simp [Scalar.Encodable, Scalar.ffiType, Scalar.size, Scalar.alignment, Scalar.ctype]
  | double => simp [Scalar.Encodable, Scalar.ffiType, Scalar.size, Scalar.alignment, Scalar.ctype]
  | CString => simp [Scalar.Encodable, Scalar.ffiType, Scalar.size, Scalar.alignment, Scalar.ctype]

/-! ## What agrees is laid out alike -/

/-- A descriptor that libffi initialises to a given shape. -/
def Matches (element : FfiType w) (item : Shape) : Prop :=
  ∃ ft, initialized element = some ft ∧ ft.size.toNat = item.size ∧
    ft.alignment = item.alignment ∧ ft.leaves = item.leaves

theorem four_le_sizeBits : 4 ≤ m.sizeBits := by
  rcases m.pointer.bytes_cases with four | eight <;> simp [DataModel.sizeBits, *]

theorem ctype_size_lt (c : CType) : c.size m < 2 ^ m.sizeBits := by
  have small := Nat.pow_lt_pow_right (show 1 < 2 by omega) (c.logSize_lt m)
  have wide : 2 ^ 4 ≤ 2 ^ m.sizeBits := Nat.pow_le_pow_right (by omega) four_le_sizeBits
  exact Nat.lt_of_lt_of_le small wide

theorem ctype_size_toNat (c : CType) : (c.ffiType m).size.toNat = c.size m := by
  simp [CType.ffiType, FfiType.size, Nat.mod_eq_of_lt (ctype_size_lt (m := m) c)]

/-- A predefined descriptor is complete as it stands. -/
theorem initialized_ctype (c : CType) : initialized (c.ffiType m) = some (c.ffiType m) := by
  apply if_neg
  intro zero
  have nothing := ctype_size_toNat (m := m) c
  rw [zero] at nothing
  exact absurd nothing.symm (by simp [(c.size_pos m).ne'])

theorem matches_ctype (c : CType) :
    Matches (c.ffiType m) (.atom (c.size m) (c.alignment m)) :=
  ⟨c.ffiType m, initialized_ctype c, ctype_size_toNat c, rfl, by
    simp [CType.ffiType, FfiType.leaves, Shape.atom, Nat.mod_eq_of_lt (ctype_size_lt (m := m) c)]⟩

/-- One step of libffi's loop is one step of the natural rule while nothing overflows. -/
theorem ffiAlign_toNat {size : BitVec w} {alignment : Nat} (wide : 4 ≤ w)
    (aligned : IsAlignment alignment) (fits : roundUp size.toNat alignment < 2 ^ w) :
    (ffiAlign size alignment).toNat = roundUp size.toNat alignment := by
  obtain ⟨e, small, rfl⟩ := aligned
  exact roundUp_bits size (by omega) fits

/-- libffi's loop over elements that match items lays them out as the items are. -/
theorem walk_matches (wide : 4 ≤ w) {elements : List (FfiType w)} {items : List Shape}
    (matched : List.Forall₂ Matches elements items)
    (aligned : ∀ item ∈ items, IsAlignment item.alignment)
    {placed : Shape} {size : BitVec w} (start : size.toNat = placed.size)
    (fits : (items.foldl Shape.place placed).size < 2 ^ w) :
    ∃ final walked, walkElements elements size placed.alignment =
        some (final, (items.foldl Shape.place placed).alignment, walked) ∧
      final.toNat = (items.foldl Shape.place placed).size ∧
      (items.foldl Shape.place placed).leaves = placed.leaves ++ elementLeaves walked size := by
  induction matched generalizing placed size with
  | nil => exact ⟨size, [], rfl, start, by simp [elementLeaves]⟩
  | @cons element item elements items first rest ih =>
    obtain ⟨ft, ready, ftSize, ftAlignment, ftLeaves⟩ := first
    have restAligned : ∀ item ∈ items, IsAlignment item.alignment := fun other member =>
      aligned other (List.mem_cons_of_mem _ member)
    have grows := Shape.size_le_foldl_place items (placed.place item)
      fun other member => (restAligned other member).pos
    rw [List.foldl_cons] at fits
    have stepFits : roundUp size.toNat item.alignment + item.size < 2 ^ w := by
      rw [start]
      exact Nat.lt_of_le_of_lt grows fits
    have offset : (ffiAlign size item.alignment).toNat = roundUp placed.size item.alignment := by
      rw [ffiAlign_toNat wide (aligned item (by simp)) (by omega), start]
    have next : (ffiAlign size item.alignment + ft.size).toNat = (placed.place item).size := by
      rw [BitVec.toNat_add, offset, ftSize, Nat.mod_eq_of_lt (by rw [← start]; exact stepFits)]
      rfl
    have widest : (if placed.alignment > ft.alignment then placed.alignment else ft.alignment) =
        (placed.place item).alignment := by
      rw [ftAlignment]
      change _ = max placed.alignment item.alignment
      split <;> omega
    obtain ⟨final, walked, walk, finalSize, finalLeaves⟩ := ih restAligned next fits
    refine ⟨final, ft :: walked, ?_, finalSize, ?_⟩
    · rw [← ftAlignment] at walk
      simp only [initialized] at ready
      simp only [walkElements, ready]
      rw [widest, walk]
      rfl
    · rw [List.foldl_cons, finalLeaves, elementLeaves, ftAlignment, ftLeaves, offset]
      simp [Shape.place]

theorem matches_struct (wide : 4 ≤ w) {elements : List (FfiType w)} {items : List Shape}
    (matched : List.Forall₂ Matches elements items) (nonempty : items ≠ [])
    (aligned : ∀ item ∈ items, IsAlignment item.alignment)
    (positive : 0 < (Shape.sequence items).size) (fits : (Shape.sequence items).size < 2 ^ w) :
    Matches (.aggregate 0 0 elements) (.sequence items) := by
  have whole : IsAlignment (Shape.sequence items).alignment :=
    Shape.sequence_alignment nonempty aligned
  have unpadded : (items.foldl Shape.place .empty).size < 2 ^ w :=
    Nat.lt_of_le_of_lt (le_roundUp _ whole.pos) fits
  have start : (0 : BitVec w).toNat = Shape.empty.size := by simp [Shape.empty]
  obtain ⟨final, walked, walk, finalSize, finalLeaves⟩ :=
    walk_matches wide matched aligned start unpadded
  have padded : (ffiAlign final (Shape.sequence items).alignment).toNat =
      (Shape.sequence items).size := by
    rw [ffiAlign_toNat wide whole (by rw [finalSize]; exact fits), finalSize]
    rfl
  have nonzero : ffiAlign final (Shape.sequence items).alignment ≠ 0 := by
    intro zero
    rw [zero] at padded
    simp at padded
    omega
  refine ⟨.aggregate (ffiAlign final (Shape.sequence items).alignment)
    (Shape.sequence items).alignment walked, ?_, padded, rfl, ?_⟩
  · have walkFromZero : walkElements elements 0 0 =
        some (final, (Shape.sequence items).alignment, walked) := walk
    have unset : (FfiType.aggregate 0 0 elements).size = 0 := rfl
    rw [initialized, if_pos unset, initializeAggregate, walkFromZero]
    exact if_neg nonzero
  · rw [FfiType.leaves]
    simpa [Shape.empty, Shape.sequence, Shape.finish] using finalLeaves.symm

theorem forall₂_flatMap {α β γ : Type*} {R : β → γ → Prop} {f : α → List β}
    {g : α → List γ} {l : List α} (each : ∀ x ∈ l, List.Forall₂ R (f x) (g x)) :
    List.Forall₂ R (l.flatMap f) (l.flatMap g) := by
  induction l with
  | nil => exact .nil
  | cons head rest ih =>
    exact List.rel_append (each head (by simp))
      (ih fun x member => each x (List.mem_cons_of_mem _ member))

theorem forall₂_replicate {β γ : Type*} {R : β → γ → Prop} {b : β} {c : γ} (related : R b c)
    (n : Nat) : List.Forall₂ R (List.replicate n b) (List.replicate n c) := by
  induction n with
  | zero => exact .nil
  | succ n ih => exact .cons related ih

theorem Direct.written {t : RefType} (direct : Direct t) : Written m t := by
  induction t with
  | struct fields ih =>
    rw [Direct] at direct
    rw [Written]
    exact fun field member => ⟨fun misread => absurd misread (direct field member).1,
      ih field member (direct field member).2⟩
  | array type fixedLength ih =>
    rw [Direct] at direct
    rw [Written]
    exact ih direct
  | void => simp [Written]
  | scalar s => simp [Written]
  | pointer pointee ih => simp [Written]

/-- An aggregate of one element that matches a pointer matches a pointer. -/
theorem matches_singleton {element : FfiType m.sizeBits}
    (matched : Matches element (.atom (CType.pointer.size m) (CType.pointer.alignment m))) :
    Matches (.aggregate 0 0 [element]) (.atom (CType.pointer.size m) (CType.pointer.alignment m)) := by
  have positive : 0 < CType.pointer.alignment m := (CType.isAlignment m .pointer).pos
  have alone := Shape.sequence_atom positive (CType.alignment_dvd_size m .pointer)
  rw [← alone]
  refine matches_struct four_le_sizeBits (.cons matched .nil) (by simp) ?_ ?_ ?_
  · intro item member
    rw [List.mem_singleton] at member
    exact member ▸ CType.isAlignment m .pointer
  · rw [alone]
    exact CType.size_pos m .pointer
  · rw [alone]
    exact ctype_size_lt .pointer

theorem OneWord.matches {t : RefType} (word : OneWord m t) :
    Matches (ffiType m t) (.atom (CType.pointer.size m) (CType.pointer.alignment m)) := by
  induction word with
  | scalar extent =>
    rw [Prod.mk.injEq] at extent
    rw [ffiType, ← extent.1, ← extent.2]
    exact matches_ctype _
  | pointer => exact matches_ctype .pointer
  | array => exact matches_ctype .pointer
  | struct read word matched =>
    rw [ffiType_struct, List.flatMap_singleton, fieldFfiTypes_none read]
    exact matches_singleton matched
  | element read word matched =>
    rw [ffiType_struct, List.flatMap_singleton, fieldFfiTypes_some read Nat.one_pos]
    exact matches_singleton matched

private theorem field_matches_alone {field : RefType}
    (single : ∀ type fixedLength, field ≠ .array type fixedLength)
    (matched : Matches (ffiType m field) (field.shape m)) (read : ¬ Misread field) :
    List.Forall₂ Matches (fieldFfiTypes m field) (field.items m) := by
  rw [fieldFfiTypes_alone single read, items_alone single]
  exact .cons matched .nil

/-- `Type` has, for a type it encodes leaf for leaf, a descriptor that matches it, and
writes for a field of the type descriptors that match what the field places. -/
theorem type_matches {t : RefType} (placeable : t.Placeable) (written : Written m t)
    (encodable : Encodable m t) (fits : ∀ item ∈ t.items m, item.size < 2 ^ m.sizeBits) :
    ((∀ type fixedLength, t ≠ .array type fixedLength) → Matches (ffiType m t) (t.shape m)) ∧
      ((Misread t → ReadsWord m t) → List.Forall₂ Matches (fieldFfiTypes m t) (t.items m)) := by
  induction t with
  | void => simp [Placeable] at placeable
  | scalar s =>
    have extent := (scalar_extent (m := m) s).mpr (by simpa [Encodable] using encodable)
    rw [Prod.mk.injEq] at extent
    have matched : Matches (ffiType m (.scalar s)) ((scalar s).shape m) := by
      rw [ffiType, shape, ← extent.1, ← extent.2]
      exact matches_ctype _
    exact ⟨fun _ => matched, fun _ => field_matches_alone (by simp) matched id⟩
  | pointer pointee ih =>
    have matched : Matches (ffiType m (.pointer pointee)) ((pointer pointee).shape m) :=
      matches_ctype .pointer
    refine ⟨fun _ => matched, fun reads => ?_⟩
    by_cases misread : Misread (.pointer pointee)
    · obtain ⟨type, read, word⟩ := reads misread
      rw [fieldFfiTypes_some read Nat.one_pos]
      exact .cons word.matches .nil
    · exact field_matches_alone (by simp) matched misread
  | array type fixedLength ih =>
    obtain ⟨positive, element⟩ := placeable_array.mp placeable
    have elementWritten : Written m type := by simpa [Written] using written
    have elementFits : (type.shape m).size < 2 ^ m.sizeBits :=
      fits _ (List.mem_replicate.mpr ⟨by omega, rfl⟩)
    have matched : Matches (ffiType m type) (type.shape m) := by
      cases type with
      | array inner length =>
        have shaped : PointerShaped m (.array inner length) := by simpa [Encodable] using encodable
        rw [shape_of_single_leaf element (CType.isAlignment m _).pos
          (CType.alignment_dvd_size m .pointer) shaped]
        exact matches_ctype .pointer
      | void => simp [Placeable] at element
      | scalar s => exact (ih element elementWritten (by simpa [Encodable] using encodable)
          (by simpa [items] using elementFits)).1 (by simp)
      | pointer pointee => exact matches_ctype .pointer
      | struct fields => exact (ih element elementWritten (by simpa [Encodable] using encodable)
          (by simpa [items] using elementFits)).1 (by simp)
    refine ⟨fun single => absurd rfl (single type fixedLength), fun _ => ?_⟩
    rw [fieldFfiTypes_array positive, items]
    exact forall₂_replicate matched fixedLength
  | struct fields ih =>
    have each := (placeable_struct.mp placeable).2
    have fieldWritten : ∀ field ∈ fields, (Misread field → ReadsWord m field) ∧ Written m field := by
      simpa [Written] using written
    have fieldEncodable : ∀ field ∈ fields, Encodable m field := by simpa [Encodable] using encodable
    have whole : (struct fields).storageSize m < 2 ^ m.sizeBits := fits _ (by simp [items])
    have inner : List.Forall₂ Matches (fields.flatMap (fieldFfiTypes m))
        (fields.flatMap (items m)) := by
      refine forall₂_flatMap fun field member => (ih field member (each field member)
        (fieldWritten field member).2 (fieldEncodable field member) fun item placed => ?_).2
        (fieldWritten field member).1
      exact Nat.lt_of_le_of_lt (struct_item_size_le placeable
        (List.mem_flatMap.mpr ⟨field, member, placed⟩)) whole
    have matched : Matches (ffiType m (.struct fields)) ((struct fields).shape m) := by
      rw [ffiType_struct, shape_struct]
      exact matches_struct four_le_sizeBits inner (struct_items_ne_nil placeable)
        (fun item member => struct_item_isAlignment placeable member)
        (by simpa [storageSize, shape_struct] using storageSize_pos (m := m) placeable)
        (by simpa [storageSize, shape_struct] using whole)
    exact ⟨fun _ => matched, fun _ => field_matches_alone (by simp) matched id⟩

/-- A type `Type` encodes leaf for leaf is laid out by libffi as by `ref`. -/
theorem layoutAgrees_of_encodable {t : RefType} (byValue : ByValue t) (written : Written m t)
    (encodable : Encodable m t) (fits : t.storageSize m < 2 ^ m.sizeBits) : LayoutAgrees m t := by
  obtain ⟨placeable, single⟩ := byValue
  refine (type_matches placeable written encodable fun item member => ?_).1 single
  rw [items_alone single, List.mem_singleton] at member
  exact member ▸ fits

/-! ## What is not encoded does not agree -/

mutual

/-- The leaves of a descriptor without their offsets. -/
def ffiExtents : FfiType w → List (Nat × Nat)
  | .basic size alignment _ => [(size.toNat, alignment)]
  | .aggregate _ _ elements => elementExtents elements

def elementExtents : List (FfiType w) → List (Nat × Nat)
  | [] => []
  | element :: rest => ffiExtents element ++ elementExtents rest

end

theorem elementExtents_eq (elements : List (FfiType w)) :
    elementExtents elements = elements.flatMap ffiExtents := by
  induction elements with
  | nil => rfl
  | cons element rest ih => simp [elementExtents, ih]

theorem leaves_extents (t : FfiType w) : t.leaves.map Leaf.extent = ffiExtents t := by
  induction t with
  | basic size alignment type => rfl
  | aggregate size alignment elements ih =>
    have walked (size : BitVec w) :
        (elementLeaves elements size).map Leaf.extent = elementExtents elements := by
      induction elements generalizing size with
      | nil => rfl
      | cons element rest restIh =>
        have first := ih element (by simp)
        have others := restIh fun other member => ih other (List.mem_cons_of_mem _ member)
        rw [elementLeaves, List.map_append, others, elementExtents, ← first, List.map_map]
        rfl
    rw [FfiType.leaves, walked, ffiExtents]

/-- Filling in sizes and alignments neither adds, drops nor changes a leaf. -/
theorem initialized_extents {t ft : FfiType w} (ready : initialized t = some ft) :
    ffiExtents ft = ffiExtents t := by
  induction t generalizing ft with
  | basic size alignment type =>
    simp only [initialized, initializeAggregate] at ready
    split at ready
    · cases ready
    · cases ready
      rfl
  | aggregate size alignment elements ih =>
    have walked {running : BitVec w} {widest : Nat} {final : BitVec w × Nat × List (FfiType w)}
        (walk : walkElements elements running widest = some final) :
        elementExtents final.2.2 = elementExtents elements := by
      clear ready
      induction elements generalizing running widest final with
      | nil =>
        cases walk
        rfl
      | cons element rest restIh =>
        simp only [walkElements] at walk
        split at walk
        · cases walk
        · rename_i first found
          split at walk
          · cases walk
          · rename_i tail following
            cases walk
            have headSame := ih element (by simp) found
            have tailSame := restIh (fun other member => ih other (List.mem_cons_of_mem _ member))
              following
            rw [elementExtents, elementExtents, headSame, tailSame]
    simp only [initialized, initializeAggregate] at ready
    split at ready
    · split at ready
      · cases ready
      · rename_i tail following
        split at ready
        · cases ready
        · cases ready
          rw [ffiExtents, ffiExtents]
          exact walked following
    · cases ready
      rfl

theorem ffiExtents_ctype (c : CType) :
    ffiExtents (c.ffiType m) = [(c.size m, c.alignment m)] := by
  simp [CType.ffiType, ffiExtents, Nat.mod_eq_of_lt (ctype_size_lt (m := m) c)]

/-- The leaves of the descriptors written for one field. -/
def fieldExtents (m : DataModel) (field : RefType) : List (Nat × Nat) :=
  (fieldFfiTypes m field).flatMap ffiExtents

theorem fieldExtents_none {field : RefType} (read : ReadsNone field) :
    fieldExtents m field = ffiExtents (ffiType m field) := by
  rw [fieldExtents, fieldFfiTypes_none read, List.flatMap_singleton]

theorem fieldExtents_some {field type : RefType} {fixedLength : Nat}
    (read : field.elementType = some (type, fixedLength)) (positive : 0 < fixedLength) :
    fieldExtents m field = (List.replicate fixedLength type).flatMap fun type => ffiExtents (ffiType m type) := by
  rw [fieldExtents, fieldFfiTypes_some read positive, ← List.map_replicate, List.flatMap_map]

theorem fieldExtents_alone {field : RefType}
    (single : ∀ type fixedLength, field ≠ .array type fixedLength) (read : ¬ Misread field) :
    fieldExtents m field = ffiExtents (ffiType m field) :=
  fieldExtents_none (readsNone_of_single single read)

theorem ffiExtents_struct (fields : List RefType) :
    ffiExtents (ffiType m (.struct fields)) = fields.flatMap (fieldExtents m) := by
  rw [ffiType_struct, ffiExtents, elementExtents_eq, List.flatMap_assoc]
  rfl

theorem fieldExtents_struct (fields : List RefType) :
    fieldExtents m (.struct fields) = fields.flatMap (fieldExtents m) := by
  rw [fieldExtents_alone (by simp) id, ffiExtents_struct]

/-- Induction along the calls of `Type`: at a struct over what is written for its fields,
and at a field over the field's type or the element type that it reads. -/
theorem calls_induct (type field : RefType → Prop) (void : type .void) (scalar : ∀ s, type (.scalar s))
    (pointer : ∀ pointee, type (.pointer pointee))
    (array : ∀ inner fixedLength, type (.array inner fixedLength))
    (struct : ∀ fields, (∀ f ∈ fields, field f) → type (.struct fields))
    (alone : ∀ f, ReadsNone f → type f → field f)
    (elements : ∀ f inner fixedLength, f.elementType = some (inner, fixedLength) → 0 < fixedLength →
      type inner → field f) (t : RefType) : type t ∧ field t := by
  -- A pointer field reads an element type below the type it points to.
  suffices whole : type t ∧ field t ∧
      ∀ inner fixedLength, t.elementType = some (inner, fixedLength) → type inner from ⟨whole.1, whole.2.1⟩
  have both (f : RefType) (own : type f)
      (read : ∀ inner fixedLength, f.elementType = some (inner, fixedLength) → type inner) :
      type f ∧ field f ∧ ∀ inner fixedLength, f.elementType = some (inner, fixedLength) → type inner := by
    refine ⟨own, ?_, read⟩
    rcases readsNone_or f with none | ⟨inner, fixedLength, found, positive⟩
    · exact alone f none own
    · exact elements f inner fixedLength found positive (read inner fixedLength found)
  induction t with
  | void => exact both _ void nofun
  | scalar s => exact both _ (scalar s) nofun
  | pointer pointee ih => exact both _ (pointer pointee) ih.2.2
  | array inner fixedLength ih =>
    refine both _ (array inner fixedLength) ?_
    rintro _ _ ⟨⟩
    exact ih.1
  | struct fields ih => exact both _ (struct fields fun f member => (ih f member).2.1) nofun

/-- What `Type` writes for the field has no invalid typedef in it. -/
def FieldValid (m : DataModel) (field : RefType) : Prop :=
  ∀ element ∈ fieldFfiTypes m field, ¬ element.Invalid

theorem fieldValid_of_struct {fields : List RefType} (valid : ¬ (ffiType m (.struct fields)).Invalid) :
    fields ≠ [] ∧ ∀ field ∈ fields, FieldValid m field := by
  rw [ffiType_struct] at valid
  constructor
  · rintro rfl
    exact valid .empty
  · intro field member element inside invalid
    exact valid (.element (List.mem_flatMap.mpr ⟨field, member, inside⟩) invalid)

theorem FieldValid.alone {field : RefType} (valid : FieldValid m field) (read : ReadsNone field) :
    ¬ (ffiType m field).Invalid :=
  valid _ (by rw [fieldFfiTypes_none read]; exact List.mem_singleton_self _)

theorem FieldValid.element {field type : RefType} {fixedLength : Nat} (valid : FieldValid m field)
    (read : field.elementType = some (type, fixedLength)) (positive : 0 < fixedLength) :
    ¬ (ffiType m type).Invalid :=
  valid _ (by rw [fieldFfiTypes_some read positive]; exact List.mem_replicate.mpr ⟨positive.ne', rfl⟩)

/-- What libffi accepts has a leaf. -/
theorem extents_ne_nil_of_valid (t : RefType) :
    (¬ (ffiType m t).Invalid → ffiExtents (ffiType m t) ≠ []) ∧
      (FieldValid m t → fieldExtents m t ≠ []) := by
  refine calls_induct (fun t => ¬ (ffiType m t).Invalid → ffiExtents (ffiType m t) ≠ [])
    (fun t => FieldValid m t → fieldExtents m t ≠ []) ?_ ?_ ?_ ?_ ?_ ?_ ?_ t
  · exact fun _ => by simp [ffiType, ffiTypeVoid, ffiExtents]
  · exact fun s _ => by simp [ffiType, CType.ffiType, ffiExtents]
  · exact fun pointee _ => by simp [ffiType, CType.ffiType, ffiExtents]
  · exact fun inner fixedLength _ => by simp [ffiType, CType.ffiType, ffiExtents]
  · intro fields each valid
    obtain ⟨nonempty, fieldsValid⟩ := fieldValid_of_struct valid
    obtain ⟨first, rest, rfl⟩ := List.exists_cons_of_ne_nil nonempty
    rw [ffiExtents_struct, List.flatMap_cons]
    exact List.append_ne_nil_of_left_ne_nil (each first (by simp) (fieldsValid first (by simp))) _
  · intro field read own valid
    rw [fieldExtents_none read]
    exact own (valid.alone read)
  · intro field type fixedLength read positive own valid
    rw [fieldExtents_some read positive]
    obtain ⟨count, rfl⟩ := Nat.exists_eq_succ_of_ne_zero positive.ne'
    rw [List.replicate_succ, List.flatMap_cons]
    exact List.append_ne_nil_of_left_ne_nil (own (valid.element read positive)) _

/-- What libffi accepts and has the one leaf of a pointer is encoded as a word. -/
theorem oneWord_of_extents (t : RefType) :
    (¬ (ffiType m t).Invalid → ffiExtents (ffiType m t) =
        [(CType.pointer.size m, CType.pointer.alignment m)] → OneWord m t) ∧
      (FieldValid m t → fieldExtents m t = [(CType.pointer.size m, CType.pointer.alignment m)] →
        ReadsNone t ∧ OneWord m t ∨ ReadsWord m t) := by
  refine calls_induct
    (fun t => ¬ (ffiType m t).Invalid → ffiExtents (ffiType m t) =
      [(CType.pointer.size m, CType.pointer.alignment m)] → OneWord m t)
    (fun t => FieldValid m t → fieldExtents m t = [(CType.pointer.size m, CType.pointer.alignment m)] →
      ReadsNone t ∧ OneWord m t ∨ ReadsWord m t) ?_ ?_ ?_ ?_ ?_ ?_ ?_ t
  · intro _ same
    have wide : 1 < 2 ^ m.sizeBits := Nat.one_lt_two_pow (by have := four_le_sizeBits (m := m); omega)
    have bytes := m.pointer.bytes_cases
    rw [ffiType, ffiTypeVoid, ffiExtents, List.cons.injEq, Prod.mk.injEq, CType.size_pointer] at same
    simp [Nat.mod_eq_of_lt wide] at same
    omega
  · intro s _ same
    rw [ffiType, ffiExtents_ctype, List.cons.injEq] at same
    exact .scalar same.1
  · exact fun pointee _ _ => .pointer
  · exact fun inner fixedLength _ _ => .array
  · intro fields each valid same
    obtain ⟨_, fieldsValid⟩ := fieldValid_of_struct valid
    rw [ffiExtents_struct] at same
    obtain ⟨field, rfl, word⟩ := eq_singleton_of_flatMap
      (fun field member => (extents_ne_nil_of_valid field).2 (fieldsValid field member)) same
    rcases each field (by simp) (fieldsValid field (by simp)) word with ⟨read, own⟩ | ⟨type, read, own⟩
    · exact .struct read own
    · exact .element read own
  · intro field read own valid same
    rw [fieldExtents_none read] at same
    exact .inl ⟨read, own (valid.alone read) same⟩
  · intro field type fixedLength read positive own valid same
    rw [fieldExtents_some read positive] at same
    have accepted := valid.element read positive
    obtain ⟨_, once, word⟩ := eq_singleton_of_flatMap (fun other member =>
      (List.mem_replicate.mp member).2 ▸ (extents_ne_nil_of_valid type).1 accepted) same
    obtain rfl : fixedLength = 1 := by simpa using congrArg List.length once
    cases once
    exact .inr ⟨type, read, own accepted word⟩

/-- Where `Type` takes no pointer for an array, it never writes more leaves than the type
has. -/
theorem ffiExtents_length_le {t : RefType} (placeable : t.Placeable) (direct : Direct t) :
    (ffiExtents (ffiType m t)).length ≤ (t.shape m).extents.length ∧
      (¬ Misread t → (fieldExtents m t).length ≤ (t.shape m).extents.length) := by
  induction t with
  | void => simp [Placeable] at placeable
  | scalar s => exact ⟨Nat.le_refl _, fun _ => Nat.le_refl _⟩
  | pointer pointee ih =>
    refine ⟨Nat.le_refl _, fun read => ?_⟩
    rw [fieldExtents_alone (by simp) read]
    exact Nat.le_refl _
  | struct fields ih =>
    have each := (placeable_struct.mp placeable).2
    have fieldDirect : ∀ field ∈ fields, ¬ Misread field ∧ Direct field := by simpa [Direct] using direct
    have bound : (fieldExtents m (.struct fields)).length ≤ ((struct fields).shape m).extents.length := by
      rw [fieldExtents_struct, extents_struct, List.length_flatMap, List.length_flatMap]
      exact List.sum_le_sum fun field member =>
        (ih field member (each field member) (fieldDirect field member).2).2 (fieldDirect field member).1
    refine ⟨?_, fun _ => bound⟩
    rwa [fieldExtents_alone (by simp) id] at bound
  | array type fixedLength ih =>
    obtain ⟨positive, element⟩ := placeable_array.mp placeable
    refine ⟨List.length_pos_iff.mpr (extents_ne_nil placeable), fun _ => ?_⟩
    rw [fieldExtents_some rfl positive, shape, Shape.extents_repeated, List.length_flatMap,
      List.length_flatMap]
    simpa using Nat.mul_le_mul_left fixedLength (ih element (by simpa [Direct] using direct)).1

/-- Where no array has elements that are arrays and libffi accepts what `Type` writes, it
never writes fewer. -/
theorem le_ffiExtents_length {t : RefType} (placeable : t.Placeable) (flat : Flat t) :
    ((∀ type fixedLength, t ≠ .array type fixedLength) → ¬ (ffiType m t).Invalid →
        (t.shape m).extents.length ≤ (ffiExtents (ffiType m t)).length) ∧
      (FieldValid m t → (t.shape m).extents.length ≤ (fieldExtents m t).length) := by
  induction t with
  | void => simp [Placeable] at placeable
  | scalar s => exact ⟨fun _ _ => Nat.le_refl _, fun _ => Nat.le_refl _⟩
  | pointer pointee ih =>
    exact ⟨fun _ _ => Nat.le_refl _, fun valid =>
      List.length_pos_iff.mpr ((extents_ne_nil_of_valid (.pointer pointee)).2 valid)⟩
  | struct fields ih =>
    have each := (placeable_struct.mp placeable).2
    rw [Flat] at flat
    have bound (valid : ¬ (ffiType m (.struct fields)).Invalid) :
        ((struct fields).shape m).extents.length ≤ (ffiExtents (ffiType m (.struct fields))).length := by
      rw [ffiExtents_struct, extents_struct, List.length_flatMap, List.length_flatMap]
      exact List.sum_le_sum fun field member => (ih field member (each field member) (flat field member)).2
        ((fieldValid_of_struct valid).2 field member)
    refine ⟨fun _ => bound, fun valid => ?_⟩
    rw [fieldExtents_alone (by simp) id]
    exact bound (valid.alone (readsNone_struct fields))
  | array type fixedLength ih =>
    obtain ⟨positive, element⟩ := placeable_array.mp placeable
    obtain ⟨single, inner⟩ := flat_array.mp flat
    refine ⟨fun none => absurd rfl (none type fixedLength), fun valid => ?_⟩
    rw [fieldExtents_some rfl positive, shape, Shape.extents_repeated, List.length_flatMap,
      List.length_flatMap]
    simpa using Nat.mul_le_mul_left fixedLength ((ih element inner).1 single (valid.element rfl positive))

/-- A field at which `Type` writes too many leaves nowhere, or too few nowhere. -/
def Regular (m : DataModel) (field : RefType) : Prop :=
  ¬ Misread field ∧ Direct field ∨ Flat field ∧ FieldValid m field

/-- A descriptor too few or too many in one field cannot be made up for in another. -/
theorem Regular.fields {fields : List RefType} (regular : Regular m (.struct fields))
    (placeable : (struct fields).Placeable)
    (same : fieldExtents m (.struct fields) = ((struct fields).shape m).extents) :
    ∀ field ∈ fields, Regular m field ∧ fieldExtents m field = (field.shape m).extents := by
  have each := (placeable_struct.mp placeable).2
  rw [fieldExtents_struct, extents_struct] at same
  rcases regular with ⟨_, direct⟩ | ⟨flat, valid⟩
  · rw [Direct] at direct
    have pointwise := flatMap_eq_pointwise (fun field member =>
      (ffiExtents_length_le (m := m) (each field member) (direct field member).2).2 (direct field member).1) same
    exact fun field member => ⟨.inl (direct field member), pointwise field member⟩
  · rw [Flat] at flat
    have valid := (fieldValid_of_struct (valid.alone (readsNone_struct fields))).2
    have pointwise := flatMap_eq_pointwise (fun field member =>
      (le_ffiExtents_length (each field member) (flat field member)).2 (valid field member)) same.symm
    exact fun field member => ⟨.inr ⟨flat field member, valid field member⟩, (pointwise field member).symm⟩

theorem Regular.element {type : RefType} {fixedLength : Nat} (regular : Regular m (.array type fixedLength))
    (placeable : (array type fixedLength).Placeable)
    (same : fieldExtents m (.array type fixedLength) = ((array type fixedLength).shape m).extents) :
    ffiExtents (ffiType m type) = (type.shape m).extents ∧ (ReadsNone type → Regular m type) := by
  obtain ⟨positive, element⟩ := placeable_array.mp placeable
  rw [fieldExtents_some rfl positive, shape, Shape.extents_repeated, ← List.map_replicate,
    List.flatMap_map] at same
  have inside : type ∈ List.replicate fixedLength type := List.mem_replicate.mpr ⟨positive.ne', rfl⟩
  rcases regular with ⟨_, direct⟩ | ⟨flat, valid⟩
  · rw [Direct] at direct
    refine ⟨flatMap_eq_pointwise (fun other member => ?_) same type inside, fun read => ?_⟩
    · exact (List.mem_replicate.mp member).2 ▸ (ffiExtents_length_le (m := m) element direct).1
    · exact .inl ⟨not_misread read, direct⟩
  · obtain ⟨single, inner⟩ := flat_array.mp flat
    have accepted := valid.element rfl positive
    refine ⟨(flatMap_eq_pointwise (fun other member => ?_) same.symm type inside).symm, fun read => ?_⟩
    · exact (List.mem_replicate.mp member).2 ▸ (le_ffiExtents_length element inner).1 single accepted
    · refine .inr ⟨inner, ?_⟩
      rw [FieldValid, fieldFfiTypes_none read]
      simpa using accepted

/-- A field whose descriptors have the field's own leaves is encoded leaf for leaf. -/
theorem encodable_of_extents {field : RefType} (placeable : field.Placeable) (regular : Regular m field)
    (same : fieldExtents m field = (field.shape m).extents) :
    Encodable m field ∧ (Misread field → ReadsWord m field) ∧ Written m field := by
  induction field with
  | void => simp [Placeable] at placeable
  | scalar s =>
    rw [fieldExtents_alone (by simp) id, ffiType, ffiExtents_ctype, shape, Shape.extents_atom,
      List.cons.injEq] at same
    exact ⟨by simpa [Encodable] using (scalar_extent s).mp same.1, False.elim, by simp [Written]⟩
  | pointer pointee ih =>
    refine ⟨by simp [Encodable], fun misread => ?_, by simp [Written]⟩
    rcases regular with ⟨read, _⟩ | ⟨_, valid⟩
    · exact absurd misread read
    · rcases (oneWord_of_extents (.pointer pointee)).2 valid same with ⟨read, _⟩ | word
      · exact absurd misread (not_misread read)
      · exact word
  | struct fields ih =>
    have each := (placeable_struct.mp placeable).2
    have parts := regular.fields placeable same
    have encoded := fun field member =>
      ih field member (each field member) (parts field member).1 (parts field member).2
    refine ⟨?_, False.elim, ?_⟩
    · rw [Encodable]
      exact fun field member => (encoded field member).1
    · rw [Written]
      exact fun field member => (encoded field member).2
  | array type fixedLength ih =>
    have element := (placeable_array.mp placeable).2
    obtain ⟨one, inner⟩ := regular.element placeable same
    rw [Written]
    cases type with
    | void => simp [Placeable] at element
    | scalar s =>
      have encoded := ih element (inner (readsNone_scalar s)) ((fieldExtents_alone (by simp) id).trans one)
      exact ⟨by simpa [Encodable] using encoded.1, False.elim, encoded.2.2⟩
    | pointer pointee => exact ⟨by simp [Encodable], False.elim, by simp [Written]⟩
    | struct fields =>
      have encoded := ih element (inner (readsNone_struct fields)) ((fieldExtents_alone (by simp) id).trans one)
      exact ⟨by simpa [Encodable] using encoded.1, False.elim, encoded.2.2⟩
    | array row length =>
      refine ⟨?_, False.elim, ?_⟩
      · rw [ffiType, ffiExtents_ctype] at one
        simpa [Encodable, PointerShaped] using one.symm
      · rcases regular with ⟨_, direct⟩ | ⟨flat, _⟩
        · rw [Direct] at direct
          exact direct.written
        · exact absurd rfl ((flat_array.mp flat).1 row length)

theorem encodable_of_layoutAgrees {t : RefType} (byValue : ByValue t) (one : Direct t ∨ Flat t)
    (agrees : LayoutAgrees m t) : Encodable m t ∧ Written m t := by
  obtain ⟨placeable, single⟩ := byValue
  obtain ⟨ft, ready, _, _, leaves⟩ := agrees
  have extents : ffiExtents (ffiType m t) = (t.shape m).extents := by
    rw [← initialized_extents ready, ← leaves_extents, leaves]
    rfl
  by_cases misread : Misread t
  · cases t with
    | pointer pointee => simp [Encodable, Written]
    | _ => exact misread.elim
  · have read := readsNone_of_single single misread
    have regular : Regular m t := by
      refine one.imp (fun direct => ⟨misread, direct⟩) fun flat => ⟨flat, ?_⟩
      rw [FieldValid, fieldFfiTypes_none read]
      intro element inside invalid
      rw [List.mem_singleton] at inside
      rw [← inside, invalid.refused] at ready
      cases ready
    obtain ⟨encodable, _, written⟩ :=
      encodable_of_extents placeable regular ((fieldExtents_none read).trans extents)
    exact ⟨encodable, written⟩

/-- **Layout agreement.** libffi and `ref-struct` agree on the layout of a type if `Type`
encodes each of its leaves by a descriptor of the leaf's own size and alignment, also
where it takes a pointer for an array, and the size fits a `size_t`; and only if, unless
the type has both pointers to arrays and arrays of arrays. -/
theorem layout_agrees_iff (m : DataModel) (t : RefType) (byValue : ByValue t) :
    (Encodable m t ∧ Written m t ∧ t.storageSize m < 2 ^ m.sizeBits → LayoutAgrees m t) ∧
      (Direct t ∨ Flat t → LayoutAgrees m t →
        Encodable m t ∧ Written m t ∧ t.storageSize m < 2 ^ m.sizeBits) := by
  constructor
  · rintro ⟨encodable, written, fits⟩
    exact layoutAgrees_of_encodable byValue written encodable fits
  · intro one agrees
    obtain ⟨encodable, written⟩ := encodable_of_layoutAgrees byValue one agrees
    obtain ⟨ft, _, size, _⟩ := agrees
    exact ⟨encodable, written, size ▸ ft.size.isLt⟩

/-! ## Targets -/

theorem Word.alignment_width (word : Word) : 2 ^ (Fin.last word.width.log).val = word.bytes := by
  cases word <;> rfl

/-- Natural alignment of every type. A reference to an object is the environment, the
reference in it and a flag. -/
def naturalModel (long pointer ffiArg : Word) (wchar : IntWidth) : DataModel where
  long := long
  pointer := pointer
  ffiArg := ffiArg
  wchar := wchar
  intAlign width := Fin.last width.log
  floatAlign := 2
  doubleAlign := 3
  objectSize := 3 * pointer.bytes
  object_pointer := by omega
  object_words := by
    rw [pointer.alignment_width]
    exact Nat.dvd_mul_left _ 3

/-- 64-bit Linux and macOS. -/
def lp64 : DataModel := naturalModel .eight .eight .eight .w32

/-- 64-bit Windows. -/
def llp64 : DataModel := naturalModel .four .eight .eight .w16

/-- A struct of an `int` and an array of doubles, as the tests pass by value. -/
def arst : RefType := .struct [.scalar (.named .int), .array (.scalar .double) 20]

theorem arst_layout_agrees : LayoutAgrees lp64 arst :=
  (layout_agrees_iff lp64 arst ⟨by simp [arst, Placeable], by simp [arst]⟩).1
    ⟨by simp [arst, Encodable, Scalar.Encodable], by simp [arst, Written, Misread], by decide⟩

/-- A struct of two rows of three bytes. -/
def rows : RefType := .struct [.array (.array (.scalar (.sized true .w8)) 3) 2]

/-- A struct of a pointer to an array of two doubles. -/
def pointsToArray : RefType := .struct [.pointer (.array (.scalar .double) 2)]

/-- `Type` encodes each row as a pointer, on Windows a `longlong` as a `long`, an `Object`
as a pointer, and the pointer to an array as two doubles. The last disagrees with a
ref-struct whose pointer fields are pointer-sized, as everywhere in this model; one that
takes such a field for the array itself lays out two doubles as well. -/
theorem layout_disagrees :
    ¬ LayoutAgrees lp64 rows ∧ ¬ LayoutAgrees llp64 (.scalar (.named .longlong)) ∧
      ¬ LayoutAgrees lp64 (.scalar .Object) ∧ ¬ LayoutAgrees lp64 pointsToArray := by
  refine ⟨?_, ?_, ?_, ?_⟩
  · intro agrees
    obtain ⟨encodable, _⟩ := encodable_of_layoutAgrees ⟨by simp [rows, Placeable], by simp [rows]⟩
      (.inl (by simp [rows, Direct, Misread])) agrees
    simp [rows, Encodable, PointerShaped, shape, Shape.extents_repeated, List.replicate] at encodable
  · intro agrees
    obtain ⟨encodable, _⟩ := encodable_of_layoutAgrees ⟨by simp [Placeable], by simp⟩
      (.inl (by simp [Direct])) agrees
    rw [Encodable] at encodable
    cases encodable.1 (.inl rfl)
  · intro agrees
    obtain ⟨encodable, _⟩ := encodable_of_layoutAgrees ⟨by simp [Placeable], by simp⟩
      (.inl (by simp [Direct])) agrees
    rw [Encodable] at encodable
    exact absurd (encodable.2 rfl) (by decide)
  · rintro ⟨ft, ready, _, _, leaves⟩
    have written := initialized_extents ready
    rw [← leaves_extents, leaves] at written
    cases written

/-- A struct in which two errors cancel: the row is encoded as a pointer, and the pointer to
such a row as two numbers. -/
def crossed : RefType := .struct [.array (.array (.scalar (.sized true .w64)) 2) 1,
  .pointer (.array (.scalar (.sized true .w64)) 2)]

example : LayoutAgrees lp64 crossed :=
  ⟨(initialized (ffiType lp64 crossed)).get (by rfl), by rfl, by rfl, by rfl, by rfl⟩

end NodeFfi
