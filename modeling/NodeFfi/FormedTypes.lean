import NodeFfi.LayoutAgreement

/-! The descriptors libffi works with once `ffi_prep_cif` has laid them out, on a target with
64-bit pointers and natural alignment: where their scalars are, and that `Type` leads to no
others. -/
namespace NodeFfi
open AlignedLayout RefType

variable {w : Nat}

/-! ## Scalars of a type -/

/-- A scalar of a type, at its offset from the type's start. -/
structure ScalarAt where
  offset : Nat
  type : CType
  deriving DecidableEq, Repr

def ScalarAt.shift (distance : Nat) (s : ScalarAt) : ScalarAt := { s with offset := distance + s.offset }

def ScalarAt.leaf (s : ScalarAt) : Leaf := ⟨s.offset, s.type.size lp64, s.type.alignment lp64⟩

mutual

/-- Where a C compiler has the scalars of a type. -/
def scalars : FfiType w → List ScalarAt
  | .basic _ _ .void => []
  | .basic _ _ (.value c) => [⟨0, c⟩]
  | .aggregate _ _ elements => elementScalars elements 0

def elementScalars : List (FfiType w) → Nat → List ScalarAt
  | [], _ => []
  | element :: rest, offset =>
    (scalars element).map (.shift (roundUp offset element.alignment)) ++
      elementScalars rest (roundUp offset element.alignment + element.size.toNat)

end

def FfiType.shape (t : FfiType w) : Shape := ⟨t.size.toNat, t.alignment, t.leaves⟩

/-- The descriptors libffi has after `ffi_prep_cif`: predefined ones, and aggregates of
these that it has laid out without overflow. -/
inductive Formed : FfiType lp64.sizeBits → Prop
  | scalar (c : CType) : Formed (c.ffiType lp64)
  | struct {size alignment elements} (nonempty : elements ≠ []) (each : ∀ element ∈ elements, Formed element)
      (natural : (FfiType.aggregate size alignment elements).shape =
        .sequence (elements.map FfiType.shape)) : Formed (.aggregate size alignment elements)

theorem natural_scalar (c : CType) : c.alignment lp64 = c.size lp64 := by
  cases c with
  | int signed width => cases width <;> rfl
  | _ => rfl

theorem shape_ctype (c : CType) :
    (c.ffiType lp64).shape = .atom (c.size lp64) (c.alignment lp64) := by
  obtain ⟨ft, ready, size, alignment, leaves⟩ := matches_ctype (m := lp64) c
  obtain rfl := Option.some.inj ((initialized_ctype c).symm.trans ready)
  rw [FfiType.shape, size, alignment, leaves]

/-- Laying the elements out puts their leaves where `elementScalars` puts the scalars. -/
theorem foldl_place_leaves {elements : List (FfiType w)}
    (each : ∀ element ∈ elements, (scalars element).map ScalarAt.leaf = element.leaves) (placed : Shape) :
    ((elements.map FfiType.shape).foldl Shape.place placed).leaves =
      placed.leaves ++ (elementScalars elements placed.size).map ScalarAt.leaf := by
  induction elements generalizing placed with
  | nil => simp [elementScalars]
  | cons element rest ih =>
    have first := each element (by simp)
    rw [List.map_cons, List.foldl_cons, ih fun other member => each other (List.mem_cons_of_mem _ member)]
    simp only [elementScalars, Shape.place, FfiType.shape, ← first, List.map_append, List.map_map,
      List.append_assoc]
    rfl

namespace Formed

variable {t : FfiType lp64.sizeBits}

/-- The scalars are the leaves libffi lays out. -/
theorem scalars_leaf (formed : Formed t) : (scalars t).map ScalarAt.leaf = t.leaves := by
  induction formed with
  | scalar c => exact (congrArg Shape.leaves (shape_ctype c)).symm
  | @struct size alignment elements nonempty each natural ih =>
    have leaves := congrArg Shape.leaves natural
    have placed := foldl_place_leaves ih .empty
    simp only [Shape.sequence, Shape.finish] at leaves
    rw [placed] at leaves
    simpa [scalars, Shape.empty, FfiType.shape] using leaves.symm

theorem isAlignment (formed : Formed t) : IsAlignment t.alignment := by
  induction formed with
  | scalar c => exact CType.isAlignment lp64 c
  | @struct size alignment elements nonempty each natural ih =>
    rw [show FfiType.alignment (.aggregate size alignment elements) =
      (Shape.sequence (elements.map FfiType.shape)).alignment from congrArg Shape.alignment natural]
    refine Shape.sequence_alignment (by simpa using nonempty) fun item member => ?_
    obtain ⟨element, inside, rfl⟩ := List.mem_map.mp member
    exact ih element inside

end Formed

theorem IsAlignment.dvd_of_le {a b : Nat} (first : IsAlignment a) (second : IsAlignment b) (le : a ≤ b) :
    a ∣ b := by
  obtain ⟨e, _, rfl⟩ := first
  obtain ⟨f, _, rfl⟩ := second
  exact Nat.pow_dvd_pow 2 ((Nat.pow_le_pow_iff_right (by omega)).mp le)

theorem IsAlignment.dvd_eight {a : Nat} (is : IsAlignment a) : a ∣ 8 := by
  obtain ⟨e, small, rfl⟩ := is
  exact Nat.pow_dvd_pow (m := e) (n := 3) 2 (by omega)

theorem le_foldl_place_alignment (items : List Shape) (placed : Shape) :
    placed.alignment ≤ (items.foldl Shape.place placed).alignment ∧
      ∀ item ∈ items, item.alignment ≤ (items.foldl Shape.place placed).alignment := by
  induction items generalizing placed with
  | nil => simp
  | cons item rest ih =>
    obtain ⟨kept, each⟩ := ih (placed.place item)
    have both : placed.alignment ≤ (placed.place item).alignment ∧
        item.alignment ≤ (placed.place item).alignment := ⟨Nat.le_max_left _ _, Nat.le_max_right _ _⟩
    refine ⟨both.1.trans kept, fun other member => ?_⟩
    rcases List.mem_cons.mp member with rfl | inside
    · exact both.2.trans kept
    · exact each other inside

namespace Formed

variable {size : BitVec lp64.sizeBits} {alignment : Nat} {elements : List (FfiType lp64.sizeBits)}

theorem elements_formed (formed : Formed (.aggregate size alignment elements)) :
    ∀ element ∈ elements, Formed element := by
  generalize same : FfiType.aggregate size alignment elements = t at formed
  cases formed with
  | scalar c => cases same
  | struct nonempty each natural =>
    cases same
    exact each

theorem shape_eq (formed : Formed (.aggregate size alignment elements)) :
    (FfiType.aggregate size alignment elements).shape = .sequence (elements.map FfiType.shape) := by
  generalize same : FfiType.aggregate size alignment elements = t at formed ⊢
  cases formed with
  | scalar c => cases same
  | struct nonempty each natural =>
    cases same
    exact natural

/-- A struct's alignment is a multiple of the alignments of its elements. -/
theorem element_alignment (formed : Formed (.aggregate size alignment elements))
    {element : FfiType lp64.sizeBits} (member : element ∈ elements) : element.alignment ∣ alignment := by
  have whole : alignment = (Shape.sequence (elements.map FfiType.shape)).alignment :=
    congrArg Shape.alignment formed.shape_eq
  refine (formed.elements_formed element member).isAlignment.dvd_of_le formed.isAlignment ?_
  change element.shape.alignment ≤ alignment
  rw [whole]
  exact (le_foldl_place_alignment _ .empty).2 _ (List.mem_map_of_mem member)

theorem element_size_le (formed : Formed (.aggregate size alignment elements))
    {element : FfiType lp64.sizeBits} (member : element ∈ elements) : element.size.toNat ≤ size.toNat := by
  have whole : size.toNat = (Shape.sequence (elements.map FfiType.shape)).size :=
    congrArg Shape.size formed.shape_eq
  rw [whole]
  refine Shape.size_le_sequence (fun item placed => ?_)
    (List.mem_map_of_mem member : element.shape ∈ elements.map FfiType.shape)
  obtain ⟨other, inside, rfl⟩ := List.mem_map.mp placed
  exact (formed.elements_formed other inside).isAlignment.pos

theorem size_pos {t : FfiType lp64.sizeBits} (formed : Formed t) : 0 < t.size.toNat := by
  induction formed with
  | scalar c =>
    rw [ctype_size_toNat]
    exact c.size_pos lp64
  | @struct size alignment elements nonempty each natural ih =>
    obtain ⟨first, rest, rfl⟩ := List.exists_cons_of_ne_nil nonempty
    exact Nat.lt_of_lt_of_le (ih first (by simp))
      ((Formed.struct nonempty each natural).element_size_le (by simp))

theorem packed {t : FfiType lp64.sizeBits} (formed : Formed t) : t.shape.Packed := by
  induction formed with
  | scalar c =>
    rw [shape_ctype]
    exact Shape.packed_atom (Nat.le_of_eq (natural_scalar c).symm)
  | @struct size alignment elements nonempty each natural ih =>
    have whole : alignment = (Shape.sequence (elements.map FfiType.shape)).alignment :=
      congrArg Shape.alignment natural
    rw [natural]
    refine Shape.packed_sequence (by simpa using nonempty) fun item member => ?_
    obtain ⟨element, inside, rfl⟩ := List.mem_map.mp member
    rw [← whole]
    exact ⟨ih element inside, (each element inside).isAlignment.pos,
      (Formed.struct nonempty each natural).element_alignment inside⟩

end Formed

theorem size_le_eight (c : CType) : c.size lp64 ≤ 8 ∧ 0 < c.size lp64 := by
  cases c with
  | int signed width => cases width <;> simp [CType.size, CType.logSize, IntWidth.log]
  | _ => decide

/-- A scalar at a multiple of its alignment ends in the eightbyte it starts in. -/
theorem scalar_within (c : CType) {start : Nat} (aligned : c.alignment lp64 ∣ start) :
    start % 8 + c.size lp64 ≤ 8 := by
  rw [natural_scalar] at aligned
  cases c with
  | int signed width =>
    cases width <;> simp only [CType.size, CType.logSize, IntWidth.log] at aligned ⊢ <;> omega
  | float =>
    simp only [CType.size, CType.logSize] at aligned ⊢
    omega
  | double =>
    simp only [CType.size, CType.logSize] at aligned ⊢
    omega
  | pointer =>
    have eight : CType.size lp64 .pointer = 8 := rfl
    rw [eight] at aligned ⊢
    omega

theorem scalar_inside {t : FfiType lp64.sizeBits} (formed : Formed t) {s : ScalarAt}
    (member : s ∈ scalars t) : s.offset + s.type.size lp64 ≤ t.size.toNat ∧ s.type.alignment lp64 ∣ s.offset := by
  have leaf : s.leaf ∈ t.leaves := formed.scalars_leaf ▸ List.mem_map_of_mem member
  exact ⟨formed.packed.inside _ leaf, (formed.packed.aligned _ leaf).1⟩

/-- Each eightbyte of a type starts with a scalar. -/
theorem Formed.eightbyte_starts {t : FfiType lp64.sizeBits} (formed : Formed t) {k : Nat}
    (inside : 8 * k < t.size.toNat) : ∃ s ∈ scalars t, s.offset = 8 * k := by
  obtain ⟨leaf, member, start⟩ := formed.packed.dense (8 * k)
    (formed.isAlignment.dvd_eight.trans (Nat.dvd_mul_right 8 k)) inside
  rw [show t.shape.leaves = t.leaves from rfl, ← formed.scalars_leaf] at member
  obtain ⟨s, there, rfl⟩ := List.mem_map.mp member
  exact ⟨s, there, start⟩

/-! ## The types of `ref` -/

/-- A descriptor that libffi initialises to a well-formed one of the given layout. -/
def FormedAs (element : FfiType lp64.sizeBits) (item : Shape) : Prop :=
  ∃ ft, initialized element = some ft ∧ Formed ft ∧ ft.shape = item

theorem FormedAs.matches {element : FfiType lp64.sizeBits} {item : Shape} (formed : FormedAs element item) :
    Matches element item := by
  obtain ⟨ft, ready, _, rfl⟩ := formed
  exact ⟨ft, ready, rfl, rfl, rfl⟩

theorem formedAs_ctype (c : CType) : FormedAs (c.ffiType lp64) (.atom (c.size lp64) (c.alignment lp64)) :=
  ⟨_, initialized_ctype c, .scalar c, shape_ctype c⟩

/-- What libffi's loop stores are the initialised elements. -/
theorem walkElements_initialized {elements : List (FfiType w)} {size : BitVec w} {alignment : Nat}
    {final : BitVec w} {widest : Nat} {walked : List (FfiType w)} (walk : walkElements elements size alignment = some (final, widest, walked)) :
    List.Forall₂ (fun element ft => initialized element = some ft) elements walked := by
  induction elements generalizing size alignment final widest walked with
  | nil =>
    simp only [walkElements, Option.some.injEq, Prod.mk.injEq] at walk
    rw [← walk.2.2]
    exact .nil
  | cons element rest ih =>
    simp only [walkElements] at walk
    split at walk
    · cases walk
    · next ft ready =>
      split at walk
      · cases walk
      · next loop =>
        simp only [Option.some.injEq, Prod.mk.injEq] at walk
        rw [← walk.2.2]
        exact .cons ready (ih loop)

theorem formed_walked {elements walked : List (FfiType lp64.sizeBits)} {items : List Shape}
    (formed : List.Forall₂ FormedAs elements items)
    (stored : List.Forall₂ (fun element ft => initialized element = some ft) elements walked) :
    walked.map FfiType.shape = items ∧ ∀ ft ∈ walked, Formed ft := by
  induction formed generalizing walked with
  | nil =>
    cases stored
    simp
  | cons first rest ih =>
    obtain ⟨ft, ready, is, layout⟩ := first
    obtain ⟨stored, others, same, tail, rfl⟩ := List.forall₂_cons_left_iff.mp stored
    obtain rfl := Option.some.inj (ready.symm.trans same)
    obtain ⟨layouts, each⟩ := ih tail
    exact ⟨by rw [List.map_cons, layout, layouts], List.forall_mem_cons.mpr ⟨is, each⟩⟩

/-- An aggregate of well-formed elements that libffi lays out is well formed. -/
theorem formedAs_struct {elements : List (FfiType lp64.sizeBits)} {items : List Shape}
    (formed : List.Forall₂ FormedAs elements items) (nonempty : items ≠ [])
    (aligned : ∀ item ∈ items, IsAlignment item.alignment)
    (positive : 0 < (Shape.sequence items).size) (fits : (Shape.sequence items).size < 2 ^ lp64.sizeBits) :
    FormedAs (.aggregate 0 0 elements) (.sequence items) := by
  obtain ⟨ft, ready, size, alignment, leaves⟩ := matches_struct four_le_sizeBits
    (formed.imp fun _ _ => FormedAs.matches) nonempty aligned positive fits
  have shape : ft.shape = .sequence items := by rw [FfiType.shape, size, alignment, leaves]
  refine ⟨ft, ready, ?_, shape⟩
  have unset : (FfiType.aggregate 0 0 elements : FfiType lp64.sizeBits).size = 0 := rfl
  rw [initialized, if_pos unset, initializeAggregate] at ready
  split at ready
  · cases ready
  · next total widest walked walk =>
    dsimp only at ready
    split at ready
    · cases ready
    · obtain rfl := Option.some.inj ready
      obtain ⟨layouts, each⟩ := formed_walked formed (walkElements_initialized walk)
      refine .struct ?_ each (shape.trans (congrArg _ layouts.symm))
      rintro rfl
      exact nonempty layouts.symm

theorem field_formed_alone {field : RefType} (single : ∀ type fixedLength, field ≠ .array type fixedLength)
    (formed : FormedAs (ffiType lp64 field) (field.shape lp64)) (read : ¬ Misread field) :
    List.Forall₂ FormedAs (fieldFfiTypes lp64 field) (field.items lp64) := by
  rw [fieldFfiTypes_alone single read, items_alone single]
  exact .cons formed .nil

/-- libffi has well-formed descriptors for the types that `Type` encodes leaf for leaf. -/
theorem type_formed {t : RefType} (placeable : t.Placeable) (direct : Direct t) (encodable : Encodable lp64 t)
    (fits : ∀ item ∈ t.items lp64, item.size < 2 ^ lp64.sizeBits) :
    ((∀ type fixedLength, t ≠ .array type fixedLength) → FormedAs (ffiType lp64 t) (t.shape lp64)) ∧
      (¬ Misread t → List.Forall₂ FormedAs (fieldFfiTypes lp64 t) (t.items lp64)) := by
  induction t with
  | void => simp [Placeable] at placeable
  | scalar s =>
    have extent := (scalar_extent (m := lp64) s).mpr (by simpa [Encodable] using encodable)
    rw [Prod.mk.injEq] at extent
    have formed : FormedAs (ffiType lp64 (.scalar s)) ((scalar s).shape lp64) := by
      rw [ffiType, shape, ← extent.1, ← extent.2]
      exact formedAs_ctype _
    exact ⟨fun _ => formed, field_formed_alone (by simp) formed⟩
  | pointer pointee ih =>
    have formed : FormedAs (ffiType lp64 (.pointer pointee)) ((pointer pointee).shape lp64) :=
      formedAs_ctype .pointer
    exact ⟨fun _ => formed, field_formed_alone (by simp) formed⟩
  | array type fixedLength ih =>
    obtain ⟨positive, element⟩ := placeable_array.mp placeable
    rw [Direct] at direct
    have elementFits : (type.shape lp64).size < 2 ^ lp64.sizeBits :=
      fits _ (List.mem_replicate.mpr ⟨by omega, rfl⟩)
    have formed : FormedAs (ffiType lp64 type) (type.shape lp64) := by
      cases type with
      | array inner length =>
        have shaped : PointerShaped lp64 (.array inner length) := by simpa [Encodable] using encodable
        rw [shape_of_single_leaf element (CType.isAlignment lp64 _).pos
          (CType.alignment_dvd_size lp64 .pointer) shaped]
        exact formedAs_ctype .pointer
      | void => simp [Placeable] at element
      | scalar s => exact (ih element direct (by simpa [Encodable] using encodable)
          (by simpa [items] using elementFits)).1 (by simp)
      | pointer pointee => exact formedAs_ctype .pointer
      | struct fields => exact (ih element direct (by simpa [Encodable] using encodable)
          (by simpa [items] using elementFits)).1 (by simp)
    refine ⟨fun single => absurd rfl (single type fixedLength), fun _ => ?_⟩
    rw [fieldFfiTypes_array positive, items]
    exact forall₂_replicate formed fixedLength
  | struct fields ih =>
    have each := (placeable_struct.mp placeable).2
    rw [Direct] at direct
    have fieldEncodable : ∀ field ∈ fields, Encodable lp64 field := by simpa [Encodable] using encodable
    have whole : (struct fields).storageSize lp64 < 2 ^ lp64.sizeBits := fits _ (by simp [items])
    have inner : List.Forall₂ FormedAs (fields.flatMap (fieldFfiTypes lp64))
        (fields.flatMap (items lp64)) := by
      refine forall₂_flatMap fun field member => (ih field member (each field member)
        (direct field member).2 (fieldEncodable field member) fun item placed => ?_).2 (direct field member).1
      exact Nat.lt_of_le_of_lt (struct_item_size_le placeable
        (List.mem_flatMap.mpr ⟨field, member, placed⟩)) whole
    have formed : FormedAs (ffiType lp64 (.struct fields)) ((struct fields).shape lp64) := by
      rw [ffiType_struct, shape_struct]
      exact formedAs_struct inner (struct_items_ne_nil placeable)
        (fun item member => struct_item_isAlignment placeable member)
        (by simpa [storageSize, shape_struct] using storageSize_pos (m := lp64) placeable)
        (by simpa [storageSize, shape_struct] using whole)
    exact ⟨fun _ => formed, field_formed_alone (by simp) formed⟩

/-- A type that is passed by value, has no array behind a pointer and is encoded leaf for
leaf has a well-formed descriptor of `ref`'s layout. -/
theorem formed_of_encodable {t : RefType} {ft : FfiType lp64.sizeBits} (byValue : ByValue t) (direct : Direct t)
    (encodable : Encodable lp64 t) (fits : t.storageSize lp64 < 2 ^ lp64.sizeBits)
    (ready : initialized (ffiType lp64 t) = some ft) : Formed ft ∧ ft.shape = t.shape lp64 := by
  obtain ⟨placeable, single⟩ := byValue
  obtain ⟨ft', same, formed, layout⟩ := (type_formed placeable direct encodable fun item member => by
    rw [items_alone single, List.mem_singleton] at member
    exact member ▸ fits).1 single
  obtain rfl := Option.some.inj (same.symm.trans ready)
  exact ⟨formed, layout⟩

end NodeFfi
