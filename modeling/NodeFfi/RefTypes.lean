import NodeFfi.AlignedLayout

/-! The types of the `ref` family as node-ffi sees them, and the sizes and
alignments the C compiler gives the types they stand for. A `DataModel` is what
may differ between the targets of one build; both `ref` and libffi are compiled
by the same compiler, so both read their numbers from it. -/
namespace NodeFfi
open AlignedLayout

/-! ## Data models -/

/-- The two widths `long`, pointers, `ffi_arg` and their alignments can have. -/
inductive Word where
  | four
  | eight
  deriving DecidableEq, Repr

def Word.bytes : Word → Nat
  | .four => 4
  | .eight => 8

theorem Word.bytes_cases (word : Word) : word.bytes = 4 ∨ word.bytes = 8 := by
  cases word <;> simp [Word.bytes]

theorem Word.bytes_pos (word : Word) : 0 < word.bytes := by
  rcases word.bytes_cases with four | eight <;> omega

/-- The widths of the sized integers. -/
inductive IntWidth where
  | w8
  | w16
  | w32
  | w64
  deriving DecidableEq, Repr

/-- The binary logarithm of the width in bytes. -/
def IntWidth.log : IntWidth → Nat
  | .w8 => 0
  | .w16 => 1
  | .w32 => 2
  | .w64 => 3

def Word.width : Word → IntWidth
  | .four => .w32
  | .eight => .w64

/-- A target: the widths that vary, and each alignment as the logarithm of a
power of two that divides the size. A pointer is aligned like the integer of
its width. -/
structure DataModel where
  /-- `ref.sizeof.long`; `ffi.js` throws on any other size. -/
  long : Word
  /-- `ref.sizeof.pointer`, and the width of `size_t`. -/
  pointer : Word
  /-- `sizeof(ffi_arg)`. -/
  ffiArg : Word
  wchar : IntWidth
  intAlign : (width : IntWidth) → Fin (width.log + 1)
  floatAlign : Fin 3
  doubleAlign : Fin 4
  /-- `ref.sizeof.Object`: what `ref` stores of a JavaScript object is a reference of its
  own, with a pointer in it and aligned like one. -/
  objectSize : Nat
  object_pointer : pointer.bytes ≤ objectSize
  object_words : 2 ^ (intAlign pointer.width).val ∣ objectSize

/-- The C types that have a predefined `ffi_type`. -/
inductive CType where
  | int (signed : Bool) (width : IntWidth)
  | float
  | double
  | pointer
  deriving DecidableEq, Repr

namespace CType

variable (m : DataModel)

/-- `sizeof`, as a binary logarithm. -/
def logSize : CType → Nat
  | .int _ width => width.log
  | .float => 2
  | .double => 3
  | .pointer => m.pointer.width.log

/-- `alignof`, as a binary logarithm. -/
def logAlignment : CType → Nat
  | .int _ width => (m.intAlign width).val
  | .float => m.floatAlign.val
  | .double => m.doubleAlign.val
  | .pointer => (m.intAlign m.pointer.width).val

def size (c : CType) : Nat := 2 ^ c.logSize m

def alignment (c : CType) : Nat := 2 ^ c.logAlignment m

theorem logAlignment_le (c : CType) : c.logAlignment m ≤ c.logSize m := by
  cases c with
  | int signed width => exact Nat.le_of_lt_succ (m.intAlign width).isLt
  | float => exact Nat.le_of_lt_succ m.floatAlign.isLt
  | double => exact Nat.le_of_lt_succ m.doubleAlign.isLt
  | pointer => exact Nat.le_of_lt_succ (m.intAlign m.pointer.width).isLt

theorem logSize_lt (c : CType) : c.logSize m < 4 := by
  cases c with
  | int signed width => cases width <;> simp [logSize, IntWidth.log]
  | float => simp [logSize]
  | double => simp [logSize]
  | pointer => cases h : m.pointer <;> simp [logSize, IntWidth.log, Word.width, h]

theorem alignment_dvd_size (c : CType) : c.alignment m ∣ c.size m :=
  Nat.pow_dvd_pow 2 (c.logAlignment_le m)

theorem size_pos (c : CType) : 0 < c.size m := Nat.two_pow_pos _

theorem size_pointer : CType.pointer.size m = m.pointer.bytes := by
  cases h : m.pointer <;> simp [size, logSize, Word.width, Word.bytes, IntWidth.log, h]

end CType

/-- An alignment a compiler gives: a power of two of at most eight bytes. -/
def IsAlignment (a : Nat) : Prop := ∃ e < 4, a = 2 ^ e

theorem IsAlignment.pos {a : Nat} (is : IsAlignment a) : 0 < a := by
  obtain ⟨e, _, rfl⟩ := is
  exact Nat.two_pow_pos e

theorem CType.isAlignment (m : DataModel) (c : CType) : IsAlignment (c.alignment m) :=
  ⟨_, Nat.lt_of_le_of_lt (c.logAlignment_le m) (c.logSize_lt m), rfl⟩

/-! ## `ref` types -/

/-- The typedef names of `ref.types`: each is `Object.create` of the sized
integer type with the size and signedness the name has on the target. -/
inductive Typedef where
  | bool
  | byte
  | char
  | uchar
  | short
  | ushort
  | int
  | uint
  | long
  | ulong
  | longlong
  | ulonglong
  | size_t
  | wchar_t
  deriving DecidableEq, Repr

/-- The sized integer type a typedef name is created from. -/
def Typedef.prototype (m : DataModel) : Typedef → Bool × IntWidth
  | .bool => (false, .w8)
  | .byte => (false, .w8)
  | .char => (true, .w8)
  | .uchar => (false, .w8)
  | .short => (true, .w16)
  | .ushort => (false, .w16)
  | .int => (true, .w32)
  | .uint => (false, .w32)
  | .long => (true, m.long.width)
  | .ulong => (false, m.long.width)
  | .longlong => (true, .w64)
  | .ulonglong => (false, .w64)
  | .size_t => (false, m.pointer.width)
  | .wchar_t => (true, m.wchar)

/-- The built-in types of `ref.types` other than `void`. -/
inductive Scalar where
  | sized (signed : Bool) (width : IntWidth)
  | named (name : Typedef)
  | float
  | double
  | Object
  | CString
  deriving DecidableEq, Repr

namespace Scalar

variable (m : DataModel)

/-- The C type whose `sizeof` and `alignof` `ref` reports for a built-in type. There is
none for `Object`. -/
def ctype : Scalar → Option CType
  | .sized signed width => some (.int signed width)
  | .named name => some (.int (name.prototype m).1 (name.prototype m).2)
  | .float => some .float
  | .double => some .double
  | .Object => none
  | .CString => some .pointer

def size (s : Scalar) : Nat :=
  match s.ctype m with
  | some c => c.size m
  | none => m.objectSize

def alignment (s : Scalar) : Nat :=
  match s.ctype m with
  | some c => c.alignment m
  | none => CType.pointer.alignment m

theorem isAlignment (s : Scalar) : IsAlignment (s.alignment m) := by
  unfold alignment
  split <;> exact CType.isAlignment m _

theorem size_pos (s : Scalar) : 0 < s.size m := by
  unfold size
  split
  · exact CType.size_pos m _
  · exact Nat.lt_of_lt_of_le m.pointer.bytes_pos m.object_pointer

theorem alignment_dvd_size (s : Scalar) : s.alignment m ∣ s.size m := by
  cases s with
  | Object => exact m.object_words
  | _ => exact CType.alignment_dvd_size m _

end Scalar

/-- A `ref` type: a built-in, `ref.refType` of another type, an unpacked
ref-struct with its field types in order, or a ref-array with a `fixedLength`. -/
inductive RefType where
  | void
  | scalar (s : Scalar)
  | pointer (pointee : RefType)
  | struct (fields : List RefType)
  | array (type : RefType) (fixedLength : Nat)
  deriving Repr

namespace RefType

/-- Structural induction with the hypothesis at every field. -/
@[elab_as_elim, induction_eliminator]
theorem induct {motive : RefType → Prop} (void : motive .void)
    (scalar : ∀ s, motive (.scalar s)) (pointer : ∀ pointee, motive pointee → motive (.pointer pointee))
    (struct : ∀ fields, (∀ field ∈ fields, motive field) → motive (.struct fields))
    (array : ∀ type fixedLength, motive type → motive (.array type fixedLength))
    (t : RefType) : motive t :=
  @RefType.rec motive (fun fields => ∀ field ∈ fields, motive field) void scalar pointer struct
    array (fun _ member => absurd member List.not_mem_nil)
    (fun _ _ head rest => List.forall_mem_cons.mpr ⟨head, rest⟩) t

/-! ### Layout

`ref-struct` places fields by the natural C rule. A field of a fixed-length
array type is placed element by element; a pointer is pointer-sized whatever it
points to. -/

variable (m : DataModel)

mutual

/-- The storage of a value of a type. -/
def shape : RefType → Shape
  | .void => .empty
  | .scalar s => .atom (s.size m) (s.alignment m)
  | .pointer _ => .atom (CType.pointer.size m) (CType.pointer.alignment m)
  | .struct fields => .sequence (fieldItems fields)
  | .array type fixedLength => .repeated fixedLength (shape type)

/-- What a struct's fields place, in order. -/
def fieldItems : List RefType → List Shape
  | [] => []
  | .array type fixedLength :: rest => List.replicate fixedLength (shape type) ++ fieldItems rest
  | field :: rest => shape field :: fieldItems rest

end

/-- The storage a value of the type needs: `ref.alloc` takes a pointer's worth of
bytes for an indirection above one, and the type's `size` otherwise. -/
def storageSize (t : RefType) : Nat := (t.shape m).size

def storageAlignment (t : RefType) : Nat := (t.shape m).alignment

/-- The `size` property of the type object. `ref.refType` creates the pointer type
with the pointee as its prototype and sets no `size`, so the pointee's is read. -/
def size : RefType → Nat
  | .pointer pointee => size pointee
  | t => t.storageSize m

/-- The `type` and the `fixedLength` that a type reads: an array's own and, through the
prototype again, those of the array that a pointer points to. -/
def elementType : RefType → Option (RefType × Nat)
  | .array type fixedLength => some (type, fixedLength)
  | .pointer pointee => elementType pointee
  | _ => none

/-- What one field places. -/
def items : RefType → List Shape
  | .array type fixedLength => List.replicate fixedLength (type.shape m)
  | field => [field.shape m]

variable {m}

theorem fieldItems_eq (fields : List RefType) : fieldItems m fields = fields.flatMap (items m) := by
  induction fields with
  | nil => rfl
  | cons field rest ih => cases field <;> simp [fieldItems, items, ih]

theorem shape_struct (fields : List RefType) :
    (struct fields).shape m = .sequence (fields.flatMap (items m)) := by
  rw [shape, fieldItems_eq]

/-- A type a struct field, an argument or a result can have: no part is `void`,
each struct has a member and each array an element. -/
def Placeable : RefType → Prop
  | .void => False
  | .scalar _ => True
  | .pointer _ => True
  | .struct fields => fields ≠ [] ∧ ∀ field ∈ fields, Placeable field
  | .array type fixedLength => 0 < fixedLength ∧ Placeable type

theorem placeable_struct {fields : List RefType} : (struct fields).Placeable ↔
    fields ≠ [] ∧ ∀ field ∈ fields, field.Placeable := by
  rw [Placeable]

theorem placeable_array {type : RefType} {fixedLength : Nat} :
    (array type fixedLength).Placeable ↔ 0 < fixedLength ∧ type.Placeable := by
  rw [Placeable]

/-- Every item a placeable field places is the storage of a placeable type. -/
theorem mem_items {field : RefType} {item : Shape} (member : item ∈ field.items m) :
    item = field.shape m ∨ ∃ type fixedLength, field = .array type fixedLength ∧ item = type.shape m := by
  cases field with
  | array type fixedLength => exact .inr ⟨type, fixedLength, rfl, (List.mem_replicate.mp member).2⟩
  | void => exact .inl (by simpa [items] using member)
  | scalar s => exact .inl (by simpa [items] using member)
  | pointer pointee => exact .inl (by simpa [items] using member)
  | struct fields => exact .inl (by simpa [items] using member)

theorem items_ne_nil {field : RefType} (placeable : field.Placeable) : field.items m ≠ [] := by
  cases field with
  | array type fixedLength =>
    have positive := (placeable_array.mp placeable).1
    simp [items, List.replicate_eq_nil_iff]
    omega
  | void => simp [items]
  | scalar s => simp [items]
  | pointer pointee => simp [items]
  | struct fields => simp [items]

theorem struct_items_ne_nil {fields : List RefType} (placeable : (struct fields).Placeable) :
    fields.flatMap (items m) ≠ [] := by
  obtain ⟨nonempty, each⟩ := placeable_struct.mp placeable
  obtain ⟨first, rest, rfl⟩ := List.exists_cons_of_ne_nil nonempty
  simp [items_ne_nil (each first (by simp))]

/-- Every alignment the natural rule produces is one a compiler gives. -/
theorem shape_isAlignment {t : RefType} (placeable : t.Placeable) :
    IsAlignment (t.shape m).alignment := by
  induction t with
  | void => simp [Placeable] at placeable
  | scalar s => simpa [shape, Shape.atom] using s.isAlignment m
  | pointer pointee ih => simpa [shape, Shape.atom] using CType.isAlignment m .pointer
  | struct fields ih =>
    rw [shape_struct]
    apply Shape.sequence_alignment (struct_items_ne_nil placeable)
    intro item member
    obtain ⟨field, inside, placed⟩ := List.mem_flatMap.mp member
    have aligned := ih field inside ((placeable_struct.mp placeable).2 field inside)
    rcases mem_items placed with rfl | ⟨type, fixedLength, rfl, rfl⟩
    · exact aligned
    · exact aligned
  | array type fixedLength ih => exact ih (placeable_array.mp placeable).2

/-- What a placeable struct places is the storage of a field, or of an element
of an array field. -/
theorem struct_item_cases {fields : List RefType} {item : Shape}
    (member : item ∈ fields.flatMap (items m)) :
    ∃ t : RefType, item = t.shape m ∧ (t ∈ fields ∨ ∃ fixedLength, array t fixedLength ∈ fields) := by
  obtain ⟨field, inside, placed⟩ := List.mem_flatMap.mp member
  rcases mem_items placed with rfl | ⟨type, fixedLength, rfl, rfl⟩
  · exact ⟨field, rfl, .inl inside⟩
  · exact ⟨type, rfl, .inr ⟨fixedLength, inside⟩⟩

theorem struct_item_isAlignment {fields : List RefType} (placeable : (struct fields).Placeable)
    {item : Shape} (member : item ∈ fields.flatMap (items m)) : IsAlignment item.alignment := by
  have each := (placeable_struct.mp placeable).2
  obtain ⟨t, rfl, inside | ⟨fixedLength, inside⟩⟩ := struct_item_cases member
  · exact shape_isAlignment (each t inside)
  · exact shape_isAlignment (placeable_array.mp (each _ inside)).2

/-- What a struct places is no larger than the struct. -/
theorem struct_item_size_le {fields : List RefType} (placeable : (struct fields).Placeable)
    {item : Shape} (member : item ∈ fields.flatMap (items m)) :
    item.size ≤ (struct fields).storageSize m := by
  rw [storageSize, shape_struct]
  exact Shape.size_le_sequence (fun _ inside => (struct_item_isAlignment placeable inside).pos) member

/-- A placeable type takes storage. -/
theorem storageSize_pos {t : RefType} (placeable : t.Placeable) : 0 < t.storageSize m := by
  induction t with
  | void => simp [Placeable] at placeable
  | scalar s => simpa [storageSize, shape, Shape.atom] using s.size_pos m
  | pointer pointee ih => simpa [storageSize, shape, Shape.atom] using CType.size_pos m .pointer
  | struct fields ih =>
    obtain ⟨item, placed⟩ := List.exists_mem_of_ne_nil _ (struct_items_ne_nil (m := m) placeable)
    refine Nat.lt_of_lt_of_le ?_ (struct_item_size_le placeable placed)
    have each := (placeable_struct.mp placeable).2
    obtain ⟨t, rfl, inside | ⟨fixedLength, inside⟩⟩ := struct_item_cases placed
    · exact ih t inside (each t inside)
    · exact Nat.pos_of_mul_pos_left (ih _ inside (each _ inside))
  | array type fixedLength ih =>
    obtain ⟨positive, element⟩ := placeable_array.mp placeable
    exact Nat.mul_pos positive (ih element)

theorem extents_items (field : RefType) :
    (field.items m).flatMap Shape.extents = (field.shape m).extents := by
  cases field with
  | array type fixedLength => rw [items, shape, Shape.extents_repeated]
  | void => simp [items]
  | scalar s => simp [items]
  | pointer pointee => simp [items]
  | struct fields => simp [items]

/-- The leaves of a struct are those of its fields, in order. -/
theorem extents_struct (fields : List RefType) :
    ((struct fields).shape m).extents = fields.flatMap fun field => (field.shape m).extents := by
  rw [shape_struct, Shape.extents_sequence, List.flatMap_assoc]
  simp only [extents_items]

theorem extents_ne_nil {t : RefType} (placeable : t.Placeable) : (t.shape m).extents ≠ [] := by
  induction t with
  | void => simp [Placeable] at placeable
  | scalar s => simp [shape]
  | pointer pointee ih => simp [shape]
  | struct fields ih =>
    obtain ⟨nonempty, each⟩ := placeable_struct.mp placeable
    obtain ⟨first, rest, rfl⟩ := List.exists_cons_of_ne_nil nonempty
    rw [extents_struct]
    simp [ih first (by simp) (each first (by simp))]
  | array type fixedLength ih =>
    obtain ⟨positive, element⟩ := placeable_array.mp placeable
    simp [shape, Shape.extents_repeated, List.flatMap_eq_nil_iff, ih element]
    omega

private theorem array_of_single_leaf {type : RefType} {fixedLength : Nat} {leaf : Nat × Nat}
    (placeable : type.Placeable) (single : ((array type fixedLength).shape m).extents = [leaf]) :
    fixedLength = 1 ∧ (type.shape m).extents = [leaf] := by
  rw [shape, Shape.extents_repeated] at single
  obtain ⟨item, alone, extent⟩ := eq_singleton_of_flatMap
    (fun item member => (List.mem_replicate.mp member).2 ▸ extents_ne_nil placeable) single
  have one : fixedLength = 1 := by simpa using congrArg List.length alone
  subst one
  exact ⟨rfl, by simpa using (List.cons.inj alone).1 ▸ extent⟩

/-- A type with a single leaf is laid out as that leaf alone. -/
theorem shape_of_single_leaf {t : RefType} (placeable : t.Placeable) {size alignment : Nat}
    (positive : 0 < alignment) (multiple : alignment ∣ size)
    (single : (t.shape m).extents = [(size, alignment)]) :
    t.shape m = .atom size alignment := by
  induction t with
  | void => simp [Placeable] at placeable
  | scalar s =>
    simp only [shape, Shape.extents_atom, List.cons.injEq, Prod.mk.injEq] at single
    rw [shape, single.1.1, single.1.2]
  | pointer pointee ih =>
    simp only [shape, Shape.extents_atom, List.cons.injEq, Prod.mk.injEq] at single
    rw [shape, single.1.1, single.1.2]
  | struct fields ih =>
    have each := (placeable_struct.mp placeable).2
    rw [extents_struct] at single
    obtain ⟨field, rfl, extent⟩ := eq_singleton_of_flatMap
      (fun field member => extents_ne_nil (each field member)) single
    have atomic := ih field (by simp) (each field (by simp)) extent
    have alone : field.items m = [field.shape m] := by
      cases field with
      | array type fixedLength =>
        have element := (placeable_array.mp (each (.array type fixedLength) (by simp))).2
        obtain ⟨rfl, _⟩ := array_of_single_leaf element extent
        rw [items, shape, Shape.repeated_one, List.replicate_one]
      | void => rfl
      | scalar s => rfl
      | pointer pointee => rfl
      | struct inner => rfl
    rw [shape_struct, List.flatMap_singleton, alone, atomic, Shape.sequence_atom positive multiple]
  | array type fixedLength ih =>
    have element := (placeable_array.mp placeable).2
    obtain ⟨rfl, extent⟩ := array_of_single_leaf element single
    rw [shape, ih element extent, Shape.repeated_one]

end RefType

end NodeFfi
