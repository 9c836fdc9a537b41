import NodeFfi.RefTypes

/-! The encoding of `ref` types as libffi `ffi_type` trees: `lib/type.js`, the
`FFI_TYPES` table of `ffi.cc` as `lib/ffi.js` installs it, and libffi's own
`initialize_aggregate`, which fills in sizes and alignments that `Type` leaves
zero. Sizes are machine words of the target's `size_t`. -/
namespace NodeFfi
open AlignedLayout

/-- The width of `size_t` in bits. -/
def DataModel.sizeBits (m : DataModel) : Nat := 8 * m.pointer.bytes

/-- The `type` member of an `ffi_type`. -/
inductive FfiTypeCode where
  | void
  | value (c : CType)
  deriving DecidableEq, Repr

/-- An `ffi_type`: a predefined one, whose `elements` is `NULL`, or a
`FFI_TYPE_STRUCT` with its `NULL`-terminated `elements` array. -/
inductive FfiType (w : Nat) where
  | basic (size : BitVec w) (alignment : Nat) (type : FfiTypeCode)
  | aggregate (size : BitVec w) (alignment : Nat) (elements : List (FfiType w))

namespace FfiType

variable {w : Nat}

def size : FfiType w → BitVec w
  | .basic size _ _ => size
  | .aggregate size _ _ => size

def alignment : FfiType w → Nat
  | .basic _ alignment _ => alignment
  | .aggregate _ alignment _ => alignment

/-- Structural induction with the hypothesis at every element. -/
@[elab_as_elim, induction_eliminator]
theorem induct {motive : FfiType w → Prop}
    (basic : ∀ size alignment type, motive (.basic size alignment type))
    (aggregate : ∀ size alignment elements, (∀ element ∈ elements, motive element) →
      motive (.aggregate size alignment elements))
    (t : FfiType w) : motive t :=
  @FfiType.rec w motive (fun elements => ∀ element ∈ elements, motive element) basic aggregate
    (fun _ member => absurd member List.not_mem_nil)
    (fun _ _ head rest => List.forall_mem_cons.mpr ⟨head, rest⟩) t

end FfiType

/-- `ffi_common.h`, `FFI_ALIGN`. -/
def ffiAlign {w : Nat} (v : BitVec w) (a : Nat) : BitVec w := roundUpBits v (BitVec.ofNat w a)

mutual

/-- `prep_cif.c`, `initialize_aggregate`; `none` is `FFI_BAD_TYPEDEF`. -/
def initializeAggregate {w : Nat} : FfiType w → Option (FfiType w)
  | .basic _ _ _ => none
  | .aggregate _ _ elements =>
    match walkElements elements 0 0 with
    | none => none
    | some (size, alignment, walked) =>
      let size := ffiAlign size alignment
      if size = 0 then none else some (.aggregate size alignment walked)

/-- The `while ((*ptr) != NULL)` loop, from a running size and alignment. -/
def walkElements {w : Nat} : List (FfiType w) → BitVec w → Nat →
    Option (BitVec w × Nat × List (FfiType w))
  | [], size, alignment => some (size, alignment, [])
  | element :: rest, size, alignment =>
    match (if element.size = 0 then initializeAggregate element else some element) with
    | none => none
    | some element =>
      let size := ffiAlign size element.alignment
      let alignment := if alignment > element.alignment then alignment else element.alignment
      match walkElements rest (size + element.size) alignment with
      | none => none
      | some (size, alignment, walked) => some (size, alignment, element :: walked)

end

/-- `ffi_prep_cif_core`, for the return type and for each argument type. -/
def initialized {w : Nat} (t : FfiType w) : Option (FfiType w) :=
  if t.size = 0 then initializeAggregate t else some t

mutual

/-- The scalar leaves of an initialised type at the offsets libffi gives them. -/
def FfiType.leaves {w : Nat} : FfiType w → List Leaf
  | .basic size alignment _ => [⟨0, size.toNat, alignment⟩]
  | .aggregate _ _ elements => elementLeaves elements 0

/-- The offsets are those `initialize_aggregate` stores in `*offsets++`. -/
def elementLeaves {w : Nat} : List (FfiType w) → BitVec w → List Leaf
  | [], _ => []
  | element :: rest, size =>
    element.leaves.map (Leaf.shift (ffiAlign size element.alignment).toNat) ++
      elementLeaves rest (ffiAlign size element.alignment + element.size)

end

section
variable (m : DataModel)

/-- A predefined `ffi_type` of `types.c`. -/
def CType.ffiType (c : CType) : FfiType m.sizeBits :=
  .basic (BitVec.ofNat _ (c.size m)) (c.alignment m) (.value c)

/-- `ffi_type_void`, whose size and alignment are fake but not zero. -/
def ffiTypeVoid : FfiType m.sizeBits := .basic 1 1 .void

/-- `ffi.h`: `ffi_type_slong` and `ffi_type_ulong`. -/
def ffiTypeLong (signed : Bool) : CType :=
  match m.long with
  | .four => .int signed .w32
  | .eight => .int signed .w64

/-- The `ffi_type` that `ffi.js` puts on a typedef'd type itself: the entry of
`FFI_TYPES` under the type's name, or one of the assignments after that loop.
`bool`, `byte` and `wchar_t` get none. -/
def Typedef.ownFfiType : Typedef → Option CType
  | .bool => none
  | .byte => none
  | .char => some (.int true .w8)
  | .uchar => some (.int false .w8)
  | .short => some (.int true .w16)
  | .ushort => some (.int false .w16)
  | .int => some (.int true .w32)
  | .uint => some (.int false .w32)
  | .long => some (match m.long with | .four => .int true .w32 | .eight => .int true .w64)
  | .ulong => some (match m.long with | .four => .int false .w32 | .eight => .int false .w64)
  | .longlong => some (ffiTypeLong m true)
  | .ulonglong => some (ffiTypeLong m false)
  | .size_t => some .pointer
  | .wchar_t => none

/-- Reading `type.ffi_type` on a built-in: its own, or its prototype's. -/
def Scalar.ffiType : Scalar → CType
  | .sized signed width => .int signed width
  | .named name =>
    (name.ownFfiType m).getD (.int (name.prototype m).1 (name.prototype m).2)
  | .float => .float
  | .double => .double
  | .Object => .pointer
  | .CString => .pointer

mutual

/-- `lib/type.js`, `Type`, on types none of which has a cached `ffi_type` besides
the built-ins. An array has a `type` and no `ffi_type`, so it is a pointer. -/
def ffiType : RefType → FfiType m.sizeBits
  | .void => ffiTypeVoid m
  | .scalar s => (s.ffiType m).ffiType m
  | .pointer _ => CType.pointer.ffiType m
  | .array _ _ => CType.pointer.ffiType m
  | .struct fields => .aggregate 0 0 (fieldElements fields)

/-- The second pass of `Type` over a struct's fields, which writes `elements`. -/
def fieldElements : List RefType → List (FfiType m.sizeBits)
  | [] => []
  | field :: rest => (arrayElements field).getD [ffiType field] ++ fieldElements rest

/-- As many times `Type(field.type.type)` as the `fixedLength` that the field's type reads,
if that is above 0. The prototype of a pointer type is the type pointed to, so a pointer
to an array reads the array's `fixedLength` and `type`. -/
def arrayElements : RefType → Option (List (FfiType m.sizeBits))
  | .array type fixedLength =>
    if fixedLength > 0 then some (List.replicate fixedLength (ffiType type)) else none
  | .pointer pointee => arrayElements pointee
  | _ => none

end

end

end NodeFfi
