import NodeFfi.FfiTypes
import NodeFfi.PartialPrograms
import Mathlib.Logic.Relation

/-! `Type` down to the memory that it hands to libffi: an `ffi_type` and its `elements` array
are Buffers, which hold the addresses of other Buffers and keep them from being collected.
Types refer to each other as objects; the fields of a struct type are looked up by its number. -/
namespace NodeFfi.TypeMemory

open PartialPrograms Relation

/-- A type as a field, an array or an argument refers to it. -/
inductive TypeRef where
  | void
  | scalar (s : Scalar)
  | pointer (target : TypeRef)
  | array (type : TypeRef) (fixedLength : Nat)
  | struct (object : Nat)
  /-- With neither an `ffi_type` nor elements or fields, and of no known name. -/
  | unknown
  deriving DecidableEq

/-- The `type` and the `fixedLength` that a type reads. `ref.refType` returns an object whose
prototype is the type pointed to. -/
def TypeRef.elementType : TypeRef → Option (TypeRef × Nat)
  | .array type fixedLength => some (type, fixedLength)
  | .pointer target => target.elementType
  | _ => none

/-- What `Type` resolves for a field, and how many elements that makes. -/
def TypeRef.element (field : TypeRef) : TypeRef × Nat :=
  match field.elementType with
  | some (type, fixedLength) => if fixedLength > 0 then (type, fixedLength) else (field, 1)
  | none => (field, 1)

theorem element_count (field : TypeRef) :
    field.element.2 = match field.elementType with
      | some (_, fixedLength) => if fixedLength > 0 then fixedLength else 1
      | none => 1 := by
  rw [TypeRef.element]
  cases field.elementType with
  | none => rfl
  | some array =>
    dsimp only
    split <;> rfl

theorem element_count_pos (field : TypeRef) : 0 < field.element.2 := by
  rw [element_count]
  split
  · split <;> omega
  · exact Nat.one_pos

theorem element_array {fixedLength : Nat} (type : TypeRef) (positive : 0 < fixedLength) :
    (TypeRef.array type fixedLength).element = (type, fixedLength) := if_pos positive

/-- A type that reads no `fixedLength` is one element. -/
theorem element_self {field : TypeRef} (none_of_it : ∀ array ∈ field.elementType, ¬ array.2 > 0) :
    field.element = (field, 1) := by
  rw [TypeRef.element]
  cases found : field.elementType with
  | none => rfl
  | some array => exact if_neg (none_of_it array found)

/-- The first struct type is that of a field of the second, or of the elements of one. -/
def Below (fields : Nat → List TypeRef) (n object : Nat) : Prop :=
  ∃ field ∈ fields object, field.element.1 = .struct n

theorem not_below_self {r : Nat → Nat → Prop} {n : Nat} (finite : Acc r n) : ¬ TransGen r n n := by
  have deep := finite.transGen
  clear finite
  induction deep with
  | intro n _ further => exact fun cycle => further n cycle cycle

theorem acc_of_fields {fields : Nat → List TypeRef} {object : Nat}
    (each : ∀ field ∈ fields object, ∀ n, field.element.1 = .struct n → Acc (Below fields) n) :
    Acc (Below fields) object := by
  constructor
  rintro n ⟨field, member, same⟩
  exact each field member n same

abbrev BufferId := Nat

/-- A Buffer: the pointers stored in it in this order, each with its offset and the Buffer whose
address it is (`none` is `NULL`), and the Buffers that it references in JavaScript. -/
structure Buffer where
  length : Nat
  stores : List (Nat × Option BufferId)
  references : List BufferId
  deriving DecidableEq

/-- The Buffers in the order of their allocation, and the struct types' `ffi_type` properties. -/
structure Memory where
  buffers : List Buffer
  ffi_type : Nat → Option BufferId

/-- A failed assertion, the end of the stack, what `ref.alloc` throws at a value, or the error
for a status of `ffi_prep_cif`. -/
inductive Thrown where
  | assertion
  | rangeError
  | value
  | status
  deriving DecidableEq, Repr

abbrev JsM := ExceptT Thrown (StateT Memory Option)

/-- `Buffer.alloc(length)`. -/
def bufferAlloc (length : Nat) : JsM BufferId := fun memory =>
  some (.ok memory.buffers.length, { memory with buffers := memory.buffers ++ [⟨length, [], []⟩] })

/-- What is done with one Buffer. -/
def Memory.update (memory : Memory) (buffer : BufferId) (change : Buffer → Buffer) : Memory :=
  { memory with buffers := memory.buffers.modify buffer change }

/-- The assignment to `type.ffi_type`. -/
def Memory.cache (memory : Memory) (object : Nat) (ffi_type : BufferId) : Memory :=
  { memory with ffi_type := Function.update memory.ffi_type object (some ffi_type) }

theorem Memory.cache_self (memory : Memory) (object : Nat) (ffi_type : BufferId) :
    (memory.cache object ffi_type).ffi_type object = some ffi_type := Function.update_self ..

theorem Memory.cache_other {object n : Nat} (memory : Memory) (ffi_type : BufferId) (other : n ≠ object) :
    (memory.cache object ffi_type).ffi_type n = memory.ffi_type n := Function.update_of_ne other ..

def Buffer.write (buffer : Buffer) (offset : Nat) (target : Option BufferId) : Buffer :=
  { buffer with
    stores := buffer.stores ++ [(offset, target)]
    references := buffer.references ++ target.toList }

/-- `buffer.writePointer(target, offset)`, or the assignment to a pointer field of an instance
in the buffer. -/
def writePointer (buffer : BufferId) (offset : Nat) (target : Option BufferId) : JsM Unit :=
  modify fun memory => memory.update buffer fun b => b.write offset target

/-- The constants of the platform, and the Buffers in `bindings.FFI_TYPES`. -/
structure Bindings (m : DataModel) where
  predefined : FfiTypeCode → BufferId
  FFI_TYPE_SIZE : Nat
  /-- Where `elements` is in an `ffi_type`. -/
  elements : Nat

section
variable {m : DataModel} (B : Bindings m)

def Bindings.pointer : BufferId := B.predefined (.value .pointer)

/-- The first pass over a struct's fields. -/
def numElements : List TypeRef → Nat
  | [] => 0
  | field :: rest =>
    match field.elementType with
    | some (_, fixedLength) => (if fixedLength > 0 then fixedLength else 1) + numElements rest
    | none => 1 + numElements rest

/-- The loop over the elements of an array field: the index after it. -/
def writeElement (elements ffi_type_ptr : BufferId) : Nat → Nat → JsM Nat
  | index, 0 => return index
  | index, count + 1 => do
    writePointer elements (index * m.pointer.bytes) (some ffi_type_ptr)
    writeElement elements ffi_type_ptr (index + 1) count

/-- The second pass, with `resolve` for `Type`: the index after it. -/
def writeElements (resolve : TypeRef → JsM BufferId) (elements : BufferId) : Nat → List TypeRef → JsM Nat
  | index, [] => return index
  | index, field :: rest => do
    let ffi_type_ptr ← resolve field.element.1
    let index ← writeElement (m := m) elements ffi_type_ptr index field.element.2
    writeElements resolve elements index rest

/-- `lib/type.js`, `Type`, on a stack for `depth` nested calls. -/
def typeAt (fields : Nat → List TypeRef) : Nat → TypeRef → JsM BufferId
  | 0, _ => throw .rangeError
  | _ + 1, .void => return B.predefined .void
  | _ + 1, .scalar s => return B.predefined (.value (s.ffiType m))
  | _ + 1, .pointer _ => return B.pointer
  | _ + 1, .array _ _ => return B.pointer
  | _ + 1, .unknown => throw .assertion
  | depth + 1, .struct object => do
    match (← (get : JsM Memory)).ffi_type object with
    | some ffi_type => return ffi_type
    | none =>
      let ffi_type ← bufferAlloc B.FFI_TYPE_SIZE
      let elements ← bufferAlloc (m.pointer.bytes * (numElements (fields object) + 1))
      writePointer ffi_type B.elements (some elements)
      let index ← writeElements (m := m) (typeAt fields depth) elements 0 (fields object)
      writePointer elements (index * m.pointer.bytes) none
      modify fun memory => memory.cache object ffi_type
      return ffi_type

end

end NodeFfi.TypeMemory
