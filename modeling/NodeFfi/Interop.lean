import NodeFfi.JsValues
import NodeFfi.ResultBuffer

/-! What the marshalling code runs on: the memory both languages see, the state of
the Node-API environment, `ref` on the bytes of a buffer, and `ffi_call`. `ref` is a
separate package; the model takes what its types do with values as a parameter. -/
namespace NodeFfi
open BlockMemory

/-- One byte of memory. The bytes of a stored pointer are kept symbolic. -/
inductive Cell where
  | byte (value : BitVec 8)
  | fragment (pointer : Pointer) (index : Nat)
  deriving DecidableEq, Repr

def zeros (count : Nat) : List Cell := List.replicate count (.byte 0)

section
variable (m : DataModel)

def pointerCells (p : Pointer) : List Cell := (List.range m.pointer.bytes).map (.fragment p)

def decodePointer (cells : List Cell) : Option Pointer :=
  match cells with
  | .fragment p _ :: _ => if cells = pointerCells m p then some p else none
  | _ => none

/-- What is outside the modelled code: what the `set` and `get` methods of `ref`'s
types do with the bytes of a value, the text of a JavaScript value (an object's is
its own affair), and what a closure's return slot holds before the call. -/
structure Host where
  /-- The bytes after `type.set`, and what it throws. A failing `set` may have written. -/
  set : RefType → List Cell → JsVal → List Cell × Except JsVal Unit
  get : RefType → List Cell → Except JsVal JsVal
  toText : JsVal → Except JsVal String
  residue : Nat → Cell
  set_length : ∀ type cells value, (set type cells value).1.length = cells.length

/-- What `ffi_prep_cif` leaves in a `ffi_cif`. -/
structure Cif where
  rtype : FfiType m.sizeBits
  atypes : List (FfiType m.sizeBits)

/-- `lib/cif.js`, `CIF`; `none` where it throws. -/
def prepCif (rtype : RefType) (types : List RefType) : Option (Cif m) := do
  let rtype ← initialized (ffiType m rtype)
  let atypes ← types.mapM fun type => initialized (ffiType m type)
  some ⟨rtype, atypes⟩

/-- A return type and argument types with the `ffi_cif` prepared for them. -/
structure Signature where
  returnType : RefType
  argTypes : List RefType
  cif : Cif m
  prepared : prepCif m returnType argTypes = some cif

/-- A function queued by `process.nextTick`: the rethrow of `errorReportCallback`, or
`callback.bind(null, e)` of the asynchronous call numbered `call`. -/
inductive Tick where
  | rethrow (err : JsVal)
  | notify (call : Nat) (callback e : JsVal)
  deriving DecidableEq, Repr

/-- What `FFICallAsync` queues on the thread pool, for the call numbered `call`: a
native function of its arguments, and where they and the result are. -/
structure Request where
  call : Nat
  cif : Cif m
  fn : List (List Cell) → List Cell
  result : Pointer
  argsList : Pointer
  returnType : RefType
  callback : JsVal
  /-- `AsyncFFICall` has run. -/
  performed : Bool

structure World where
  memory : Memory Cell
  /-- The exception pending in the Node-API environment. -/
  pending : Option JsVal
  /-- The arguments of each call of a function given to `Callback`, oldest first. -/
  calls : List (List JsVal)
  ticks : List Tick
  requests : List (Request m)
  /-- How many asynchronous calls have been made. -/
  asyncCalls : Nat

/-- A fresh environment. -/
def World.initial : World m := ⟨[], none, [], [], [], 0⟩

/-- Native code on the loop thread. Undefined behaviour is `none`. -/
abbrev NativeM := StateT (World m) Option

/-- JavaScript code, which can throw. -/
abbrev JsM := ExceptT JsVal (NativeM m)

/-- What a code pointer leads to: it is handed the bytes of each argument and returns
the bytes of its result. -/
abbrev Native := List (List Cell) → NativeM m (List Cell)

end

variable {m : DataModel}

def World.setMemory (w : World m) (memory : Memory Cell) : World m := { w with memory }

@[simp] theorem World.setMemory_memory (w : World m) (memory : Memory Cell) :
    (w.setMemory memory).memory = memory := rfl

@[simp] theorem World.setMemory_self (w : World m) : w.setMemory w.memory = w := rfl

@[simp] theorem World.setMemory_setMemory (w : World m) (first second : Memory Cell) :
    (w.setMemory first).setMemory second = w.setMemory second := rfl

def undefinedUnless (defined : Prop) [Decidable defined] : NativeM m Unit :=
  fun w => if defined then some ((), w) else none

def allocate (cells : List Cell) : NativeM m Pointer :=
  fun w => some (next w.memory, w.setMemory (w.memory ++ [cells]))

def read (p : Pointer) (count : Nat) : NativeM m (List Cell) :=
  fun w => (load w.memory p count).map fun cells => (cells, w)

def write (p : Pointer) (cells : List Cell) : NativeM m Unit :=
  fun w => (store w.memory p cells).map fun memory => ((), w.setMemory memory)

def loadPointer (p : Pointer) : NativeM m Pointer := do
  let cells ← read p m.pointer.bytes
  match decodePointer m cells with
  | some target => return target
  | none => fun _ => none

/-- `process.nextTick`. -/
def nextTick (tick : Tick) : NativeM m Unit :=
  fun w => some ((), { w with ticks := w.ticks ++ [tick] })

/-- Native code called from JavaScript. -/
def native {α : Type} (x : NativeM m α) : JsM m α := ExceptT.lift x

/-- Returning or throwing what is already computed. -/
def completion {α : Type} (outcome : Except JsVal α) : JsM m α := ExceptT.mk (pure outcome)

/-! ## `ref` -/

structure Buffer where
  data : Pointer
  length : Nat
  deriving DecidableEq, Repr

/-- `Buffer.alloc`. -/
def bufferAlloc (size : Nat) : NativeM m Buffer := do
  let data ← allocate (zeros size)
  return ⟨data, size⟩

/-- `ref.writePointer`, which does not look at the buffer's length. -/
def writePointer (buffer : Buffer) (offset : Nat) (p : Pointer) : NativeM m Unit :=
  write (buffer.data.shift offset) (pointerCells m p)

/-- `ref.readPointer`: a buffer of `size` bytes at the pointer that is read. -/
def readPointer (buffer : Buffer) (offset size : Nat) : NativeM m Buffer := do
  let data ← loadPointer (buffer.data.shift offset)
  return ⟨data, size⟩

/-- `ref.get` and `ref.set` read and write a pointer without looking at the buffer's
length, and leave a type of indirection one to its methods, which stay inside it. -/
def admits (m : DataModel) : RefType → Buffer → Bool
  | .pointer _, _ => true
  | type, buffer => type.size m ≤ buffer.length

/-- `ref.set(buffer, 0, value, type)`. -/
def refSet (host : Host) (buffer : Buffer) (value : JsVal) (type : RefType) : JsM m Unit := do
  native (undefinedUnless (admits m type buffer))
  let old ← native (read buffer.data (derefReads m type))
  let (cells, outcome) := host.set type old value
  native (write buffer.data cells)
  completion outcome

/-- `ref.get(buffer, 0, type)`, which `buffer.deref()` calls. -/
def refGet (host : Host) (buffer : Buffer) (type : RefType) : JsM m JsVal := do
  native (undefinedUnless (admits m type buffer))
  let cells ← native (read buffer.data (derefReads m type))
  completion (host.get type cells)

/-- `ref.alloc(type, value)`. -/
def refAlloc (host : Host) (type : RefType) (value : JsVal) : JsM m Buffer := do
  let buffer ← native (bufferAlloc (derefReads m type))
  refSet host buffer value type
  return buffer

/-! ## `ffi_call` -/

/-- How many bytes a function returning this type returns. -/
def returnWidth {w : Nat} : FfiType w → Nat
  | .basic _ _ .void => 0
  | .basic size _ (.value _) => size.toNat
  | .aggregate size _ _ => size.toNat

/-- The byte an integer is extended with, after its last byte. -/
def extension (signed : Bool) (cells : List Cell) : Cell :=
  match cells.getLast? with
  | some (.byte last) => if signed && last.msb then .byte 255 else .byte 0
  | _ => .byte 0

/-- What `ffi_call` stores for a result: an integer or a pointer narrower than
`ffi_arg` is extended to it. -/
def returned (m : DataModel) (rtype : FfiType m.sizeBits) (cells : List Cell) : List Cell :=
  match rtype with
  | .basic _ _ (.value (.int signed _)) =>
    cells ++ List.replicate (m.ffiArg.bytes - cells.length) (extension signed cells)
  | .basic _ _ (.value .pointer) =>
    cells ++ List.replicate (m.ffiArg.bytes - cells.length) (extension false cells)
  | _ => cells

/-- The bytes each entry of the array at `avalue` points to, from entry `i` on. -/
def loadArguments (avalue : Pointer) : Nat → List (FfiType m.sizeBits) → NativeM m (List (List Cell))
  | _, [] => return []
  | i, atype :: rest => do
    let entry ← loadPointer (avalue.shift (i * m.pointer.bytes))
    let cells ← read entry atype.size.toNat
    let others ← loadArguments avalue (i + 1) rest
    return cells :: others

/-- libffi's `ffi_call`. -/
def ffiCall (cif : Cif m) (fn : Native m) (rvalue avalue : Pointer) : NativeM m Unit := do
  let arguments ← loadArguments avalue 0 cif.atypes
  let cells ← fn arguments
  undefinedUnless (cells.length = returnWidth cif.rtype)
  write rvalue (returned m cif.rtype cells)

/-- A function that does nothing but compute its result. -/
def ofFunction (fn : List (List Cell) → List Cell) : Native m := fun arguments => return fn arguments

/-- The exception left pending when a binding returns is thrown to its caller. -/
def throwPending : JsM m Unit := fun w =>
  match w.pending with
  | none => some (.ok (), w)
  | some e => some (.error e, { w with pending := none })

/-- `FFI::FFICall`, as JavaScript calls it. -/
def FFICall (cif : Cif m) (fn : Native m) (res fnargs : Buffer) : JsM m Unit := do
  native (ffiCall cif fn res.data fnargs.data)
  throwPending

end NodeFfi
