import NodeFfi.WindowsCalls

/-! A call of a closure through `ffi_call` on 32-bit x86, `x86/ffi.c` and `x86/sysv.S`: both sides
walk over the argument types, by the same rules of the calling convention, and find each argument
in a register or on the stack, which some conventions fill from its end. -/
namespace NodeFfi.I386
open AlignedLayout BlockMemory

variable {m : DataModel}

/-! ## Calling conventions -/

/-- `ffi_abi`. -/
inductive Abi where
  | sysv
  | thiscall
  | fastcall
  | stdcall
  | pascal
  | register
  | msCdecl
  deriving DecidableEq, Repr

inductive Reg where
  | eax
  | edx
  | ecx
  deriving DecidableEq, Repr

structure AbiParams where
  /-- `dir < 0`. -/
  downward : Bool
  staticChain : Reg
  regs : List Reg

def Abi.params : Abi → AbiParams
  | .sysv => ⟨false, .ecx, []⟩
  | .thiscall => ⟨false, .eax, [.ecx]⟩
  | .fastcall => ⟨false, .eax, [.ecx, .edx]⟩
  | .stdcall => ⟨false, .ecx, []⟩
  | .pascal => ⟨true, .ecx, []⟩
  | .register => ⟨true, .ecx, [.eax, .edx, .ecx]⟩
  | .msCdecl => ⟨false, .ecx, []⟩

/-- How libffi was built. -/
structure Build where
  /-- `X86` is defined. -/
  x86 : Bool
  /-- `STACK_ALIGN` rounds up, other than with a Microsoft compiler. -/
  aligned : Bool

def Build.stackAlign (build : Build) (bytes : Nat) : Nat := if build.aligned then roundUp bytes 16 else bytes

/-! ## `ffi_prep_cif_machdep` -/

/-- The `flags` of a `ffi_cif`; no type here is a `long double`. -/
inductive Ret where
  | float
  | double
  | sint8
  | sint16
  | uint8
  | uint16
  | int64
  | int32
  | void
  | structPop
  | structArg
  | struct1B
  | struct2B
  deriving DecidableEq, Repr

def ctypeRet : CType → Ret
  | .float => .float
  | .double => .double
  | .int false .w8 => .uint8
  | .int false .w16 => .uint16
  | .int true .w8 => .sint8
  | .int true .w16 => .sint16
  | .int _ .w32 => .int32
  | .int _ .w64 => .int64
  | .pointer => .int32

/-- The label `do_struct`. -/
def structRet : Abi → Ret
  | .thiscall | .fastcall | .stdcall | .msCdecl => .structArg
  | .sysv | .pascal | .register => .structPop

def flags {w : Nat} (build : Build) (abi : Abi) : FfiType w → Ret
  | .basic _ _ .void => .void
  | .basic _ _ (.value c) => ctypeRet c
  | .aggregate size _ _ =>
    if build.x86 then structRet abi
    else
      match size.toNat with
      | 1 => .struct1B
      | 2 => .struct2B
      | 4 => .int32
      | 8 => .int64
      | _ => structRet abi

/-- The caller passes a pointer for the result. -/
def Ret.inMemory (ret : Ret) : Bool := ret = .structArg || ret = .structPop

/-- The loop over the argument types. -/
def argumentBytes (bytes : Nat) (atypes : List (FfiType m.sizeBits)) : Nat :=
  atypes.foldl (fun bytes t => roundUp bytes t.alignment + roundUp t.size.toNat 4) bytes

def prepBytes (build : Build) (abi : Abi) (cif : Cif m) : Nat :=
  argumentBytes (if (flags build abi cif.rtype).inMemory then 4 else 0) cif.atypes

/-! ## `ffi_call_int` -/

/-- The registers and the stack that a function is called with. -/
structure Frame where
  regs : Reg → List Cell
  stack : List Cell

/-- `narg_reg`, and `argp` from the start of the stack. -/
structure Walk where
  nargReg : Nat
  argp : Nat

/-- What is around a call. -/
structure Context where
  /-- The address of the stack. -/
  base : Nat
  regs : Reg → List Cell
  stack : Nat → Cell
  /-- The address of the closure. -/
  codeloc : List Cell
  retaddr : List Cell
  /-- What the closure does not set of the registers that it returns. -/
  returns : ReturnRegs
  /-- `rettemp`. -/
  rettemp : List Cell

/-- The pointer for the result, before the arguments. -/
def passResult (abi : Abi) (ret : Ret) (rvalue : List Cell) (frame : Frame) : Option (Walk × Frame) :=
  let argp := if abi.params.downward then frame.stack.length else 0
  let push := do
    -- past the arguments is the frame of the call
    let stack ← put frame.stack argp rvalue
    some (⟨0, argp + 4⟩, { frame with stack })
  match ret with
  | .structArg =>
    match abi.params.regs with
    | r :: _ => some (⟨1, argp⟩, { frame with regs := Function.update frame.regs r rvalue })
    | [] => push
  | .structPop => push
  | _ => some (⟨0, argp⟩, frame)

/-- An argument that is not a struct and has at most four bytes. -/
def smallCode {w : Nat} : FfiType w → Option FfiTypeCode
  | .basic size _ code => if size.toNat ≤ 4 then some code else none
  | .aggregate _ _ _ => none

def extended (signed : Bool) (cells : List Cell) : List Cell :=
  cells ++ List.replicate (4 - cells.length) (extension signed cells)

/-- `extend_basic_type`, which aborts on what is left. -/
def extendBasicType (arg : Pointer) : FfiTypeCode → NativeM m (List Cell)
  | .value (.int signed .w8) => do return extended signed (← read arg 1)
  | .value (.int signed .w16) => do return extended signed (← read arg 2)
  | .value (.int _ .w32) | .value .float | .value .pointer => read arg 4
  | .value (.int _ .w64) | .value .double | .void => defined none

/-- The register for an argument of at most four bytes, if there is one left. -/
def nextReg (abi : Abi) (nargReg : Nat) (code : FfiTypeCode) : Option Reg :=
  if code = .value .float then none else abi.params.regs[nargReg]?

/-- Where `size` bytes go on the stack, and `argp` after that. -/
def nextSlot (abi : Abi) (base argp size align : Nat) : Option (Nat × Nat) :=
  if abi.params.downward then
    if size ≤ argp then some (argp - size, argp - size) else none
  else some (roundUp (base + argp) align - base, roundUp (base + argp) align - base + size)

/-- After an argument of these types there are no more registers. -/
def endsRegs {w : Nat} (abi : Abi) : FfiType w → Bool
  | .aggregate _ _ _ => abi = .thiscall || abi = .fastcall
  | .basic _ _ (.value (.int _ .w64)) => abi = .thiscall || abi = .fastcall
  | .basic _ _ _ => false

def largeAlign {w : Nat} : FfiType w → Nat
  | .aggregate _ alignment _ => if alignment ≥ 16 then 16 else 4
  | .basic _ _ _ => 4

/-- The body of the loop over the arguments. -/
def pass (abi : Abi) (base : Nat) (ty : FfiType m.sizeBits) (valp : Pointer) (walk : Walk) (frame : Frame) :
    NativeM m (Walk × Frame) :=
  match smallCode ty with
  | some code => do
    let val ← extendBasicType valp code
    match nextReg abi walk.nargReg code with
    | some r => return (⟨walk.nargReg + 1, walk.argp⟩, { frame with regs := Function.update frame.regs r val })
    | none => do
      let (offset, argp) ← defined (nextSlot abi base walk.argp 4 1)
      let stack ← defined (put frame.stack offset val)
      return (⟨walk.nargReg, argp⟩, { frame with stack })
  | none => do
    let nargReg := if endsRegs abi ty then 2 else walk.nargReg
    let (offset, argp) ← defined (nextSlot abi base walk.argp (roundUp ty.size.toNat 4) (largeAlign ty))
    let cells ← read valp ty.size.toNat
    let stack ← defined (put frame.stack offset cells)
    return (⟨nargReg, argp⟩, { frame with stack })

/-- The loop, from entry `i` of `avalue` on. -/
def passAll (abi : Abi) (base : Nat) (avalue : Pointer) :
    Nat → List (FfiType m.sizeBits) → Walk → Frame → NativeM m Frame
  | _, [], _, frame => return frame
  | i, ty :: rest, walk, frame => do
    let valp ← loadPointer (avalue.shift (i * m.pointer.bytes))
    let (walk, frame) ← pass abi base ty valp walk frame
    passAll abi base avalue (i + 1) rest walk frame

/-! ## The closure -/

/-- Which address the closure's code takes for its closure. The trampoline passes it in `%eax`, or
for `FFI_REGISTER` pushes it on the return address; but `ffi_closure_REGISTER` takes the word on
top for the return address and the one below it for the closure. -/
def closureLoaded (abi : Abi) (codeloc retaddr : List Cell) : List Cell :=
  if abi = .register then retaddr else codeloc

/-- `FFI_CLOSURE_SAVE_REGS`. -/
def saveRegs (abi : Abi) (codeloc : List Cell) (frame : Frame) : Frame :=
  if abi = .register then frame else { frame with regs := Function.update frame.regs .eax codeloc }

/-- Where `ffi_closure_inner` has the result written, and the walk from there: `none` is its own
`rettemp`. -/
def receiveResult (m : DataModel) (abi : Abi) (ret : Ret) (frame : Frame) : Option (Option Pointer × Walk) :=
  let argp := if abi.params.downward then frame.stack.length else 0
  let pop := do
    let address ← (slice frame.stack argp 4).bind (decodePointer m)
    some (some address, ⟨0, argp + 4⟩)
  match ret with
  | .structArg =>
    match abi.params.regs with
    | r :: _ => do
      let address ← (slice (frame.regs r) 0 4).bind (decodePointer m)
      some (some address, ⟨1, argp⟩)
    | [] => pop
  | .structPop => pop
  | _ => some (none, ⟨0, argp⟩)

/-- The body of the loop of `ffi_closure_inner`: the bytes at `valp`. -/
def receive (abi : Abi) (base : Nat) (ty : FfiType m.sizeBits) (walk : Walk) (frame : Frame) :
    Option (List Cell × Walk) :=
  match smallCode ty with
  | some code =>
    match nextReg abi walk.nargReg code with
    | some r => do
      let cells ← slice (frame.regs r) 0 ty.size.toNat
      some (cells, ⟨walk.nargReg + 1, walk.argp⟩)
    | none => do
      let (offset, argp) ← nextSlot abi base walk.argp 4 1
      let cells ← slice frame.stack offset ty.size.toNat
      some (cells, ⟨walk.nargReg, argp⟩)
  | none => do
    let nargReg := if endsRegs abi ty then 2 else walk.nargReg
    let (offset, argp) ← nextSlot abi base walk.argp (roundUp ty.size.toNat 4) (largeAlign ty)
    let cells ← slice frame.stack offset ty.size.toNat
    some (cells, ⟨nargReg, argp⟩)

def receiveAll (abi : Abi) (base : Nat) : List (FfiType m.sizeBits) → Walk → Frame → Option (List (List Cell))
  | [], _, _ => some []
  | ty :: rest, walk, frame => do
    let (cells, walk) ← receive abi base ty walk frame
    let others ← receiveAll abi base rest walk frame
    some (cells :: others)

/-! ## Results -/

/-- The closure's `load_table`, where `%eax` has the first word of `rettemp` already. `xmm0` stands
for the register on top of the floating-point stack. -/
def loadTable (ret : Ret) (rettemp : List Cell) (r : ReturnRegs) : Option ReturnRegs := do
  let eax ← slice rettemp 0 4
  match ret with
  | .float => some { r with rax := eax, xmm0 := eax }
  | .double => (slice rettemp 0 8).map fun v => { r with rax := eax, xmm0 := v }
  | .sint8 => (slice eax 0 1).map fun v => { r with rax := extended true v }
  | .sint16 => (slice eax 0 2).map fun v => { r with rax := extended true v }
  | .uint8 | .struct1B => (slice eax 0 1).map fun v => { r with rax := extended false v }
  | .uint16 | .struct2B => (slice eax 0 2).map fun v => { r with rax := extended false v }
  | .int64 => (slice rettemp 4 4).map fun v => { r with rax := eax, rdx := v }
  | .int32 | .void | .structPop | .structArg => some { r with rax := eax }

/-- `store_table` of `ffi_call_i386`: what is written at `rvalue`. `x87` is what a load to the
floating-point stack and a store from it make of a value. -/
def storeTable (x87 : List Cell → List Cell) (ret : Ret) (r : ReturnRegs) : Option (List Cell) :=
  match ret with
  | .float | .double => some (x87 r.xmm0)
  | .sint8 => (slice r.rax 0 1).map (extended true)
  | .sint16 => (slice r.rax 0 2).map (extended true)
  | .uint8 => (slice r.rax 0 1).map (extended false)
  | .uint16 => (slice r.rax 0 2).map (extended false)
  | .int64 => some (r.rax ++ r.rdx)
  | .int32 => some r.rax
  | .void | .structPop | .structArg => some []
  | .struct1B => slice r.rax 0 1
  | .struct2B => slice r.rax 0 2

/-- What the closure's function returned, in memory or by way of registers. -/
def returnResult (x87 : List Cell → List Cell) (ret : Ret) (context : Context) (address : Option Pointer)
    (rvalue : Pointer) (cells : List Cell) : NativeM m Unit :=
  match address with
  | some address => write address cells
  | none => do
    let r ← defined (loadTable ret ((cells ++ context.rettemp).take 16) context.returns)
    let stored ← defined (storeTable x87 ret r)
    write rvalue stored

/-- `ffi_call` of a closure whose function is `fn`. -/
def ffiCallI386 (build : Build) (abi : Abi) (x87 : List Cell → List Cell) (context : Context) (cif : Cif m)
    (fn : Native m) (rvalue avalue : Pointer) : NativeM m Unit := do
  let ret := flags build abi cif.rtype
  let frame : Frame :=
    { regs := Function.update context.regs abi.params.staticChain (zeros 4)
      stack := (List.range (build.stackAlign (prepBytes build abi cif) % 2 ^ 32)).map context.stack }
  let (walk, frame) ← defined (passResult abi ret (pointerCells m rvalue) frame)
  let frame ← passAll abi context.base avalue 0 cif.atypes walk frame
  undefinedUnless (closureLoaded abi context.codeloc context.retaddr = context.codeloc)
  let frame := saveRegs abi context.codeloc frame
  let (address, walk) ← defined (receiveResult m abi ret frame)
  let arguments ← defined (receiveAll abi context.base cif.atypes walk frame)
  let cells ← fn arguments
  undefinedUnless (cells.length = returnWidth cif.rtype)
  returnResult x87 ret context address rvalue cells

end NodeFfi.I386
