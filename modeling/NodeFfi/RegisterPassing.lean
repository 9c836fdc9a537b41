import NodeFfi.RegisterClasses
import NodeFfi.Interop

/-! How arguments travel from `ffi_call` to a closure on x86-64 Unix: `ffi_prep_cif_machdep`,
`ffi_call_int` and `ffi_closure_unix64_inner` of `x86/ffi64.c`, with the register traffic of
`x86/unix64.S` between them. Undefined behaviour and `abort` are `none`. -/
namespace NodeFfi
open AlignedLayout BlockMemory RegClass

/-! ## Preparing a cif -/

/-- The return kinds `UNIX64_RET_*`, in the order of their numbers. -/
inductive Unix64Ret where
  | void
  | uint8
  | uint16
  | uint32
  | sint8
  | sint16
  | sint32
  | int64
  | xmm32
  | xmm64
  | x87
  | x87_2
  | stXmm0Rax
  | stRaxXmm0
  | stXmm0Xmm1
  | stRaxRdx
  deriving DecidableEq, Repr

/-- `UNIX64_RET_VOID` to `UNIX64_RET_LAST`, and with them the order of the two jump tables. -/
def Unix64Ret.all : List Unix64Ret :=
  [.void, .uint8, .uint16, .uint32, .sint8, .sint16, .sint32, .int64, .xmm32, .xmm64, .x87, .x87_2,
    .stXmm0Rax, .stRaxXmm0, .stXmm0Xmm1, .stRaxRdx]

def Unix64Ret.code (ret : Unix64Ret) : BitVec 32 := BitVec.ofNat 32 (Unix64Ret.all.idxOf ret)

/-- `UNIX64_FLAG_RET_IN_MEM`. -/
def flagRetInMem : BitVec 32 := 1 <<< 10

/-- `UNIX64_FLAG_XMM_ARGS`. -/
def flagXmmArgs : BitVec 32 := 1 <<< 11

/-- `UNIX64_SIZE_SHIFT`. -/
def sizeShift : Nat := 12

def returnsInMemory (flags : BitVec 32) : Bool := flags &&& flagRetInMem != 0

def passesInXmm (flags : BitVec 32) : Bool := flags &&& flagXmmArgs != 0

def sse0 (classes : List RegClass) : Bool := (classes[0]?.map isSse).getD false

def sse1 (classes : List RegClass) : Bool := (classes[1]?.map isSse).getD false

/-- The two registers that a struct of these classes is returned in. -/
def pairKind (classes : List RegClass) : Unix64Ret :=
  if sse0 classes && (classes.length = 2 && sse1 classes) then .stXmm0Xmm1
  else if sse0 classes then .stXmm0Rax
  else if classes.length = 2 && sse1 classes then .stRaxXmm0
  else .stRaxRdx

/-- The flags of a struct that is returned in registers. -/
def structFlags (size : Nat) (classes : List RegClass) : BitVec 32 :=
  if size = 4 ∧ sse0 classes then Unix64Ret.xmm32.code
  else if size = 8 then if sse0 classes then Unix64Ret.xmm64.code else Unix64Ret.int64.code
  else (pairKind classes).code ||| BitVec.ofNat 32 size <<< sizeShift

/-- The switch over the return type. -/
def returnFlags : FfiType lp64.sizeBits → Option (BitVec 32)
  | .basic _ _ .void => some Unix64Ret.void.code
  | .basic _ _ (.value (.int false .w8)) => some Unix64Ret.uint8.code
  | .basic _ _ (.value (.int true .w8)) => some Unix64Ret.sint8.code
  | .basic _ _ (.value (.int false .w16)) => some Unix64Ret.uint16.code
  | .basic _ _ (.value (.int true .w16)) => some Unix64Ret.sint16.code
  | .basic _ _ (.value (.int false .w32)) => some Unix64Ret.uint32.code
  | .basic _ _ (.value (.int true .w32)) => some Unix64Ret.sint32.code
  | .basic _ _ (.value (.int _ .w64)) => some Unix64Ret.int64.code
  | .basic _ _ (.value .pointer) => some Unix64Ret.int64.code
  | .basic _ _ (.value .float) => some Unix64Ret.xmm32.code
  | .basic _ _ (.value .double) => some Unix64Ret.xmm64.code
  | .aggregate size alignment elements =>
    (examineArgument (.aggregate size alignment elements)).map fun e =>
      if e.classes = [] then Unix64Ret.void.code ||| flagRetInMem else structFlags size.toNat e.classes

/-- The registers and stack bytes taken so far; `bytes` is `argp` in the other two loops. -/
structure Counts where
  gprcount : Nat
  ssecount : Nat
  bytes : Nat
  deriving DecidableEq, Repr

/-- `MAX_GPR_REGS` and `MAX_SSE_REGS` allow for the registers the argument needs. -/
def Examined.inRegisters (e : Examined) (c : Counts) : Bool :=
  e.classes ≠ [] && c.gprcount + e.ngpr ≤ 6 && c.ssecount + e.nsse ≤ 8

/-- Stack arguments are always at least 8 byte aligned. -/
def stackAlignment {w : Nat} (type : FfiType w) : Nat := if type.alignment < 8 then 8 else type.alignment

/-- One turn of the loop of `ffi_prep_cif_machdep`. -/
def countArgument {w : Nat} (c : Counts) (type : FfiType w) : Option Counts := do
  let e ← examineArgument type
  if e.inRegisters c then
    some { c with gprcount := c.gprcount + e.ngpr, ssecount := c.ssecount + e.nsse }
  else
    some { c with bytes := roundUp c.bytes (stackAlignment type) + type.size.toNat }

/-- A pointer to a result in memory is the first integer argument. -/
def Counts.start (flags : BitVec 32) : Counts := ⟨if returnsInMemory flags then 1 else 0, 0, 0⟩

/-- The fields of a `ffi_cif` that `ffi_prep_cif_machdep` sets. -/
structure MachineCif where
  flags : BitVec 32
  bytes : Nat
  deriving DecidableEq, Repr

/-- `ffi_prep_cif_machdep` for `FFI_UNIX64`. The stack bytes are cut to an `unsigned`. -/
def ffiPrepCifMachdep (cif : Cif lp64) : Option MachineCif := do
  let flags ← returnFlags cif.rtype
  let c ← cif.atypes.foldlM countArgument (Counts.start flags)
  some ⟨if c.ssecount ≠ 0 then flags ||| flagXmmArgs else flags, roundUp c.bytes 8 % 2 ^ 32⟩

/-! ## The call -/

/-- Where `ffi_call_int` has got to. `registers` are `gpr` and `sse` of its
`struct register_args`, whose `rax` is `ssecount` in the end; `stack` is what follows it. -/
structure Frame extends Counts where
  registers : List Cell
  stack : List Cell

/-- The offset of `gpr[n]` in `struct register_args`. -/
def gprOffset (n : Nat) : Nat := 8 * n

/-- The offset of `sse[n]`. -/
def sseOffset (n : Nat) : Nat := 48 + 16 * n

/-- The width of the integer types that are sign-extended. -/
def narrowSigned {w : Nat} : FfiType w → Option Nat
  | .basic _ _ (.value (.int true .w8)) => some 1
  | .basic _ _ (.value (.int true .w16)) => some 2
  | .basic _ _ (.value (.int true .w32)) => some 4
  | _ => none

/-- An INTEGER eightbyte. The last branch copies all that is left of the argument. -/
def storeGpr {w : Nat} (type : FfiType w) (a : List Cell) (f : Frame) : Option Frame := do
  let registers ← match narrowSigned type with
    | some bytes => do
      let value ← slice a 0 bytes
      put f.registers (gprOffset f.gprcount) (value ++ List.replicate (8 - bytes) (extension true value))
    | none => do
      let zeroed ← put f.registers (gprOffset f.gprcount) (zeros 8)
      put zeroed (gprOffset f.gprcount) a
  some { f with gprcount := f.gprcount + 1, registers }

/-- An SSE eightbyte, or only the first `count` bytes of it. -/
def storeSse (count : Nat) (a : List Cell) (f : Frame) : Option Frame := do
  let value ← slice a 0 count
  let registers ← put f.registers (sseOffset f.ssecount) value
  some { f with ssecount := f.ssecount + 1, registers }

/-- The switch over the class of one eightbyte, from where it starts in the argument. -/
def storeEightbyte {w : Nat} (type : FfiType w) (c : RegClass) (a : List Cell) (f : Frame) : Option Frame :=
  match c with
  | .noClass | .sseUp => some f
  | .integer | .integerSI => storeGpr type a f
  | .sse | .sseDF => storeSse 8 a f
  | .sseSF => storeSse 4 a f
  | _ => none

/-- The loop over the eightbytes of an argument in registers. -/
def storeEightbytes {w : Nat} (type : FfiType w) : List RegClass → List Cell → Frame → Option Frame
  | [], _, f => some f
  | c :: rest, a, f => do
    let f ← storeEightbyte type c a f
    storeEightbytes type rest (a.drop 8) f

/-- One turn of the loop of `ffi_call_int`. -/
def passArgument {w : Nat} (f : Frame) (argument : FfiType w × List Cell) : Option Frame := do
  let (type, avalue) := argument
  let a ← slice avalue 0 type.size.toNat
  let e ← examineArgument type
  if e.inRegisters f.toCounts then storeEightbytes type e.classes a f
  else do
    let argp := roundUp f.bytes (stackAlignment type)
    let stack ← put f.stack argp a
    some { f with bytes := argp + type.size.toNat, stack }

/-- What memory and registers that nothing has been stored in hold. -/
structure Residue where
  registers : Nat → Cell
  stack : Nat → Cell
  xmm : Nat → Cell

/-- `ffi_call_int` up to its call of `ffi_call_unix64`. -/
def ffiCallInt (residue : Residue) (mc : MachineCif) (rvalue : Pointer)
    (arguments : List (FfiType lp64.sizeBits × List Cell)) : Option Frame := do
  let registers := (List.range 176).map residue.registers
  let stack := (List.range mc.bytes).map residue.stack
  let registers ← if returnsInMemory mc.flags then put registers (gprOffset 0) (pointerCells lp64 rvalue)
    else some registers
  arguments.foldlM passArgument { Counts.start mc.flags with registers, stack }

/-! ## The closure -/

/-- The registers as the closure's entry point saves them. `ffi_call_unix64` loads the SSE
registers only if there are any arguments in them, and only `ffi_closure_unix64_sse` saves
them. -/
def savedRegisters (residue : Residue) (flags : BitVec 32) (f : Frame) : List Cell :=
  f.registers.take 48 ++
    if passesInXmm flags && f.ssecount ≠ 0 then f.registers.drop 48 else (List.range 128).map residue.xmm

/-- `&reg_args->sse[ssecount]` or `&reg_args->gpr[gprcount]`. -/
def registerOffset (class_ : RegClass) (c : Counts) : Nat :=
  if class_.isSse then sseOffset c.ssecount else gprOffset c.gprcount

/-- `ssecount++` or `gprcount++`. -/
def Counts.next (c : Counts) (class_ : RegClass) : Counts :=
  if class_.isSse then { c with ssecount := c.ssecount + 1 } else { c with gprcount := c.gprcount + 1 }

/-- The eightbytes of an argument, copied next to each other. -/
def gather (registers : List Cell) : List RegClass → Counts → Option (List Cell × Counts)
  | [], c => some ([], c)
  | class_ :: rest, c => do
    let cells ← slice registers (registerOffset class_ c) 8
    let (others, c) ← gather registers rest (c.next class_)
    some (cells ++ others, c)

/-- One turn of the loop of `ffi_closure_unix64_inner`: the bytes of the argument at the
address it stores in `avalue[i]`. -/
def closureArgument {w : Nat} (registers stack : List Cell) (c : Counts) (type : FfiType w) :
    Option (List Cell × Counts) := do
  let e ← examineArgument type
  if e.inRegisters c then
    if e.classes.length = 1 || (e.classes.length = 2 && !(sse0 e.classes || sse1 e.classes)) then
      if sse0 e.classes then do
        let cells ← slice registers (sseOffset c.ssecount) type.size.toNat
        some (cells, { c with ssecount := c.ssecount + e.classes.length })
      else do
        let cells ← slice registers (gprOffset c.gprcount) type.size.toNat
        some (cells, { c with gprcount := c.gprcount + e.classes.length })
    else do
      let (a, c) ← gather registers e.classes c
      let cells ← slice a 0 type.size.toNat
      some (cells, c)
  else do
    let argp := roundUp c.bytes (stackAlignment type)
    let cells ← slice stack argp type.size.toNat
    some (cells, { c with bytes := argp + type.size.toNat })

/-- The loop of `ffi_closure_unix64_inner`: what is at each `avalue[i]`. -/
def closureArguments {w : Nat} (registers stack : List Cell) :
    Counts → List (FfiType w) → Option (List (List Cell))
  | _, [] => some []
  | c, type :: rest => do
    let (cells, c) ← closureArgument registers stack c type
    let others ← closureArguments registers stack c rest
    some (cells :: others)

/-- What reaches the function of a closure that `ffi_call` calls with these arguments. -/
def relay (residue : Residue) (mc : MachineCif) (rvalue : Pointer)
    (arguments : List (FfiType lp64.sizeBits × List Cell)) : Option (List (List Cell)) := do
  let f ← ffiCallInt residue mc rvalue arguments
  closureArguments (savedRegisters residue mc.flags f) f.stack (Counts.start mc.flags) (arguments.map Prod.fst)

end NodeFfi
