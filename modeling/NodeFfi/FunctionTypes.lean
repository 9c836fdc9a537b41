import NodeFfi.MarshallingRoundTrip

/-! `lib/function.js`: the type of a C function pointer, whose `set` makes a callback of a
function and whose `get` makes a proxy of a pointer. Both convert arguments and results by
their types, and these can be function types again. Code at an address and function objects
are kept in tables; what scripts and C functions do is a parameter. -/
namespace NodeFfi.FunctionTypes

open BlockMemory JsVal PartialPrograms

/-- A type of `ref` and its relatives, or an `ffi.Function` type. -/
inductive ValueType where
  | ref (type : RefType)
  | function (retType : ValueType) (argTypes : List ValueType) (abi : Int)

namespace ValueType

/-- Structural induction with the hypothesis at every argument type. -/
@[elab_as_elim, induction_eliminator]
theorem induct {motive : ValueType → Prop} (ref : ∀ type, motive (.ref type))
    (function : ∀ retType argTypes abi, motive retType → (∀ argType ∈ argTypes, motive argType) →
      motive (.function retType argTypes abi))
    (t : ValueType) : motive t :=
  @ValueType.rec motive (fun argTypes => ∀ argType ∈ argTypes, motive argType) ref function
    (fun _ member => absurd member List.not_mem_nil)
    (fun _ _ head rest => List.forall_mem_cons.mpr ⟨head, rest⟩) t

/-- As `CIF` sees it: the `ffi_type` of a function type is that of a pointer. -/
def declared : ValueType → RefType
  | .ref type => type
  | .function _ _ _ => .pointer .void

def size (m : DataModel) : ValueType → Nat
  | .ref type => derefReads m type
  | .function _ _ _ => m.pointer.bytes

end ValueType

/-- A function object: one that a script defines, or what `ForeignFunction` returns. -/
inductive FunctionObject where
  | script (id : Nat)
  | proxy (funcPtr : Option Pointer) (retType : ValueType) (argTypes : List ValueType)

/-- What stands at a code address: the closure of a `Callback`, or a C function. -/
inductive Code where
  | callback (retType : ValueType) (argTypes : List ValueType) (func : Nat)
  | native (id : Nat)

/-- A process: the function objects, the closures in the order of their allocation, the
calls of script functions, and what else scripts and C functions keep. -/
structure Process (G : Type) where
  functions : List FunctionObject
  closures : List Code
  calls : List (Nat × List JsVal)
  globals : G

variable {m : DataModel} {G : Type}

/-- Native code. Undefined behaviour, and a call that does not return, is `none`. -/
abbrev Native (G : Type) := StateT (Process G) Option

/-- Code that can throw, or leaves an exception pending when it returns. -/
abbrev Script (G : Type) := ExceptT JsVal (Native G)

/-- What is outside the modelled code: `ref` and libffi, and the scripts and the C functions
of the program, which can call functions and code. -/
structure Program (m : DataModel) (G : Type) where
  host : Host
  /-- The ABIs that `ffi_prep_cif` accepts. -/
  abis : Int → Bool
  script : Nat → (Nat → List JsVal → Script G JsVal) → List JsVal → Script G JsVal
  native : Nat → (Pointer → List (List Cell) → Script G (List Cell)) → List (List Cell) → Script G (List Cell)

/-- A function object as a value. -/
def functionValue (id : Nat) : JsVal := .object (.function id) none .writable

/-- `typeof value == 'function'`, and which. -/
def functionId : JsVal → Option Nat
  | .object (.function id) _ _ => some id
  | _ => none

/-- `Buffer.isBuffer(value)`, and the address of its data. -/
def bufferData : JsVal → Option (Option Pointer)
  | .object (.buffer data _) _ _ => some data
  | _ => none

/-- The bytes of an address, `NULL` included. -/
def addressCells (m : DataModel) : Option Pointer → List Cell
  | none => zeros m.pointer.bytes
  | some p => pointerCells m p

/-- The address that these are the bytes of. -/
def readAddress (m : DataModel) (cells : List Cell) : Option (Option Pointer) :=
  if cells = zeros m.pointer.bytes then some none else (decodePointer m cells).map some

/-! ## `Callback` and `ForeignFunction` -/

section
variable (P : Program m G)

/-- `CIF`: it does nothing, or throws the error for the status of `ffi_prep_cif`. -/
def CIF (retType : ValueType) (argTypes : List ValueType) (abi : Int) : Script G Unit :=
  if P.abis abi then
    if (prepCif m retType.declared (argTypes.map ValueType.declared)).isSome then return
    else throw (JsVal.error "Error" "ffi_prep_cif() returned an FFI_BAD_TYPEDEF error")
  else throw (JsVal.error "Error" "ffi_prep_cif() returned an FFI_BAD_ABI error")

/-- `lib/callback.js`, `Callback`: the address of a new closure. -/
def callback (retType : ValueType) (argTypes : List ValueType) (abi : Int) (func : Nat) :
    Script G Pointer := do
  CIF P retType argTypes abi
  fun s => some (.ok ⟨s.closures.length, 0⟩,
    { s with closures := s.closures ++ [.callback retType argTypes func] })

/-- `lib/foreign_function.js`, `ForeignFunction`: a new function object. -/
def foreignFunction (funcPtr : Option Pointer) (retType : ValueType) (argTypes : List ValueType)
    (abi : Int) : Script G JsVal := do
  CIF P retType argTypes abi
  fun s => some (.ok (functionValue s.functions.length),
    { s with functions := s.functions ++ [.proxy funcPtr retType argTypes] })

/-! ## Storing and reading values -/

/-- `new Error('don\'t know how to set callback function for: ' + value)`, or what making a
text of the value throws. -/
def unsettable (value : JsVal) : JsVal :=
  match P.host.toText value with
  | .ok text => JsVal.error "Error" ("don't know how to set callback function for: " ++ text)
  | .error raised => raised

/-- `Function.prototype.set` on the bytes of a buffer: the bytes after it, and what it throws. -/
def functionSet (retType : ValueType) (argTypes : List ValueType) (abi : Int) (buffer : List Cell)
    (offset : Nat) (value : JsVal) : Native G (List Cell × Except JsVal Unit) := do
  match functionId value with
  | some fn =>
    match ← (callback P retType argTypes abi fn).run with
    | .error e => return (buffer, .error e)
    | .ok ptr => return (splice buffer offset (addressCells m (some ptr)), .ok ())
  | none =>
    match bufferData value with
    | some ptr => return (splice buffer offset (addressCells m ptr), .ok ())
    | none => return (buffer, .error (unsettable P value))

/-- `Function.prototype.get`. -/
def functionGet (retType : ValueType) (argTypes : List ValueType) (abi : Int) (buffer : List Cell)
    (offset : Nat) : Script G JsVal :=
  match readAddress m ((buffer.drop offset).take m.pointer.bytes) with
  | none => fun _ => none
  | some ptr => foreignFunction P ptr retType argTypes abi

/-- `ref.set(buffer, 0, value, type)`. -/
def refSet (type : ValueType) (buffer : List Cell) (value : JsVal) :
    Native G (List Cell × Except JsVal Unit) :=
  match type with
  | .ref type => return P.host.set type buffer value
  | .function retType argTypes abi => functionSet P retType argTypes abi buffer 0 value

/-- `ref.get(buffer, 0, type)`. -/
def refGet (type : ValueType) (buffer : List Cell) : Script G JsVal :=
  match type with
  | .ref type => ExceptT.mk (pure (P.host.get type buffer))
  | .function retType argTypes abi => functionGet P retType argTypes abi buffer 0

/-- `ref.alloc(type, value)`: the bytes of the new buffer. -/
def refAlloc (type : ValueType) (value : JsVal) : Script G (List Cell) := do
  match ← ExceptT.lift (refSet P type (zeros (type.size m)) value) with
  | (cells, .ok ()) => return cells
  | (_, .error e) => throw e

/-! ## Calls -/

/-- The loop of the proxy over its arguments, from argument `i` on. -/
def storeArguments : Nat → List (ValueType × JsVal) → Script G (List (List Cell))
  | _, [] => return []
  | i, (argType, val) :: rest => do
    let cells ← tryCatch (refAlloc P argType val) fun e => throw (relabelled (settingArgument (i + 1)) e)
    let others ← storeArguments (i + 1) rest
    return cells :: others

/-- `lib/_foreign_function.js`, `proxy`. libffi hands the bytes of the arguments to the code
at the address, and back those of the result. -/
def proxy (enter : Pointer → List (List Cell) → Script G (List Cell)) (funcPtr : Option Pointer)
    (retType : ValueType) (argTypes : List ValueType) (arguments : List JsVal) : Script G JsVal := do
  if arguments.length ≠ argTypes.length then
    throw (typeError (arityMessage argTypes.length arguments.length))
  let cells ← storeArguments P 0 (argTypes.zip arguments)
  match funcPtr with
  | none => fun _ => none
  | some code =>
    let result ← enter code cells
    refGet P retType result

/-- The loop of the callback over its arguments. -/
def decodeArguments : List (ValueType × List Cell) → Script G (List JsVal)
  | [] => return []
  | (type, cells) :: rest => do
    let arg ← refGet P type cells
    let args ← decodeArguments rest
    return arg :: args

/-- The wrapper in `lib/callback.js`: the bytes of `retval` after it, and what it returns. -/
def wrapper (call : Nat → List JsVal → Script G JsVal) (retType : ValueType) (argTypes : List ValueType)
    (func : Nat) (retval : List Cell) (params : List (List Cell)) : Native G (List Cell × JsVal) := do
  match ← (do
    let args ← decodeArguments P (argTypes.zip params)
    call func args : Script G JsVal).run with
  | .error e => return (retval, e)
  | .ok result =>
    match ← refSet P retType retval result with
    | (retval, .ok ()) => return (retval, .undefined)
    | (retval, .error e) => return (retval, relabelled settingReturnValue e)

/-- The bytes of a closure's slot for a result before the call. -/
def resultSlot (count : Nat) : List Cell := (List.range count).map P.host.residue

/-- The closure of a callback, with `DispatchToV8`: an exception is pending when it returns
if the wrapper has returned one and an error can be made of it. -/
def dispatch (call : Nat → List JsVal → Script G JsVal) (retType : ValueType) (argTypes : List ValueType)
    (func : Nat) (params : List (List Cell)) : Script G (List Cell) := do
  let (retval, e) ← ExceptT.lift (wrapper P call retType argTypes func (resultSlot P (retType.size m)) params)
  if e = .undefined then return retval
  match errorNew P.host e with
  | some err => throw err
  | none => fun _ => none

/-- Calling a function object, and entering the code at an address. -/
structure Machine (G : Type) where
  call : Nat → List JsVal → Script G JsVal
  enter : Pointer → List (List Cell) → Script G (List Cell)

/-- The closure at an address. -/
def Process.codeAt (s : Process G) (p : Pointer) : Option Code :=
  if p.offset = 0 then s.closures[p.block]? else none

/-- Calls nested less than `depth` deep. Entering a closure with arguments of other sizes than
its types have is undefined. -/
def machine : Nat → Machine G
  | 0 => ⟨fun _ _ _ => none, fun _ _ _ => none⟩
  | depth + 1 =>
    { call := fun f arguments s =>
        match s.functions[f]? with
        | none => none
        | some (.script id) =>
          P.script id (machine depth).call arguments { s with calls := s.calls ++ [(id, arguments)] }
        | some (.proxy funcPtr retType argTypes) =>
          proxy P (machine depth).enter funcPtr retType argTypes arguments s
      enter := fun code cells s =>
        match s.codeAt code with
        | none => none
        | some (.callback retType argTypes func) =>
          if cells.map List.length = argTypes.map (ValueType.size m) then
            dispatch P (machine depth).call retType argTypes func cells s
          else none
        | some (.native id) => P.native id (machine depth).enter cells s }

variable {P} {retType : ValueType} {argTypes : List ValueType} {s : Process G}

theorem machine_enter {code : Pointer} {func : Nat} {cells : List (List Cell)} (depth : Nat)
    (there : s.codeAt code = some (.callback retType argTypes func))
    (sizes : cells.map List.length = argTypes.map (ValueType.size m)) :
    (machine P (depth + 1)).enter code cells s = dispatch P (machine P depth).call retType argTypes func cells s := by
  change (match s.codeAt code with
    | none => none
    | some (.callback retType argTypes func) =>
      if cells.map List.length = argTypes.map (ValueType.size m) then
        dispatch P (machine P depth).call retType argTypes func cells s
      else none
    | some (.native id) => P.native id (machine P depth).enter cells s) = _
  rw [there]
  exact if_pos sizes

theorem machine_call {g : Nat} {funcPtr : Option Pointer} (depth : Nat)
    (there : s.functions[g]? = some (.proxy funcPtr retType argTypes)) (arguments : List JsVal) :
    (machine P (depth + 1)).call g arguments s = proxy P (machine P depth).enter funcPtr retType argTypes arguments s := by
  change (match s.functions[g]? with
    | none => none
    | some (.script id) =>
      P.script id (machine P depth).call arguments { s with calls := s.calls ++ [(id, arguments)] }
    | some (.proxy funcPtr retType argTypes) =>
      proxy P (machine P depth).enter funcPtr retType argTypes arguments s) = _
  rw [there]

end

end NodeFfi.FunctionTypes
