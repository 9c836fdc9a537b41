import NodeFfi.Interop

/-! The two directions of a call: `_foreign_function.js`, which turns JavaScript
values into an argument array for `ffi_call`, and `callback.js` with
`callback_info.cc`, which turn an argument array into JavaScript values for a
function. -/
namespace NodeFfi
open BlockMemory JsVal

variable {m : DataModel}

/-! ## Calling C from JavaScript -/

/-- The loop both proxies write the arguments with, from argument `i` on. What a
`ref.alloc` throws is caught with the value `i` has then. -/
def storeArguments (host : Host) (argsList : Buffer) :
    Nat → List (RefType × JsVal) → ExceptT (Nat × JsVal) (NativeM m) Unit
  | _, [] => return
  | i, (argType, val) :: rest => do
    let valPtr ← ExceptT.adapt (fun e => (i, e)) (refAlloc host argType val)
    ExceptT.lift (writePointer argsList (i * m.pointer.bytes) valPtr.data)
    storeArguments host argsList (i + 1) rest

/-- The storage buffers of a call, `result` and `argsList`, with the arguments in them. -/
def marshal (host : Host) (s : Signature m) (arguments : List JsVal) :
    ExceptT (Nat × JsVal) (NativeM m) (Buffer × Buffer) := do
  let result ← ExceptT.lift (bufferAlloc (resultSize m s.returnType))
  let argsList ← ExceptT.lift (bufferAlloc (s.argTypes.length * m.pointer.bytes))
  storeArguments host argsList 0 (s.argTypes.zip arguments)
  return (result, argsList)

def arityMessage (expected got : Nat) : String :=
  "Expected " ++ toString expected ++ " arguments, got " ++ toString got

def settingArgument (i : Nat) : String := "error setting argument " ++ toString i ++ " - "

/-- `_foreign_function.js`, `proxy`. -/
def proxy (host : Host) (s : Signature m) (fn : Native m) (arguments : List JsVal) : JsM m JsVal := do
  let numArgs := s.argTypes.length
  if arguments.length ≠ numArgs then
    throw (typeError (arityMessage numArgs arguments.length))
  match ← native (marshal host s arguments).run with
  | .error (i, e) =>
    let e ← completion (prependMessage (settingArgument (i + 1)) e)
    throw e
  | .ok (result, argsList) =>
    FFICall s.cif fn result argsList
    refGet host result s.returnType

/-! ## Calling JavaScript from C -/

/-- A `callback_info`: the C function pointer for a JavaScript function. -/
structure CallbackInfo (m : DataModel) where
  signature : Signature m
  /-- The function the wrapper of `callback.js` calls; `none` once the wrapper has been
  garbage collected. -/
  function : Option (List JsVal → JsM m JsVal)

/-- The loop that reads the arguments back, from argument `i` on. -/
def decodeArguments (host : Host) (params : Buffer) : Nat → List RefType → JsM m (List JsVal)
  | _, [] => return []
  | i, type :: rest => do
    let argPtr ← native (readPointer params (i * m.pointer.bytes) (type.size m))
    let arg ← refGet host argPtr type
    let args ← decodeArguments host params (i + 1) rest
    return arg :: args

/-- `func.apply(null, args)`. -/
def apply (func : List JsVal → JsM m JsVal) (args : List JsVal) : JsM m JsVal := do
  native (fun w => some ((), { w with calls := w.calls ++ [args] }))
  func args

def settingReturnValue : String := "error setting return value - "

/-- Storing the function's result, with its own `catch`. -/
def storeResult (host : Host) (retType : RefType) (retval : Buffer) (result : JsVal) : JsM m Unit :=
  tryCatch (refSet host retval result retType) fun e => do
    let e ← completion (prependMessage settingReturnValue e)
    throw e

/-- The body of the outer `try` of the wrapper in `callback.js`. -/
def invokeFunction (host : Host) (s : Signature m) (func : List JsVal → JsM m JsVal)
    (retval params : Buffer) : JsM m Unit := do
  let args ← decodeArguments host params 0 s.argTypes
  let result ← apply func args
  storeResult host s.returnType retval result

/-- The wrapper: it returns what the body throws, and `undefined` otherwise. -/
def wrapper (host : Host) (s : Signature m) (func : List JsVal → JsM m JsVal)
    (retval params : Buffer) : NativeM m JsVal := do
  match ← (invokeFunction host s func retval params).run with
  | .ok () => return .undefined
  | .error e => return e

/-- `callback.js`, `errorReportCallback`. -/
def errorReportCallback (err : JsVal) : NativeM m Unit :=
  if err.truthy then nextTick (.rethrow err) else return

/-- What the function that `errorReportCallback` queues throws. -/
def rethrown : JsVal → JsVal
  | .string text => JsVal.error "Error" text
  | err => err

/-! ### Calls through Node-API -/

def shiftTick : NativeM m (Option Tick) := fun w =>
  match w.ticks with
  | [] => some (none, w)
  | tick :: rest => some (some tick, { w with ticks := rest })

/-- Running a queued function; `call` calls one of the user's. -/
def runTick (call : JsVal → List JsVal → JsM m JsVal) : Tick → JsM m Unit
  | .rethrow err => throw (rethrown err)
  | .notify _ callback e => do
    let _ ← call callback [e]

/-- The queued functions in order, those included that are queued meanwhile, until one
throws. More of them than `limit` do not come to an end. -/
def processTicks (call : JsVal → List JsVal → JsM m JsVal) : Nat → JsM m Unit
  | 0 => fun w => if w.ticks = [] then some (.ok (), w) else none
  | limit + 1 => do
    match ← native shiftTick with
    | none => return
    | some tick =>
      runTick call tick
      processTicks call limit

/-- `err.ThrowAsJavaScriptException()`. An exception that is pending stays. -/
def setPending (err : JsVal) : NativeM m Unit := fun w =>
  some ((), { w with pending := w.pending.or (some err) })

/-- The C++ `Error` of node-addon-api for an exception is a reference to it; making one
to a primitive value ends the process. -/
def keepError (e : JsVal) : NativeM m Unit := undefinedUnless e.isObject

/-- `MakeCallback` of a function that throws nothing. Node-API does not call it while an
exception is pending; and what `closing` throws, the end of the callback scope, takes the
place of what it returns. -/
def makeCallback (closing : JsM m Unit) (function : NativeM m JsVal) : JsM m JsVal :=
  tryCatch (do
    throwPending
    let value ← native function
    closing
    return value) fun e => do
      native (keepError e)
      throw e

def collectedMessage : String := "ffi fatal: callback has been garbage collected!"

/-- `Error::New(env, e.ToString())`: the new error, or what `ToString` throws instead;
`none` for a primitive value, as in `keepError`. -/
def errorNew (host : Host) (e : JsVal) : Option JsVal :=
  match host.toText e with
  | .ok text => some (JsVal.error "Error" text)
  | .error raised => if raised.isObject then some raised else none

/-- The body of the `try` of `DispatchToV8`. -/
def invokeCallback (host : Host) (closing : JsM m Unit) (info : CallbackInfo m) (retval parameters : Pointer)
    (dispatched : Bool) : JsM m Unit := do
  match info.function with
  | none =>
    if dispatched then
      let _ ← makeCallback closing do
        errorReportCallback (.string collectedMessage)
        return .undefined
    else throw (JsVal.error "Error" collectedMessage)
  | some func =>
    let e ← makeCallback closing (wrapper host info.signature func
      ⟨retval, info.signature.returnType.size m⟩ ⟨parameters, m.pointer.bytes * info.signature.argTypes.length⟩)
    if e = .undefined then return
    if dispatched then native (errorReportCallback e)
    else match errorNew host e with
      | some err => throw err
      | none => fun _ => none

/-- `CallbackInfo::DispatchToV8`. From the watcher its callback scope is the outermost one,
whose end runs the queued `ticks`; on the loop thread it is inside another. -/
def dispatchToV8 (host : Host) (ticks : JsM m Unit) (info : CallbackInfo m) (retval parameters : Pointer)
    (dispatched : Bool) : NativeM m Unit := do
  match ← (invokeCallback host (if dispatched then ticks else return) info retval parameters dispatched).run with
  | .ok () => return
  | .error err => setPending err

/-- Copies of the arguments, each in storage of its own. -/
def allocateAll : List (List Cell) → NativeM m (List Pointer)
  | [] => return []
  | cells :: rest => do
    let p ← allocate cells
    let others ← allocateAll rest
    return p :: others

/-- How much storage a closure has for its return value. -/
def returnSlot {m : DataModel} (rtype : FfiType m.sizeBits) : Nat := max m.ffiArg.bytes (returnWidth rtype)

/-- The code of the libffi closure, called on the loop thread: it lays out the
arguments for `CallbackInfo::Invoke` and returns what is in the return slot. -/
def closure (host : Host) (info : CallbackInfo m) : Native m := fun arguments => do
  let copies ← allocateAll arguments
  let parameters ← allocate (copies.flatMap (pointerCells m))
  let retval ← allocate ((List.range (returnSlot info.signature.cif.rtype)).map host.residue)
  dispatchToV8 host (return) info retval parameters false
  read retval (returnWidth info.signature.cif.rtype)

end NodeFfi
