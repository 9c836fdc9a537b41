import NodeFfi.Marshalling
import NodeFfi.TransitionSystem

/-! The asynchronous proxy of `_foreign_function.js`, the native half of it in
`ffi.cc`, and the event loop that brings the two together: queued ticks, requests on
the thread pool, and their completions, in any order. -/
namespace NodeFfi
open BlockMemory JsVal

variable {m : DataModel}

/-! ## The proxy -/

def callbackMessage (index : Nat) : String :=
  "Expected a callback function as argument number: " ++ toString index

/-- Gives an asynchronous call its number. -/
def numberCall : NativeM m Nat := fun w =>
  some (w.asyncCalls, { w with asyncCalls := w.asyncCalls + 1 })

/-- `FFI::FFICallAsync`, up to `uv_queue_work`. -/
def FFICallAsync (request : Request m) : NativeM m Unit := fun w =>
  some ((), { w with requests := w.requests ++ [request] })

/-- The body of `proxy.async` after its checks. The report counts the argument from
zero, where the synchronous proxy's counts from one. -/
def startAsync (host : Host) (s : Signature m) (fn : List (List Cell) → List Cell)
    (callback : JsVal) (arguments : List JsVal) : JsM m Unit := do
  let call ← native numberCall
  match ← native (marshal host s arguments).run with
  | .error (i, e) =>
    let e ← completion (prependMessage (settingArgument i) e)
    native (nextTick (.notify call callback e))
  | .ok (result, argsList) =>
    native (FFICallAsync ⟨call, s.cif, fn, result.data, argsList.data, s.returnType, callback, false⟩)

/-- `_foreign_function.js`, `proxy.async`. -/
def async (host : Host) (s : Signature m) (fn : List (List Cell) → List Cell)
    (arguments : List JsVal) : JsM m Unit :=
  let numArgs := s.argTypes.length
  let argc := arguments.length
  let callback := arguments[argc - 1]?.getD .undefined
  if argc ≠ numArgs + 1 then throw (typeError (arityMessage (numArgs + 1) argc))
  else if callback.isFunction = false then throw (typeError (callbackMessage (argc - 1)))
  else startAsync host s fn callback arguments

/-! ## The event loop -/

/-- A call of the function given to the asynchronous call numbered `call`. -/
structure Delivery where
  call : Nat
  callback : JsVal
  arguments : List JsVal
  deriving DecidableEq, Repr

structure Loop (m : DataModel) where
  world : World m
  /-- Oldest first. -/
  delivered : List Delivery
  uncaught : List JsVal
  /-- The process has come to an end. -/
  ended : Bool

/-- What can happen next. A tick or a completion calls the user's function, which may
throw; of what a tick throws, `handled` says whether anything listens for uncaught
exceptions. The last is any other code, which leaves the memory as given, queues reports
of callbacks' exceptions and leaves no exception pending. -/
inductive Event (m : DataModel) where
  | call (s : Signature m) (fn : List (List Cell) → List Cell) (arguments : List JsVal)
  | tick (raised : Option JsVal) (handled : Bool)
  | perform (call : Nat)
  | finish (call : Nat) (raised : Option JsVal)
  | other (memory : Memory Cell) (errors : List JsVal)

/-- What a queued function throws, where the user's throws `raised`. -/
def Tick.raises (raised : Option JsVal) : Tick → Option JsVal
  | .rethrow err => some (rethrown err)
  | .notify _ _ _ => raised

/-- The call of a user's function that a tick makes. -/
def Tick.deliveries : Tick → List Delivery
  | .rethrow _ => []
  | .notify call callback e => [⟨call, callback, [e]⟩]

/-- Running a queued function. An uncaught exception ends the process. -/
def Loop.runTick (l : Loop m) (raised : Option JsVal) (handled : Bool) (tick : Tick) : Loop m :=
  let l := { l with delivered := l.delivered ++ tick.deliveries }
  match tick.raises raised with
  | none => l
  | some e => if handled then { l with uncaught := l.uncaught ++ [e] } else { l with ended := true }

/-- The request of a call at a stage of its life. -/
def World.request (w : World m) (call : Nat) (performed : Bool) : Option (Request m) :=
  w.requests.find? fun request => request.call == call && request.performed == performed

/-- One event. `FFI::AsyncFFICall` runs the request on the thread pool;
`FFI::FinishAsyncFFICall` calls the function `proxy.async` gave it with `null`, which
calls the user's with what `result.deref()` returns. What either throws is a C++
exception that leaves a callback of libuv, which ends the process. -/
def Loop.proceed (host : Host) (l : Loop m) : Event m → Option (Loop m)
  | .call s fn arguments =>
    match (async host s fn arguments).run l.world with
    | some (_, world) => some { l with world }
    | none => none
  | .tick raised handled =>
    match l.world.ticks with
    | [] => none
    | tick :: rest => some (Loop.runTick { l with world := { l.world with ticks := rest } } raised handled tick)
  | .perform call =>
    match l.world.request call false with
    | none => none
    | some request =>
      match ffiCall request.cif (ofFunction request.fn) request.result request.argsList l.world with
      | none => none
      | some (_, world) => some { l with world := { world with requests := world.requests.map fun other =>
          if other.call = call then { other with performed := true } else other } }
  | .finish call raised =>
    match l.world.request call true with
    | none => none
    | some request =>
      let world := { l.world with requests := l.world.requests.filter fun other => other.call ≠ call }
      match (refGet host ⟨request.result, resultSize m request.returnType⟩ request.returnType).run world with
      | none => none
      | some (.ok r, world) =>
        some { l with
          world
          delivered := l.delivered ++ [⟨call, request.callback, [.null, r]⟩]
          ended := raised.isSome }
      | some (.error _, world) => some { l with world, ended := true }
  | .other memory errors =>
    some { l with world := { l.world with memory, ticks := l.world.ticks ++ errors.map .rethrow } }

/-- Nothing happens once the process has ended. -/
def Loop.step (host : Host) (l : Loop m) (event : Event m) : Option (Loop m) :=
  if l.ended then none else l.proceed host event

/-- The buffers of a call in flight: `result`, `argsList` and one for each argument,
allocated in a row. -/
def Request.Owns (request : Request m) (block : Nat) : Prop :=
  request.result.block ≤ block ∧ block < request.result.block + 2 + request.cif.atypes.length

/-- Other code frees nothing and has no reference to the buffers of a call in flight. -/
def Permitted (l : Loop m) : Event m → Prop
  | .other memory _ => Grows l.world.memory memory ∧
    ∀ request ∈ l.world.requests, ∀ block, request.Owns block → memory[block]? = l.world.memory[block]?
  | _ => True

def Tick.isFor (call : Nat) : Tick → Bool
  | .rethrow _ => false
  | .notify other _ _ => other == call

/-- The event does not end the process, unless the given call is answered by it. -/
def Spared (host : Host) (call : Nat) (l : Loop m) : Event m → Prop
  | .tick raised handled => handled = true ∨
    ∀ tick rest, l.world.ticks = tick :: rest → tick.raises raised = none ∨ tick.isFor call
  | .finish other raised => other = call ∨ raised = none ∧ ∀ request cells,
    l.world.request other true = some request →
      load l.world.memory request.result (derefReads m request.returnType) = some cells →
      ∃ r, host.get request.returnType cells = .ok r
  | _ => True

/-- Nothing else disturbs the call or ends the process. -/
def Undisturbed (host : Host) (call : Nat) (l : Loop m) (event : Event m) : Prop :=
  Permitted l event ∧ Spared host call l event

def Loop.initial (m : DataModel) : Loop m := ⟨.initial m, [], [], false⟩

end NodeFfi
