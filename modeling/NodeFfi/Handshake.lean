import NodeFfi.TransitionSystem

/-! The handshake between native threads and the event loop, as `Invoke`,
`ThreadedCallbackInvokation` and `WatcherCallback` perform it: one step is one
action on shared state, and the labels say who acts. `data->mutex` and every
`m_mutex` are held or free, a condition variable remembers whether its one
waiter has been signalled, and `uv_async_send` sets a flag that the loop clears
when it calls the watcher. Addresses are reused once their object is destroyed. -/
namespace NodeFfi.Handshake

abbrev Thread := Nat
abbrev Address := Nat

/-- What one call of `Invoke` was given. `serial` numbers the calls. -/
structure Call where
  serial : Nat
  info : Nat
  retval : Nat
  parameters : Nat
  deriving DecidableEq, Repr

/-- `uv_cond_t` with the only thread that ever waits on it: the owner. -/
inductive Condition
  | idle
  | waiting
  | signalled
  deriving DecidableEq, Repr

/-- `uv_cond_signal`: without a waiter the signal is lost. -/
def Condition.signal : Condition → Condition
  | .waiting => .signalled
  | condition => condition

/-- `ThreadedCallbackInvokation`; `call` is `m_cbinfo`, `m_retval` and `m_parameters`. -/
structure ThreadedCallbackInvokation where
  call : Call
  mutex : Option Thread
  condition : Condition
  deriving DecidableEq, Repr

/-- The statement of `Invoke` that a thread is about to execute, once its
invocation is constructed. `asleep` is inside `uv_cond_wait`. -/
inductive Point
  | locking
  | pushing
  | unlocking
  | sending
  | waiting
  | asleep
  | unreferencing
  | destroying
  deriving DecidableEq, Repr

/-- What a thread is doing. `entered` is before `uv_ref`, `referenced` after it. -/
inductive Activity
  | native
  | entered (call : Call)
  | referenced (call : Call)
  | invoking (call : Call) (inv : Address) (point : Point)
  deriving DecidableEq, Repr

/-- An element of `data->queue`. The code stores the address; `call` records
whose it was when it was pushed, and no step reads it. -/
structure Entry where
  inv : Address
  call : Call
  deriving DecidableEq, Repr

/-- The statement of `WatcherCallback` the loop is about to execute: `checking`
is the loop condition, `dispatching` is inside `DispatchToV8`, the three after it
are the statements of `SignalDoneExecuting`. -/
inductive Watcher
  | idle
  | locking
  | checking
  | dispatching (entry : Entry)
  | signalLock (entry : Entry)
  | signalling (entry : Entry)
  | signalUnlock (entry : Entry)
  | unlocking
  deriving DecidableEq, Repr

/-- Whether JavaScript, and through it native code, may run on the loop's thread. -/
def Watcher.runsJs : Watcher → Bool
  | .idle | .dispatching _ => true
  | _ => false

/-- JavaScript runs in a callback that `WatcherCallback` is dispatching. -/
def Watcher.dispatches : Watcher → Bool
  | .dispatching _ => true
  | _ => false

/-- How a `DispatchToV8` ends: the callback's result is in `retval`; the callback has
returned an exception, which the error function is told of; or neither, as where the
callback is not called at all. -/
inductive Ending
  | wrote
  | threw
  | nothing
  deriving DecidableEq, Repr

/-- One environment's `InstanceData`, the threads and the heap, and the history of
the calls: `invoked` holds every call, and the other lists the calls in the order
in which they were pushed, handed to `DispatchToV8`, left it, had their
`SignalDoneExecuting` return, returned to native code, which then reads their `retval`.
`direct` holds those made on the loop's own thread, which `Invoke` dispatches at once,
`written` those that left `DispatchToV8` with their result in `retval`; nothing writes
to it later. -/
structure State where
  thread : Thread
  threads : Thread → Activity
  heap : Address → Option ThreadedCallbackInvokation
  mutex : Option Thread
  queue : List Entry
  sent : Bool
  referenced : Bool
  watcher : Watcher
  invoked : List Call
  direct : List Call
  pushed : List Call
  dispatched : List Call
  completed : List Call
  written : List Call
  signalled : List Call
  returned : List Call

/-- After `Initialize` on the loop's thread: the handle is unreferenced. -/
def initial (thread : Thread) : State where
  thread := thread
  threads _ := .native
  heap _ := none
  mutex := none
  queue := []
  sent := false
  referenced := false
  watcher := .idle
  invoked := []
  direct := []
  pushed := []
  dispatched := []
  completed := []
  written := []
  signalled := []
  returned := []

/-- Who acts, and what the surroundings decide: which thread calls which callback,
where an invocation is allocated, how the `DispatchToV8` ends that a step executes, when
libuv runs the watcher (`wake` after a send, `poll` without one) and when `uv_cond_wait`
returns without a signal. -/
inductive Label
  | invoke (i : Thread) (info retval parameters : Nat) (ending : Ending)
  | construct (i : Thread) (inv : Address)
  | advance (i : Thread)
  | spuriousReturn (i : Thread)
  | wake
  | poll
  | watch (ending : Ending)
  deriving DecidableEq, Repr

namespace State

/-- Thread `i` moves on. -/
def move (s : State) (i : Thread) (activity : Activity) : State :=
  { s with threads := Function.update s.threads i activity }

@[simp, grind =] theorem move_threads (s : State) (i j : Thread) (activity : Activity) :
    (s.move i activity).threads j = if j = i then activity else s.threads j := by
  simp [move, Function.update_apply]

/-- The object at `inv` changes. -/
def store (s : State) (inv : Address) (object : Option ThreadedCallbackInvokation) : State :=
  { s with heap := Function.update s.heap inv object }

@[simp, grind =] theorem store_threads (s : State) (inv : Address)
    (object : Option ThreadedCallbackInvokation) (j : Thread) :
    (s.store inv object).threads j = s.threads j := rfl

/-- `uv_cond_wait` returns: the owner has its mutex again. -/
def leaveWait (s : State) (i : Thread) (call : Call) (inv : Address)
    (object : ThreadedCallbackInvokation) : State :=
  (s.move i (.invoking call inv .unreferencing)).store inv
    (some { object with mutex := some i, condition := .idle })

end State

/-- `Invoke` up to the question which thread it runs on; on the loop's own, all of it. -/
def invoke (s : State) (i : Thread) (info retval parameters : Nat) (ending : Ending) : Option State :=
  let call := Call.mk s.invoked.length info retval parameters
  let s := { s with invoked := s.invoked ++ [call] }
  if i = s.thread then
    if s.watcher.runsJs then
      some { s with direct := s.direct ++ [call],
                    written := if ending = .wrote then s.written ++ [call] else s.written }
    else none
  else
    if s.threads i = .native then some (s.move i (.entered call)) else none

/-- The constructor of `ThreadedCallbackInvokation` at a free address. -/
def construct (s : State) (i : Thread) (inv : Address) : Option State :=
  match s.threads i, s.heap inv with
  | .referenced call, none =>
    some ((s.move i (.invoking call inv .locking)).store inv (some ⟨call, some i, .idle⟩))
  | _, _ => none

/-- The next statement of `Invoke` on thread `i`. -/
def advance (s : State) (i : Thread) : Option State :=
  match s.threads i with
  | .native | .referenced _ => none
  | .entered call => some { s.move i (.referenced call) with referenced := true }
  | .invoking call inv .locking =>
    if s.mutex = none then
      some { s.move i (.invoking call inv .pushing) with mutex := some i }
    else none
  | .invoking call inv .pushing =>
    some { s.move i (.invoking call inv .unlocking) with
      queue := s.queue ++ [⟨inv, call⟩], pushed := s.pushed ++ [call] }
  | .invoking call inv .unlocking =>
    some { s.move i (.invoking call inv .sending) with mutex := none }
  | .invoking call inv .sending =>
    some { s.move i (.invoking call inv .waiting) with sent := true }
  | .invoking call inv .waiting =>
    (s.heap inv).map fun object =>
      (s.move i (.invoking call inv .asleep)).store inv
        (some { object with mutex := none, condition := .waiting })
  | .invoking call inv .asleep =>
    (s.heap inv).bind fun object =>
      if object.condition = .signalled ∧ object.mutex = none then
        some (s.leaveWait i call inv object)
      else none
  | .invoking call inv .unreferencing =>
    some { s.move i (.invoking call inv .destroying) with referenced := false }
  | .invoking call inv .destroying =>
    some { (s.move i .native).store inv none with returned := s.returned ++ [call] }

/-- `uv_cond_wait` returns on thread `i` although nothing was signalled. -/
def spuriousReturn (s : State) (i : Thread) : Option State :=
  match s.threads i with
  | .invoking call inv .asleep =>
    (s.heap inv).bind fun object =>
      if object.condition = .waiting ∧ object.mutex = none then
        some (s.leaveWait i call inv object)
      else none
  | _ => none

/-- The next statement of `WatcherCallback`. `DispatchToV8` returns however the
JavaScript callback ends. -/
def watch (s : State) (ending : Ending) : Option State :=
  match s.watcher with
  | .idle => none
  | .locking =>
    if s.mutex = none then some { s with mutex := some s.thread, watcher := .checking } else none
  | .checking =>
    match s.queue with
    | [] => some { s with watcher := .unlocking }
    | entry :: rest =>
      (s.heap entry.inv).map fun object =>
        { s with queue := rest, watcher := .dispatching entry,
                 dispatched := s.dispatched ++ [object.call] }
  | .dispatching entry =>
    some { s with watcher := .signalLock entry, completed := s.completed ++ [entry.call],
                  written := if ending = .wrote then s.written ++ [entry.call] else s.written }
  | .signalLock entry =>
    (s.heap entry.inv).bind fun object =>
      if object.mutex = none then
        some ({ s with watcher := .signalling entry }.store entry.inv
          (some { object with mutex := some s.thread }))
      else none
  | .signalling entry =>
    (s.heap entry.inv).map fun object =>
      { s with watcher := .signalUnlock entry }.store entry.inv
        (some { object with condition := object.condition.signal })
  | .signalUnlock entry =>
    (s.heap entry.inv).map fun object =>
      { s with watcher := .checking, signalled := s.signalled ++ [entry.call] }.store entry.inv
        (some { object with mutex := none })
  | .unlocking => some { s with mutex := none, watcher := .idle }

/-- One action of a thread, of libuv or of the loop. -/
def step (s : State) : Label → Option State
  | .invoke i info retval parameters ending => invoke s i info retval parameters ending
  | .construct i inv => construct s i inv
  | .advance i => advance s i
  | .spuriousReturn i => spuriousReturn s i
  | .wake =>
    if s.watcher = .idle ∧ s.sent then some { s with sent := false, watcher := .locking } else none
  | .poll => if s.watcher = .idle then some { s with watcher := .locking } else none
  | .watch ending => watch s ending

/-- How the `DispatchToV8` ends that a step brings to its end. -/
def State.ends (s : State) : Label → Option Ending
  | .invoke i _ _ _ ending => if i = s.thread then some ending else none
  | .watch ending => if s.watcher.dispatches then some ending else none
  | _ => none

/-- The step is one of the spurious wake-ups that libuv permits. -/
def Label.spurious : Label → Bool
  | .spuriousReturn _ => true
  | _ => false

/-- `uv_cond_wait` does not return in this step without having been signalled. -/
def WokenBySignal (_ : State) (label : Label) : Prop := label.spurious = false

instance (s : State) (label : Label) : Decidable (WokenBySignal s label) :=
  inferInstanceAs (Decidable (_ = _))

end NodeFfi.Handshake
