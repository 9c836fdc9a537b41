import NodeFfi.HandshakeMoves

/-! The end of an environment. `InstanceData::Dispose` closes the handle, so that the
loop calls the watcher no more; the close callback, an iteration of the loop later,
destroys `data->mutex` and deletes the `InstanceData`. Neither waits for the threads
that are in `Invoke`. -/
namespace NodeFfi.Handshake

open TransitionSystem

/-- An environment up to its end and after it: what was in `data->queue` when `Dispose`
ran, the invocations that `WatcherCallback` has taken from it, the state in which the
close callback deleted the `InstanceData`, and whether it was used after that. -/
structure Environment where
  state : State
  disposed : Option (List Entry)
  dispatched : List Entry
  closed : Option State
  usedAfter : Bool

/-- A step of the handshake, or of the end. -/
inductive Event
  | act (label : Label)
  | dispose
  | close
  deriving DecidableEq, Repr

/-- The thread's next statement uses the `InstanceData`: `uv_ref`, the lock, the push,
the unlock, `uv_async_send` or `uv_unref`. -/
def Activity.usesData : Activity → Bool
  | .entered _ => true
  | .invoking _ _ .locking | .invoking _ _ .pushing | .invoking _ _ .unlocking
  | .invoking _ _ .sending | .invoking _ _ .unreferencing => true
  | _ => false

/-- Nothing but other threads' locks keeps the thread from getting to such a statement. -/
def Activity.onTheWay : Activity → Bool
  | .native | .invoking _ _ .waiting | .invoking _ _ .asleep | .invoking _ _ .destroying => false
  | _ => true

/-- The step is such a statement. -/
def State.uses (s : State) : Label → Bool
  | .advance i => (s.threads i).usesData
  | _ => false

/-- The invocation that a step of `WatcherCallback` takes from the queue. -/
def State.popped (s : State) : Label → List Entry
  | .watch _ => if s.watcher = .checking then s.queue.take 1 else []
  | _ => []

/-- A call of the watcher by libuv. -/
def Label.callsWatcher : Label → Bool
  | .wake | .poll => true
  | _ => false

namespace Environment

def initial (thread : Thread) : Environment := ⟨Handshake.initial thread, none, [], none, false⟩

/-- `Dispose` and the close callback run on the loop's thread; once the handle is
closed, libuv does not call the watcher. -/
def step (e : Environment) : Event → Option Environment
  | .act label =>
    if e.disposed.isSome ∧ label.callsWatcher then none
    else (Handshake.step e.state label).map fun t =>
      { e with
        state := t
        dispatched := e.dispatched ++ e.state.popped label
        usedAfter := e.usedAfter || (e.closed.isSome && e.state.uses label) }
  | .dispose =>
    if e.disposed = none ∧ e.state.watcher.runsJs then some { e with disposed := some e.state.queue }
    else none
  | .close =>
    if e.disposed.isSome ∧ e.closed = none ∧ e.state.watcher = .idle then
      some { e with closed := some e.state }
    else none

/-- The owner of an invocation waits for it no more. -/
def Released (s : State) (entry : Entry) : Prop :=
  ∀ i point, s.threads i = .invoking entry.call entry.inv point →
    point = .unreferencing ∨ point = .destroying

/-- **Tear-down is safe**: the `InstanceData` is not used once it is deleted, and what
was in the queue when `Dispose` ran was dispatched or released before that. -/
structure Safe (e : Environment) : Prop where
  unused : e.usedAfter = false
  served : ∀ last ∈ e.closed, ∀ queue ∈ e.disposed, ∀ entry ∈ queue,
    entry ∈ e.dispatched ∨ Released last entry

/-- The thread is not in `Invoke`, has nothing left to do there but to destroy its
invocation, or waits for a signal that it has not been given. -/
structure Settled (s : State) (i : Thread) : Prop where
  still : (s.threads i).onTheWay = false
  unsignalled : ∀ call inv, s.threads i = .invoking call inv .asleep →
    ∀ object ∈ s.heap inv, object.condition ≠ .signalled

/-- `Dispose` finds the queue empty, or runs in a callback that `WatcherCallback` is
dispatching; the close callback runs when all threads have settled; and after it no
other thread calls a callback and no wait ends without a signal. -/
def Orderly (e : Environment) : Event → Prop
  | .dispose => e.state.queue = [] ∨ e.state.watcher.dispatches
  | .close => ∀ i, Settled e.state i
  | .act (.invoke i _ _ _ _) => e.closed = none ∨ i = e.state.thread
  | .act (.spuriousReturn _) => e.closed = none
  | .act _ => True

end Environment

/-- The loop is in `WatcherCallback` and will look at the queue again. -/
def Watcher.returnsToQueue : Watcher → Bool
  | .checking | .dispatching _ | .signalLock _ | .signalling _ | .signalUnlock _ => true
  | .idle | .locking | .unlocking => false

theorem returnsToQueue_of_dispatches {watcher : Watcher} (dispatches : watcher.dispatches) :
    watcher.returnsToQueue := by
  cases watcher with
  | dispatching => rfl
  | idle | locking | checking | signalLock | signalling | signalUnlock | unlocking => cases dispatches

namespace Environment

/-- What was in the queue when `Dispose` ran has been taken out, or will be by the
call of the watcher that is running; and after the end all threads stay settled. -/
structure Kept (e : Environment) : Prop where
  served : ∀ queue ∈ e.disposed, (∀ entry ∈ queue, entry ∈ e.dispatched) ∨
    (e.state.watcher.returnsToQueue ∧
      ∀ entry ∈ queue, entry ∈ e.dispatched ∨ entry ∈ e.state.queue)
  ended : e.closed.isSome →
    e.disposed.isSome ∧ e.state.watcher = .idle ∧ ∀ i, Settled e.state i
  unused : e.usedAfter = false

variable {e e' : Environment} {s t : State} {label : Label} {event : Event}

theorem kept_initial (thread : Thread) : Kept (initial thread) where
  served := by simp [initial]
  ended := by simp [initial]
  unused := rfl

/-- What a step does to the queue: it loses what `WatcherCallback` takes, and gains at
most the mover's invocation. -/
theorem mem_queue (moves : Moves s label t) {entry : Entry} (inside : entry ∈ s.queue) :
    entry ∈ t.queue ∨ entry ∈ s.popped label := by
  cases moves with
  | push => exact .inl (List.mem_append_left _ inside)
  | watchPop at_point first =>
    rw [first] at inside
    rcases List.mem_cons.mp inside with rfl | later
    · right
      simp [State.popped, at_point, first]
    · exact .inl later
  | direct | enter | construct | reference | lock | unlock | send | wait | leave | leaveEarly
  | unreference | destroy | wake | poll | watchLock | watchEmpty | watchDispatched
  | watchSignalLock | watchSignal | watchSignalUnlock | watchUnlock => exact .inl inside

/-- `WatcherCallback` leaves its loop when the queue is empty, and only then. -/
theorem watcher_moves (moves : Moves s label t) (looping : s.watcher.returnsToQueue) :
    t.watcher.returnsToQueue ∨ t.queue = [] := by
  cases moves with
  | watchEmpty at_point empty => exact .inr empty
  | wake at_point | poll at_point | watchLock at_point | watchUnlock at_point =>
    rw [at_point] at looping
    cases looping
  | direct | enter | construct | reference | lock | push | unlock | send | wait | leave
  | leaveEarly | unreference | destroy => exact .inl looping
  | watchPop | watchDispatched | watchSignalLock | watchSignal | watchSignalUnlock => exact .inl rfl

/-- A thread that has settled and does not move is settled unless somebody signals it. -/
theorem Settled.frame {i : Thread} (settled : Settled s i) (same : t.threads i = s.threads i)
    (heap : ∀ inv, ∀ object ∈ t.heap inv, object.condition = .signalled → object ∈ s.heap inv) :
    Settled t i where
  still := by rw [same, settled.still]
  unsignalled := by
    intro call inv asleep object live signalled
    exact settled.unsignalled call inv (same ▸ asleep) object (heap inv object live signalled)
      signalled

/-- An object that is not signalled leaves those that are as they were. -/
theorem signalled_before {inv : Address} {object : Option ThreadedCallbackInvokation}
    (silent : ∀ o ∈ object, o.condition ≠ .signalled) : ∀ a, ∀ o ∈ Function.update s.heap inv object a,
      o.condition = .signalled → o ∈ s.heap a := by
  intro a o here signalled
  by_cases own : a = inv
  · subst a
    rw [Function.update_self] at here
    exact absurd signalled (silent o here)
  · rwa [Function.update_of_ne own] at here

/-- One thread moves and has settled then. -/
theorem settled_mover {i : Thread} (settled : ∀ j, Settled s j) (mover : Settled t i)
    (same : ∀ j, j ≠ i → t.threads j = s.threads j)
    (heap : ∀ a, ∀ object ∈ t.heap a, object.condition = .signalled → object ∈ s.heap a) (j : Thread) :
    Settled t j := by
  by_cases own : j = i
  · subst j
    exact mover
  · exact (settled j).frame (same j own) heap

/-- Once all have settled and the watcher is not called any more, all stay settled, and
no step uses the `InstanceData`. -/
theorem settled_moves (moves : Moves s label t) (idle : s.watcher = .idle)
    (uncalled : label.callsWatcher = false) (settled : ∀ i, Settled s i)
    (inside : ∀ i info retval parameters ending, label = .invoke i info retval parameters ending → i = s.thread)
    (prompted : ∀ i, label ≠ .spuriousReturn i) :
    t.watcher = .idle ∧ (∀ i, Settled t i) ∧ s.uses label = false := by
  cases moves with
  | direct => exact ⟨idle, fun i => (settled i).frame rfl fun _ _ here _ => here, rfl⟩
  | enter foreign => exact absurd (inside _ _ _ _ _ rfl) foreign
  | construct at_point | reference at_point | lock at_point | push at_point | unlock at_point
  | send at_point | unreference at_point =>
    cases (congrArg Activity.onTheWay at_point).symm.trans (settled _).still
  | @wait i call inv object at_point live =>
    refine ⟨idle, ?_, by rw [State.uses, at_point]; rfl⟩
    have silent : ∀ o ∈ some { object with mutex := none, condition := Condition.waiting },
        o.condition ≠ .signalled := by
      rintro o ⟨⟩
      nofun
    have now : Function.update s.threads i (.invoking call inv .asleep) i =
        .invoking call inv .asleep := Function.update_self ..
    apply settled_mover settled _ (fun _ other => Function.update_of_ne other ..) (signalled_before silent)
    refine ⟨(congrArg Activity.onTheWay now).trans rfl, ?_⟩
    intro c a asleep o here
    cases now.symm.trans asleep
    cases (Function.update_self inv _ s.heap).symm.trans here
    exact silent _ rfl
  | leave at_point live woken => exact absurd woken ((settled _).unsignalled _ _ at_point _ live)
  | leaveEarly => exact absurd rfl (prompted _)
  | @destroy i call inv at_point =>
    refine ⟨idle, ?_, by rw [State.uses, at_point]; rfl⟩
    have now : Function.update s.threads i .native i = .native := Function.update_self ..
    have gone : ∀ o ∈ (none : Option ThreadedCallbackInvokation), o.condition ≠ .signalled := by
      rintro o ⟨⟩
    apply settled_mover settled _ (fun _ other => Function.update_of_ne other ..) (signalled_before gone)
    refine ⟨(congrArg Activity.onTheWay now).trans rfl, ?_⟩
    intro c a asleep
    cases now.symm.trans asleep
  | wake => cases uncalled
  | poll => cases uncalled
  | watchLock at_point | watchEmpty at_point | watchPop at_point | watchDispatched at_point
  | watchSignalLock at_point | watchSignal at_point | watchSignalUnlock at_point
  | watchUnlock at_point => cases idle.symm.trans at_point

theorem kept_act (kept : Kept e) (orderly : e.Orderly (.act label))
    (uncalled : ¬ (e.disposed.isSome ∧ label.callsWatcher))
    (next : Handshake.step e.state label = some t) :
    Kept { e with
      state := t
      dispatched := e.dispatched ++ e.state.popped label
      usedAfter := e.usedAfter || (e.closed.isSome && e.state.uses label) } := by
  have moves := moves_of_step next
  have after : e.closed.isSome →
      t.watcher = .idle ∧ (∀ i, Settled t i) ∧ e.state.uses label = false := by
    intro closed
    obtain ⟨disposed, idle, settled⟩ := kept.ended closed
    have open_no_more : e.closed ≠ none := Option.isSome_iff_ne_none.mp closed
    apply settled_moves moves idle (by simpa [disposed] using uncalled) settled
    · rintro i info retval parameters ending rfl
      exact orderly.resolve_left open_no_more
    · rintro i rfl
      exact open_no_more orderly
  refine ⟨?_, ?_, ?_⟩
  · intro queue disposed
    rcases kept.served queue disposed with done | ⟨looping, waiting⟩
    · exact .inl fun entry inside => List.mem_append_left _ (done entry inside)
    · have later : ∀ entry ∈ queue, entry ∈ e.dispatched ++ e.state.popped label ∨ entry ∈ t.queue := by
        intro entry inside
        rcases waiting entry inside with taken | queued
        · exact .inl (List.mem_append_left _ taken)
        · exact (mem_queue moves queued).symm.imp_left (List.mem_append_right _)
      rcases watcher_moves moves looping with again | empty
      · exact .inr ⟨again, later⟩
      · left
        intro entry inside
        exact (later entry inside).resolve_right (by simp [empty])
  · intro closed
    obtain ⟨idle, settled, _⟩ := after closed
    exact ⟨(kept.ended closed).1, idle, settled⟩
  · cases closed : e.closed with
    | none => simp [kept.unused]
    | some last =>
      have unused := (after (by rw [closed]; rfl)).2.2
      simp [kept.unused, unused]

/-- **One step keeps the invariant.** -/
theorem kept_step (kept : Kept e) (orderly : e.Orderly event) (next : step e event = some e') :
    Kept e' := by
  cases event with
  | act label =>
    obtain ⟨uncalled, next⟩ := Option.ite_none_left_eq_some.mp next
    obtain ⟨t, moved, rfl⟩ := Option.map_eq_some_iff.mp next
    exact kept_act kept orderly uncalled moved
  | dispose =>
    obtain ⟨⟨first, _⟩, next⟩ := Option.ite_none_right_eq_some.mp next
    cases next
    refine ⟨?_, ?_, kept.unused⟩
    · rintro queue ⟨⟩
      rcases orderly with empty | dispatching
      · left
        simp [empty]
      · exact .inr ⟨returnsToQueue_of_dispatches dispatching, fun _ inside => .inr inside⟩
    · intro closed
      obtain ⟨disposed, _⟩ := kept.ended closed
      rw [first] at disposed
      cases disposed
  | close =>
    obtain ⟨⟨disposed, _, idle⟩, next⟩ := Option.ite_none_right_eq_some.mp next
    cases next
    exact ⟨kept.served, fun _ => ⟨disposed, idle, orderly⟩, kept.unused⟩

theorem Kept.safe (kept : Kept e) : Safe e where
  unused := kept.unused
  served := by
    intro last closed queue disposed entry inside
    obtain ⟨_, idle, _⟩ := kept.ended (by rw [Option.mem_def.mp closed]; rfl)
    rcases kept.served queue disposed with done | ⟨looping, _⟩
    · exact .inl (done entry inside)
    · rw [idle] at looping
      cases looping

/-- **Tear-down is safe** in every run in which it is orderly. -/
theorem safe_of_orderly {thread : Thread} (reached : Reaches step Orderly (initial thread) e) :
    Safe e :=
  (reached.invariant Kept (kept_initial thread)
    fun _ _ _ kept orderly next => kept_step kept orderly next).safe

/-! ## Two runs -/

/-- Only these threads call callbacks, and the end does not come. -/
def Among (threads : List Thread) (e : Environment) : Event → Prop
  | .act label => e.closed = none ∧ ∀ i ∈ label.actor, i ∈ threads
  | .dispose => e.state.watcher.dispatches
  | .close => False

instance (threads : List Thread) (e : Environment) : DecidablePred (Among threads e)
  | .act label => inferInstanceAs (Decidable (e.closed = none ∧ ∀ i ∈ label.actor, i ∈ threads))
  | .dispose => inferInstanceAs (Decidable (e.state.watcher.dispatches = true))
  | .close => isFalse id

theorem orderly_of_among {threads : List Thread} (among : Among threads e event) :
    e.Orderly event := by
  cases event with
  | act label =>
    cases label with
    | invoke => exact .inl among.1
    | spuriousReturn => exact among.1
    | construct | advance | wake | poll | watch => trivial
  | dispose => exact .inr among
  | close => exact among.elim

/-- All other threads are outside. -/
theorem native_of_among {threads : List Thread} {thread : Thread}
    (reached : Reaches step (Among threads) (initial thread) e) :
    ∀ i ∉ threads, e.state.threads i = .native := by
  apply reached.invariant (fun e => ∀ i ∉ threads, e.state.threads i = .native)
  · intro i _
    rfl
  · intro e event e' outside among next i absent
    cases event with
    | act label =>
      obtain ⟨_, next⟩ := Option.ite_none_left_eq_some.mp next
      obtain ⟨t, moved, rfl⟩ := Option.map_eq_some_iff.mp next
      have other : label.actor ≠ some i := fun own => absent (among.2 i own)
      exact (threads_of_moves (moves_of_step moved) other).trans (outside i absent)
    | dispose =>
      obtain ⟨_, next⟩ := Option.ite_none_right_eq_some.mp next
      cases next
      exact outside i absent
    | close => exact among.elim

/-- A call by thread `i` up to where it sleeps. -/
def callAndSleep (i : Thread) (inv : Address) : List Event :=
  [.act (.invoke i 10 20 30 .nothing), .act (.advance i), .act (.construct i inv), .act (.advance i),
   .act (.advance i), .act (.advance i), .act (.advance i), .act (.advance i)]

/-- `Dispose` runs in the first of two queued callbacks; both are dispatched, both
threads return, and the `InstanceData` is deleted. -/
theorem safe_while_dispatching :
    ∃ e, Reaches step Orderly (initial 0) e ∧ e.closed.isSome ∧
      e.disposed = some [⟨101, ⟨1, 10, 20, 30⟩⟩] ∧ Safe e := by
  obtain ⟨e, reached, found⟩ := exists_reaches step (Among [1, 2]) (initial 0)
    (callAndSleep 1 100 ++ callAndSleep 2 101 ++ [.act .wake] ++
      List.replicate 2 (.act (.watch .wrote)) ++ [.dispose] ++
      List.replicate 11 (.act (.watch .wrote)) ++ List.replicate 3 (.act (.advance 1)) ++
      List.replicate 3 (.act (.advance 2)))
    (fun e => e.state.threads 1 = .native ∧ e.state.threads 2 = .native ∧ e.closed = none ∧
      e.state.watcher = .idle ∧ e.disposed = some [⟨101, ⟨1, 10, 20, 30⟩⟩]) (by decide)
  obtain ⟨first, second, before, idle, disposed⟩ := of_decide_eq_true found
  have orderly : Reaches step Orderly (initial 0) e :=
    reached.mono fun _ _ among => orderly_of_among among
  have settled : ∀ i, Settled e.state i := by
    intro i
    have outside : e.state.threads i = .native := by
      by_cases own : i ∈ [1, 2]
      · simp only [List.mem_cons, List.not_mem_nil, or_false] at own
        rcases own with rfl | rfl
        · exact first
        · exact second
      · exact native_of_among reached i own
    refine ⟨by rw [outside]; rfl, ?_⟩
    intro call inv asleep
    cases outside.symm.trans asleep
  have closes : step e .close = some { e with closed := some e.state } :=
    if_pos ⟨by rw [disposed]; rfl, before, idle⟩
  have permitted : e.Orderly .close := settled
  have ended := orderly.step permitted closes
  exact ⟨_, ended, rfl, disposed, safe_of_orderly ended⟩

/-- `Dispose` runs while one thread sleeps with its invocation queued and another has
just entered `Invoke`: the first is never woken, the second uses what was deleted. -/
theorem deleted_under_threads :
    ∃ e, Reaches step (fun _ _ => True) (initial 0) e ∧ e.usedAfter = true ∧
      e.disposed = some [⟨100, ⟨0, 10, 20, 30⟩⟩] ∧ e.dispatched = [] ∧
      (∃ last ∈ e.closed, last.threads 1 = .invoking ⟨0, 10, 20, 30⟩ 100 .asleep) ∧ ¬ Safe e := by
  obtain ⟨e, reached, found⟩ := exists_reaches step (fun _ _ => True) (initial 0)
    (callAndSleep 1 100 ++ [.act (.invoke 2 10 20 30 .nothing), .dispose, .close, .act (.advance 2)])
    (fun e => e.usedAfter = true ∧ e.disposed = some [⟨100, ⟨0, 10, 20, 30⟩⟩] ∧
      e.dispatched = [] ∧
      ∃ last ∈ e.closed, last.threads 1 = .invoking ⟨0, 10, 20, 30⟩ 100 .asleep) (by decide)
  obtain ⟨used, disposed, dispatched, asleep⟩ := of_decide_eq_true found
  refine ⟨e, reached, used, disposed, dispatched, asleep, ?_⟩
  intro safe
  cases used.symm.trans safe.unused

end Environment

end NodeFfi.Handshake
