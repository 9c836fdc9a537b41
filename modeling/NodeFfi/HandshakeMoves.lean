import NodeFfi.Handshake

/-! What one step of the handshake can do, so that every invariant is checked
against this list and none against the step function. -/
namespace NodeFfi.Handshake

/-- What one step can do, with the guards under which it can. -/
inductive Moves (s : State) : Label → State → Prop
  | direct {info retval parameters ending} (free : s.watcher.runsJs) :
      Moves s (.invoke s.thread info retval parameters ending)
        { s with invoked := s.invoked ++ [⟨s.invoked.length, info, retval, parameters⟩]
                 direct := s.direct ++ [⟨s.invoked.length, info, retval, parameters⟩]
                 written := if ending = .wrote then
                   s.written ++ [⟨s.invoked.length, info, retval, parameters⟩] else s.written }
  | enter {i info retval parameters ending} (foreign : i ≠ s.thread) (outside : s.threads i = .native) :
      Moves s (.invoke i info retval parameters ending)
        { s.move i (.entered ⟨s.invoked.length, info, retval, parameters⟩) with
          invoked := s.invoked ++ [⟨s.invoked.length, info, retval, parameters⟩] }
  | construct {i inv call} (at_point : s.threads i = .referenced call) (free : s.heap inv = none) :
      Moves s (.construct i inv)
        ((s.move i (.invoking call inv .locking)).store inv (some ⟨call, some i, .idle⟩))
  | reference {i call} (at_point : s.threads i = .entered call) :
      Moves s (.advance i) { s.move i (.referenced call) with referenced := true }
  | lock {i call inv} (at_point : s.threads i = .invoking call inv .locking) (free : s.mutex = none) :
      Moves s (.advance i) { s.move i (.invoking call inv .pushing) with mutex := some i }
  | push {i call inv} (at_point : s.threads i = .invoking call inv .pushing) :
      Moves s (.advance i) { s.move i (.invoking call inv .unlocking) with
        queue := s.queue ++ [⟨inv, call⟩], pushed := s.pushed ++ [call] }
  | unlock {i call inv} (at_point : s.threads i = .invoking call inv .unlocking) :
      Moves s (.advance i) { s.move i (.invoking call inv .sending) with mutex := none }
  | send {i call inv} (at_point : s.threads i = .invoking call inv .sending) :
      Moves s (.advance i) { s.move i (.invoking call inv .waiting) with sent := true }
  | wait {i call inv object} (at_point : s.threads i = .invoking call inv .waiting)
      (live : s.heap inv = some object) :
      Moves s (.advance i) ((s.move i (.invoking call inv .asleep)).store inv
        (some { object with mutex := none, condition := .waiting }))
  | leave {i call inv object} (at_point : s.threads i = .invoking call inv .asleep)
      (live : s.heap inv = some object) (woken : object.condition = .signalled)
      (free : object.mutex = none) :
      Moves s (.advance i) (s.leaveWait i call inv object)
  | leaveEarly {i call inv object} (at_point : s.threads i = .invoking call inv .asleep)
      (live : s.heap inv = some object) (unwoken : object.condition = .waiting)
      (free : object.mutex = none) :
      Moves s (.spuriousReturn i) (s.leaveWait i call inv object)
  | unreference {i call inv} (at_point : s.threads i = .invoking call inv .unreferencing) :
      Moves s (.advance i) { s.move i (.invoking call inv .destroying) with referenced := false }
  | destroy {i call inv} (at_point : s.threads i = .invoking call inv .destroying) :
      Moves s (.advance i)
        { (s.move i .native).store inv none with returned := s.returned ++ [call] }
  | wake (idle : s.watcher = .idle) (pending : s.sent = true) :
      Moves s .wake { s with sent := false, watcher := .locking }
  | poll (idle : s.watcher = .idle) : Moves s .poll { s with watcher := .locking }
  | watchLock {ending} (at_point : s.watcher = .locking) (free : s.mutex = none) :
      Moves s (.watch ending) { s with mutex := some s.thread, watcher := .checking }
  | watchEmpty {ending} (at_point : s.watcher = .checking) (empty : s.queue = []) :
      Moves s (.watch ending) { s with watcher := .unlocking }
  | watchPop {ending entry rest object} (at_point : s.watcher = .checking)
      (first : s.queue = entry :: rest) (live : s.heap entry.inv = some object) :
      Moves s (.watch ending) { s with
        queue := rest, watcher := .dispatching entry, dispatched := s.dispatched ++ [object.call] }
  | watchDispatched {ending entry} (at_point : s.watcher = .dispatching entry) :
      Moves s (.watch ending) { s with
        watcher := .signalLock entry, completed := s.completed ++ [entry.call],
        written := if ending = .wrote then s.written ++ [entry.call] else s.written }
  | watchSignalLock {ending entry object} (at_point : s.watcher = .signalLock entry)
      (live : s.heap entry.inv = some object) (free : object.mutex = none) :
      Moves s (.watch ending) ({ s with watcher := .signalling entry }.store entry.inv
          (some { object with mutex := some s.thread }))
  | watchSignal {ending entry object} (at_point : s.watcher = .signalling entry)
      (live : s.heap entry.inv = some object) :
      Moves s (.watch ending) ({ s with watcher := .signalUnlock entry }.store entry.inv
        (some { object with condition := object.condition.signal }))
  | watchSignalUnlock {ending entry object} (at_point : s.watcher = .signalUnlock entry)
      (live : s.heap entry.inv = some object) :
      Moves s (.watch ending)
        ({ s with watcher := .checking, signalled := s.signalled ++ [entry.call] }.store entry.inv
          (some { object with mutex := none }))
  | watchUnlock {ending} (at_point : s.watcher = .unlocking) :
      Moves s (.watch ending) { s with mutex := none, watcher := .idle }

theorem moves_of_step {s t : State} {label : Label} (next : step s label = some t) :
    Moves s label t := by
  cases label with
  | invoke i info retval parameters ending =>
    simp only [step, invoke] at next
    split at next
    · split at next
      · cases next; subst i; exact .direct ‹_›
      · cases next
    · split at next
      · cases next; exact .enter ‹_› ‹_›
      · cases next
  | construct i inv =>
    simp only [step, construct] at next
    split at next
    · cases next; exact .construct ‹_› ‹_›
    · cases next
  | advance i =>
    simp only [step, advance] at next
    split at next
    · cases next
    · cases next
    · cases next; exact .reference ‹_›
    · split at next
      · cases next; exact .lock ‹_› ‹_›
      · cases next
    · cases next; exact .push ‹_›
    · cases next; exact .unlock ‹_›
    · cases next; exact .send ‹_›
    · obtain ⟨object, live, rfl⟩ := Option.map_eq_some_iff.mp next
      exact .wait ‹_› live
    · obtain ⟨object, live, onward⟩ := Option.bind_eq_some_iff.mp next
      split at onward
      · next both => cases onward; exact .leave ‹_› live both.1 both.2
      · cases onward
    · cases next; exact .unreference ‹_›
    · cases next; exact .destroy ‹_›
  | spuriousReturn i =>
    simp only [step, spuriousReturn] at next
    split at next
    · obtain ⟨object, live, onward⟩ := Option.bind_eq_some_iff.mp next
      split at onward
      · next both => cases onward; exact .leaveEarly ‹_› live both.1 both.2
      · cases onward
    · cases next
  | wake =>
    simp only [step] at next
    split at next
    · next both => cases next; exact .wake both.1 both.2
    · cases next
  | poll =>
    simp only [step] at next
    split at next
    · cases next; exact .poll ‹_›
    · cases next
  | watch ending =>
    simp only [step, watch] at next
    split at next
    · cases next
    · split at next
      · cases next; exact .watchLock ‹_› ‹_›
      · cases next
    · split at next
      · cases next; exact .watchEmpty ‹_› ‹_›
      · obtain ⟨object, live, rfl⟩ := Option.map_eq_some_iff.mp next
        exact .watchPop ‹_› ‹_› live
    · cases next; exact .watchDispatched ‹_›
    · obtain ⟨object, live, onward⟩ := Option.bind_eq_some_iff.mp next
      split at onward
      · cases onward; exact .watchSignalLock ‹_› live ‹_›
      · cases onward
    · obtain ⟨object, live, rfl⟩ := Option.map_eq_some_iff.mp next
      exact .watchSignal ‹_› live
    · obtain ⟨object, live, rfl⟩ := Option.map_eq_some_iff.mp next
      exact .watchSignalUnlock ‹_› live
    · cases next; exact .watchUnlock ‹_›

/-- What a move does not change of the mover, it changes of nobody. -/
theorem update_same {β : Type} (f : Activity → β) {threads : Thread → Activity} {i : Thread}
    {activity : Activity} (same : f activity = f (threads i)) (j : Thread) :
    f (Function.update threads i activity j) = f (threads j) := by
  by_cases own : j = i
  · subst j
    rw [Function.update_self, same]
  · rw [Function.update_of_ne own]

/-- The thread that a step is of, unless it is the loop's. -/
def Label.actor : Label → Option Thread
  | .invoke i _ _ _ _ | .construct i _ | .advance i | .spuriousReturn i => some i
  | .wake | .poll | .watch _ => none

/-- A thread that does not act stays where it is. -/
theorem threads_of_moves {s t : State} {label : Label} (moves : Moves s label t) {i : Thread}
    (other : label.actor ≠ some i) : t.threads i = s.threads i := by
  cases moves with
  | direct | wake | poll | watchLock | watchEmpty | watchPop | watchDispatched | watchSignalLock
  | watchSignal | watchSignalUnlock | watchUnlock => rfl
  | enter | construct | reference | lock | push | unlock | send | wait | leave | leaveEarly
  | unreference | destroy =>
    exact Function.update_of_ne (fun same => other (congrArg some same.symm)) ..

end NodeFfi.Handshake
