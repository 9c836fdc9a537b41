import NodeFfi.HandshakeInvariant

/-! What the handshake delivers: callbacks reach the loop once each, in the order in
which they were pushed. -/
namespace NodeFfi.Handshake

open TransitionSystem

/-- With nothing queued and no drain running the loop is serving nothing. -/
theorem serving_of_not_draining {watcher : Watcher} (stopped : watcher.draining = false) :
    watcher.serving = none ∧ watcher.finishing = [] := by
  cases watcher <;> simp_all [Watcher.draining, Watcher.serving, Watcher.finishing]

/-- **Delivery.** Whatever the threads, libuv and the JavaScript callbacks do,
the calls handed to `DispatchToV8` are the first ones pushed, in the same order
and none twice, each with what its own `Invoke` was given; and once the queue is
empty and no drain is running, none is left out. -/
theorem delivered_in_order {loop : Thread} {s : State}
    (reached : Reaches step WokenBySignal (initial loop) s) :
    s.dispatched <+: s.pushed ∧ s.dispatched.Nodup ∧
      (∀ call ∈ s.dispatched, s.invoked[call.serial]? = some call) ∧
      (s.queue = [] → s.watcher.draining = false →
        s.dispatched = s.pushed ∧ s.completed = s.pushed) := by
  obtain ⟨paired, _, recorded, numbered, _⟩ := sound_of_reaches reached
  have first : s.dispatched <+: s.pushed := by
    rw [recorded.pushed, recorded.dispatched]
    cases s.watcher.serving with
    | none => simp [outstanding]
    | some current => exact ⟨s.queue.map Entry.call, by simp [outstanding]⟩
  refine ⟨first, numbered.nodup.sublist first.sublist, ?_, ?_⟩
  · exact fun call inside => numbered.pushed call (first.subset inside)
  · intro empty stopped
    obtain ⟨idle, finished⟩ := serving_of_not_draining stopped
    rw [recorded.pushed, recorded.dispatched, recorded.completed, idle, finished, empty]
    exact ⟨rfl, rfl⟩

/-- Two threads whose sends merge into one run of the watcher. -/
def mergedSends : List Label :=
  [.invoke 1 10 20 30 .nothing, .invoke 2 11 21 31 .nothing, .advance 1, .advance 2,
   .construct 2 100, .construct 1 101,
   .advance 2, .advance 2, .advance 2, .advance 1, .advance 1, .advance 1, .advance 1, .advance 2,
   .wake, .advance 1, .advance 2, .watch .wrote, .watch .wrote, .watch .threw,
   .watch .wrote, .watch .wrote, .watch .wrote, .watch .wrote, .watch .wrote,
   .watch .wrote, .watch .wrote, .watch .wrote, .watch .wrote, .watch .wrote,
   .advance 1, .advance 2]

theorem merged_sends_delivered :
    ∃ s, Reaches step WokenBySignal (initial 0) s ∧
      s.dispatched = [⟨1, 11, 21, 31⟩, ⟨0, 10, 20, 30⟩] ∧ s.watcher = .idle ∧
      s.dispatched <+: s.pushed ∧ s.dispatched.Nodup ∧
      (∀ call ∈ s.dispatched, s.invoked[call.serial]? = some call) ∧
      (s.queue = [] → s.watcher.draining = false →
        s.dispatched = s.pushed ∧ s.completed = s.pushed) := by
  obtain ⟨s, reached, found⟩ := exists_reaches step WokenBySignal (initial 0) mergedSends
    (fun s => s.dispatched = [⟨1, 11, 21, 31⟩, ⟨0, 10, 20, 30⟩] ∧ s.watcher = .idle) (by decide)
  obtain ⟨order, idle⟩ := of_decide_eq_true found
  exact ⟨s, reached, order, idle, delivered_in_order reached⟩

end NodeFfi.Handshake
