import NodeFfi.HandshakeMoves

/-! Whether the event loop is held open. `uv_ref` and `uv_unref` set and clear one
flag, so the first of several overlapping calls to finish clears it for all. -/
namespace NodeFfi.Handshake

open TransitionSystem

/-- The thread has executed its `uv_ref` and not yet its `uv_unref`. -/
def Activity.holdsLoop : Activity → Bool
  | .referenced _ => true
  | .invoking _ _ point => point ≠ .destroying
  | .native | .entered _ => false

/-- The handle is referenced while any thread counts on it. -/
def LoopHeldOpen (s : State) : Prop :=
  (∃ i, (s.threads i).holdsLoop = true) → s.referenced = true

/-- The step does not execute `uv_unref` while another thread counts on the handle. -/
def Unshared (s : State) (label : Label) : Prop :=
  ∀ i call inv, label = .advance i → s.threads i = .invoking call inv .unreferencing →
    ∀ j, (s.threads j).holdsLoop = true → j = i

theorem LoopHeldOpen.unaffected {s t : State} (held : LoopHeldOpen s)
    (referenced : t.referenced = s.referenced)
    (threads : ∀ j, (t.threads j).holdsLoop = (s.threads j).holdsLoop) : LoopHeldOpen t := by
  rintro ⟨j, counts⟩
  rw [referenced]
  exact held ⟨j, threads j ▸ counts⟩

theorem held_initial (loop : Thread) : LoopHeldOpen (initial loop) := by
  rintro ⟨_, counts⟩
  cases counts

theorem held_step {s t : State} {label : Label} (held : LoopHeldOpen s)
    (unshared : Unshared s label) (next : step s label = some t) : LoopHeldOpen t := by
  cases moves_of_step next with
  | reference => exact fun _ => rfl
  | @unreference i call inv at_point =>
    rintro ⟨j, counts⟩
    rw [State.move_threads] at counts
    by_cases own : j = i
    · simp [own, Activity.holdsLoop] at counts
    · rw [if_neg own] at counts
      exact absurd (unshared i call inv rfl at_point j counts) own
  | direct | wake | poll | watchLock | watchEmpty | watchPop | watchDispatched | watchSignalLock
  | watchSignal | watchSignalUnlock | watchUnlock => exact held.unaffected rfl fun _ => rfl
  | enter _ at_point | construct at_point | lock at_point | push at_point | unlock at_point
  | send at_point | wait at_point | leave at_point | leaveEarly at_point | destroy at_point =>
    exact held.unaffected rfl (update_same _ (by rw [at_point]; rfl))

/-- Clearing the flag under another thread's feet is visible at once. -/
theorem dropped_of_shared {s t : State} {label : Label} (shared : ¬ Unshared s label)
    (next : step s label = some t) : ¬ LoopHeldOpen t := by
  intro held
  unfold Unshared at shared
  push Not at shared
  obtain ⟨i, call, inv, rfl, at_point, j, counts, other⟩ := shared
  have cleared : step s (.advance i) =
      some { s.move i (.invoking call inv .destroying) with referenced := false } := by
    simp [step, advance, at_point]
  cases cleared.symm.trans next
  have set := held ⟨j, by simpa [other] using counts⟩
  cases set

/-- **The loop is held open** in every state of a run exactly when no thread
executes its `uv_unref` while another is between its own `uv_ref` and `uv_unref`. -/
theorem held_open_iff (loop : Thread) (labels : List Label) :
    Along step LoopHeldOpen (initial loop) labels ↔
      EachStep step Unshared (initial loop) labels :=
  along_iff_eachStep (fun _ held => held) (fun _ _ _ => held_step)
    (fun _ _ _ _ => dropped_of_shared) (held_initial loop) labels

/-- The first of two overlapping calls finishes while the second one waits. -/
def overlappingCalls : List Label :=
  [.invoke 1 10 20 30 .nothing, .advance 1, .construct 1 100, .advance 1, .advance 1, .advance 1, .advance 1,
   .advance 1, .invoke 2 11 21 31 .nothing, .advance 2, .wake, .watch .wrote, .watch .wrote, .watch .wrote,
   .watch .wrote, .watch .wrote, .watch .wrote, .watch .wrote, .watch .wrote, .advance 1,
   .construct 2 101, .advance 2, .advance 2, .advance 2, .advance 2, .advance 2, .advance 1]

/-- The second call is queued and its thread asleep, and the loop is not held open. -/
theorem loop_not_held :
    ∃ s, Reaches step WokenBySignal (initial 0) s ∧
      s.threads 2 = .invoking ⟨1, 11, 21, 31⟩ 101 .asleep ∧ s.queue = [⟨101, ⟨1, 11, 21, 31⟩⟩] ∧
      s.referenced = false ∧ ¬ LoopHeldOpen s := by
  obtain ⟨s, reached, found⟩ := exists_reaches step WokenBySignal (initial 0) overlappingCalls
    (fun s => s.threads 2 = .invoking ⟨1, 11, 21, 31⟩ 101 .asleep ∧
      s.queue = [⟨101, ⟨1, 11, 21, 31⟩⟩] ∧ s.referenced = false) (by decide)
  obtain ⟨asleep, queue, cleared⟩ := of_decide_eq_true found
  refine ⟨s, reached, asleep, queue, cleared, ?_⟩
  intro held
  have set := held ⟨2, by rw [asleep]; rfl⟩
  rw [cleared] at set
  cases set

end NodeFfi.Handshake
