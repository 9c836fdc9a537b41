import NodeFfi.HandshakeInvariant

/-! The handshake cannot get stuck. Owner and watcher take the two locks in opposite
orders, but the watcher only ever locks invocations that were pushed, and their
owners are past `data->mutex`; so whoever holds a lock another waits for can move. -/
namespace NodeFfi.Handshake

open TransitionSystem

/-- Steps of a thread inside `Invoke` and of the loop, without new calls, spurious
returns and runs of the watcher that nobody asked for. -/
def Label.progresses : Label → Bool
  | .construct _ _ | .advance _ | .wake | .watch _ => true
  | .invoke _ _ _ _ _ | .spuriousReturn _ | .poll => false

/-- Somebody has a step to take. -/
def CanMove (s : State) : Prop := ∃ label, label.progresses = true ∧ (step s label).isSome = true

/-! ## There is always memory for another invocation -/

/-- All objects are below some address. -/
def Bounded (heap : Address → Option ThreadedCallbackInvokation) : Prop :=
  ∃ bound : Nat, ∀ a : Nat, bound ≤ a → heap a = none

theorem Bounded.update {heap : Address → Option ThreadedCallbackInvokation}
    (bounded : Bounded heap) (inv : Nat) (object : Option ThreadedCallbackInvokation) :
    Bounded (Function.update heap inv object) := by
  obtain ⟨bound, above⟩ := bounded
  refine ⟨max bound (inv + 1), ?_⟩
  intro a far
  rw [Function.update_of_ne (show a ≠ inv by omega), above a (by omega)]

theorem bounded_moves {s t : State} {label : Label} (bounded : Bounded s.heap)
    (moves : Moves s label t) : Bounded t.heap := by
  cases moves with
  | construct | wait | leave | leaveEarly | destroy | watchSignalLock | watchSignal
  | watchSignalUnlock => exact bounded.update _ _
  | _ => exact bounded

theorem bounded_of_reaches {loop : Thread} {s : State}
    (reached : Reaches step WokenBySignal (initial loop) s) : Bounded s.heap :=
  reached.invariant (fun s => Bounded s.heap) ⟨0, fun _ _ => rfl⟩
    fun _ _ _ bounded _ next => bounded_moves bounded (moves_of_step next)

/-! ## Somebody can move -/

theorem canMove_advance {s : State} {i : Thread} (able : (advance s i).isSome = true) : CanMove s :=
  ⟨.advance i, rfl, able⟩

theorem canMove_watch {s : State} (able : (watch s .wrote).isSome = true) : CanMove s :=
  ⟨.watch .wrote, rfl, able⟩

/-- A thread in a section guarded by `data->mutex` is not waiting for anything. -/
theorem canMove_of_holdsData {s : State} {i : Thread} (holds : (s.threads i).holdsData) :
    CanMove s := by
  apply canMove_advance (i := i)
  unfold advance
  cases activity : s.threads i with
  | invoking call inv point => cases point <;> simp_all [Activity.holdsData]
  | _ => simp_all [Activity.holdsData]

/-- Whoever waits for `data->mutex` waits for a thread that can move, or for the watcher. -/
theorem canMove_of_locked {s : State} (locked : Locked s) (taken : s.mutex ≠ none)
    (watcher : s.watcher.holdsData = true → CanMove s) : CanMove s := by
  obtain ⟨i, held⟩ := Option.ne_none_iff_exists'.mp taken
  obtain holds | ⟨_, holds⟩ := (locked i).mp held
  · exact canMove_of_holdsData holds
  · exact watcher holds

/-- The watcher only waits for an owner that can move. -/
theorem canMove_of_watching {s : State} (sound : Sound s) (busy : s.watcher ≠ .idle) :
    CanMove s := by
  have live := sound.paired.live
  cases at_point : s.watcher with
  | idle => exact absurd at_point busy
  | locking =>
    by_cases free : s.mutex = none
    · exact canMove_watch (by simp [watch, at_point, free])
    · exact canMove_of_locked sound.locked free (by simp [at_point, Watcher.holdsData])
  | checking =>
    apply canMove_watch
    cases queued : s.queue with
    | nil => simp [watch, at_point, queued]
    | cons entry rest =>
      obtain ⟨_, _, _, _, _, stored, _⟩ := live entry (by simp [outstanding, queued])
      simp [watch, at_point, queued, stored]
  | dispatching entry => exact canMove_watch (by simp [watch, at_point])
  | signalLock entry =>
    obtain ⟨i, point, mutex, condition, owner, stored, agreed⟩ :=
      live entry (by simp [outstanding, at_point, Watcher.serving])
    have served : role s.watcher.serving s.queue entry.inv = .served .dispatching := by
      simp [role, at_point, Watcher.serving]
    rw [served] at agreed
    cases point with
    | locking | pushing | unreferencing | destroying => cases agreed.1
    | unlocking | sending => exact canMove_advance (i := i) (by simp [advance, owner])
    | waiting => exact canMove_advance (i := i) (by simp [advance, owner, stored])
    | asleep => exact canMove_watch (by simp [watch, at_point, stored, agreed.1])
  | signalling entry | signalUnlock entry =>
    obtain ⟨_, _, _, _, _, stored, _⟩ :=
      live entry (by simp [outstanding, at_point, Watcher.serving])
    exact canMove_watch (by simp [watch, at_point, stored])
  | unlocking => exact canMove_watch (by simp [watch, at_point])

/-- As long as something is queued, the loop or a pusher can move. -/
theorem canMove_of_queued {s : State} (sound : Sound s) (queued : s.queue ≠ []) : CanMove s := by
  by_cases idle : s.watcher = .idle
  · obtain sent | draining | ⟨i, owes⟩ := sound.attended queued
    · exact ⟨.wake, rfl, by simp [step, idle, sent]⟩
    · simp [idle, Watcher.draining] at draining
    · apply canMove_advance (i := i)
      unfold advance
      cases activity : s.threads i with
      | invoking call inv point => cases point <;> simp_all [Activity.owesSend]
      | _ => simp_all [Activity.owesSend]
  · exact canMove_of_watching sound idle

theorem canMove_of_invoking {s : State} {i : Thread} (sound : Sound s) (bounded : Bounded s.heap)
    (inside : s.threads i ≠ .native) : CanMove s := by
  cases activity : s.threads i with
  | native => exact absurd activity inside
  | entered call => exact canMove_advance (i := i) (by simp [advance, activity])
  | referenced call =>
    obtain ⟨bound, above⟩ := bounded
    exact ⟨.construct i bound, rfl, by simp [step, construct, activity, above bound (Nat.le_refl _)]⟩
  | invoking call inv point =>
    obtain ⟨mutex, condition, stored, agreed⟩ := sound.paired.object activity
    cases point with
    | locking =>
      by_cases free : s.mutex = none
      · exact canMove_advance (i := i) (by simp [advance, activity, free])
      · apply canMove_of_locked sound.locked free
        intro holds
        apply canMove_of_watching sound
        rintro idle
        simp [idle, Watcher.holdsData] at holds
    | pushing | unlocking | sending | unreferencing | destroying =>
      exact canMove_advance (i := i) (by simp [advance, activity])
    | waiting => exact canMove_advance (i := i) (by simp [advance, activity, stored])
    | asleep =>
      by_cases absent : role s.watcher.serving s.queue inv = .absent
      · rw [absent] at agreed
        obtain ⟨free, woken⟩ := agreed
        exact canMove_advance (i := i) (by simp [advance, activity, stored, free, woken])
      · by_cases queued : s.queue = []
        · apply canMove_of_watching sound
          intro idle
          exact absent (by simp [role, queuedRole, idle, Watcher.serving, queued])
        · exact canMove_of_queued sound queued

/-- **The handshake does not get stuck.** While any thread is inside `Invoke`,
somebody can move; the watcher never asks for the `m_mutex` of an owner that is
still before `data->mutex`, it only signals an owner that is waiting, and a queue
with something in it has a wake-up pending, a drain running or a pusher that has
yet to send. -/
theorem handshake_progress {loop : Thread} {s : State}
    (reached : Reaches step WokenBySignal (initial loop) s) :
    ((∃ i, s.threads i ≠ .native) → CanMove s) ∧
      (∀ entry i call, s.watcher = .signalLock entry →
        s.threads i ≠ .invoking call entry.inv .locking) ∧
      (∀ entry, s.watcher = .signalling entry → ∃ i mutex,
        s.threads i = .invoking entry.call entry.inv .asleep ∧
          s.heap entry.inv = some ⟨entry.call, mutex, .waiting⟩) ∧
      (s.queue ≠ [] → Attended s) := by
  have sound := sound_of_reaches reached
  refine ⟨?_, ?_, ?_, sound.attended⟩
  · rintro ⟨i, inside⟩
    exact canMove_of_invoking sound (bounded_of_reaches reached) inside
  · intro entry i call at_point blocked
    obtain ⟨_, _, _, absent, _⟩ := sound.paired.object blocked
    simp [role, at_point, Watcher.serving] at absent
  · intro entry at_point
    obtain ⟨i, point, mutex, condition, owner, stored, agreed⟩ :=
      sound.paired.live entry (by simp [outstanding, at_point, Watcher.serving])
    have served : role s.watcher.serving s.queue entry.inv = .served .signalling := by
      simp [role, at_point, Watcher.serving]
    rw [served] at agreed
    cases point with
    | asleep => exact ⟨i, mutex, owner, by rw [stored, agreed.2]⟩
    | locking | pushing | unreferencing | destroying => cases agreed.1
    | unlocking | sending | waiting => simp [Agrees] at agreed

/-- The owner is waiting and the watcher is about to lock its invocation. -/
def aboutToSignal : List Label :=
  [.invoke 1 10 20 30 .nothing, .advance 1, .construct 1 100, .advance 1, .advance 1, .advance 1, .advance 1,
   .advance 1, .wake, .watch .wrote, .watch .wrote, .watch .threw]

theorem about_to_signal_moves :
    ∃ s, Reaches step WokenBySignal (initial 0) s ∧ s.threads 1 ≠ .native ∧
      s.watcher = .signalLock ⟨100, ⟨0, 10, 20, 30⟩⟩ ∧ CanMove s := by
  obtain ⟨s, reached, found⟩ := exists_reaches step WokenBySignal (initial 0) aboutToSignal
    (fun s => s.threads 1 ≠ .native ∧ s.watcher = .signalLock ⟨100, ⟨0, 10, 20, 30⟩⟩) (by decide)
  obtain ⟨inside, locking⟩ := of_decide_eq_true found
  exact ⟨s, reached, inside, locking, (handshake_progress reached).1 ⟨1, inside⟩⟩

end NodeFfi.Handshake
