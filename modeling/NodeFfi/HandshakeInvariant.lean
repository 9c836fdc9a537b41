import NodeFfi.HandshakePairing

/-! What holds in every state reached when `uv_cond_wait` returns only after a
signal: the state diagram of `HandshakePairing`, `data->mutex` has the holder the
program points say, the histories fit together, and a non-empty queue has
somebody who will make the loop look at it. -/
namespace NodeFfi.Handshake

/-! ## Who holds `data->mutex` -/

/-- The loop is between its lock and its unlock of `data->mutex`. -/
def Watcher.holdsData : Watcher → Bool
  | .idle | .locking => false
  | .checking | .dispatching _ | .signalLock _ | .signalling _ | .signalUnlock _ | .unlocking => true

/-- The thread is between its lock and its unlock of `data->mutex`. -/
def Activity.holdsData : Activity → Bool
  | .invoking _ _ .pushing | .invoking _ _ .unlocking => true
  | _ => false

/-- Thread `i`, the loop's own perhaps, is in a section that `data->mutex` guards. -/
def HoldsData (s : State) (i : Thread) : Prop :=
  (s.threads i).holdsData ∨ (i = s.thread ∧ s.watcher.holdsData)

/-- The mutex is held by the thread whose program point says so, and by no other. -/
def Locked (s : State) : Prop := ∀ i, s.mutex = some i ↔ HoldsData s i

theorem Locked.lone {s : State} {i j : Thread} (locked : Locked s) (holds_i : HoldsData s i)
    (holds_j : HoldsData s j) : i = j :=
  Option.some.inj (((locked i).mpr holds_i).symm.trans ((locked j).mpr holds_j))

theorem Locked.free {s : State} (locked : Locked s) (free : s.mutex = none) (i : Thread) :
    ¬ HoldsData s i := by
  rw [← locked i, free]
  simp

/-- A step that is not on `data->mutex` leaves its holder where it was. -/
theorem Locked.unaffected {s t : State} (locked : Locked s) (mutex : t.mutex = s.mutex)
    (thread : t.thread = s.thread) (watcher : t.watcher.holdsData = s.watcher.holdsData)
    (threads : ∀ j, (t.threads j).holdsData = (s.threads j).holdsData) : Locked t := by
  intro j
  rw [mutex, locked j, HoldsData, HoldsData, thread, watcher, threads]

theorem locked_moves {s t : State} {label : Label} (locked : Locked s)
    (outside : s.threads s.thread = .native) (moves : Moves s label t) : Locked t := by
  cases moves with
  | lock at_point free =>
    intro j
    have nobody := locked.free free j
    grind [HoldsData, State.move, Activity.holdsData]
  | unlock at_point =>
    intro j
    have lone := locked.lone (j := j) (.inl (by rw [at_point]; rfl))
    grind [HoldsData, State.move, Activity.holdsData]
  | watchLock at_point free =>
    intro j
    have nobody := locked.free free j
    grind [HoldsData, Watcher.holdsData]
  | watchUnlock at_point =>
    intro j
    have lone := locked.lone (j := j) (.inr ⟨rfl, by rw [at_point]; rfl⟩)
    grind [HoldsData, Watcher.holdsData, Activity.holdsData]
  | direct => exact locked
  | enter _ at_point | construct at_point | reference at_point | push at_point | send at_point
  | wait at_point | leave at_point | leaveEarly at_point | unreference at_point
  | destroy at_point =>
    exact locked.unaffected rfl rfl rfl (update_same _ (by rw [at_point]; rfl))
  | wake at_point | poll at_point | watchEmpty at_point | watchPop at_point
  | watchDispatched at_point | watchSignalLock at_point | watchSignal at_point
  | watchSignalUnlock at_point =>
    exact locked.unaffected rfl rfl (by rw [at_point]; rfl) fun _ => rfl

/-! ## The histories -/

/-- The call being served whose `DispatchToV8` has returned. -/
def Watcher.finishing : Watcher → List Call
  | .signalLock entry | .signalling entry | .signalUnlock entry => [entry.call]
  | _ => []

/-- A call that is past its push and no longer the loop's was signalled. -/
def Waited (threads : Thread → Activity) (entries : List Entry) (signalled : List Call) : Prop :=
  ∀ {i : Thread} {call : Call} {inv : Address} {point : Point},
    threads i = .invoking call inv point → (∀ e ∈ entries, e.inv ≠ inv) →
      point ≠ .locking → point ≠ .pushing → call ∈ signalled

theorem Waited.update {threads : Thread → Activity} {entries : List Entry} {signalled : List Call}
    {i : Thread} {activity : Activity} (waited : Waited threads entries signalled)
    (mover : ∀ call inv point, activity = .invoking call inv point →
      (∀ e ∈ entries, e.inv ≠ inv) → point ≠ .locking → point ≠ .pushing → call ∈ signalled) :
    Waited (Function.update threads i activity) entries signalled := by
  intro j call inv point at_j
  obtain ⟨_, same⟩ | ⟨_, at_j⟩ := update_invoking.mp at_j
  · exact mover call inv point same
  · exact waited at_j

/-- The histories fit together: what was pushed is what was signalled, then what
the loop is serving, then the queue; and only signalled calls leave their wait. -/
structure Recorded (s : State) : Prop where
  pushed : s.pushed = s.signalled ++ (outstanding s.watcher.serving s.queue).map Entry.call
  dispatched : s.dispatched = s.signalled ++ (s.watcher.serving.map fun p => p.1.call).toList
  completed : s.completed = s.signalled ++ s.watcher.finishing
  waited : Waited s.threads (outstanding s.watcher.serving s.queue) s.signalled
  returned : ∀ call ∈ s.returned, call ∈ s.signalled

theorem recorded_moves {s t : State} {label : Label} (recorded : Recorded s)
    (paired : Paired s.thread s.threads s.heap s.watcher.serving s.queue)
    (prompted : WokenBySignal s label) (moves : Moves s label t) : Recorded t := by
  obtain ⟨pushed, dispatched, completed, waited, returned⟩ := recorded
  cases moves with
  | direct => exact ⟨pushed, dispatched, completed, waited, returned⟩
  | enter | reference | construct =>
    refine ⟨pushed, dispatched, completed, waited.update ?_, returned⟩
    rintro _ _ _ ⟨⟩ <;> simp
  | lock at_point =>
    refine ⟨pushed, dispatched, completed, waited.update ?_, returned⟩
    rintro _ _ _ ⟨⟩ _ _ unpushed
    exact absurd rfl unpushed
  | @push i call inv at_point =>
    refine ⟨?_, dispatched, completed, ?_, returned⟩
    · simp only [pushed, outstanding, List.map_append, List.append_assoc]
      rfl
    · refine Waited.update ?_ ?_
      · intro j call inv point at_j absent
        exact waited at_j fun e inside => absent e (by
          simp only [outstanding, List.mem_append] at inside ⊢
          exact inside.imp_right .inl)
      · rintro _ _ _ ⟨⟩ absent
        exact absurd rfl (absent ⟨inv, call⟩ (by simp [outstanding]))
  | unlock at_point | send at_point | wait at_point | leave at_point | unreference at_point =>
    refine ⟨pushed, dispatched, completed, waited.update ?_, returned⟩
    rintro _ _ _ ⟨⟩ absent _ _
    exact waited at_point absent (by simp) (by simp)
  | leaveEarly => cases prompted
  | destroy at_point =>
    refine ⟨pushed, dispatched, completed, waited.update (by simp), ?_⟩
    obtain ⟨_, _, _, absent, _⟩ := paired.object at_point
    have signalled := waited at_point (role_eq_absent.mp absent) (by simp) (by simp)
    intro call inside
    rcases List.mem_append.mp inside with before | own
    · exact returned call before
    · rwa [List.mem_singleton.mp own]
  | wake at_point | poll at_point | watchLock at_point | watchEmpty at_point
  | watchUnlock at_point | watchSignalLock at_point | watchSignal at_point =>
    rw [at_point] at pushed dispatched completed waited
    exact ⟨pushed, dispatched, completed, waited, returned⟩
  | watchDispatched at_point =>
    rw [at_point] at pushed dispatched completed waited
    refine ⟨pushed, dispatched, ?_, waited, returned⟩
    simp [completed, Watcher.finishing]
  | @watchPop _ entry rest object at_point first live =>
    rw [at_point, first] at pushed waited paired
    rw [at_point] at dispatched completed
    obtain ⟨_, _, _, _, _, stored, _⟩ := paired.live entry (List.mem_cons_self ..)
    obtain rfl := Option.some.inj (live.symm.trans stored)
    refine ⟨pushed, ?_, completed, waited, returned⟩
    simp [dispatched, Watcher.serving]
  | @watchSignalUnlock _ entry object at_point live =>
    rw [at_point] at pushed dispatched completed waited paired
    refine ⟨?_, ?_, ?_, ?_, ?_⟩
    · exact pushed.trans (List.append_cons ..)
    · exact dispatched.trans (List.append_nil _).symm
    · exact completed.trans (List.append_nil _).symm
    · intro j call inv point at_j absent locking pushing
      by_cases own : entry.inv = inv
      · obtain ⟨k, other, at_k⟩ := paired.entry (e := entry) (List.mem_cons_self ..)
        rw [own] at at_k
        obtain rfl := paired.distinct at_j at_k
        cases at_j.symm.trans at_k
        exact List.mem_append_right _ (List.mem_singleton_self _)
      · refine List.mem_append_left _ (waited at_j ?_ locking pushing)
        rintro e (_ | ⟨_, inside⟩)
        · exact own
        · exact absent e inside
    · intro call inside
      exact List.mem_append_left _ (returned call inside)

/-! ## Which call is which -/

/-- The call a thread is making. -/
def Activity.call? : Activity → Option Call
  | .native => none
  | .entered call | .referenced call | .invoking call _ _ => some call

/-- The thread has not pushed its call yet. -/
def Activity.unpushed : Activity → Bool
  | .entered _ | .referenced _ | .invoking _ _ .locking | .invoking _ _ .pushing => true
  | _ => false

/-- A call is known by its number: every thread makes its own, and none is pushed twice. -/
structure Numbered (s : State) : Prop where
  own {i : Thread} {call : Call} :
    (s.threads i).call? = some call → s.invoked[call.serial]? = some call
  distinct {i j : Thread} {call : Call} :
    (s.threads i).call? = some call → (s.threads j).call? = some call → i = j
  unpushed {i : Thread} {call : Call} :
    (s.threads i).call? = some call → (s.threads i).unpushed → call ∉ s.pushed
  pushed : ∀ call ∈ s.pushed, s.invoked[call.serial]? = some call
  nodup : s.pushed.Nodup

theorem Numbered.unaffected {s t : State} (numbered : Numbered s) (invoked : t.invoked = s.invoked)
    (pushed : t.pushed = s.pushed) (calls : ∀ i, (t.threads i).call? = (s.threads i).call?)
    (unpushed : ∀ i, (t.threads i).unpushed → (s.threads i).unpushed) : Numbered t where
  own := by
    intro i call at_i
    rw [invoked]
    exact numbered.own (calls i ▸ at_i)
  distinct := fun at_i at_j => numbered.distinct (calls _ ▸ at_i) (calls _ ▸ at_j)
  unpushed := by
    intro i call at_i before
    rw [pushed]
    exact numbered.unpushed (calls i ▸ at_i) (unpushed i before)
  pushed := by
    rw [pushed, invoked]
    exact numbered.pushed
  nodup := pushed ▸ numbered.nodup

theorem unpushed_update {threads : Thread → Activity} {i : Thread} {activity : Activity}
    (before : activity.unpushed → (threads i).unpushed) (j : Thread) :
    (Function.update threads i activity j).unpushed → (threads j).unpushed := by
  by_cases own : j = i
  · subst j
    rwa [Function.update_self]
  · rw [Function.update_of_ne own]
    exact id

/-- A number that is taken stays taken. -/
theorem known_append {invoked : List Call} {n : Nat} {call : Call} (fresh : Call)
    (known : invoked[n]? = some call) : (invoked ++ [fresh])[n]? = some call := by
  obtain ⟨inside, _⟩ := List.getElem?_eq_some_iff.mp known
  rw [List.getElem?_append_left inside, known]

theorem Numbered.enters {s : State} {i : Thread} {fresh : Call} (numbered : Numbered s)
    (serial : fresh.serial = s.invoked.length) :
    Numbered { s.move i (.entered fresh) with invoked := s.invoked ++ [fresh] } := by
  have unknown : ∀ {call}, s.invoked[call.serial]? = some call → call ≠ fresh := by
    rintro call known rfl
    simp [serial] at known
  have was : ∀ {j call}, (if j = i then Activity.entered fresh else s.threads j).call? = some call →
      (j = i ∧ call = fresh) ∨ (j ≠ i ∧ (s.threads j).call? = some call) := by
    intro j call at_j
    by_cases own : j = i
    · rw [if_pos own] at at_j
      exact .inl ⟨own, (Option.some.inj at_j).symm⟩
    · rw [if_neg own] at at_j
      exact .inr ⟨own, at_j⟩
  constructor
  · intro j call at_j
    rw [State.move_threads] at at_j
    obtain ⟨_, rfl⟩ | ⟨_, at_j⟩ := was at_j
    · simp [serial]
    · exact known_append _ (numbered.own at_j)
  · intro j k call at_j at_k
    rw [State.move_threads] at at_j at_k
    obtain ⟨rfl, rfl⟩ | ⟨_, was_j⟩ := was at_j
    · obtain ⟨rfl, _⟩ | ⟨_, was_k⟩ := was at_k
      · rfl
      · exact absurd rfl (unknown (numbered.own was_k))
    · obtain ⟨_, rfl⟩ | ⟨_, was_k⟩ := was at_k
      · exact absurd rfl (unknown (numbered.own was_j))
      · exact numbered.distinct was_j was_k
  · intro j call at_j before inside
    rw [State.move_threads] at at_j before
    obtain ⟨_, rfl⟩ | ⟨other, at_j⟩ := was at_j
    · exact unknown (numbered.pushed _ inside) rfl
    · rw [if_neg other] at before
      exact numbered.unpushed at_j before inside
  · exact fun call inside => known_append _ (numbered.pushed call inside)
  · exact numbered.nodup

theorem Numbered.pushes {s : State} {i : Thread} {call : Call} {inv : Address}
    (numbered : Numbered s) (at_point : s.threads i = .invoking call inv .pushing) :
    Numbered { s.move i (.invoking call inv .unlocking) with
      queue := s.queue ++ [⟨inv, call⟩], pushed := s.pushed ++ [call] } := by
  have mine : (s.threads i).call? = some call := by rw [at_point]; rfl
  have calls : ∀ j, ((s.move i (.invoking call inv .unlocking)).threads j).call? =
      (s.threads j).call? := update_same _ (by rw [at_point]; rfl)
  constructor
  · exact fun at_j => numbered.own (calls _ ▸ at_j)
  · exact fun at_j at_k => numbered.distinct (calls _ ▸ at_j) (calls _ ▸ at_k)
  · intro j other at_j before inside
    have was : (s.threads j).call? = some other := calls j ▸ at_j
    by_cases own : j = i
    · subst j
      simp [Activity.unpushed] at before
    · rw [State.move_threads, if_neg own] at before
      rcases List.mem_append.mp inside with earlier | same
      · exact numbered.unpushed was before earlier
      · rw [List.mem_singleton.mp same] at was
        exact own (numbered.distinct was mine)
  · intro other inside
    rcases List.mem_append.mp inside with earlier | same
    · exact numbered.pushed other earlier
    · rw [List.mem_singleton.mp same]
      exact numbered.own mine
  · have fresh := numbered.unpushed mine (by rw [at_point]; rfl)
    apply numbered.nodup.append (List.nodup_singleton _)
    simpa using fresh

theorem Numbered.destroys {s : State} {i : Thread} (numbered : Numbered s) :
    Numbered (s.move i .native) := by
  have was : ∀ {j call}, ((s.move i .native).threads j).call? = some call →
      j ≠ i ∧ (s.threads j).call? = some call := by
    intro j call at_j
    by_cases own : j = i
    · simp [own, Activity.call?] at at_j
    · exact ⟨own, by simpa [own] using at_j⟩
  constructor
  · exact fun at_j => numbered.own (was at_j).2
  · exact fun at_j at_k => numbered.distinct (was at_j).2 (was at_k).2
  · intro j call at_j before
    obtain ⟨other, at_j⟩ := was at_j
    exact numbered.unpushed at_j (by simpa [other] using before)
  · exact numbered.pushed
  · exact numbered.nodup

theorem numbered_moves {s t : State} {label : Label} (numbered : Numbered s)
    (moves : Moves s label t) : Numbered t := by
  cases moves with
  | direct =>
    exact
      { own := fun at_i => known_append _ (numbered.own at_i)
        distinct := numbered.distinct
        unpushed := numbered.unpushed
        pushed := fun call inside => known_append _ (numbered.pushed call inside)
        nodup := numbered.nodup }
  | enter => exact numbered.enters rfl
  | push at_point => exact numbered.pushes at_point
  | destroy => exact numbered.destroys.unaffected rfl rfl (fun _ => rfl) fun _ => id
  | reference at_point | construct at_point | lock at_point | unlock at_point | send at_point
  | wait at_point | leave at_point | leaveEarly at_point | unreference at_point =>
    refine numbered.unaffected rfl rfl (update_same _ (by rw [at_point]; rfl)) ?_
    exact unpushed_update (by simp [at_point, Activity.unpushed])
  | wake | poll | watchLock | watchEmpty | watchPop | watchDispatched | watchSignalLock
  | watchSignal | watchSignalUnlock | watchUnlock =>
    exact numbered.unaffected rfl rfl (fun _ => rfl) fun _ => id

/-! ## Who wakes the loop -/

/-- A run of the watcher that has yet to find the queue empty. -/
def Watcher.draining : Watcher → Bool
  | .idle | .unlocking => false
  | .locking | .checking | .dispatching _ | .signalLock _ | .signalling _ | .signalUnlock _ => true

/-- The thread has pushed and has yet to call `uv_async_send`. -/
def Activity.owesSend : Activity → Bool
  | .invoking _ _ .unlocking | .invoking _ _ .sending => true
  | _ => false

/-- Something will make the loop look at the queue. -/
def Attended (s : State) : Prop :=
  s.sent = true ∨ s.watcher.draining = true ∨ ∃ i, (s.threads i).owesSend = true

theorem attended_moves {s t : State} {label : Label} (attended : s.queue ≠ [] → Attended s)
    (moves : Moves s label t) : t.queue ≠ [] → Attended t := by
  intro waiting
  cases moves with
  | @push i => exact .inr (.inr ⟨i, by simp [Activity.owesSend]⟩)
  | @unlock i => exact .inr (.inr ⟨i, by simp [Activity.owesSend]⟩)
  | send => exact .inl rfl
  | wake | poll | watchLock | watchPop | watchDispatched | watchSignalLock | watchSignal
  | watchSignalUnlock => exact .inr (.inl rfl)
  | watchEmpty _ empty => exact absurd empty waiting
  | watchUnlock at_point =>
    obtain sent | draining | owes := attended waiting
    · exact .inl sent
    · simp [at_point, Watcher.draining] at draining
    · exact .inr (.inr owes)
  | direct => exact attended waiting
  | enter _ at_point | reference at_point | construct at_point | lock at_point | wait at_point
  | leave at_point | leaveEarly at_point | unreference at_point | destroy at_point =>
    obtain sent | draining | ⟨j, owes⟩ := attended waiting
    · exact .inl sent
    · exact .inr (.inl draining)
    · refine .inr (.inr ⟨j, ?_⟩)
      rw [← owes]
      exact update_same _ (by rw [at_point]; rfl) j

/-! ## All of it, in every state reached -/

/-- The invariant of the handshake. -/
structure Sound (s : State) : Prop where
  paired : Paired s.thread s.threads s.heap s.watcher.serving s.queue
  locked : Locked s
  recorded : Recorded s
  numbered : Numbered s
  attended : s.queue ≠ [] → Attended s

theorem sound_initial (loop : Thread) : Sound (initial loop) where
  paired := ⟨rfl, nofun, nofun, nofun, List.nodup_nil⟩
  locked := by simp [Locked, HoldsData, initial, Activity.holdsData, Watcher.holdsData]
  recorded := ⟨rfl, rfl, rfl, nofun, nofun⟩
  numbered := ⟨nofun, nofun, nofun, nofun, List.nodup_nil⟩
  attended := fun waiting => absurd rfl waiting

/-- **One step keeps the invariant**, unless it is a wait that ends unsignalled. -/
theorem sound_step {s t : State} {label : Label} (sound : Sound s)
    (prompted : WokenBySignal s label) (next : step s label = some t) : Sound t := by
  have moves := moves_of_step next
  exact
    { paired := paired_moves sound.paired prompted moves
      locked := locked_moves sound.locked sound.paired.outside moves
      recorded := recorded_moves sound.recorded sound.paired prompted moves
      numbered := numbered_moves sound.numbered moves
      attended := attended_moves sound.attended moves }

/-- The invariant holds wherever a run without spurious wake-ups leads. -/
theorem sound_of_reaches {loop : Thread} {s : State}
    (reached : TransitionSystem.Reaches step WokenBySignal (initial loop) s) : Sound s :=
  reached.invariant Sound (sound_initial loop) fun _ _ _ => sound_step

end NodeFfi.Handshake
