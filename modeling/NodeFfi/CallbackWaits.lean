import NodeFfi.HandshakeInvariant

/-! When `Invoke` returns: after its own callback has run, as long as `uv_cond_wait`
returns only when signalled, and with a result in `retval`, as long as every callback
writes one. `WaitForExecution` has no predicate to re-check, so one spurious return
breaks the first promise at once; and neither it nor `DispatchToV8` tells native code
that nothing was written, so a callback that throws breaks the second. -/
namespace NodeFfi.Handshake

open TransitionSystem

/-- A call that is past its wait has been dispatched and signalled, what the loop still
refers to is alive and still the invocation that was pushed, and native code that has
its thread back reads a `retval` that its callback has written. -/
structure NeverEarly (s : State) : Prop where
  leaving : ∀ i call inv point, s.threads i = .invoking call inv point →
    point = .unreferencing ∨ point = .destroying → call ∈ s.signalled
  returned : ∀ call ∈ s.returned, call ∈ s.signalled
  signalled : ∀ call ∈ s.signalled, call ∈ s.completed
  alive : ∀ e ∈ outstanding s.watcher.serving s.queue,
    ∃ object, s.heap e.inv = some object ∧ object.call = e.call
  read : ∀ call ∈ s.direct ++ s.returned, call ∈ s.written

/-- No wait ends without a signal, and a `DispatchToV8` that ends leaves a result. -/
def Punctual (s : State) (label : Label) : Prop :=
  WokenBySignal s label ∧ ∀ ending ∈ s.ends label, ending = .wrote

instance (s : State) (label : Label) : Decidable (Punctual s label) :=
  inferInstanceAs (Decidable (_ ∧ ∀ ending ∈ s.ends label, ending = .wrote))

variable {s t : State} {label : Label} {labels : List Label} {call : Call}

/-! ## Runs that are never early -/

/-- What `DispatchToV8` is done with has its result. -/
def Wrote (s : State) : Prop := ∀ call ∈ s.direct ++ s.completed, call ∈ s.written

theorem wrote_moves (wrote : Wrote s) (punctual : Punctual s label) (moves : Moves s label t) :
    Wrote t := by
  cases moves with
  | @direct info retval parameters ending =>
    have answered : ending = .wrote := punctual.2 ending (if_pos rfl)
    intro call inside
    rw [if_pos answered]
    rcases List.mem_append.mp inside with direct | completed
    · rcases List.mem_append.mp direct with before | own
      · exact List.mem_append_left _ (wrote call (List.mem_append_left _ before))
      · exact List.mem_append_right _ own
    · exact List.mem_append_left _ (wrote call (List.mem_append_right _ completed))
  | @watchDispatched ending entry at_point =>
    have answered : ending = .wrote := punctual.2 ending (if_pos (by rw [at_point]; rfl))
    intro call inside
    rw [if_pos answered]
    rw [← List.append_assoc] at inside
    rcases List.mem_append.mp inside with before | own
    · exact List.mem_append_left _ (wrote call before)
    · exact List.mem_append_right _ own
  | enter | construct | reference | lock | push | unlock | send | wait | leave | leaveEarly
  | unreference | destroy | wake | poll | watchLock | watchEmpty | watchPop | watchSignalLock
  | watchSignal | watchSignalUnlock | watchUnlock => exact wrote

theorem completed_of_signalled (sound : Sound s) (signalled : call ∈ s.signalled) :
    call ∈ s.completed := by
  rw [sound.recorded.completed]
  exact List.mem_append_left _ signalled

theorem neverEarly_of_sound (sound : Sound s) (wrote : Wrote s) : NeverEarly s where
  leaving := by
    intro i call inv point at_point past
    obtain ⟨mutex, condition, _, agreed⟩ := sound.paired.object at_point
    have absent : role s.watcher.serving s.queue inv = .absent := by
      rcases past with rfl | rfl <;> exact agreed.1
    refine sound.recorded.waited at_point (role_eq_absent.mp absent) ?_ ?_ <;>
      rcases past with rfl | rfl <;> simp
  returned := sound.recorded.returned
  signalled := fun _ => completed_of_signalled sound
  alive := by
    intro e inside
    obtain ⟨_, _, mutex, condition, _, stored, _⟩ := sound.paired.live e inside
    exact ⟨_, stored, rfl⟩
  read := by
    intro call inside
    apply wrote
    rcases List.mem_append.mp inside with direct | returned
    · exact List.mem_append_left _ direct
    · exact List.mem_append_right _ (completed_of_signalled sound (sound.recorded.returned call returned))

/-- Punctual steps keep all of it. -/
theorem along_of_eachStep (sound : Sound s) (wrote : Wrote s) (each : EachStep step Punctual s labels) :
    Along step NeverEarly s labels := by
  induction labels generalizing s with
  | nil => exact neverEarly_of_sound sound wrote
  | cons label rest further =>
    refine ⟨neverEarly_of_sound sound wrote, ?_⟩
    intro t next
    obtain ⟨punctual, onward⟩ := each t next
    exact further (sound_step sound punctual.1 next) (wrote_moves wrote punctual (moves_of_step next)) onward

/-! ## Waits that end unsignalled -/

/-- A signalled call is not the loop's any more. -/
theorem not_outstanding_of_signalled (sound : Sound s) (signalled : call ∈ s.signalled) :
    ∀ e ∈ outstanding s.watcher.serving s.queue, e.call ≠ call := by
  have nodup := sound.numbered.nodup
  rw [sound.recorded.pushed, List.nodup_append] at nodup
  intro e inside same
  exact nodup.2.2 call signalled call (List.mem_map.mpr ⟨e, inside, same⟩) rfl

/-- A wait that ends unsignalled ends too early: its call is still the loop's. -/
theorem early_of_spurious (sound : Sound s) (unprompted : ¬ WokenBySignal s label)
    (next : step s label = some t) : ¬ NeverEarly t := by
  intro kept
  cases moves_of_step next with
  | @leaveEarly i call inv object at_point live unwoken free =>
    have signalled : call ∈ s.signalled := kept.leaving i call inv .unreferencing (by
      simp [State.leaveWait]) (.inl rfl)
    obtain ⟨mutex, condition, stored, agreed⟩ := sound.paired.object at_point
    obtain rfl := Option.some.inj (live.symm.trans stored)
    have present : role s.watcher.serving s.queue inv ≠ .absent := by
      intro absent
      rw [absent] at agreed
      cases agreed.2.symm.trans unwoken
    rw [Ne, role_eq_absent] at present
    push Not at present
    obtain ⟨e, inside, same⟩ := present
    obtain ⟨j, point, at_j⟩ := sound.paired.entry inside
    rw [same] at at_j
    obtain rfl := sound.paired.distinct at_point at_j
    cases at_point.symm.trans at_j
    exact not_outstanding_of_signalled sound signalled e inside rfl
  | _ => exact unprompted rfl

theorem woken_of_along (sound : Sound s) (kept : Along step NeverEarly s (label :: labels))
    (next : step s label = some t) : WokenBySignal s label := by
  by_contra unprompted
  exact early_of_spurious sound unprompted next (kept.2 t next).first

theorem eachStep_woken (sound : Sound s) (kept : Along step NeverEarly s labels) :
    EachStep step WokenBySignal s labels := by
  induction labels generalizing s with
  | nil => trivial
  | cons label rest further =>
    intro t next
    have prompted := woken_of_along sound kept next
    exact ⟨prompted, further (sound_step sound prompted next) (kept.2 t next)⟩

/-! ## Results that are never written -/

/-- Whose result a `retval` holds, and where a call is: only what `DispatchToV8` is done
with has a result, calls on the loop's own thread are nobody else's, and what was pushed
has returned or is still being made. -/
structure Attributed (s : State) : Prop where
  origin : ∀ call ∈ s.written, call ∈ s.direct ++ s.completed
  known : ∀ call ∈ s.direct, s.invoked[call.serial]? = some call
  unpushed : ∀ call ∈ s.direct, call ∉ s.pushed
  unowned : ∀ call ∈ s.direct, ∀ i, (s.threads i).call? ≠ some call
  accounted : ∀ call ∈ s.pushed, call ∈ s.returned ∨ ∃ i, (s.threads i).call? = some call

theorem attributed_initial (loop : Thread) : Attributed (initial loop) :=
  ⟨nofun, nofun, nofun, nofun, nofun⟩

/-- A number that is not given yet is no call's. -/
theorem ne_of_known (known : s.invoked[call.serial]? = some call) {fresh : Call}
    (serial : fresh.serial = s.invoked.length) : call ≠ fresh := by
  rintro rfl
  rw [serial, List.getElem?_length] at known
  cases known

/-- A call on the loop's own thread, with or without a result. -/
theorem origin_direct {direct completed written : List Call} {fresh : Call} {wrote : Prop} [Decidable wrote]
    (origin : ∀ call ∈ written, call ∈ direct ++ completed) :
    ∀ call ∈ if wrote then written ++ [fresh] else written, call ∈ direct ++ [fresh] ++ completed := by
  have kept : ∀ call ∈ written, call ∈ direct ++ [fresh] ++ completed := by
    intro call inside
    rcases List.mem_append.mp (origin call inside) with own | done
    · exact List.mem_append_left _ (List.mem_append_left _ own)
    · exact List.mem_append_right _ done
  intro call inside
  split at inside
  · rcases List.mem_append.mp inside with before | last
    · exact kept call before
    · exact List.mem_append_left _ (List.mem_append_right _ last)
  · exact kept call inside

/-- Where a thread goes on with its call, all are where they were. -/
theorem Attributed.of_calls (attributed : Attributed s) (calls : ∀ i, (t.threads i).call? = (s.threads i).call?)
    (written : t.written = s.written) (direct : t.direct = s.direct) (completed : t.completed = s.completed)
    (invoked : t.invoked = s.invoked) (pushed : t.pushed = s.pushed) (returned : t.returned = s.returned) :
    Attributed t where
  origin := by
    rw [written, direct, completed]
    exact attributed.origin
  known := by
    rw [direct, invoked]
    exact attributed.known
  unpushed := by
    rw [direct, pushed]
    exact attributed.unpushed
  unowned := by
    rw [direct]
    intro call inside i at_i
    exact attributed.unowned call inside i ((calls i).symm.trans at_i)
  accounted := by
    rw [pushed, returned]
    intro call inside
    exact (attributed.accounted call inside).imp_right fun ⟨i, at_i⟩ => ⟨i, (calls i).trans at_i⟩

theorem attributed_moves (attributed : Attributed s) (numbered : Numbered s) (moves : Moves s label t) :
    Attributed t := by
  have whole := attributed
  obtain ⟨origin, known, unpushed, unowned, accounted⟩ := attributed
  cases moves with
  | @direct info retval parameters ending =>
    refine ⟨origin_direct origin, ?_, ?_, ?_, accounted⟩
    · intro call inside
      rcases List.mem_append.mp inside with before | own
      · exact known_append _ (known call before)
      · obtain rfl := List.mem_singleton.mp own
        exact List.getElem?_concat_length
    · intro call inside pushed
      rcases List.mem_append.mp inside with before | own
      · exact unpushed call before pushed
      · exact ne_of_known (numbered.pushed call pushed) rfl (List.mem_singleton.mp own)
    · intro call inside i at_i
      rcases List.mem_append.mp inside with before | own
      · exact unowned call before i at_i
      · exact ne_of_known (numbered.own at_i) rfl (List.mem_singleton.mp own)
  | @enter i info retval parameters ending foreign outside =>
    refine ⟨origin, fun call inside => known_append _ (known call inside), unpushed, ?_, ?_⟩
    · intro call inside j at_j
      rw [State.move_threads] at at_j
      split at at_j
      · exact ne_of_known (known call inside) rfl (Option.some.inj at_j).symm
      · exact unowned call inside j at_j
    · intro call inside
      rcases accounted call inside with returned | ⟨j, at_j⟩
      · exact .inl returned
      · refine .inr ⟨j, ?_⟩
        have other : j ≠ i := by
          rintro rfl
          rw [outside] at at_j
          cases at_j
        rw [State.move_threads, if_neg other, at_j]
  | @push i own inv at_point =>
    have calls : ∀ j, (Function.update s.threads i (.invoking own inv .unlocking) j).call? =
        (s.threads j).call? := update_same Activity.call? (by rw [at_point]; rfl)
    refine ⟨origin, known, ?_, ?_, ?_⟩
    · intro call inside pushed
      rcases List.mem_append.mp pushed with before | last
      · exact unpushed call inside before
      · obtain rfl := List.mem_singleton.mp last
        exact unowned call inside i (by rw [at_point]; rfl)
    · intro call inside j at_j
      exact unowned call inside j ((calls j).symm.trans at_j)
    · intro call inside
      rcases List.mem_append.mp inside with before | last
      · exact (accounted call before).imp_right fun ⟨j, at_j⟩ => ⟨j, (calls j).trans at_j⟩
      · obtain rfl := List.mem_singleton.mp last
        exact .inr ⟨i, (calls i).trans (by rw [at_point]; rfl)⟩
  | @destroy i own inv at_point =>
    refine ⟨origin, known, unpushed, ?_, ?_⟩
    · intro call inside j at_j
      rw [State.store_threads, State.move_threads] at at_j
      split at at_j
      · cases at_j
      · exact unowned call inside j at_j
    · intro call inside
      rcases accounted call inside with returned | ⟨j, at_j⟩
      · exact .inl (List.mem_append_left _ returned)
      · by_cases mover : j = i
        · subst j
          rw [at_point] at at_j
          cases at_j
          exact .inl (List.mem_append_right _ (List.mem_singleton_self _))
        · exact .inr ⟨j, by rw [State.store_threads, State.move_threads, if_neg mover, at_j]⟩
  | reference at_point | construct at_point | lock at_point | unlock at_point | send at_point
  | wait at_point | leave at_point | leaveEarly at_point | unreference at_point =>
    exact whole.of_calls (update_same Activity.call? (by rw [at_point]; rfl)) rfl rfl rfl rfl rfl rfl
  | @watchDispatched ending entry at_point =>
    refine ⟨?_, known, unpushed, unowned, accounted⟩
    intro call inside
    rw [← List.append_assoc]
    split at inside
    · rcases List.mem_append.mp inside with before | own
      · exact List.mem_append_left _ (origin call before)
      · exact List.mem_append_right _ own
    · exact List.mem_append_left _ (origin call inside)
  | wake | poll | watchLock | watchEmpty | watchPop | watchSignalLock | watchSignal
  | watchSignalUnlock | watchUnlock => exact ⟨origin, known, unpushed, unowned, accounted⟩

/-- `DispatchToV8` is done with the call, and nothing is in its `retval`. -/
def Missing (s : State) (call : Call) : Prop := call ∈ s.completed ∧ call ∉ s.written

theorem pushed_of_completed (sound : Sound s) (completed : call ∈ s.completed) : call ∈ s.pushed := by
  rw [sound.recorded.completed] at completed
  rw [sound.recorded.pushed]
  rcases List.mem_append.mp completed with signalled | finishing
  · exact List.mem_append_left _ signalled
  · refine List.mem_append_right _ ?_
    cases at_point : s.watcher <;> simp_all [Watcher.finishing, Watcher.serving, outstanding]

/-- What is being dispatched is neither done with nor in any `retval`. -/
theorem unwritten_of_dispatching (sound : Sound s) (attributed : Attributed s) {entry : Entry}
    (at_point : s.watcher = .dispatching entry) : entry.call ∉ s.completed ∧ entry.call ∉ s.written := by
  have inside : entry ∈ outstanding s.watcher.serving s.queue := by
    rw [at_point]
    exact List.mem_cons_self ..
  have pushed : entry.call ∈ s.pushed := by
    rw [sound.recorded.pushed]
    exact List.mem_append_right _ (List.mem_map_of_mem inside)
  have undone : entry.call ∉ s.completed := by
    intro completed
    rw [sound.recorded.completed, at_point] at completed
    have signalled : entry.call ∈ s.signalled := by simpa [Watcher.finishing] using completed
    exact not_outstanding_of_signalled sound signalled entry inside rfl
  refine ⟨undone, fun written => ?_⟩
  rcases List.mem_append.mp (attributed.origin _ written) with direct | completed
  · exact attributed.unpushed _ direct pushed
  · exact undone completed

/-- A result that is missing stays so. -/
theorem missing_moves (sound : Sound s) (attributed : Attributed s) (missing : Missing s call)
    (moves : Moves s label t) : Missing t call := by
  obtain ⟨completed, unwritten⟩ := missing
  cases moves with
  | @direct info retval parameters ending =>
    refine ⟨completed, fun written => ?_⟩
    split at written
    · rcases List.mem_append.mp written with before | own
      · exact unwritten before
      · have known := sound.numbered.pushed call (pushed_of_completed sound completed)
        exact ne_of_known known rfl (List.mem_singleton.mp own)
    · exact unwritten written
  | @watchDispatched ending entry at_point =>
    refine ⟨List.mem_append_left _ completed, fun written => ?_⟩
    split at written
    · rcases List.mem_append.mp written with before | own
      · exact unwritten before
      · obtain rfl := List.mem_singleton.mp own
        exact (unwritten_of_dispatching sound attributed at_point).1 completed
    · exact unwritten written
  | enter | construct | reference | lock | push | unlock | send | wait | leave | leaveEarly
  | unreference | destroy | wake | poll | watchLock | watchEmpty | watchPop | watchSignalLock
  | watchSignal | watchSignalUnlock | watchUnlock => exact ⟨completed, unwritten⟩

/-- Nothing is missing where the native code that reads it gets there. -/
theorem not_missing_of_out (sound : Sound s) (attributed : Attributed s)
    (kept : Along step NeverEarly s labels) (executed : execute step s labels = some t)
    (out : ∀ i, t.threads i = .native) (call : Call) : ¬ Missing s call := by
  intro missing
  induction labels generalizing s with
  | nil =>
    obtain rfl : s = t := Option.some.inj executed
    rcases attributed.accounted call (pushed_of_completed sound missing.1) with returned | ⟨i, at_i⟩
    · exact missing.2 (kept.read call (List.mem_append_right _ returned))
    · rw [out i] at at_i
      cases at_i
  | cons label rest further =>
    obtain ⟨u, next, onward⟩ := Option.bind_eq_some_iff.mp executed
    have moves := moves_of_step next
    exact further (sound_step sound (woken_of_along sound kept next) next)
      (attributed_moves attributed sound.numbered moves) (kept.2 u next) onward
      (missing_moves sound attributed missing moves)

/-- In a run that ends with all threads out of `Invoke`, every callback wrote its result. -/
theorem eachStep_of_out (sound : Sound s) (attributed : Attributed s)
    (kept : Along step NeverEarly s labels) (executed : execute step s labels = some t)
    (out : ∀ i, t.threads i = .native) : EachStep step Punctual s labels := by
  induction labels generalizing s with
  | nil => trivial
  | cons label rest further =>
    intro u next
    obtain ⟨v, next', onward⟩ := Option.bind_eq_some_iff.mp executed
    obtain rfl := Option.some.inj (next'.symm.trans next)
    have prompted := woken_of_along sound kept next
    have moves := moves_of_step next
    have sound' := sound_step sound prompted next
    have attributed' := attributed_moves attributed sound.numbered moves
    refine ⟨⟨prompted, ?_⟩, further sound' attributed' (kept.2 v next) onward⟩
    intro ending ends
    by_contra silent
    cases moves with
    | @direct info retval parameters =>
      obtain rfl := Option.some.inj ((if_pos rfl).symm.trans ends)
      have written := (kept.2 _ next).first.read _
        (List.mem_append_left _ (List.mem_append_right _ (List.mem_singleton_self _)))
      rw [if_neg silent] at written
      rcases List.mem_append.mp (attributed.origin _ written) with direct | completed
      · exact ne_of_known (attributed.known _ direct) rfl rfl
      · exact ne_of_known (sound.numbered.pushed _ (pushed_of_completed sound completed)) rfl rfl
    | @watchDispatched _ entry at_point =>
      obtain rfl := Option.some.inj ((if_pos (by rw [at_point]; rfl)).symm.trans ends)
      refine not_missing_of_out sound' attributed' (kept.2 _ next) onward out entry.call ?_
      refine ⟨List.mem_append_right _ (List.mem_singleton_self _), ?_⟩
      rw [if_neg silent]
      exact (unwritten_of_dispatching sound attributed at_point).2
    | enter foreign => cases (if_neg foreign).symm.trans ends
    | construct | reference | lock | push | unlock | send | wait | leave | leaveEarly
    | unreference | destroy | wake | poll => cases ends
    | watchLock at_point | watchEmpty at_point | watchPop at_point | watchSignalLock at_point
    | watchSignal at_point | watchSignalUnlock at_point | watchUnlock at_point =>
      rw [State.ends, at_point] at ends
      cases ends

/-! ## Exactly then -/

/-- **Invoke never returns early** in any run in which every wait ends with a signal and
every `DispatchToV8` with a result in `retval`. Where it never does, every wait did; and
if the run ends with no thread in `Invoke`, every `DispatchToV8` did as well. -/
theorem never_early_iff (loop : Thread) (labels : List Label) :
    (EachStep step Punctual (initial loop) labels → Along step NeverEarly (initial loop) labels) ∧
      (Along step NeverEarly (initial loop) labels →
        EachStep step WokenBySignal (initial loop) labels ∧
          ∀ s ∈ execute step (initial loop) labels, (∀ i, s.threads i = .native) →
            EachStep step Punctual (initial loop) labels) := by
  have sound := sound_initial loop
  constructor
  · exact along_of_eachStep sound nofun
  · intro kept
    refine ⟨eachStep_woken sound kept, fun s executed out => ?_⟩
    exact eachStep_of_out sound (attributed_initial loop) kept executed out

/-- A thread calls a callback, sleeps, and is answered. -/
def answered (ending : Ending) : List Label :=
  [.invoke 1 10 20 30 .nothing, .advance 1, .construct 1 100, .advance 1, .advance 1, .advance 1,
   .advance 1, .advance 1, .wake, .watch .nothing, .watch .nothing, .watch ending, .watch .nothing,
   .watch .nothing, .watch .nothing, .watch .nothing, .watch .nothing,
   .advance 1, .advance 1, .advance 1]

theorem answered_never_early : Along step NeverEarly (initial 0) (answered .wrote) :=
  (never_early_iff 0 (answered .wrote)).1 (by decide)

/-- A spurious return before the loop gets to the queue. -/
def wokenForNothing : List Label :=
  [.invoke 1 10 20 30 .nothing, .advance 1, .construct 1 100, .advance 1, .advance 1, .advance 1,
   .advance 1, .advance 1, .spuriousReturn 1, .advance 1, .advance 1]

/-- Native code has its thread back, nothing was dispatched, and the queue refers to an
invocation that is destroyed; and without any spurious return, after a callback that
threw, native code has its thread back and nothing is in `retval`. -/
theorem returns_early :
    (∃ s, Reaches step (fun _ _ => True) (initial 0) s ∧ s.returned = [⟨0, 10, 20, 30⟩] ∧
      s.dispatched = [] ∧ s.queue = [⟨100, ⟨0, 10, 20, 30⟩⟩] ∧ s.heap 100 = none ∧
      ¬ NeverEarly s) ∧
    ∃ s, Reaches step WokenBySignal (initial 0) s ∧ s.returned = [⟨0, 10, 20, 30⟩] ∧
      s.dispatched = s.returned ∧ s.written = [] ∧ ¬ NeverEarly s := by
  constructor
  · obtain ⟨s, reached, found⟩ := exists_reaches step (fun _ _ => True) (initial 0) wokenForNothing
      (fun s => s.returned = [⟨0, 10, 20, 30⟩] ∧ s.dispatched = [] ∧
        s.queue = [⟨100, ⟨0, 10, 20, 30⟩⟩] ∧ s.heap 100 = none ∧ s.signalled = []) (by decide)
    obtain ⟨returned, dispatched, queue, dead, signalled⟩ := of_decide_eq_true found
    refine ⟨s, reached, returned, dispatched, queue, dead, ?_⟩
    intro kept
    have early := kept.returned ⟨0, 10, 20, 30⟩ (by simp [returned])
    simp [signalled] at early
  · obtain ⟨s, reached, found⟩ := exists_reaches step WokenBySignal (initial 0) (answered .threw)
      (fun s => s.returned = [⟨0, 10, 20, 30⟩] ∧ s.dispatched = s.returned ∧ s.written = []) (by decide)
    obtain ⟨returned, dispatched, unwritten⟩ := of_decide_eq_true found
    refine ⟨s, reached, returned, dispatched, unwritten, ?_⟩
    intro kept
    have read := kept.read ⟨0, 10, 20, 30⟩ (by simp [returned])
    simp [unwritten] at read

end NodeFfi.Handshake
