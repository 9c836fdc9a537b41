import NodeFfi.HandshakeMoves
import Mathlib.Data.List.Nodup

/-! Where an invocation is: its owner's program point and the loop's side of the
handshake, and the state diagram that says who holds `m_mutex` and what `m_cond`
knows in each of their combinations. The diagram is kept by every step in which no
`uv_cond_wait` returns without having been signalled. -/
namespace NodeFfi.Handshake

/-- How far the loop is with the invocation it is serving. -/
inductive Service
  | dispatching
  | signalling
  | signalled
  deriving DecidableEq, Repr

/-- Where the loop's side has an invocation: nowhere, in the queue, or in its hands. -/
inductive Role
  | absent
  | queued
  | served (service : Service)
  deriving DecidableEq, Repr

/-- The entry the loop has taken from the queue and not yet signalled. -/
def Watcher.serving : Watcher → Option (Entry × Service)
  | .dispatching entry | .signalLock entry => some (entry, .dispatching)
  | .signalling entry => some (entry, .signalling)
  | .signalUnlock entry => some (entry, .signalled)
  | .idle | .locking | .checking | .unlocking => none

/-- The entries the loop's side still refers to, the one being served first. -/
def outstanding (serving : Option (Entry × Service)) (queue : List Entry) : List Entry :=
  (serving.map Prod.fst).toList ++ queue

def queuedRole (queue : List Entry) (inv : Address) : Role :=
  if inv ∈ queue.map Entry.inv then .queued else .absent

def role (serving : Option (Entry × Service)) (queue : List Entry) (inv : Address) : Role :=
  match serving with
  | some (entry, service) => if entry.inv = inv then .served service else queuedRole queue inv
  | none => queuedRole queue inv

/-- The handshake's state diagram: at each point of its owner and in each role, who
holds `m_mutex` and what `m_cond` knows. -/
def Agrees (owner loop : Thread) (point : Point) (role : Role) (mutex : Option Thread)
    (condition : Condition) : Prop :=
  match point with
  | .locking | .pushing | .unreferencing | .destroying =>
    role = .absent ∧ mutex = some owner ∧ condition = .idle
  | .unlocking | .sending | .waiting =>
    (role = .queued ∨ role = .served .dispatching) ∧ mutex = some owner ∧ condition = .idle
  | .asleep =>
    match role with
    | .queued | .served .dispatching => mutex = none ∧ condition = .waiting
    | .served .signalling => mutex = some loop ∧ condition = .waiting
    | .served .signalled => mutex = some loop ∧ condition = .signalled
    | .absent => mutex = none ∧ condition = .signalled

/-- Every invocation has one owner, who is inside `Invoke` with it, and its object
is as the state diagram says; the loop refers to such invocations only, once each. -/
structure Paired (loop : Thread) (threads : Thread → Activity)
    (heap : Address → Option ThreadedCallbackInvokation) (serving : Option (Entry × Service))
    (queue : List Entry) : Prop where
  outside : threads loop = .native
  object {i : Thread} {call : Call} {inv : Address} {point : Point} :
    threads i = .invoking call inv point → ∃ mutex condition,
      heap inv = some ⟨call, mutex, condition⟩ ∧
        Agrees i loop point (role serving queue inv) mutex condition
  entry {e : Entry} : e ∈ outstanding serving queue →
    ∃ i point, threads i = .invoking e.call e.inv point
  distinct {i j : Thread} {c d : Call} {inv : Address} {p q : Point} :
    threads i = .invoking c inv p → threads j = .invoking d inv q → i = j
  nodup : ((outstanding serving queue).map Entry.inv).Nodup

section
variable {loop i : Thread} {threads : Thread → Activity} {call : Call} {inv : Address}
  {heap : Address → Option ThreadedCallbackInvokation} {serving : Option (Entry × Service)}
  {queue : List Entry} {before after : Point} {object changed : ThreadedCallbackInvokation}
  {entry : Entry} {service later : Service} {activity : Activity}

theorem role_eq_absent : role serving queue inv = .absent ↔
    ∀ e ∈ outstanding serving queue, e.inv ≠ inv := by
  cases serving with
  | none => simp [role, queuedRole, outstanding]
  | some current =>
    by_cases same : current.1.inv = inv <;> simp [role, queuedRole, outstanding, same]

/-- An entry's object is alive and holds the call that was pushed. -/
theorem Paired.live (paired : Paired loop threads heap serving queue) (e : Entry)
    (inside : e ∈ outstanding serving queue) :
    ∃ i point mutex condition, threads i = .invoking e.call e.inv point ∧
      heap e.inv = some ⟨e.call, mutex, condition⟩ ∧
        Agrees i loop point (role serving queue e.inv) mutex condition := by
  obtain ⟨i, point, at_point⟩ := paired.entry inside
  obtain ⟨mutex, condition, stored, agreed⟩ := paired.object at_point
  exact ⟨i, point, mutex, condition, at_point, stored, agreed⟩

theorem Paired.foreign (paired : Paired loop threads heap serving queue)
    (busy : threads i ≠ .native) : i ≠ loop := by
  rintro rfl
  exact busy paired.outside

theorem update_invoking {j : Thread} {c : Call} {a : Address} {p : Point} :
    Function.update threads i activity j = .invoking c a p ↔
      (j = i ∧ activity = .invoking c a p) ∨ (j ≠ i ∧ threads j = .invoking c a p) := by
  by_cases own : j = i
  · subst j
    simp
  · simp [own]

theorem Paired.apart (paired : Paired loop threads heap serving queue)
    (at_point : threads i = .invoking call inv before) {j : Thread} {c : Call} {a : Address}
    {p : Point} (other : j ≠ i) (at_j : threads j = .invoking c a p) : a ≠ inv := by
  rintro rfl
  exact other (paired.distinct at_j at_point)

/-- The owner moves to another point, leaves its object as `object`, and may push it. -/
theorem Paired.owner_moves (paired : Paired loop threads heap serving queue) {pushed : List Entry}
    (at_point : threads i = .invoking call inv before) (same : object.call = call)
    (agrees : Agrees i loop after (role serving pushed inv) object.mutex object.condition)
    (elsewhere : ∀ {a}, a ≠ inv → role serving pushed a = role serving queue a)
    (entries : ∀ {e}, e ∈ outstanding serving pushed →
      e ∈ outstanding serving queue ∨ e = ⟨inv, call⟩)
    (nodup : ((outstanding serving pushed).map Entry.inv).Nodup) :
    Paired loop (Function.update threads i (.invoking call inv after))
      (Function.update heap inv (some object)) serving pushed where
  outside := by
    have foreign := paired.foreign (i := i) (by rw [at_point]; simp)
    rw [Function.update_of_ne foreign.symm, paired.outside]
  object := by
    intro j c a p at_j
    obtain ⟨rfl, same_activity⟩ | ⟨other, at_j⟩ := update_invoking.mp at_j
    · cases same_activity
      exact ⟨object.mutex, object.condition, by rw [Function.update_self, ← same], agrees⟩
    · have apart := paired.apart at_point other at_j
      rw [Function.update_of_ne apart, elsewhere apart]
      exact paired.object at_j
  entry := by
    intro e inside
    obtain inside | rfl := entries inside
    · obtain ⟨j, point, at_j⟩ := paired.entry inside
      by_cases own : j = i
      · subst j
        rw [at_point] at at_j
        cases at_j
        exact ⟨i, after, Function.update_self _ _ _⟩
      · exact ⟨j, point, by rw [Function.update_of_ne own, at_j]⟩
    · exact ⟨i, after, Function.update_self _ _ _⟩
  distinct := by
    intro j k c d a p q at_j at_k
    obtain ⟨rfl, same_j⟩ | ⟨other_j, was_j⟩ := update_invoking.mp at_j
    · cases same_j
      obtain ⟨rfl, _⟩ | ⟨other_k, was_k⟩ := update_invoking.mp at_k
      · rfl
      · exact absurd rfl (paired.apart at_point other_k was_k)
    · obtain ⟨rfl, same_k⟩ | ⟨_, was_k⟩ := update_invoking.mp at_k
      · cases same_k
        exact absurd rfl (paired.apart at_point other_j was_j)
      · exact paired.distinct was_j was_k
  nodup := nodup

/-- The owner moves to another point and leaves its object as `object`. -/
theorem Paired.thread_moves (paired : Paired loop threads heap serving queue)
    (at_point : threads i = .invoking call inv before) (same : object.call = call)
    (agrees : Agrees i loop after (role serving queue inv) object.mutex object.condition) :
    Paired loop (Function.update threads i (.invoking call inv after))
      (Function.update heap inv (some object)) serving queue :=
  paired.owner_moves at_point same agrees (fun _ => rfl) .inl paired.nodup

/-- The owner moves on without touching its object. -/
theorem Paired.point_moves (paired : Paired loop threads heap serving queue)
    (at_point : threads i = .invoking call inv before)
    (agrees : ∀ r mutex condition, Agrees i loop before r mutex condition →
      Agrees i loop after r mutex condition) :
    Paired loop (Function.update threads i (.invoking call inv after)) heap serving queue := by
  obtain ⟨mutex, condition, stored, agreed⟩ := paired.object at_point
  have moved := paired.thread_moves at_point
    (rfl : (ThreadedCallbackInvokation.mk call mutex condition).call = call)
    (agrees _ _ _ agreed)
  rwa [← stored, Function.update_eq_self] at moved

/-- The owner pushes its invocation. -/
theorem Paired.pushes (paired : Paired loop threads heap serving queue)
    (at_point : threads i = .invoking call inv .pushing) :
    Paired loop (Function.update threads i (.invoking call inv .unlocking)) heap serving
      (queue ++ [⟨inv, call⟩]) := by
  obtain ⟨mutex, condition, stored, unknown, held, idle⟩ := paired.object at_point
  have apart := role_eq_absent.mp unknown
  have appended : outstanding serving (queue ++ [⟨inv, call⟩]) =
      outstanding serving queue ++ [⟨inv, call⟩] := (List.append_assoc ..).symm
  have queued : role serving (queue ++ [⟨inv, call⟩]) inv = .queued := by
    cases serving with
    | none => simp [role, queuedRole]
    | some current => simp [role, queuedRole, apart current.1 (by simp [outstanding])]
  have moved : Paired loop (Function.update threads i (.invoking call inv .unlocking))
      (Function.update heap inv (some ⟨call, mutex, condition⟩)) serving
      (queue ++ [⟨inv, call⟩]) := by
    refine paired.owner_moves at_point rfl ⟨.inl queued, held, idle⟩ ?_ ?_ ?_
    · intro a other
      cases serving <;> simp [role, queuedRole, other]
    · intro e inside
      simpa [appended] using inside
    · rw [appended, List.map_append]
      apply paired.nodup.append (List.nodup_singleton _)
      simpa using apart
  rwa [← stored, Function.update_eq_self] at moved

/-- A thread without an invocation changes to another activity without one. -/
theorem Paired.without_invocation (paired : Paired loop threads heap serving queue)
    (foreign : i ≠ loop) (none_before : ∀ call inv point, threads i ≠ .invoking call inv point)
    (none_after : ∀ call inv point, activity ≠ .invoking call inv point) :
    Paired loop (Function.update threads i activity) heap serving queue := by
  have same : ∀ {j call inv point},
      Function.update threads i activity j = .invoking call inv point ↔
        threads j = .invoking call inv point := by
    intro j call inv point
    by_cases own : j = i
    · subst j
      simp [none_before, none_after]
    · rw [Function.update_of_ne own]
  exact
    { outside := by rw [Function.update_of_ne foreign.symm, paired.outside]
      object := fun at_point => paired.object (same.mp at_point)
      entry := fun inside => by
        obtain ⟨j, point, at_point⟩ := paired.entry inside
        exact ⟨j, point, same.mpr at_point⟩
      distinct := fun at_j at_k => paired.distinct (same.mp at_j) (same.mp at_k)
      nodup := paired.nodup }

/-- A new invocation is where nothing was, and the loop does not know of it. -/
theorem Paired.constructed (paired : Paired loop threads heap serving queue)
    (foreign : i ≠ loop) (none_before : ∀ call inv point, threads i ≠ .invoking call inv point)
    (free : heap inv = none) :
    Paired loop (Function.update threads i (.invoking call inv .locking))
      (Function.update heap inv (some ⟨call, some i, .idle⟩)) serving queue := by
  have unused : ∀ {j c a p}, threads j = .invoking c a p → a ≠ inv := by
    rintro j c a p at_j rfl
    obtain ⟨mutex, condition, stored, _⟩ := paired.object at_j
    rw [free] at stored
    cases stored
  have unknown : role serving queue inv = .absent := by
    rw [role_eq_absent]
    intro e inside
    obtain ⟨j, point, at_j⟩ := paired.entry inside
    exact unused at_j
  exact
    { outside := by rw [Function.update_of_ne foreign.symm, paired.outside]
      object := by
        intro j c a p at_j
        obtain ⟨rfl, same⟩ | ⟨_, at_j⟩ := update_invoking.mp at_j
        · cases same
          exact ⟨some j, .idle, Function.update_self _ _ _, unknown, rfl, rfl⟩
        · rw [Function.update_of_ne (unused at_j)]
          exact paired.object at_j
      entry := by
        intro e inside
        obtain ⟨j, point, at_j⟩ := paired.entry inside
        refine ⟨j, point, update_invoking.mpr (.inr ⟨?_, at_j⟩)⟩
        rintro rfl
        exact none_before _ _ _ at_j
      distinct := by
        intro j k c d a p q at_j at_k
        obtain ⟨rfl, same_j⟩ | ⟨_, at_j⟩ := update_invoking.mp at_j
        · cases same_j
          obtain ⟨rfl, _⟩ | ⟨_, at_k⟩ := update_invoking.mp at_k
          · rfl
          · exact absurd rfl (unused at_k)
        · obtain ⟨_, same_k⟩ | ⟨_, at_k⟩ := update_invoking.mp at_k
          · cases same_k
            exact absurd rfl (unused at_j)
          · exact paired.distinct at_j at_k
      nodup := paired.nodup }

/-- The owner destroys an invocation the loop no longer knows of. -/
theorem Paired.destroyed (paired : Paired loop threads heap serving queue)
    (at_point : threads i = .invoking call inv .destroying) :
    Paired loop (Function.update threads i .native) (Function.update heap inv none)
      serving queue := by
  obtain ⟨_, _, _, unknown, _⟩ := paired.object at_point
  have was : ∀ {j c a p}, Function.update threads i .native j = .invoking c a p →
      a ≠ inv ∧ threads j = .invoking c a p := by
    intro j c a p at_j
    obtain ⟨_, same⟩ | ⟨other, at_j⟩ := update_invoking.mp at_j
    · cases same
    · exact ⟨paired.apart at_point other at_j, at_j⟩
  exact
    { outside := by
        rw [Function.update_of_ne (paired.foreign (by rw [at_point]; simp)).symm, paired.outside]
      object := by
        intro j c a p at_j
        rw [Function.update_of_ne (was at_j).1]
        exact paired.object (was at_j).2
      entry := by
        intro e inside
        obtain ⟨j, point, at_j⟩ := paired.entry inside
        refine ⟨j, point, update_invoking.mpr (.inr ⟨?_, at_j⟩)⟩
        rintro rfl
        rw [at_point] at at_j
        cases at_j
        exact role_eq_absent.mp unknown e inside rfl
      distinct := fun at_j at_k => paired.distinct (was at_j).2 (was at_k).2
      nodup := paired.nodup }

/-- The loop takes the first entry from the queue. -/
theorem Paired.pops (paired : Paired loop threads heap none (entry :: queue)) :
    Paired loop threads heap (some (entry, .dispatching)) queue := by
  have distinct : entry.inv ∉ queue.map Entry.inv := (List.nodup_cons.mp paired.nodup).1
  exact
    { outside := paired.outside
      object := by
        intro j c a p at_j
        obtain ⟨mutex, condition, stored, agreed⟩ := paired.object at_j
        refine ⟨mutex, condition, stored, ?_⟩
        by_cases first : entry.inv = a
        · have was : role none (entry :: queue) a = .queued := by simp [role, queuedRole, first]
          rw [was] at agreed
          rw [role, if_pos first]
          cases p <;> simp_all [Agrees]
        · have was : role none (entry :: queue) a = queuedRole queue a := by
            simp [role, queuedRole, Ne.symm first]
          rwa [role, if_neg first, ← was]
      entry := paired.entry
      distinct := paired.distinct
      nodup := paired.nodup }

/-- The loop goes on with the invocation it is serving and leaves it as `changed`. -/
theorem Paired.loop_moves (paired : Paired loop threads heap (some (entry, service)) queue)
    (live : heap entry.inv = some object) (same : changed.call = object.call)
    (agrees : ∀ owner point,
      Agrees owner loop point (.served service) object.mutex object.condition →
        Agrees owner loop point (.served later) changed.mutex changed.condition) :
    Paired loop threads (Function.update heap entry.inv (some changed)) (some (entry, later))
      queue where
  outside := paired.outside
  object := by
    intro j c a p at_j
    obtain ⟨mutex, condition, stored, agreed⟩ := paired.object at_j
    by_cases own : entry.inv = a
    · subst own
      obtain rfl : object = ⟨c, mutex, condition⟩ := Option.some.inj (live.symm.trans stored)
      rw [role, if_pos rfl] at agreed
      refine ⟨changed.mutex, changed.condition, ?_, ?_⟩
      · rw [Function.update_self, ← show changed.call = c from same]
      · rw [role, if_pos rfl]
        exact agrees j p agreed
    · rw [role, if_neg own] at agreed
      refine ⟨mutex, condition, by rw [Function.update_of_ne (Ne.symm own), stored], ?_⟩
      rwa [role, if_neg own]
  entry := paired.entry
  distinct := paired.distinct
  nodup := paired.nodup

/-- `SignalDoneExecuting` returns: the loop is done with the invocation. -/
theorem Paired.finishes (paired : Paired loop threads heap (some (entry, .signalled)) queue)
    (live : heap entry.inv = some object) :
    Paired loop threads
      (Function.update heap entry.inv (some { object with mutex := none })) none queue := by
  have distinct : entry.inv ∉ queue.map Entry.inv := (List.nodup_cons.mp paired.nodup).1
  exact
    { outside := paired.outside
      object := by
        intro j c a p at_j
        obtain ⟨mutex, condition, stored, agreed⟩ := paired.object at_j
        by_cases own : entry.inv = a
        · subst own
          obtain rfl : object = ⟨c, mutex, condition⟩ := Option.some.inj (live.symm.trans stored)
          rw [role, if_pos rfl] at agreed
          refine ⟨none, condition, Function.update_self _ _ _, ?_⟩
          rw [role, queuedRole, if_neg distinct]
          cases p <;> simp_all [Agrees]
        · rw [role, if_neg own] at agreed
          exact ⟨mutex, condition, by rw [Function.update_of_ne (Ne.symm own), stored], agreed⟩
      entry := fun inside => paired.entry (List.mem_cons_of_mem _ inside)
      distinct := paired.distinct
      nodup := (List.nodup_cons.mp paired.nodup).2 }

end

theorem paired_moves {s t : State} {label : Label}
    (paired : Paired s.thread s.threads s.heap s.watcher.serving s.queue)
    (prompted : WokenBySignal s label) (moves : Moves s label t) :
    Paired t.thread t.threads t.heap t.watcher.serving t.queue := by
  cases moves with
  | direct => exact paired
  | enter foreign outside =>
    refine paired.without_invocation foreign ?_ ?_ <;> simp [outside]
  | reference at_point =>
    refine paired.without_invocation (paired.foreign ?_) ?_ ?_ <;> simp [at_point]
  | construct at_point free =>
    refine paired.constructed (paired.foreign ?_) ?_ free <;> simp [at_point]
  | lock at_point | unlock at_point | send at_point | unreference at_point =>
    exact paired.point_moves at_point fun _ _ _ agreed => agreed
  | push at_point => exact paired.pushes at_point
  | wait at_point live =>
    obtain ⟨mutex, condition, stored, here, _⟩ := paired.object at_point
    obtain rfl := Option.some.inj (live.symm.trans stored)
    apply paired.thread_moves at_point rfl
    rcases here with here | here <;> rw [here] <;> exact ⟨rfl, rfl⟩
  | leave at_point live woken free =>
    obtain ⟨mutex, condition, stored, agreed⟩ := paired.object at_point
    obtain rfl := Option.some.inj (live.symm.trans stored)
    refine paired.thread_moves at_point rfl ⟨?_, rfl, rfl⟩
    simp only at woken free
    subst woken free
    revert agreed
    cases role s.watcher.serving s.queue _ with
    | absent => simp
    | queued => simp [Agrees]
    | served service => cases service <;> simp [Agrees]
  | leaveEarly => cases prompted
  | destroy at_point => exact paired.destroyed at_point
  | wake at_point | poll at_point | watchLock at_point | watchEmpty at_point
  | watchDispatched at_point | watchUnlock at_point =>
    rw [at_point] at paired
    exact paired
  | watchPop at_point first =>
    rw [at_point, first] at paired
    exact paired.pops
  | watchSignalLock at_point live free =>
    rw [at_point] at paired
    refine paired.loop_moves live rfl ?_
    intro owner point agreed
    cases point <;> simp_all [Agrees]
  | watchSignal at_point live =>
    rw [at_point] at paired
    refine paired.loop_moves live rfl ?_
    intro owner point agreed
    cases point <;> simp_all [Agrees, Condition.signal]
  | watchSignalUnlock at_point live =>
    rw [at_point] at paired
    exact paired.finishes live

end NodeFfi.Handshake
