import NodeFfi.HandshakeInvariant

/-! How long a `callback_info` lives. `Callback` allocates it with the Buffer that
JavaScript holds, `closure_pointer_cb` destroys and frees it once that Buffer is
unreachable; `Invoke`, the queue and `DispatchToV8` hold its address in between. And
while an exception is pending, Node-API calls no function and throws no other one. -/
namespace NodeFfi.Handshake

open TransitionSystem

abbrev Function := Nat

/-- `callback_info`, as far as `DispatchToV8` reads it. A `FunctionReference` can be empty. -/
structure CallbackInfo where
  errorFunction : Function
  function : Option Function
  deriving DecidableEq, Repr

/-- What a `DispatchToV8` did: call the function, tell the error function of its
exception, report that the callback has been garbage collected, have Node-API refuse the
call or the report because an exception is pending, read freed memory. -/
inductive Outcome
  | called (call : Call) (function : Function)
  | failed (call : Call) (errorFunction : Function)
  | collected (call : Call)
  | refused (call : Call)
  | freed (call : Call)
  deriving DecidableEq, Repr

/-- The call whose function runs. -/
def Outcome.running : Outcome → Option Call
  | .called call _ => some call
  | .failed _ _ | .collected _ | .refused _ | .freed _ => none

/-- On the loop's own thread it throws an error made of the function's exception, or one
that reports. -/
def Outcome.throws (ending : Option Ending) : Outcome → Bool
  | .called _ _ => ending == some .threw
  | .collected _ => true
  | .failed _ _ | .refused _ | .freed _ => false

/-- An environment with its callbacks, numbered as `Callback` created them: `created` is
what it stored, `infos` what `closure_pointer_cb` has left, `reachable` whose Buffers
JavaScript can get at, `pending` whether an exception is, and `active` the call that
`WatcherCallback` dispatched last, if its function ran. -/
structure Callbacks where
  state : State
  created : List CallbackInfo
  infos : Nat → Option CallbackInfo
  reachable : Nat → Bool
  pending : Bool
  active : Option Call
  outcomes : List Outcome

/-- A step of the handshake, or of JavaScript and its garbage collector. `raise` is native
code that JavaScript has called, or a function queued for the end of a `MakeCallback`,
leaving an exception pending, and `handle` is JavaScript being thrown it. -/
inductive Lifetime
  | create (errorFunction function : Function)
  | drop (info : Nat)
  | finalize (info : Nat)
  | raise
  | handle
  | act (label : Label)
  deriving DecidableEq, Repr

/-- The callback that a step calls. -/
def Label.callee : Label → Option Nat
  | .invoke _ info _ _ _ => some info
  | _ => none

/-- The call that `Invoke` hands to `DispatchToV8` at once, on the loop's own thread. -/
def State.direct? (s : State) : Label → Option Call
  | .invoke i info retval parameters _ =>
    if i = s.thread then some ⟨s.invoked.length, info, retval, parameters⟩ else none
  | _ => none

/-- The call that `WatcherCallback` hands to `DispatchToV8`: what its invocation says. -/
def State.handed (s : State) : Label → Option Call
  | .watch _ =>
    if s.watcher = .checking then
      (s.queue.head?.bind fun entry => s.heap entry.inv).map ThreadedCallbackInvokation.call
    else none
  | _ => none

/-- The function that `WatcherCallback` is dispatching to returns an exception. -/
def State.fails (s : State) : Label → Bool
  | .watch .threw => s.watcher.dispatches
  | _ => false

namespace Callbacks

def initial (thread : Thread) : Callbacks where
  state := Handshake.initial thread
  created := []
  infos _ := none
  reachable _ := false
  pending := false
  active := none
  outcomes := []

/-- `DispatchToV8` up to the call of the function. -/
def dispatchToV8 (e : Callbacks) (call : Call) : Outcome :=
  match e.infos call.info with
  | none => .freed call
  | some info =>
    if e.pending then .refused call
    else match info.function with
      | none => .collected call
      | some function => .called call function

/-- `DispatchToV8` after it, when the function has returned an exception. -/
def tellError (e : Callbacks) (call : Call) : Outcome :=
  match e.infos call.info with
  | none => .freed call
  | some info => .failed call info.errorFunction

/-- The function has returned an exception to `WatcherCallback`. If one is pending by
then, that is what `MakeCallback` throws, and the error function is told nothing. -/
def tells (e : Callbacks) (label : Label) : Bool := e.state.fails label && !e.pending

/-- What a step of the handshake reads of the callbacks. -/
def reads (e : Callbacks) (label : Label) : List Outcome :=
  (e.state.direct? label).toList.map e.dispatchToV8 ++
    (e.state.handed label).toList.map e.dispatchToV8 ++
      if e.tells label then e.active.toList.map e.tellError else []

/-- What a `DispatchToV8` on the loop's own thread throws is pending when it returns. -/
def throws (e : Callbacks) (label : Label) : Bool :=
  (e.state.direct? label).any fun call => (e.dispatchToV8 call).throws (e.state.ends label)

/-- The call whose function ends with the step. -/
def ending (e : Callbacks) : Label → Option Call
  | .watch _ => e.active
  | label => (e.state.direct? label).bind fun call => (e.dispatchToV8 call).running

/-- Native code has a function pointer only from `Callback`, and only a function that ran
has written a result or thrown. -/
def possible (e : Callbacks) (label : Label) : Bool :=
  label.callee.all (· < e.created.length) &&
    ((e.ending label).isSome || (e.state.ends label).all (· == .nothing))

/-- JavaScript and its garbage collector run on the loop's thread. -/
def step (e : Callbacks) : Lifetime → Option Callbacks
  | .create errorFunction function =>
    if e.state.watcher.runsJs then
      let info : CallbackInfo := ⟨errorFunction, some function⟩
      some { e with
        created := e.created ++ [info]
        infos := Function.update e.infos e.created.length (some info)
        reachable := Function.update e.reachable e.created.length true }
    else none
  | .drop info =>
    if e.state.watcher.runsJs then
      some { e with reachable := Function.update e.reachable info false }
    else none
  | .finalize info =>
    if e.state.watcher.runsJs ∧ e.reachable info = false ∧ (e.infos info).isSome then
      some { e with infos := Function.update e.infos info none }
    else none
  | .raise => if e.state.watcher.runsJs then some { e with pending := true } else none
  | .handle =>
    if e.state.watcher = .idle ∨ (e.state.watcher.dispatches ∧ e.active.isSome) then
      some { e with pending := false }
    else none
  | .act label =>
    if e.possible label then
      (Handshake.step e.state label).map fun t =>
        { e with
          state := t
          pending := e.pending || e.throws label
          active := (e.state.handed label).elim e.active fun call => (e.dispatchToV8 call).running
          outcomes := e.outcomes ++ e.reads label }
    else none

/-- The function or the error function is the one that was registered for the call's
callback, and nothing freed was read. -/
def Proper (created : List CallbackInfo) : Outcome → Prop
  | .called call function => ∃ info ∈ created[call.info]?, info.function = some function
  | .failed call errorFunction => ∃ info ∈ created[call.info]?, info.errorFunction = errorFunction
  | .collected _ => True
  | .refused _ | .freed _ => False

/-- **Every dispatched `callback_info` is alive.** -/
def DispatchesAlive (e : Callbacks) : Prop := ∀ outcome ∈ e.outcomes, Proper e.created outcome

end Callbacks

/-- A call of this callback is in the queue or on its way there. -/
inductive Pending (s : State) (info : Nat) : Prop
  | unpushed {i : Thread} {call : Call} (own : (s.threads i).call? = some call)
      (before : (s.threads i).unpushed) (same : call.info = info)
  | queued {entry : Entry} (inside : entry ∈ s.queue) (same : entry.call.info = info)

/-- No callback is freed with a call in the queue or on its way there, or called after
it has been freed; one that is freed while `WatcherCallback` dispatches to it returns no
exception; none is dispatched while an exception is pending; and no wait ends without a
signal. -/
def Callbacks.Spares (e : Callbacks) : Lifetime → Prop
  | .create _ _ | .drop _ | .raise | .handle => True
  | .finalize info => ¬ Pending e.state info
  | .act label =>
    WokenBySignal e.state label ∧ (∀ info ∈ label.callee, (e.infos info).isSome) ∧
      (e.tells label → ∀ call ∈ e.active, (e.infos call.info).isSome) ∧
        (e.pending → e.state.direct? label = none ∧ e.state.handed label = none)

/-! ## What is pending -/

section
variable {s t : State} {label : Label} {info : Nat}

theorem Pending.frame (pending : Pending t info)
    (calls : ∀ j, (t.threads j).call? = (s.threads j).call?)
    (unpushed : ∀ j, (t.threads j).unpushed → (s.threads j).unpushed)
    (queue : ∀ entry ∈ t.queue, entry ∈ s.queue) : Pending s info := by
  cases pending with
  | unpushed own before same => exact .unpushed (calls _ ▸ own) (unpushed _ before) same
  | queued inside same => exact .queued (queue _ inside) same

/-- Only `Invoke` makes a callback pending. -/
theorem pending_moves (moves : Moves s label t) (pending : Pending t info) :
    Pending s info ∨ label.callee = some info := by
  cases moves with
  | @enter i callee retval parameters ending foreign outside =>
    cases pending with
    | @unpushed j call own before same =>
      rw [State.move_threads] at own before
      by_cases mover : j = i
      · rw [if_pos mover] at own
        cases own
        exact .inr (congrArg some same)
      · rw [if_neg mover] at own before
        exact .inl (.unpushed own before same)
    | queued inside same => exact .inl (.queued inside same)
  | @push i pushed inv at_point =>
    left
    cases pending with
    | @unpushed j call own before same =>
      exact .unpushed
        ((update_same Activity.call? (by rw [at_point]; rfl) j).symm.trans own)
        (unpushed_update (by simp [at_point, Activity.unpushed]) j before) same
    | queued inside same =>
      rcases List.mem_append.mp inside with earlier | own
      · exact .queued earlier same
      · cases List.mem_singleton.mp own
        exact .unpushed (i := i) (by rw [at_point]; rfl) (by rw [at_point]; rfl) same
  | @destroy i call inv at_point =>
    left
    cases pending with
    | @unpushed j call own before same =>
      rw [State.store_threads, State.move_threads] at own before
      by_cases mover : j = i
      · rw [if_pos mover] at before
        cases before
      · rw [if_neg mover] at own before
        exact .unpushed own before same
    | queued inside same => exact .queued inside same
  | reference at_point | construct at_point | lock at_point | unlock at_point | send at_point
  | wait at_point | leave at_point | leaveEarly at_point | unreference at_point =>
    exact .inl (pending.frame (update_same _ (by rw [at_point]; rfl))
      (unpushed_update (by simp [at_point, Activity.unpushed])) fun _ => id)
  | watchPop at_point first =>
    refine .inl (pending.frame (fun _ => rfl) (fun _ => id) ?_)
    intro entry inside
    rw [first]
    exact List.mem_cons_of_mem _ inside
  | direct | wake | poll | watchLock | watchEmpty | watchDispatched | watchSignalLock
  | watchSignal | watchSignalUnlock | watchUnlock =>
    exact .inl (pending.frame (fun _ => rfl) (fun _ => id) fun _ => id)

/-- A step hands to `DispatchToV8` the call it makes, or the first in the queue. -/
theorem pending_of_handed (sound : Sound s) {call : Call} (handed : s.handed label = some call) :
    Pending s call.info := by
  cases label with
  | watch ending =>
    obtain ⟨at_point, popped⟩ := Option.ite_none_right_eq_some.mp handed
    obtain ⟨object, found, same⟩ := Option.map_eq_some_iff.mp popped
    obtain ⟨entry, first, live⟩ := Option.bind_eq_some_iff.mp found
    have inside : entry ∈ s.queue := List.mem_of_mem_head? first
    obtain ⟨_, _, mutex, condition, _, stored, _⟩ :=
      sound.paired.live entry (List.mem_append_right _ inside)
    obtain rfl := Option.some.inj (live.symm.trans stored)
    exact .queued inside (congrArg Call.info same)
  | invoke | construct | advance | spuriousReturn | wake | poll => cases handed

theorem callee_of_direct {call : Call} (direct : s.direct? label = some call) :
    label.callee = some call.info := by
  cases label with
  | invoke i info retval parameters ending =>
    obtain ⟨_, same⟩ := Option.ite_none_right_eq_some.mp direct
    cases same
    rfl
  | construct | advance | spuriousReturn | wake | poll | watch => cases direct

end

namespace Callbacks

variable {e e' : Callbacks} {event : Lifetime}

/-- What is left of a `callback_info` is what `Callback` stored, a function included;
so the report that it has been collected is never made. -/
structure Intact (e : Callbacks) : Prop where
  stored : ∀ n, ∀ info ∈ e.infos n, e.created[n]? = some info
  full : ∀ info ∈ e.created, info.function.isSome
  unreported : ∀ call, .collected call ∉ e.outcomes

/-- In a run that spares its callbacks, what is pending is alive. -/
structure Kept (e : Callbacks) : Prop where
  sound : Handshake.Sound e.state
  alive : ∀ info, Pending e.state info → (e.infos info).isSome
  proper : DispatchesAlive e

/-- The step dispatches this call. -/
def Dispatches (e : Callbacks) (label : Label) (call : Call) : Prop :=
  e.state.direct? label = some call ∨ e.state.handed label = some call

/-- The step reads the `callback_info` of this call. -/
def Consults (e : Callbacks) (label : Label) (call : Call) : Prop :=
  e.Dispatches label call ∨ (e.tells label ∧ e.active = some call)

/-- What a `DispatchToV8` does that finds its `callback_info` alive. -/
theorem Intact.dispatchToV8 (intact : Intact e) {call : Call} (alive : (e.infos call.info).isSome) :
    (e.pending ∧ e.dispatchToV8 call = .refused call) ∨
      ∃ function, e.dispatchToV8 call = .called call function ∧
        Proper e.created (.called call function) := by
  obtain ⟨info, found⟩ := Option.isSome_iff_exists.mp alive
  have stored := intact.stored _ info found
  obtain ⟨function, full⟩ := Option.isSome_iff_exists.mp
    (intact.full info (List.mem_of_getElem? stored))
  unfold Callbacks.dispatchToV8
  simp only [found, full]
  split
  · next pending => exact .inl ⟨pending, rfl⟩
  · exact .inr ⟨function, rfl, info, stored, full⟩

theorem Intact.tellError (intact : Intact e) {call : Call} (alive : (e.infos call.info).isSome) :
    ∃ errorFunction, e.tellError call = .failed call errorFunction ∧
      Proper e.created (.failed call errorFunction) := by
  obtain ⟨info, found⟩ := Option.isSome_iff_exists.mp alive
  refine ⟨info.errorFunction, ?_, info, intact.stored _ info found, rfl⟩
  simp only [Callbacks.tellError, found]

/-- What a step does to a `callback_info`: read it when it is freed, be refused, or use what
was registered. -/
theorem Intact.read (intact : Intact e) {label : Label} {outcome : Outcome}
    (inside : outcome ∈ e.reads label) :
    ∃ call, (e.Consults label call ∧ e.infos call.info = none ∧ outcome = .freed call) ∨
      (e.Dispatches label call ∧ e.pending ∧ outcome = .refused call) ∨
      (Proper e.created outcome ∧ ∀ other, outcome ≠ .collected other) := by
  simp only [reads, List.mem_append, List.mem_map, Option.mem_toList] at inside
  have dispatched : ∀ call, e.Dispatches label call →
      (e.Consults label call ∧ e.infos call.info = none ∧ e.dispatchToV8 call = .freed call) ∨
      (e.Dispatches label call ∧ e.pending ∧ e.dispatchToV8 call = .refused call) ∨
      (Proper e.created (e.dispatchToV8 call) ∧ ∀ other, e.dispatchToV8 call ≠ .collected other) := by
    intro call dispatches
    by_cases alive : (e.infos call.info).isSome
    · rcases intact.dispatchToV8 alive with ⟨pending, refused⟩ | ⟨function, called, proper⟩
      · exact .inr (.inl ⟨dispatches, pending, refused⟩)
      · rw [called]
        exact .inr (.inr ⟨proper, fun _ => nofun⟩)
    · have dead := Option.not_isSome_iff_eq_none.mp alive
      exact .inl ⟨.inl dispatches, dead, by simp only [Callbacks.dispatchToV8, dead]⟩
  rcases inside with (⟨call, direct, rfl⟩ | ⟨call, handed, rfl⟩) | telling
  · exact ⟨call, dispatched call (.inl direct)⟩
  · exact ⟨call, dispatched call (.inr handed)⟩
  · by_cases tells : e.tells label
    · rw [if_pos tells] at telling
      obtain ⟨call, active, rfl⟩ := List.mem_map.mp telling
      refine ⟨call, ?_⟩
      by_cases alive : (e.infos call.info).isSome
      · obtain ⟨errorFunction, told, proper⟩ := intact.tellError alive
        rw [told]
        exact .inr (.inr ⟨proper, fun _ => nofun⟩)
      · have dead := Option.not_isSome_iff_eq_none.mp alive
        refine .inl ⟨.inr ⟨tells, Option.mem_toList.mp active⟩, dead, ?_⟩
        simp only [Callbacks.tellError, dead]
    · rw [if_neg tells] at telling
      cases telling

/-- Nothing is forgotten of what `Callback` stored, nor of what it had to be. -/
theorem Proper.grow {created : List CallbackInfo} {outcome : Outcome} (more : List CallbackInfo)
    (proper : Proper created outcome) : Proper (created ++ more) outcome := by
  have kept : ∀ (n : Nat) (info : CallbackInfo), created[n]? = some info →
      (created ++ more)[n]? = some info := by
    intro n info found
    obtain ⟨inside, _⟩ := List.getElem?_eq_some_iff.mp found
    rw [List.getElem?_append_left inside, found]
  cases outcome with
  | called call | failed call =>
    obtain ⟨info, found, same⟩ := proper
    exact ⟨info, kept _ info found, same⟩
  | collected => trivial
  | refused | freed => cases proper

theorem intact_step (intact : Intact e) (next : step e event = some e') : Intact e' := by
  cases event with
  | create errorFunction function =>
    obtain ⟨_, next⟩ := Option.ite_none_right_eq_some.mp next
    cases next
    refine ⟨?_, ?_, intact.unreported⟩
    · intro n info found
      have left : Function.update e.infos e.created.length (some ⟨errorFunction, some function⟩) n =
          some info := found
      by_cases own : n = e.created.length
      · subst n
        rw [Function.update_self] at left
        rw [← left]
        exact List.getElem?_concat_length
      · rw [Function.update_of_ne own] at left
        have stored := intact.stored n info left
        obtain ⟨inside, _⟩ := List.getElem?_eq_some_iff.mp stored
        exact (List.getElem?_append_left inside).trans stored
    · intro info inside
      rcases List.mem_append.mp inside with earlier | own
      · exact intact.full info earlier
      · rw [List.mem_singleton.mp own]
        rfl
  | drop | raise | handle =>
    obtain ⟨_, next⟩ := Option.ite_none_right_eq_some.mp next
    cases next
    exact ⟨intact.stored, intact.full, intact.unreported⟩
  | finalize info =>
    obtain ⟨_, next⟩ := Option.ite_none_right_eq_some.mp next
    cases next
    refine ⟨?_, intact.full, intact.unreported⟩
    intro n stored found
    have left : Function.update e.infos info none n = some stored := found
    by_cases own : n = info
    · subst n
      rw [Function.update_self] at left
      cases left
    · rw [Function.update_of_ne own] at left
      exact intact.stored n stored left
  | act label =>
    obtain ⟨_, next⟩ := Option.ite_none_right_eq_some.mp next
    obtain ⟨t, _, rfl⟩ := Option.map_eq_some_iff.mp next
    refine ⟨intact.stored, intact.full, ?_⟩
    intro call inside
    rcases List.mem_append.mp inside with earlier | read
    · exact intact.unreported call earlier
    · obtain ⟨_, ⟨_, _, freed⟩ | ⟨_, _, refused⟩ | ⟨_, other⟩⟩ := intact.read read
      · cases freed
      · cases refused
      · exact other call rfl

/-- A step that spares the callbacks reads only what is alive. -/
theorem alive_of_consults (kept : Kept e) {label : Label} (spares : e.Spares (.act label)) {call : Call}
    (consults : e.Consults label call) : (e.infos call.info).isSome := by
  obtain ⟨_, called, telling, _⟩ := spares
  rcases consults with (direct | handed) | ⟨tells, active⟩
  · exact called _ (callee_of_direct direct)
  · exact kept.alive _ (pending_of_handed kept.sound handed)
  · exact telling tells call active

/-- Nor does it dispatch while an exception is pending. -/
theorem not_pending_of_dispatches {label : Label} (spares : e.Spares (.act label)) {call : Call}
    (dispatches : e.Dispatches label call) : ¬ e.pending := by
  intro pending
  obtain ⟨nowhere, nothing⟩ := spares.2.2.2 pending
  rcases dispatches with direct | handed
  · cases nowhere.symm.trans direct
  · cases nothing.symm.trans handed

/-- **One step keeps the invariant.** -/
theorem kept_step (intact : Intact e) (kept : Kept e) (spares : e.Spares event)
    (next : step e event = some e') : Kept e' := by
  cases event with
  | create errorFunction function =>
    obtain ⟨_, next⟩ := Option.ite_none_right_eq_some.mp next
    cases next
    refine ⟨kept.sound, ?_, fun outcome inside => (kept.proper outcome inside).grow _⟩
    intro info pending
    by_cases own : info = e.created.length
    · subst info
      simp
    · simpa [own] using kept.alive info pending
  | drop | raise | handle =>
    obtain ⟨_, next⟩ := Option.ite_none_right_eq_some.mp next
    cases next
    exact ⟨kept.sound, kept.alive, kept.proper⟩
  | finalize info =>
    obtain ⟨_, next⟩ := Option.ite_none_right_eq_some.mp next
    cases next
    refine ⟨kept.sound, ?_, kept.proper⟩
    intro other pending
    have different : other ≠ info := fun same => spares (same ▸ pending)
    simpa [different] using kept.alive other pending
  | act label =>
    obtain ⟨_, next⟩ := Option.ite_none_right_eq_some.mp next
    obtain ⟨t, moved, rfl⟩ := Option.map_eq_some_iff.mp next
    refine ⟨sound_step kept.sound spares.1 moved, ?_, ?_⟩
    · intro info pending
      rcases pending_moves (moves_of_step moved) pending with before | callee
      · exact kept.alive info before
      · exact spares.2.1 info callee
    · intro outcome inside
      rcases List.mem_append.mp inside with earlier | read
      · exact kept.proper outcome earlier
      · obtain ⟨call, ⟨consults, dead, _⟩ | ⟨dispatches, pending, _⟩ | ⟨proper, _⟩⟩ := intact.read read
        · have alive := alive_of_consults kept spares consults
          rw [dead] at alive
          cases alive
        · exact absurd pending (not_pending_of_dispatches spares dispatches)
        · exact proper

theorem intact_initial (thread : Thread) : Intact (initial thread) where
  stored := nofun
  full := nofun
  unreported := nofun

/-- No run makes the report that a callback has been garbage collected: while there is a
`callback_info` to read, it holds its function. -/
theorem never_collected {thread : Thread}
    (reached : Reaches step (fun _ _ => True) (initial thread) e) (call : Call) :
    .collected call ∉ e.outcomes :=
  (reached.invariant Intact (intact_initial thread)
    fun _ _ _ intact _ next => intact_step intact next).unreported call

/-- **Every dispatched `callback_info` is alive** in every run that spares its callbacks. -/
theorem dispatchesAlive_of_spares {thread : Thread}
    (reached : Reaches step Spares (initial thread) e) : DispatchesAlive e := by
  have kept : Intact e ∧ Kept e := by
    apply reached.invariant fun e => Intact e ∧ Kept e
    · exact ⟨intact_initial thread, sound_initial thread, nofun, nofun⟩
    · rintro e event e' ⟨intact, kept⟩ spares next
      exact ⟨intact_step intact next, kept_step intact kept spares next⟩
  exact kept.2.proper

/-! ## Two runs -/

/-- Nothing is freed, and only thread 1 calls callbacks. -/
def Alone (e : Callbacks) : Lifetime → Prop
  | .create _ _ | .drop _ | .raise | .handle => True
  | .finalize _ => False
  | .act label =>
    (WokenBySignal e.state label ∧ (∀ info ∈ label.callee, (e.infos info).isSome) ∧
      (e.tells label → ∀ call ∈ e.active, (e.infos call.info).isSome) ∧
        (e.pending → e.state.direct? label = none ∧ e.state.handed label = none)) ∧
          ∀ i ∈ label.actor, i = 1

instance (e : Callbacks) : DecidablePred (Alone e)
  | .create _ _ | .drop _ | .raise | .handle => isTrue trivial
  | .finalize _ => isFalse id
  | .act _ => inferInstanceAs (Decidable ((_ ∧ _ ∧ _ ∧ _) ∧ _))

theorem spares_of_alone (alone : Alone e event) : e.Spares event := by
  cases event with
  | create | drop | raise | handle => trivial
  | finalize => exact alone.elim
  | act label => exact alone.1

/-- All other threads are outside. -/
theorem native_of_alone {thread : Thread} (reached : Reaches step Alone (initial thread) e) :
    ∀ i ≠ 1, e.state.threads i = .native := by
  apply reached.invariant (fun e => ∀ i ≠ 1, e.state.threads i = .native)
  · intro i _
    rfl
  · intro e event e' outside alone next i other
    cases event with
    | create | drop | raise | handle =>
      obtain ⟨_, next⟩ := Option.ite_none_right_eq_some.mp next
      cases next
      exact outside i other
    | finalize => exact alone.elim
    | act label =>
      obtain ⟨_, next⟩ := Option.ite_none_right_eq_some.mp next
      obtain ⟨t, moved, rfl⟩ := Option.map_eq_some_iff.mp next
      have idle : label.actor ≠ some i := fun own => other (alone.2 i own)
      exact (threads_of_moves (moves_of_step moved) idle).trans (outside i other)

/-- A callback is made and called from thread 1, which sleeps with its call in the
queue; JavaScript drops the Buffer. -/
def createAndCall : List Lifetime :=
  [.create 7 8, .act (.invoke 1 0 20 30 .nothing), .act (.advance 1), .act (.construct 1 100),
   .act (.advance 1), .act (.advance 1), .act (.advance 1), .act (.advance 1), .act (.advance 1),
   .drop 0]

/-- An exception is pending and handled before the loop gets to the queue. The callback is
dispatched, returns an exception, thread 1 returns, and only then is the Buffer collected. -/
theorem freed_after_return :
    ∃ e, Reaches step Spares (initial 0) e ∧ e.infos 0 = none ∧
      e.outcomes = [.called ⟨0, 0, 20, 30⟩ 8, .failed ⟨0, 0, 20, 30⟩ 7] ∧ DispatchesAlive e := by
  obtain ⟨e, reached, found⟩ := exists_reaches step Alone (initial 0)
    (createAndCall ++ [.raise, .handle, .act .wake] ++ List.replicate 2 (.act (.watch .wrote)) ++
      [.act (.watch .threw)] ++ List.replicate 5 (.act (.watch .wrote)) ++
        List.replicate 3 (.act (.advance 1)))
    (fun e => e.state.watcher = .idle ∧ e.state.queue = [] ∧ e.state.threads 1 = .native ∧
      e.reachable 0 = false ∧ (e.infos 0).isSome ∧
      e.outcomes = [.called ⟨0, 0, 20, 30⟩ 8, .failed ⟨0, 0, 20, 30⟩ 7]) (by decide)
  obtain ⟨idle, empty, outside, unreachable, alive, outcomes⟩ := of_decide_eq_true found
  have spared : Reaches step Spares (initial 0) e :=
    reached.mono fun _ _ alone => spares_of_alone alone
  have permitted : e.Spares (.finalize 0) := by
    intro pending
    cases pending with
    | @unpushed i call own =>
      have native : e.state.threads i = .native := by
        by_cases first : i = 1
        · rw [first, outside]
        · exact native_of_alone reached i first
      rw [native] at own
      cases own
    | queued inside =>
      rw [empty] at inside
      cases inside
  have finalized : step e (.finalize 0) =
      some { e with infos := Function.update e.infos 0 none } :=
    if_pos ⟨by rw [idle]; rfl, unreachable, alive⟩
  have ended := spared.step permitted finalized
  exact ⟨_, ended, by simp, outcomes, dispatchesAlive_of_spares ended⟩

/-- Thread 1's callback loses its Buffer and is collected before the loop gets to the
queue: `DispatchToV8` reads a `callback_info` that is freed. And native code on the loop's
own thread calls a callback that throws, and calls it again: the second time the function
is not called, and nothing is reported. -/
theorem freed_before_drain :
    (∃ e, Reaches step (fun _ _ => True) (initial 0) e ∧ e.created = [⟨7, some 8⟩] ∧
      e.outcomes = [.freed ⟨0, 0, 20, 30⟩] ∧ ¬ DispatchesAlive e) ∧
    ∃ e, Reaches step (fun _ _ => True) (initial 0) e ∧ e.created = [⟨7, some 8⟩] ∧
      e.outcomes = [.called ⟨0, 0, 20, 30⟩ 8, .refused ⟨1, 0, 20, 30⟩] ∧ ¬ DispatchesAlive e := by
  constructor
  · obtain ⟨e, reached, found⟩ := exists_reaches step (fun _ _ => True) (initial 0)
      (createAndCall ++ [.finalize 0, .act .wake, .act (.watch .nothing), .act (.watch .nothing)])
      (fun e => e.created = [⟨7, some 8⟩] ∧ e.outcomes = [.freed ⟨0, 0, 20, 30⟩]) (by decide)
    obtain ⟨created, outcomes⟩ := of_decide_eq_true found
    refine ⟨e, reached, created, outcomes, ?_⟩
    intro alive
    exact alive (.freed ⟨0, 0, 20, 30⟩) (by simp [outcomes])
  · obtain ⟨e, reached, found⟩ := exists_reaches step (fun _ _ => True) (initial 0)
      [.create 7 8, .act (.invoke 0 0 20 30 .threw), .act (.invoke 0 0 20 30 .nothing)]
      (fun e => e.created = [⟨7, some 8⟩] ∧
        e.outcomes = [.called ⟨0, 0, 20, 30⟩ 8, .refused ⟨1, 0, 20, 30⟩]) (by decide)
    obtain ⟨created, outcomes⟩ := of_decide_eq_true found
    refine ⟨e, reached, created, outcomes, ?_⟩
    intro alive
    exact alive (.refused ⟨1, 0, 20, 30⟩) (by simp [outcomes])

end Callbacks

end NodeFfi.Handshake
