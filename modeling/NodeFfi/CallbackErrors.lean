import NodeFfi.MarshallingRoundTrip
import NodeFfi.MarshallingInversions

/-! What becomes of an exception in a JavaScript callback. The wrapper of `callback.js`
returns it, `DispatchToV8` compares what is returned with `undefined`, and on the route
from another thread `errorReportCallback` tests whether it is truthy, after the functions
queued by then have run. -/
namespace NodeFfi
open BlockMemory PartialPrograms JsVal

variable {m : DataModel} {host : Host} {info : CallbackInfo m} {func : List JsVal → JsM m JsVal}
  {retval params : Pointer} {w w' : World m}

/-! ## Runs of a callback -/

/-- What can throw in a callback: decoding an argument, the function, and storing its
result. -/
inductive Site where
  | decoding
  | function
  | storing
  deriving DecidableEq, Repr

def paramsBuffer (info : CallbackInfo m) (params : Pointer) : Buffer :=
  ⟨params, m.pointer.bytes * info.signature.argTypes.length⟩

def retvalBuffer (info : CallbackInfo m) (retval : Pointer) : Buffer :=
  ⟨retval, info.signature.returnType.size m⟩

/-- A run of the callback from `w` in which `site` throws `e`, in the world it is then. -/
inductive Raises (host : Host) (info : CallbackInfo m) (func : List JsVal → JsM m JsVal)
    (retval params : Pointer) (w : World m) : Site → JsVal → World m → Prop
  | decoding {e : JsVal} {w' : World m}
    (throws : eval (decodeArguments host (paramsBuffer info params) 0 info.signature.argTypes) w =
      some (.error e, w')) : Raises host info func retval params w .decoding e w'
  | function {args : List JsVal} {e : JsVal} {called w' : World m}
    (decodes : eval (decodeArguments host (paramsBuffer info params) 0 info.signature.argTypes) w =
      some (.ok args, called))
    (throws : eval (apply func args) called = some (.error e, w')) :
    Raises host info func retval params w .function e w'
  | storing {args : List JsVal} {r e : JsVal} {called returned w' : World m}
    (decodes : eval (decodeArguments host (paramsBuffer info params) 0 info.signature.argTypes) w =
      some (.ok args, called))
    (returns : eval (apply func args) called = some (.ok r, returned))
    (throws : eval (refSet host (retvalBuffer info retval) r info.signature.returnType) returned =
      some (.error e, w')) :
    Raises host info func retval params w .storing e w'

/-- A run of the callback from `w` to `w'` in which nothing throws. -/
def Succeeds (host : Host) (info : CallbackInfo m) (func : List JsVal → JsM m JsVal)
    (retval params : Pointer) (w w' : World m) : Prop :=
  ∃ args r called returned,
    eval (decodeArguments host (paramsBuffer info params) 0 info.signature.argTypes) w =
      some (.ok args, called) ∧
    eval (apply func args) called = some (.ok r, returned) ∧
    eval (refSet host (retvalBuffer info retval) r info.signature.returnType) returned = some (.ok (), w')

/-- What the outer `catch` of the wrapper catches: the inner one prepends to the message
of what storing the result throws. -/
def caught : Site → JsVal → JsVal
  | .decoding, e => e
  | .function, e => e
  | .storing, e => relabelled settingReturnValue e

theorem body_of_raises {site : Site} {e : JsVal}
    (raises : Raises host info func retval params w site e w') :
    eval (body host info func retval params) w = some (.error (caught site e), w') := by
  cases raises with
  | decoding throws => exact eval_error throws
  | function decodes throws => exact (eval_ok decodes).trans (eval_error throws)
  | storing decodes returns throws =>
    refine (eval_ok decodes).trans ((eval_ok returns).trans ?_)
    exact (eval_tryCatch_error throws).trans (eval_relabel _ _)

theorem body_of_succeeds (succeeds : Succeeds host info func retval params w w') :
    eval (body host info func retval params) w = some (.ok (), w') := by
  obtain ⟨args, r, called, returned, decodes, returns, stores⟩ := succeeds
  exact (eval_ok decodes).trans ((eval_ok returns).trans (eval_tryCatch_ok stores))

/-! ## The wrapper leaves nothing pending -/

/-- JavaScript code: what native code it calls leaves pending has been thrown to it. -/
def LeavesNothingPending (func : List JsVal → JsM m JsVal) : Prop :=
  ∀ args outcome (w w' : World m), w.pending = none → eval (func args) w = some (outcome, w') →
    w'.pending = none

theorem eval_apply_quiet {args : List JsVal} {outcome : Except JsVal JsVal}
    (script : LeavesNothingPending func) (quiet : w.pending = none)
    (did : eval (apply func args) w = some (outcome, w')) : w'.pending = none :=
  script args outcome { w with calls := w.calls ++ [args] } w' quiet did

theorem Raises.quiet {site : Site} {e : JsVal} (script : LeavesNothingPending func)
    (quiet : w.pending = none) (raises : Raises host info func retval params w site e w') :
    w'.pending = none := by
  cases raises with
  | decoding throws => exact eval_decodeArguments_some throws ▸ quiet
  | function decodes throws =>
    obtain rfl := eval_decodeArguments_some decodes
    exact eval_apply_quiet script quiet throws
  | storing decodes returns throws =>
    obtain rfl := eval_decodeArguments_some decodes
    obtain ⟨memory, rfl⟩ := eval_refSet_some throws
    have settled := eval_apply_quiet script quiet returns
    exact settled

theorem Succeeds.quiet (script : LeavesNothingPending func) (quiet : w.pending = none)
    (succeeds : Succeeds host info func retval params w w') : w'.pending = none := by
  obtain ⟨args, r, called, returned, decodes, returns, stores⟩ := succeeds
  obtain rfl := eval_decodeArguments_some decodes
  obtain ⟨memory, rfl⟩ := eval_refSet_some stores
  have settled := eval_apply_quiet script quiet returns
  exact settled

/-! ## What is reported -/

/-- A proxy call whose native code leaves `err` pending throws it. -/
def EnclosingThrows (m : DataModel) (host : Host) (err : JsVal) : Prop :=
  ∀ (s : Signature m) (fn : Native m) (values : List JsVal) (result argsList : Buffer)
    (w marshalled called : World m), values.length = s.argTypes.length →
    eval (marshal host s values) w = some (.ok (result, argsList), marshalled) →
    exec (ffiCall s.cif fn result.data argsList.data) marshalled = some ((), called) →
    called.pending = some err →
    ∃ w', eval (proxy host s fn values) w = some (.error err, w')

theorem enclosingThrows (host : Host) (err : JsVal) : EnclosingThrows m host err := by
  intro s fn values result argsList w marshalled called arity stores calls pending
  have runs := eval_native (x := (marshal host s values).run) stores
  simp only [proxy, arity, ne_eq, not_true_eq_false, if_false]
  rw [eval_ok runs]
  exact ⟨_, eval_error (eval_FFICall_error calls pending)⟩

/-! ## Queued functions -/

section
variable {call : JsVal → List JsVal → JsM m JsVal} {outcome : Except JsVal Unit}

theorem runTick_quiet {tick : Tick} (script : ∀ callback, LeavesNothingPending (call callback))
    (quiet : w.pending = none) (did : eval (runTick call tick) w = some (outcome, w')) : w'.pending = none := by
  cases tick with
  | rethrow err =>
    obtain ⟨_, rfl⟩ := Prod.mk.inj (Option.some.inj did)
    exact quiet
  | notify number callback e =>
    rcases eval_bind_some did with ⟨raised, throws, _⟩ | ⟨value, between, returns, done⟩
    · exact script callback _ _ _ _ quiet throws
    · obtain ⟨_, rfl⟩ := Prod.mk.inj (Option.some.inj done)
      exact script callback _ _ _ _ quiet returns

/-- **Run.** Queued functions leave nothing pending, and nothing in the queue if none throws. -/
theorem processTicks_settled {limit : Nat} (script : ∀ callback, LeavesNothingPending (call callback))
    (quiet : w.pending = none) (did : eval (processTicks call limit) w = some (outcome, w')) :
    w'.pending = none ∧ (outcome = .ok () → w'.ticks = []) := by
  induction limit generalizing w with
  | zero =>
    change (if w.ticks = [] then some (Except.ok (), w) else none) = _ at did
    split at did
    · next empty =>
      obtain ⟨_, rfl⟩ := Prod.mk.inj (Option.some.inj did)
      exact ⟨quiet, fun _ => empty⟩
    · cases did
  | succ limit further =>
    obtain ⟨first, between, shifts, rest⟩ := eval_native_bind_some did
    change shiftTick w = _ at shifts
    unfold shiftTick at shifts
    split at shifts
    · next empty =>
      obtain ⟨rfl, rfl⟩ := Prod.mk.inj (Option.some.inj shifts)
      obtain ⟨_, rfl⟩ := Prod.mk.inj (Option.some.inj rest)
      exact ⟨quiet, fun _ => empty⟩
    · next tick more queued =>
      obtain ⟨rfl, rfl⟩ := Prod.mk.inj (Option.some.inj shifts)
      rcases eval_bind_some rest with ⟨e, throws, rfl⟩ | ⟨_, ran, returns, onward⟩
      · exact ⟨runTick_quiet script (by exact quiet) throws, nofun⟩
      · exact further (runTick_quiet script (by exact quiet) returns) onward

end

/-- What the claimed report of a value is on each route: on the loop thread the error made
of it is pending when `DispatchToV8` returns, and is thrown by the enclosing call; from
another thread one rethrow of it is queued, and nothing is pending. -/
def Reported (host : Host) (dispatched : Bool) (value : JsVal) (returned : World m) : Prop :=
  match dispatched with
  | false => ∃ err, errorNew host value = some err ∧ returned.pending = some err ∧ EnclosingThrows m host err
  | true => returned.ticks = [.rethrow value] ∧ returned.pending = none

/-- Nothing is pending, and nothing is queued that was not: from another thread the queue
is empty, on the loop thread as the callback left it. -/
def Unreported (dispatched : Bool) (succeeded returned : World m) : Prop :=
  returned.pending = none ∧ returned.ticks = if dispatched then [] else succeeded.ticks

/-- Whatever a run of the callback throws is reported, and nothing else is. -/
structure NothingLost (host : Host) (call : JsVal → List JsVal → JsM m JsVal) (info : CallbackInfo m)
    (func : List JsVal → JsM m JsVal) (dispatched : Bool) (retval params : Pointer) (w : World m) : Prop where
  thrown : ∀ site e raised, Raises host info func retval params w site e raised →
    ∃ limit returned, exec (dispatchToV8 host (processTicks call limit) info retval params dispatched) w =
      some ((), returned) ∧ Reported host dispatched (caught site e) returned
  quiet : ∀ succeeded, Succeeds host info func retval params w succeeded →
    ∃ limit returned, exec (dispatchToV8 host (processTicks call limit) info retval params dispatched) w =
      some ((), returned) ∧ Unreported dispatched succeeded returned

/-- What a route takes for an exception and can make an error of. -/
def Noticed (host : Host) (dispatched : Bool) (e : JsVal) : Prop :=
  match dispatched with
  | false => e ≠ .undefined ∧ (errorNew host e).isSome
  | true => e.truthy

/-- The queued functions come to an end, and none of them throws. On the loop thread they
are left for later. -/
def Drains (call : JsVal → List JsVal → JsM m JsVal) (dispatched : Bool) (w : World m) : Prop :=
  dispatched = true → ∃ limit drained, eval (processTicks call limit) w = some (.ok (), drained)

variable {call : JsVal → List JsVal → JsM m JsVal} {returned raised succeeded : World m} {outcome : Except JsVal Unit}
  {e : JsVal}

/-- On the loop thread the report does not depend on what is queued. -/
theorem reported_direct (call : JsVal → List JsVal → JsM m JsVal) (limit : Nat)
    (alive : info.function = some func) (quiet : w.pending = none)
    (runs : eval (body host info func retval params) w = some (.error e, raised)) (settled : raised.pending = none) :
    (∃ returned, exec (dispatchToV8 host (processTicks call limit) info retval params false) w =
      some ((), returned) ∧ Reported host false e returned) ↔ Noticed host false e := by
  have dispatches := exec_dispatch_direct (processTicks call limit) alive quiet runs
  change exec _ w = Option.map _
    (if e = .undefined then some raised else (errorNew host e).map raised.raise) at dispatches
  simp only [Reported, Noticed, dispatches]
  by_cases absent : e = .undefined
  · simp [absent, settled]
  · cases errorNew host e with
    | none => simp [absent]
    | some err => simp [absent, World.raise, settled, enclosingThrows]

/-- From another thread a report, or the absence of one, says that the queued functions
have run. -/
theorem drained_of_calm {limit : Nat} (alive : info.function = some func) (quiet : w.pending = none)
    (runs : eval (body host info func retval params) w = some (outcome, raised))
    (ends : exec (dispatchToV8 host (processTicks call limit) info retval params true) w = some ((), returned))
    (calm : returned.pending = none) :
    ∃ drained, eval (processTicks call limit) raised = some (.ok (), drained) ∧
      returned = reportWatched (wrapped outcome) drained := by
  cases drains : eval (processTicks call limit) raised with
  | none =>
    rw [exec_dispatch_endless alive quiet runs drains] at ends
    cases ends
  | some result =>
    obtain ⟨ran, drained⟩ := result
    cases ran with
    | ok done =>
      rw [exec_dispatch_watched alive quiet runs drains] at ends
      exact ⟨drained, rfl, (Prod.mk.inj (Option.some.inj ends)).2.symm⟩
    | error thrown =>
      rw [exec_dispatch_interrupted alive quiet runs drains] at ends
      split at ends
      · obtain ⟨_, rfl⟩ := Prod.mk.inj (Option.some.inj ends)
        cases failed : drained.pending <;> simp [World.raise, failed] at calm
      · cases ends

/-- From another thread. -/
theorem reported_watched (script : ∀ callback, LeavesNothingPending (call callback)) (alive : info.function = some func)
    (quiet : w.pending = none) (runs : eval (body host info func retval params) w = some (.error e, raised))
    (settled : raised.pending = none) :
    (∃ limit returned, exec (dispatchToV8 host (processTicks call limit) info retval params true) w =
      some ((), returned) ∧ Reported host true e returned) ↔ Noticed host true e ∧ Drains call true raised := by
  constructor
  · rintro ⟨limit, returned, ends, queued, calm⟩
    obtain ⟨drained, drains, rfl⟩ := drained_of_calm alive quiet runs ends calm
    have empty := (processTicks_settled script settled drains).2 rfl
    refine ⟨?_, fun _ => ⟨limit, drained, drains⟩⟩
    by_contra falsy
    simp [reportWatched, wrapped, show ¬ e.truthy from falsy, empty] at queued
  · rintro ⟨truthy, drains⟩
    obtain ⟨limit, drained, drains⟩ := drains rfl
    obtain ⟨calm, empty⟩ := processTicks_settled script settled drains
    refine ⟨limit, _, exec_dispatch_watched alive quiet runs drains, ?_⟩
    simp [Reported, reportWatched, wrapped, show e.truthy from truthy, empty rfl, calm]

/-- What a callback that throws nothing leaves. -/
theorem unreported_iff (dispatched : Bool) (script : ∀ callback, LeavesNothingPending (call callback))
    (alive : info.function = some func) (quiet : w.pending = none)
    (runs : eval (body host info func retval params) w = some (.ok (), succeeded))
    (settled : succeeded.pending = none) :
    (∃ limit returned, exec (dispatchToV8 host (processTicks call limit) info retval params dispatched) w =
      some ((), returned) ∧ Unreported dispatched succeeded returned) ↔ Drains call dispatched succeeded := by
  cases dispatched with
  | false =>
    refine iff_of_true ⟨0, succeeded, ?_, settled, rfl⟩ nofun
    rw [exec_dispatch_direct _ alive quiet runs]
    rfl
  | true =>
    constructor
    · rintro ⟨limit, returned, ends, calm, _⟩ _
      obtain ⟨drained, drains, _⟩ := drained_of_calm alive quiet runs ends calm
      exact ⟨limit, drained, drains⟩
    · intro drains
      obtain ⟨limit, drained, drains⟩ := drains rfl
      obtain ⟨calm, empty⟩ := processTicks_settled script settled drains
      exact ⟨limit, drained, exec_dispatch_watched alive quiet runs drains, calm, empty rfl⟩

theorem reported_iff (dispatched : Bool) (script : ∀ callback, LeavesNothingPending (call callback))
    (alive : info.function = some func) (quiet : w.pending = none)
    (runs : eval (body host info func retval params) w = some (.error e, raised)) (settled : raised.pending = none) :
    (∃ limit returned, exec (dispatchToV8 host (processTicks call limit) info retval params dispatched) w =
      some ((), returned) ∧ Reported host dispatched e returned) ↔
      Noticed host dispatched e ∧ Drains call dispatched raised := by
  cases dispatched with
  | false =>
    have direct := fun limit => reported_direct call limit alive quiet runs settled
    exact ⟨fun ⟨limit, returns⟩ => ⟨(direct limit).mp returns, nofun⟩, fun ⟨noticed, _⟩ => ⟨0, (direct 0).mpr noticed⟩⟩
  | true => exact reported_watched script alive quiet runs settled

/-- **Exceptions of a callback.** A route loses no exception of a callback exactly when
it notices each value that reaches the wrapper's outer `catch`: on the loop thread any
but `undefined` that an error can be made of, from another thread any that is truthy,
where the functions queued by then run without throwing. -/
theorem nothing_lost_iff (dispatched : Bool) (script : ∀ callback, LeavesNothingPending (call callback))
    (own : LeavesNothingPending func) (alive : info.function = some func) (quiet : w.pending = none) :
    NothingLost host call info func dispatched retval params w ↔
      (∀ site e raised, Raises host info func retval params w site e raised →
        Noticed host dispatched (caught site e) ∧ Drains call dispatched raised) ∧
      ∀ succeeded, Succeeds host info func retval params w succeeded → Drains call dispatched succeeded := by
  have reports : ∀ {site e raised}, Raises host info func retval params w site e raised → _ := fun raises =>
    reported_iff dispatched script alive quiet (body_of_raises raises) (raises.quiet own quiet)
  have silent : ∀ {succeeded}, Succeeds host info func retval params w succeeded → _ := fun succeeds =>
    unreported_iff dispatched script alive quiet (body_of_succeeds succeeds) (succeeds.quiet own quiet)
  constructor
  · rintro ⟨thrown, nothing⟩
    exact ⟨fun site e raised raises => (reports raises).mp (thrown site e raised raises),
      fun succeeded succeeds => (silent succeeds).mp (nothing succeeded succeeds)⟩
  · rintro ⟨noticed, drains⟩
    exact ⟨fun site e raised raises => (reports raises).mpr (noticed site e raised raises),
      fun succeeded succeeds => (silent succeeds).mpr (drains succeeded succeeds)⟩

/-! ## A callback that throws -/

theorem thunk_declarable : Declarable lp64 .void [] := ⟨.inl rfl, by simp⟩

/-- `void ()`. -/
def thunk : Signature lp64 := thunk_declarable.signature lp64_target

def thrower (e : JsVal) : List JsVal → JsM lp64 JsVal := fun _ => throw e

theorem thrower_script (e : JsVal) : LeavesNothingPending (thrower e) := by
  intro args outcome w w' quiet did
  obtain ⟨_, rfl⟩ := Prod.mk.inj (Option.some.inj did)
  exact quiet

theorem raises_thrower {e raised : JsVal} {site : Site} {w w' : World lp64}
    (raises : Raises exampleHost ⟨thunk, some (thrower e)⟩ (thrower e) retval params w site raised w') :
    site = .function ∧ raised = e := by
  have decoding : ∀ {outcome : Except JsVal (List JsVal)} {w' : World lp64},
      eval (decodeArguments exampleHost (paramsBuffer ⟨thunk, some (thrower e)⟩ params) 0
        thunk.argTypes) w = some (outcome, w') → outcome = .ok [] :=
    fun did => (Prod.mk.inj (Option.some.inj did)).1.symm
  have applying : ∀ {args : List JsVal} {outcome : Except JsVal JsVal} {v w' : World lp64},
      eval (apply (thrower e) args) v = some (outcome, w') → outcome = .error e :=
    fun did => (Prod.mk.inj (Option.some.inj did)).1.symm
  cases raises with
  | decoding throws => cases decoding throws
  | function decodes throws => exact ⟨rfl, Except.error.inj (applying throws)⟩
  | storing decodes returns throws => cases applying returns

/-- Calling one of the user's functions, which returns. -/
def returning : JsVal → List JsVal → JsM lp64 JsVal := fun _ _ => return .undefined

theorem returning_script (callback : JsVal) : LeavesNothingPending (returning callback) := by
  intro args outcome w w' quiet did
  obtain ⟨_, rfl⟩ := Prod.mk.inj (Option.some.inj did)
  exact quiet

/-- A world with functions queued. -/
def queueing (ticks : List Tick) : World lp64 := { World.initial lp64 with ticks }

/-- The world in which a thrower throws. -/
theorem raised_thrower {e value : JsVal} {site : Site} {w w' : World lp64}
    (raises : Raises exampleHost ⟨thunk, some (thrower e)⟩ (thrower e) retval params w site value w') :
    w'.ticks = w.ticks := by
  cases raises with
  | decoding throws => exact eval_decodeArguments_some throws ▸ rfl
  | function decodes throws =>
    obtain rfl := eval_decodeArguments_some decodes
    obtain ⟨_, rfl⟩ := Prod.mk.inj (Option.some.inj throws)
    rfl
  | storing decodes returns throws => cases (Prod.mk.inj (Option.some.inj returns)).1

theorem not_succeeds_thrower {e : JsVal} {w w' : World lp64} :
    ¬ Succeeds exampleHost ⟨thunk, some (thrower e)⟩ (thrower e) retval params w w' := by
  rintro ⟨args, r, called, returned, decodes, returns, stores⟩
  cases (Prod.mk.inj (Option.some.inj returns)).1

/-- An error thrown on the loop thread, and from another thread while the answer of an
asynchronous call is queued. -/
theorem error_reported :
    NothingLost exampleHost returning ⟨thunk, some (thrower (.string "no"))⟩ (thrower (.string "no"))
        false ⟨1, 0⟩ ⟨0, 0⟩ (.initial lp64) ∧
      NothingLost exampleHost returning ⟨thunk, some (thrower (.string "no"))⟩ (thrower (.string "no"))
        true ⟨1, 0⟩ ⟨0, 0⟩ (queueing [.notify 0 (.object (.function 0) none .writable) (typeError "busy")]) := by
  constructor
  · refine (nothing_lost_iff false returning_script (thrower_script _) rfl rfl).mpr ⟨?_, ?_⟩
    · intro site e raised raises
      obtain ⟨rfl, rfl⟩ := raises_thrower raises
      exact ⟨⟨nofun, rfl⟩, nofun⟩
    · exact fun succeeded succeeds => absurd succeeds not_succeeds_thrower
  · refine (nothing_lost_iff true returning_script (thrower_script _) rfl rfl).mpr ⟨?_, ?_⟩
    · intro site e raised raises
      have queued := raised_thrower raises
      obtain ⟨rfl, rfl⟩ := raises_thrower raises
      refine ⟨rfl, fun _ => ⟨1, { raised with ticks := [] }, ?_⟩⟩
      obtain ⟨memory, pending, calls, ticks, requests, asyncCalls⟩ := raised
      obtain rfl : ticks = _ := queued
      rfl
    · exact fun succeeded succeeds => absurd succeeds not_succeeds_thrower

theorem function_raises (e : JsVal) (w : World lp64) :
    Raises exampleHost ⟨thunk, some (thrower e)⟩ (thrower e) ⟨1, 0⟩ ⟨0, 0⟩ w .function e
      { w with calls := w.calls ++ [[]] } :=
  .function rfl rfl

/-- `throw undefined` on the loop thread, `throw false` from another, and an error from
another while an earlier one waits to be rethrown. -/
theorem exceptions_lost :
    ¬ NothingLost exampleHost returning ⟨thunk, some (thrower .undefined)⟩ (thrower .undefined)
        false ⟨1, 0⟩ ⟨0, 0⟩ (.initial lp64) ∧
      ¬ NothingLost exampleHost returning ⟨thunk, some (thrower (.bool false))⟩ (thrower (.bool false))
        true ⟨1, 0⟩ ⟨0, 0⟩ (.initial lp64) ∧
      ¬ NothingLost exampleHost returning ⟨thunk, some (thrower (typeError "no"))⟩ (thrower (typeError "no"))
        true ⟨1, 0⟩ ⟨0, 0⟩ (queueing [.rethrow (typeError "first")]) := by
  refine ⟨fun nothingLost => ?_, fun nothingLost => ?_, fun nothingLost => ?_⟩
  · have lost := (reported_iff false returning_script rfl rfl (body_of_raises (function_raises _ _)) rfl).mp
      (nothingLost.thrown _ _ _ (function_raises _ _))
    exact lost.1.1 rfl
  · have lost := (reported_iff true returning_script rfl rfl (body_of_raises (function_raises _ _)) rfl).mp
      (nothingLost.thrown _ _ _ (function_raises _ _))
    cases lost.1
  · have lost := (reported_iff true returning_script rfl rfl (body_of_raises (function_raises _ _)) rfl).mp
      (nothingLost.thrown _ _ _ (function_raises _ _))
    obtain ⟨limit, drained, drains⟩ := lost.2 rfl
    cases limit with
    | zero => cases drains
    | succ limit => cases drains

end NodeFfi
