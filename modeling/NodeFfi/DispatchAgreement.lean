import NodeFfi.CallbackLifetimes
import NodeFfi.CallbackErrors

/-! Of a `DispatchToV8` the handshake knows how it begins and how it ends. The whole of it
agrees: whether the function is called, a report made or neither follows from the
`callback_info` and from what is pending, and a dispatch on the loop's own thread leaves
the same pending. -/
namespace NodeFfi.Handshake

open BlockMemory PartialPrograms JsVal

variable {m : DataModel} {host : Host} {ticks : JsM m Unit} {w w' returned : World m}
  {e e' : Callbacks} {call other : Call} {info : CallbackInfo} {s : Signature m}
  {scripts : Function → List JsVal → JsM m JsVal} {retval params : Pointer} {dispatched : Bool}
  {outcome : Except JsVal Unit}

/-- A `callback_info` of this signature, with the function that its reference is to. -/
def CallbackInfo.loaded (info : CallbackInfo) (scripts : Function → List JsVal → JsM m JsVal)
    (s : Signature m) : NodeFfi.CallbackInfo m :=
  ⟨s, info.function.map scripts⟩

/-- An exception is pending in both or in neither, and it is no primitive value. -/
structure Represents (w : World m) (e : Callbacks) : Prop where
  pending : w.pending.isSome = e.pending
  objects : ∀ raised ∈ w.pending, raised.isObject

theorem Represents.quiet (represents : Represents w e) (calm : e.pending = false) : w.pending = none :=
  Option.isSome_eq_false_iff.mp (represents.pending.trans calm) |> Option.isNone_iff_eq_none.mp

/-- How the dispatch ends in which the body of the wrapper has this outcome. -/
def endingOf : Except JsVal Unit → Ending
  | .ok () => .wrote
  | .error e => if e = .undefined then .nothing else .threw

/-! ## How it begins -/

theorem refused_inv (refused : e.dispatchToV8 call = .refused other) : e.pending := by
  unfold Callbacks.dispatchToV8 at refused
  split at refused
  · cases refused
  · split at refused
    · assumption
    · split at refused <;> cases refused

theorem called_inv {function : Function} (stored : e.infos call.info = some info)
    (called : e.dispatchToV8 call = .called other function) :
    e.pending = false ∧ info.function = some function := by
  unfold Callbacks.dispatchToV8 at called
  simp only [stored] at called
  split at called
  · cases called
  · next calm =>
    split at called
    · cases called
    · next there =>
      cases called
      exact ⟨Bool.eq_false_of_not_eq_true calm, there⟩

theorem collected_inv (stored : e.infos call.info = some info)
    (collected : e.dispatchToV8 call = .collected other) : e.pending = false ∧ info.function = none := by
  unfold Callbacks.dispatchToV8 at collected
  simp only [stored] at collected
  split at collected
  · cases collected
  · next calm =>
    split at collected
    · next gone => exact ⟨Bool.eq_false_of_not_eq_true calm, gone⟩
    · cases collected

/-- A dispatch that is refused changes nothing. -/
theorem refused_agrees (represents : Represents w e) (refused : e.dispatchToV8 call = .refused other) :
    exec (dispatchToV8 host ticks (info.loaded scripts s) retval params dispatched) w = some ((), w) := by
  obtain ⟨raised, pending⟩ := Option.isSome_iff_exists.mp
    (represents.pending.trans (refused_inv refused))
  have object := represents.objects raised pending
  have kept : { w with pending := some raised } = w := by rw [← pending]
  cases there : info.function with
  | some function =>
    have tries : eval (invokeCallback host (if dispatched then ticks else return)
        (info.loaded scripts s) retval params dispatched) w =
        some (.error raised, { w with pending := none }) := by
      simp only [invokeCallback, CallbackInfo.loaded, there, Option.map_some]
      exact eval_error (eval_makeCallback_pending pending object)
    refine (exec_bind (x := ExceptT.run _) tries).trans ?_
    exact congrArg (fun world => some ((), world)) kept
  | none =>
    cases dispatched with
    | true =>
      have tries : eval (invokeCallback host ticks (info.loaded scripts s) retval params true) w =
          some (.error raised, { w with pending := none }) := by
        simp only [invokeCallback, CallbackInfo.loaded, there, Option.map_none, if_true]
        exact eval_error (eval_makeCallback_pending pending object)
      refine (exec_bind (x := ExceptT.run _) tries).trans ?_
      exact congrArg (fun world => some ((), world)) kept
    | false =>
      have tries : eval (invokeCallback host (return) (info.loaded scripts s) retval params false) w =
          some (.error (JsVal.error "Error" collectedMessage), w) := by
        simp only [invokeCallback, CallbackInfo.loaded, there, Option.map_none, Bool.false_eq_true, if_false]
        rfl
      refine (exec_bind (x := ExceptT.run _) tries).trans ?_
      change some ((), { w with pending := w.pending.or _ }) = _
      rw [pending]
      exact congrArg (fun world => some ((), world)) kept

/-- A dispatch that reports that the callback has been garbage collected does so: on the
loop's own thread an error is pending, from the watcher one is queued to be thrown, and
what is queued has run. -/
theorem collected_agrees (represents : Represents w e) (stored : e.infos call.info = some info)
    (collected : e.dispatchToV8 call = .collected other) :
    exec (dispatchToV8 host ticks (info.loaded scripts s) retval params false) w =
        some ((), w.raise (JsVal.error "Error" collectedMessage)) ∧
      ∀ drained, eval ticks { w with ticks := w.ticks ++ [.rethrow (.string collectedMessage)] } =
          some (.ok (), drained) →
        exec (dispatchToV8 host ticks (info.loaded scripts s) retval params true) w = some ((), drained) := by
  obtain ⟨calm, gone⟩ := collected_inv stored collected
  constructor
  · have tries : eval (invokeCallback host (return) (info.loaded scripts s) retval params false) w =
        some (.error (JsVal.error "Error" collectedMessage), w) := by
      simp only [invokeCallback, CallbackInfo.loaded, gone, Option.map_none, Bool.false_eq_true, if_false]
      rfl
    exact exec_bind (x := ExceptT.run _) tries
  · intro drained drains
    have reports : exec (do
        errorReportCallback (.string collectedMessage)
        return JsVal.undefined : NativeM m JsVal) w =
        some (.undefined, { w with ticks := w.ticks ++ [.rethrow (.string collectedMessage)] }) := rfl
    have tries : eval (invokeCallback host ticks (info.loaded scripts s) retval params true) w =
        some (.ok (), drained) := by
      simp only [invokeCallback, CallbackInfo.loaded, gone, Option.map_none, if_true]
      have calls := eval_makeCallback ticks (represents.quiet calm) reports
      rw [drains] at calls
      rw [eval_ok calls]
      rfl
    exact exec_bind (x := ExceptT.run _) tries

/-- A dispatch that calls the function runs the wrapper around it: if it ends, that has
ended, and on the loop's own thread what is reported is what it returned. -/
theorem called_agrees {function : Function} (represents : Represents w e)
    (stored : e.infos call.info = some info) (called : e.dispatchToV8 call = .called other function)
    (ends : exec (dispatchToV8 host ticks (info.loaded scripts s) retval params dispatched) w =
      some ((), returned)) :
    ∃ outcome between,
      eval (body host (info.loaded scripts s) (scripts function) retval params) w = some (outcome, between) ∧
      (dispatched = false → reportDirect host (wrapped outcome) between = some returned) := by
  obtain ⟨calm, there⟩ := called_inv stored called
  have alive : (info.loaded scripts s).function = some (scripts function) := congrArg (Option.map scripts) there
  have quiet := represents.quiet calm
  obtain ⟨outcome, between, runs⟩ := exec_dispatch_some alive quiet ends
  refine ⟨outcome, between, runs, ?_⟩
  rintro rfl
  rw [exec_dispatch_direct ticks alive quiet runs] at ends
  obtain ⟨world, reports, same⟩ := Option.map_eq_some_iff.mp ends
  rw [reports, (Prod.mk.inj same).2]

/-! ## How it ends -/

theorem body_quiet {info : NodeFfi.CallbackInfo m} {func : List JsVal → JsM m JsVal}
    (script : LeavesNothingPending func) (quiet : w.pending = none)
    (runs : eval (body host info func retval params) w = some (outcome, w')) : w'.pending = none := by
  rcases eval_bind_some runs with ⟨e, throws, rfl⟩ | ⟨args, called, decodes, rest⟩
  · have raises : Raises host info func retval params w .decoding e w' := .decoding throws
    exact raises.quiet script quiet
  · rcases eval_bind_some rest with ⟨e, throws, rfl⟩ | ⟨result, between, returns, stores⟩
    · have raises : Raises host info func retval params w .function e w' := .function decodes throws
      exact raises.quiet script quiet
    · cases set : eval (refSet host (retvalBuffer info retval) result info.signature.returnType) between with
      | none => cases (eval_tryCatch_none set).symm.trans stores
      | some ended =>
        obtain ⟨_ | done, after⟩ := ended
        · have same := ((eval_tryCatch_error set).trans (eval_relabel _ _)).symm.trans stores
          obtain rfl := (Prod.mk.inj (Option.some.inj same)).2
          exact Raises.quiet script quiet (.storing decodes returns set)
        · have same := (eval_tryCatch_ok set).symm.trans stores
          obtain rfl := (Prod.mk.inj (Option.some.inj same)).2
          exact Succeeds.quiet script quiet ⟨args, result, called, between, decodes, returns, set⟩

theorem errorNew_object {e err : JsVal} (made : errorNew host e = some err) : err.isObject := by
  unfold errorNew at made
  split at made
  · cases made
    rfl
  · split at made
    · next object =>
      cases made
      exact object
    · cases made

/-- The report leaves an error pending exactly when the body threw. -/
theorem pending_of_reported {between : World m} (quiet : between.pending = none)
    (reported : reportDirect host (wrapped outcome) between = some returned) :
    returned.pending.isSome = (endingOf outcome == .threw) ∧ ∀ raised ∈ returned.pending, raised.isObject := by
  unfold reportDirect at reported
  cases outcome with
  | ok done =>
    obtain rfl := Option.some.inj reported
    rw [quiet]
    exact ⟨rfl, fun raised left => by cases left⟩
  | error e =>
    rw [endingOf]
    by_cases absent : e = .undefined
    · obtain rfl := Option.some.inj ((if_pos absent).symm.trans reported)
      rw [if_pos absent, quiet]
      exact ⟨rfl, fun raised left => by cases left⟩
    · obtain ⟨err, made, rfl⟩ := Option.map_eq_some_iff.mp ((if_neg absent).symm.trans reported)
      rw [if_neg absent, World.raise, quiet]
      refine ⟨rfl, fun raised left => ?_⟩
      obtain rfl := Option.some.inj left
      exact errorNew_object made

/-- **A dispatch on the loop's own thread** ends with an exception pending exactly when
the step of the handshake says so. -/
theorem direct_represents {label : Label} (represents : Represents w e)
    (script : ∀ function, LeavesNothingPending (scripts function))
    (direct : e.state.direct? label = some call) (stored : e.infos call.info = some info)
    (concluded : ∀ function ∈ info.function, ∀ outcome between,
      eval (body host (info.loaded scripts s) (scripts function) retval params) w = some (outcome, between) →
        e.state.ends label = some (endingOf outcome))
    (next : Callbacks.step e (.act label) = some e')
    (ends : exec (dispatchToV8 host ticks (info.loaded scripts s) retval params false) w = some ((), returned)) :
    Represents returned e' := by
  obtain ⟨_, next⟩ := Option.ite_none_right_eq_some.mp next
  obtain ⟨t, _, rfl⟩ := Option.map_eq_some_iff.mp next
  have throws : e.throws label = (e.dispatchToV8 call).throws (e.state.ends label) := by
    rw [Callbacks.throws, direct]
    rfl
  cases begins : e.dispatchToV8 call with
  | freed | failed =>
    simp only [Callbacks.dispatchToV8, stored] at begins
    split at begins
    · cases begins
    · split at begins <;> cases begins
  | refused other =>
    rw [refused_agrees represents begins] at ends
    obtain ⟨_, rfl⟩ := Prod.mk.inj (Option.some.inj ends)
    refine ⟨?_, represents.objects⟩
    rw [throws, begins, represents.pending]
    exact (Bool.or_false _).symm
  | collected other =>
    have raises : some ((), returned) = some ((), w.raise (JsVal.error "Error" collectedMessage)) :=
      ends.symm.trans (collected_agrees represents stored begins).1
    obtain ⟨_, rfl⟩ := Prod.mk.inj (Option.some.inj raises)
    have quiet := represents.quiet (collected_inv stored begins).1
    constructor
    · rw [throws, begins, World.raise, quiet]
      exact (Bool.or_true _).symm
    · intro raised pending
      rw [World.raise, quiet] at pending
      cases pending
      rfl
  | called other function =>
    obtain ⟨outcome, between, runs, reports⟩ := called_agrees represents stored begins ends
    obtain ⟨calm, there⟩ := called_inv stored begins
    have ended := concluded function there outcome between runs
    have quiet := body_quiet (script function) (represents.quiet calm) runs
    obtain ⟨pending, objects⟩ := pending_of_reported quiet (reports rfl)
    refine ⟨?_, objects⟩
    rw [pending, calm, throws, begins, ended]
    exact (Bool.false_or _).symm

end NodeFfi.Handshake
