import NodeFfi.TransitionSystem
import Mathlib.Data.List.Count

/-! What an asynchronous request reports of its native call: the record that `ffi.cc`
hands from the loop thread to the thread pool and back, with any number of requests on
the pool, performed and finished in any order. -/
namespace NodeFfi.AsyncFailures

open TransitionSystem

/-- `ffi_status`. -/
inductive FfiStatus
  | ok
  | badTypedef
  | badAbi
  deriving DecidableEq, Repr

/-- What of an `AsyncCallParams` tells the loop thread how the native call ended. The
number stands for the record and its `callback`. -/
structure AsyncCallParams where
  call : Nat
  result : FfiStatus
  err : String
  deriving DecidableEq, Repr

/-- The record `FFICallAsync` queues. -/
def FFICallAsync (call : Nat) : AsyncCallParams := ⟨call, .ok, ""⟩

/-- `AsyncFFICall`, on the pool: the native call returns, or a `std::exception` with
the given message reaches the handler. -/
def AsyncFFICall (p : AsyncCallParams) : Option String → AsyncCallParams
  | none => p
  | some message => { p with err := message }

/-- What `FinishAsyncFFICall` calls the completion callback with: `null` or a string. -/
def FinishAsyncFFICall (p : AsyncCallParams) : Option String :=
  if p.result ≠ .ok then some p.err else none

/-- The error that the completion callback of `proxy.async` passes on to the user's: it
tests `if (err)`, and an empty string is falsy. -/
def passedOn : Option String → Option String
  | some "" => none
  | err => err

/-- A call of a request's completion callback. -/
structure Invocation where
  call : Nat
  err : Option String
  deriving DecidableEq, Repr

/-- The requests that wait for a thread, those that wait for the loop, and the calls of
completion callbacks, oldest first; the requests ever made, and what the native call of
each has raised. -/
structure Requests where
  queued : List AsyncCallParams
  performed : List AsyncCallParams
  invoked : List Invocation
  made : List Nat
  raised : Nat → Option String

/-- A request is made, its native call ends on the pool as given, or it is finished. -/
inductive Event
  | make (call : Nat)
  | perform (call : Nat) (outcome : Option String)
  | finish (call : Nat)
  deriving DecidableEq, Repr

namespace Requests

def initial : Requests := ⟨[], [], [], [], fun _ => none⟩

def step (s : Requests) : Event → Option Requests
  | .make call =>
    if call ∈ s.made then none
    else some { s with queued := s.queued ++ [FFICallAsync call], made := s.made ++ [call] }
  | .perform call outcome =>
    (s.queued.find? (·.call = call)).map fun p =>
      { s with
        queued := s.queued.erase p
        performed := s.performed ++ [AsyncFFICall p outcome]
        raised := Function.update s.raised call outcome }
  | .finish call =>
    (s.performed.find? (·.call = call)).map fun p =>
      { s with
        performed := s.performed.erase p
        invoked := s.invoked ++ [⟨call, FinishAsyncFFICall p⟩] }

/-- The numbers of the requests in flight. -/
def inFlight (s : Requests) : List Nat := (s.queued ++ s.performed).map AsyncCallParams.call

/-- **Failures are reported**: the callback of a request that is not in flight any more
has been called once, any other's not yet; and it was told what the request's own
native call raised, if it raised. -/
structure Reported (s : Requests) : Prop where
  once : ∀ call ∈ s.made, (s.invoked.map Invocation.call).count call =
    if call ∈ s.inFlight then 0 else 1
  rightly : ∀ i ∈ s.invoked, i.err = s.raised i.call ∧ passedOn i.err = s.raised i.call

/-- A request is finished only if its native call has returned normally. -/
def Returned (s : Requests) : Event → Prop
  | .finish call => s.raised call = none
  | _ => True

instance : DecidablePred Reported := fun s =>
  decidable_of_iff
    ((∀ call ∈ s.made, (s.invoked.map Invocation.call).count call =
      if call ∈ s.inFlight then 0 else 1) ∧
      ∀ i ∈ s.invoked, i.err = s.raised i.call ∧ passedOn i.err = s.raised i.call)
    ⟨fun ⟨once, rightly⟩ => ⟨once, rightly⟩, fun reported => ⟨reported.once, reported.rightly⟩⟩

instance (s : Requests) : DecidablePred s.Returned
  | .finish call => inferInstanceAs (Decidable (s.raised call = none))
  | .make _ => isTrue trivial
  | .perform _ _ => isTrue trivial

/-- Each request that was made is in one place; no record ever says that its call has
failed, though it has the message of its own call; and no callback was told anything. -/
structure Kept (s : Requests) : Prop where
  placed : ∀ call, (s.queued.map AsyncCallParams.call).count call +
    (s.performed.map AsyncCallParams.call).count call +
    (s.invoked.map Invocation.call).count call = if call ∈ s.made then 1 else 0
  queued : ∀ p ∈ s.queued, p.result = .ok ∧ p.err = ""
  performed : ∀ p ∈ s.performed, p.result = .ok ∧ p.err = (s.raised p.call).getD ""
  invoked : ∀ i ∈ s.invoked, i.err = none

/-- No request that has been finished had raised. -/
def Quiet (s : Requests) : Prop := ∀ i ∈ s.invoked, s.raised i.call = none

variable {s t : Requests} {event : Event}

theorem kept_initial : Kept initial where
  placed := by simp [initial]
  queued := by simp [initial]
  performed := by simp [initial]
  invoked := by simp [initial]

@[simp] theorem call_AsyncFFICall (p : AsyncCallParams) (outcome : Option String) :
    (AsyncFFICall p outcome).call = p.call := by
  cases outcome <;> rfl

/-- What a handed-over record says. -/
theorem err_AsyncFFICall {p : AsyncCallParams} (fresh : p.err = "") (outcome : Option String) :
    (AsyncFFICall p outcome).result = p.result ∧ (AsyncFFICall p outcome).err = outcome.getD "" := by
  cases outcome with
  | none => exact ⟨rfl, fresh⟩
  | some message => exact ⟨rfl, rfl⟩

theorem found {l : List AsyncCallParams} {call : Nat} {p : AsyncCallParams}
    (looked : l.find? (·.call = call) = some p) : p ∈ l ∧ p.call = call :=
  ⟨List.mem_of_find?_eq_some looked, by simpa using List.find?_some looked⟩

/-- Taking a record out of a list. -/
theorem count_erase {l : List AsyncCallParams} {p : AsyncCallParams} (inside : p ∈ l) (call : Nat) :
    (l.map AsyncCallParams.call).count call =
      ((l.erase p).map AsyncCallParams.call).count call + if p.call = call then 1 else 0 := by
  have same := ((List.perm_cons_erase inside).map AsyncCallParams.call).count_eq call
  simpa [List.count_cons] using same

/-- A record that waits for a thread is the only one of its request. -/
theorem Kept.alone (kept : Kept s) {p : AsyncCallParams} (inside : p ∈ s.queued) :
    (∀ q ∈ s.performed, q.call ≠ p.call) ∧ ∀ i ∈ s.invoked, i.call ≠ p.call := by
  have one := kept.placed p.call
  have here : 0 < (s.queued.map AsyncCallParams.call).count p.call :=
    List.count_pos_iff.mpr (List.mem_map_of_mem inside)
  constructor
  · intro q other same
    have there : 0 < (s.performed.map AsyncCallParams.call).count p.call :=
      List.count_pos_iff.mpr (same ▸ List.mem_map_of_mem other)
    split at one <;> omega
  · intro i other same
    have there : 0 < (s.invoked.map Invocation.call).count p.call :=
      List.count_pos_iff.mpr (same ▸ List.mem_map_of_mem other)
    split at one <;> omega

theorem Kept.make (kept : Kept s) {call : Nat} (fresh : call ∉ s.made) :
    Kept { s with queued := s.queued ++ [FFICallAsync call], made := s.made ++ [call] } where
  placed := by
    intro c
    have one := kept.placed c
    by_cases same : call = c
    · subst c
      simp [fresh, FFICallAsync] at one ⊢
      omega
    · have other : c ∈ s.made ++ [call] ↔ c ∈ s.made := by simp [Ne.symm same]
      simp only [List.map_append, List.count_append, List.map_cons, List.map_nil, other]
      simpa [FFICallAsync, same] using one
  queued := by
    intro p inside
    rcases List.mem_append.mp inside with before | new
    · exact kept.queued p before
    · rw [List.mem_singleton.mp new]
      exact ⟨rfl, rfl⟩
  performed := kept.performed
  invoked := kept.invoked

theorem Kept.perform (kept : Kept s) {p : AsyncCallParams} (inside : p ∈ s.queued)
    (outcome : Option String) :
    Kept { s with
      queued := s.queued.erase p
      performed := s.performed ++ [AsyncFFICall p outcome]
      raised := Function.update s.raised p.call outcome } where
  placed := by
    intro c
    have one := kept.placed c
    rw [count_erase inside] at one
    simp only [List.map_append, List.count_append, List.map_cons, List.map_nil, call_AsyncFFICall,
      List.count_singleton, beq_iff_eq]
    omega
  queued := fun q remaining => kept.queued q (List.mem_of_mem_erase remaining)
  performed := by
    intro q listed
    rcases List.mem_append.mp listed with before | new
    · have other := (kept.alone inside).1 q before
      simpa only [Function.update_of_ne other] using kept.performed q before
    · obtain ⟨ok, fresh⟩ := kept.queued p inside
      obtain ⟨result, err⟩ := err_AsyncFFICall fresh outcome
      have raised : Function.update s.raised p.call outcome p.call = outcome :=
        Function.update_self ..
      rw [List.mem_singleton.mp new]
      refine ⟨result.trans ok, ?_⟩
      rw [err, call_AsyncFFICall]
      exact congrArg (Option.getD · "") raised.symm
  invoked := kept.invoked

theorem Kept.finish (kept : Kept s) {p : AsyncCallParams} (inside : p ∈ s.performed) :
    Kept { s with
      performed := s.performed.erase p
      invoked := s.invoked ++ [⟨p.call, FinishAsyncFFICall p⟩] } where
  placed := by
    intro c
    have one := kept.placed c
    rw [count_erase inside] at one
    simp only [List.map_append, List.count_append, List.map_cons, List.map_nil, List.count_singleton,
      beq_iff_eq]
    omega
  queued := kept.queued
  performed := fun q remaining => kept.performed q (List.mem_of_mem_erase remaining)
  invoked := by
    intro i listed
    rcases List.mem_append.mp listed with before | new
    · exact kept.invoked i before
    · rw [List.mem_singleton.mp new]
      exact if_neg (not_not.mpr (kept.performed p inside).1)

/-- **One step keeps the invariant.** -/
theorem kept_step (kept : Kept s) (next : step s event = some t) : Kept t := by
  cases event with
  | make call =>
    obtain ⟨fresh, same⟩ := Option.ite_none_left_eq_some.mp next
    cases same
    exact kept.make fresh
  | perform call outcome =>
    obtain ⟨p, looked, rfl⟩ := Option.map_eq_some_iff.mp next
    obtain ⟨inside, rfl⟩ := found looked
    exact kept.perform inside outcome
  | finish call =>
    obtain ⟨p, looked, rfl⟩ := Option.map_eq_some_iff.mp next
    obtain ⟨inside, rfl⟩ := found looked
    exact kept.finish inside

/-! ## What is reported -/

/-- What a callback was told stays what its request raised: a request that is finished
does not run again. -/
theorem quiet_step (kept : Kept s) (quiet : Quiet s) (returned : s.Returned event)
    (next : step s event = some t) : Quiet t := by
  cases event with
  | make call =>
    obtain ⟨_, same⟩ := Option.ite_none_left_eq_some.mp next
    cases same
    exact quiet
  | perform call outcome =>
    obtain ⟨p, looked, rfl⟩ := Option.map_eq_some_iff.mp next
    obtain ⟨inside, rfl⟩ := found looked
    intro i before
    have other := (kept.alone inside).2 i before
    exact (Function.update_of_ne other ..).trans (quiet i before)
  | finish call =>
    obtain ⟨p, looked, rfl⟩ := Option.map_eq_some_iff.mp next
    intro i listed
    rcases List.mem_append.mp listed with before | new
    · exact quiet i before
    · rw [List.mem_singleton.mp new]
      exact returned

theorem Kept.once (kept : Kept s) : ∀ call ∈ s.made,
    (s.invoked.map Invocation.call).count call = if call ∈ s.inFlight then 0 else 1 := by
  intro call made
  have one := kept.placed call
  rw [if_pos made] at one
  have flying : call ∈ s.inFlight ↔ 0 < (s.queued.map AsyncCallParams.call).count call +
      (s.performed.map AsyncCallParams.call).count call := by
    rw [inFlight, ← List.count_pos_iff, List.map_append, List.count_append]
  by_cases waits : call ∈ s.inFlight
  · have some_place := flying.mp waits
    rw [if_pos waits]
    omega
  · have nowhere := mt flying.mpr waits
    rw [if_neg waits]
    omega

theorem Kept.reported (kept : Kept s) (quiet : Quiet s) : Reported s where
  once := kept.once
  rightly := by
    intro i listed
    rw [kept.invoked i listed, quiet i listed]
    exact ⟨rfl, rfl⟩

/-- A request that has raised is finished without a word of it. -/
theorem unreported_of_step (kept : Kept s) (failed : ¬ s.Returned event)
    (next : step s event = some t) : ¬ Reported t := by
  cases event with
  | make call => exact absurd trivial failed
  | perform call outcome => exact absurd trivial failed
  | finish call =>
    obtain ⟨p, looked, rfl⟩ := Option.map_eq_some_iff.mp next
    obtain ⟨inside, rfl⟩ := found looked
    intro reported
    obtain ⟨told, _⟩ := reported.rightly _ (List.mem_append_right _ (List.mem_singleton_self _))
    have silent := (kept.finish inside).invoked _
      (List.mem_append_right _ (List.mem_singleton_self _))
    exact failed (told.symm.trans silent)

/-- **Native failures are reported exactly in the runs in which every request that is
finished had returned normally.** -/
theorem reported_iff_returned (events : List Event) :
    Along step Reported initial events ↔ EachStep step Returned initial events := by
  have sound : ∀ s, Kept s ∧ Quiet s → Reported s := by
    rintro s ⟨kept, quiet⟩
    exact kept.reported quiet
  apply along_iff_eachStep sound
  · rintro s event t ⟨kept, quiet⟩ returned next
    exact ⟨kept_step kept next, quiet_step kept quiet returned next⟩
  · rintro s event t ⟨kept, _⟩ failed next
    exact unreported_of_step kept failed next
  · exact ⟨kept_initial, by simp [Quiet, initial]⟩

/-- Two requests are performed in the other order; the one whose native call raises an
exception is finished, and its callback is called with `null`. -/
theorem failure_unreported :
    ¬ Along step Reported initial
      [.make 0, .make 1, .perform 1 (some "vector::_M_range_check"), .perform 0 none, .finish 0,
       .finish 1] := by
  decide

/-! ## Every request comes to its end -/

theorem perform_first {p : AsyncCallParams} {rest : List AsyncCallParams}
    (waiting : s.queued = p :: rest) (outcome : Option String) :
    ∃ t, step s (.perform p.call outcome) = some t ∧ t.queued = rest ∧
      t.performed.length = s.performed.length + 1 ∧ t.made = s.made := by
  have looked : s.queued.find? (·.call = p.call) = some p := by simp [waiting]
  refine ⟨_, Option.map_eq_some_iff.mpr ⟨p, looked, rfl⟩, ?_, ?_, rfl⟩
  · exact (congrArg (List.erase · p) waiting).trans (List.erase_cons_head ..)
  · exact List.length_append

theorem finish_first {p : AsyncCallParams} {rest : List AsyncCallParams}
    (waiting : s.performed = p :: rest) :
    ∃ t, step s (.finish p.call) = some t ∧ t.queued = s.queued ∧ t.performed = rest ∧
      t.made = s.made := by
  have looked : s.performed.find? (·.call = p.call) = some p := by simp [waiting]
  refine ⟨_, Option.map_eq_some_iff.mpr ⟨p, looked, rfl⟩, rfl, ?_, rfl⟩
  exact (congrArg (List.erase · p) waiting).trans (List.erase_cons_head ..)

/-- From every state the pool and the loop can bring all requests to their end, in two
steps for each that waits for a thread and one for each that waits for the loop. -/
theorem settles (s : Requests) :
    ∃ t, Reaches step (fun _ _ => True) s t ∧ t.inFlight = [] ∧ t.made = s.made := by
  induction steps : 2 * s.queued.length + s.performed.length using Nat.strongRecOn
    generalizing s with
  | ind n further =>
    cases waiting : s.queued with
    | cons p rest =>
      obtain ⟨u, next, queued, performed, made⟩ := perform_first waiting none
      rw [waiting, List.length_cons] at steps
      obtain ⟨t, reached, ended, same⟩ := further _ (by rw [queued, performed]; omega) u rfl
      exact ⟨t, (Reaches.start.step trivial next).trans reached, ended, same.trans made⟩
    | nil =>
      cases ran : s.performed with
      | cons p rest =>
        obtain ⟨u, next, queued, performed, made⟩ := finish_first ran
        rw [waiting, ran, List.length_nil, List.length_cons] at steps
        obtain ⟨t, reached, ended, same⟩ :=
          further _ (by rw [queued, waiting, performed, List.length_nil]; omega) u rfl
        exact ⟨t, (Reaches.start.step trivial next).trans reached, ended, same.trans made⟩
      | nil => exact ⟨s, .start, by simp [inFlight, waiting, ran], rfl⟩

/-- **Every callback is called exactly once** by the time no request is in flight, which
every run can be brought to. -/
theorem called_once (reached : Reaches step (fun _ _ => True) initial s) :
    ∃ t, Reaches step (fun _ _ => True) s t ∧ t.made = s.made ∧
      ∀ call ∈ t.made, (t.invoked.map Invocation.call).count call = 1 := by
  obtain ⟨t, onward, ended, same⟩ := settles s
  have kept : Kept t := (reached.trans onward).invariant Kept kept_initial
    fun _ _ _ kept _ next => kept_step kept next
  refine ⟨t, onward, same, ?_⟩
  intro call made
  rw [kept.once call made, ended, if_neg (List.not_mem_nil)]

end Requests

end NodeFfi.AsyncFailures
