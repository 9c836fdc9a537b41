import NodeFfi.AsyncFailures
import NodeFfi.JsValues
import Mathlib.Data.List.Perm.Subperm

/-! Who owns what of a `callback_info`. It is constructed in storage that libffi hands out,
so nothing but an explicit call runs its destructor, which gives up the persistent references
to the two functions. -/
namespace NodeFfi.ClosureStorage

open TransitionSystem BlockMemory JsVal
open AsyncFailures (FfiStatus)

abbrev Address := Nat

/-- A persistent reference to a function. Node-API hands out no number twice. -/
structure FunctionReference where
  id : Nat
  function : Nat
  deriving DecidableEq, Repr

/-- `callback_info`. A `FunctionReference` member starts empty. -/
structure CallbackInfo where
  resultSize : Int
  argc : Int
  errorFunction : Option FunctionReference
  function : Option FunctionReference
  code : Address
  deriving DecidableEq, Repr

/-- The closures that `ffi_closure_alloc` has handed out, with the object in each, the live
references and those deleted, and the closures whose finalizer has not run. -/
structure Environment where
  closures : List (Address × CallbackInfo)
  references : List FunctionReference
  made : Nat
  deleted : List FunctionReference
  finalizers : List Address
  deriving DecidableEq, Repr

def Environment.initial : Environment := ⟨[], [], 0, [], []⟩

/-- An `Error`, with the `status` it is given, or what a conversion throws. -/
inductive Thrown where
  | error (message : String) (status : Option FfiStatus)
  | value (raised : JsVal)
  deriving DecidableEq, Repr

/-- Native code, which can throw. -/
abbrev NativeM := ExceptT Thrown (StateM Environment)

/-- `Reference<Function>::New(function, 1)`. -/
def Reference.New (function : Nat) : NativeM FunctionReference := do
  let e ← get
  let reference : FunctionReference := ⟨e.made, function⟩
  set { e with references := e.references ++ [reference], made := e.made + 1 }
  return reference

/-- `new(storage) callback_info()`, and the members assigned to it. -/
def construct (storage : Address) (info : CallbackInfo) : NativeM Unit :=
  modify fun e => { e with closures := e.closures ++ [(storage, info)] }

def ffi_closure_free (storage : Address) : NativeM Unit :=
  modify fun e => { e with closures := e.closures.filter fun closure => closure.1 ≠ storage }

/-- `AddFinalizer(closure_pointer_cb, code, cbInfo)`. -/
def addFinalizer (cbInfo : Address) : NativeM Unit :=
  modify fun e => { e with finalizers := e.finalizers ++ [cbInfo] }

/-- The members' references, in the order in which the destructor deletes them. -/
def CallbackInfo.members (info : CallbackInfo) : List (Option FunctionReference) :=
  [info.function, info.errorFunction]

def CallbackInfo.owned (info : CallbackInfo) : List FunctionReference := info.members.filterMap id

/-- `~callback_info`. -/
def Environment.destroy (e : Environment) (info : CallbackInfo) : Environment :=
  { e with
    references := e.references.diff info.owned
    deleted := e.deleted ++ info.owned }

/-- `closure_pointer_cb`, and the `ArrayBuffer` it was attached to is gone; `none` where it
reads what is not allocated. -/
def closure_pointer_cb (e : Environment) (hint : Address) : Option Environment :=
  (e.closures.lookup hint).map fun info =>
    { e.destroy info with
      closures := e.closures.filter fun closure => closure.1 ≠ hint
      finalizers := e.finalizers.erase hint }

section
variable (toInt32 : JsVal → Except JsVal Int)

/-- What `Callback` reads of its arguments: `resultSize`, `argc` and the two functions. -/
def readArguments : List JsVal → Except Thrown (Int × Int × Nat × Nat)
  | [.object (.buffer _ _) _ _, resultSize, argc, .object (.function errorReportCallback) _ _,
      .object (.function callback) _ _] => do
    let resultSize ← (toInt32 resultSize).mapError .value
    let argc ← (toInt32 argc).mapError .value
    return (resultSize, argc, errorReportCallback, callback)
  | _ => throw (.error "Signature: Buffer, int, int, Function, Function" none)

/-- `CallbackInfo::Callback`, with the storage and the code address that `ffi_closure_alloc`
returns and the status that `ffi_prep_closure_loc` does: the code address. -/
def Callback (arguments : List JsVal) (allocated : Option (Address × Address)) (status : FfiStatus) :
    NativeM Address := do
  let (resultSize, argc, errorReportCallback, callback) ← ExceptT.mk (pure (readArguments toInt32 arguments))
  match allocated with
  | none => throw (.error "ffi_closure_alloc() Returned Error" none)
  | some (cbInfo, code) =>
    let errorFunction ← Reference.New errorReportCallback
    let function ← Reference.New callback
    construct cbInfo ⟨resultSize, argc, some errorFunction, some function, code⟩
    if status ≠ .ok then
      ffi_closure_free cbInfo
      throw (.error "ffi_prep_closure() Returned Error" (some status))
    addFinalizer cbInfo
    return code

end

/-- A call of `Callback`, or the end of an `ArrayBuffer` that it returned. -/
inductive Event
  | construct (arguments : List JsVal) (allocated : Option (Address × Address)) (status : FfiStatus)
  | finalize (closure : Address)
  deriving DecidableEq, Repr

section
variable (toInt32 : JsVal → Except JsVal Int)

/-- `ffi_closure_alloc` returns storage that is not in use. -/
def step (e : Environment) : Event → Option Environment
  | .construct arguments allocated status =>
    if allocated.all fun storage => (e.closures.lookup storage.1).isNone then
      some ((Callback toInt32 arguments allocated status).run.run e).2
    else none
  | .finalize closure =>
    if closure ∈ e.finalizers then closure_pointer_cb e closure else none

/-- The event is a construction, and it throws. -/
def Throws (e : Environment) : Event → Prop
  | .construct arguments allocated status =>
    ∃ raised, ((Callback toInt32 arguments allocated status).run.run e).1 = .error raised
  | .finalize _ => False

/-- A construction that throws leaves closures and references as they were. -/
def Restores (e : Environment) (event : Event) : Prop :=
  Throws toInt32 e event → ∀ t, step toInt32 e event = some t →
    t.closures = e.closures ∧ t.references = e.references

/-- **The live references are the two of each closure that is allocated**, each once, and none
has been deleted twice. -/
def Balanced (e : Environment) : Prop :=
  (e.references.map some).Perm (e.closures.flatMap fun closure => closure.2.members) ∧
    e.references.Nodup ∧ e.deleted.Nodup

/-- The construction does not get as far as `ffi_prep_closure_loc`, or that returns `FFI_OK`. -/
def Prepares : Event → Prop
  | .construct arguments (some _) status => (readArguments toInt32 arguments).isOk → status = .ok
  | _ => True

end

/-! ## What each event does -/

section
variable {toInt32 : JsVal → Except JsVal Int} {e t : Environment} {arguments : List JsVal}
  {allocated : Option (Address × Address)} {status : FfiStatus} {cbInfo code : Address}
  {resultSize argc : Int} {errorReportCallback callback : Nat}

/-- The references that a construction makes. -/
def newReferences (e : Environment) (errorReportCallback callback : Nat) : List FunctionReference :=
  [⟨e.made, errorReportCallback⟩, ⟨e.made + 1, callback⟩]

/-- The object that a construction leaves in the storage. -/
def newInfo (e : Environment) (resultSize argc : Int) (errorReportCallback callback : Nat) (code : Address) :
    CallbackInfo :=
  ⟨resultSize, argc, some ⟨e.made, errorReportCallback⟩, some ⟨e.made + 1, callback⟩, code⟩

theorem Callback_refused {raised : Thrown} (refused : readArguments toInt32 arguments = .error raised) :
    (Callback toInt32 arguments allocated status).run.run e = (.error raised, e) := by
  simp only [Callback, refused]
  rfl

theorem Callback_unallocated (accepted : readArguments toInt32 arguments =
    .ok (resultSize, argc, errorReportCallback, callback)) :
    (Callback toInt32 arguments none status).run.run e =
      (.error (.error "ffi_closure_alloc() Returned Error" none), e) := by
  simp only [Callback, accepted]
  rfl

theorem Callback_prepared (accepted : readArguments toInt32 arguments =
    .ok (resultSize, argc, errorReportCallback, callback)) :
    (Callback toInt32 arguments (some (cbInfo, code)) .ok).run.run e = (.ok code,
      { e with
        closures := e.closures ++ [(cbInfo, newInfo e resultSize argc errorReportCallback callback code)]
        references := e.references ++ newReferences e errorReportCallback callback
        made := e.made + 2
        finalizers := e.finalizers ++ [cbInfo] }) := by
  have pair : newReferences e errorReportCallback callback =
      [⟨e.made, errorReportCallback⟩] ++ [⟨e.made + 1, callback⟩] := rfl
  rw [Callback, accepted, pair, ← List.append_assoc]
  rfl

/-- The storage is given back, the references stay. -/
theorem Callback_unprepared (accepted : readArguments toInt32 arguments =
      .ok (resultSize, argc, errorReportCallback, callback)) (fails : status ≠ .ok)
    (fresh : e.closures.lookup cbInfo = none) :
    (Callback toInt32 arguments (some (cbInfo, code)) status).run.run e =
      (.error (.error "ffi_prep_closure() Returned Error" (some status)),
        { e with
          references := e.references ++ newReferences e errorReportCallback callback
          made := e.made + 2 }) := by
  have others : (e.closures ++ [(cbInfo, newInfo e resultSize argc errorReportCallback callback code)]).filter
      (fun closure => closure.1 ≠ cbInfo) = e.closures := by
    have keep : ∀ closure ∈ e.closures, decide (closure.1 ≠ cbInfo) = true := by
      intro closure member
      have other := List.lookup_eq_none_iff.mp fresh closure member
      rw [bne_iff_ne] at other
      exact decide_eq_true other.symm
    rw [List.filter_append, List.filter_eq_self.mpr keep]
    simp
  have pair : newReferences e errorReportCallback callback =
      [⟨e.made, errorReportCallback⟩] ++ [⟨e.made + 1, callback⟩] := rfl
  rw [Callback, accepted, pair, ← List.append_assoc]
  simp only [fails, ne_eq, not_false_eq_true, if_true]
  change (_, _) = _
  congr 1
  conv => rhs; rw [← others]
  rfl

end

/-! ## The invariant -/

/-- Each closure has its two references and one finalizer that has not run. -/
structure Settled (e : Environment) : Prop where
  complete : ∀ closure ∈ e.closures, closure.2.function.isSome ∧ closure.2.errorFunction.isSome
  owned : e.references.Perm (e.closures.flatMap fun closure => closure.2.owned)
  once : (e.references ++ e.deleted).Nodup
  made : ∀ reference ∈ e.references ++ e.deleted, reference.id < e.made
  apart : (e.closures.map Prod.fst).Nodup
  finalizers : e.finalizers.Perm (e.closures.map Prod.fst)

theorem settled_initial : Settled .initial :=
  ⟨by simp [Environment.initial], .nil, .nil, by simp [Environment.initial], .nil, .nil⟩

section
variable {toInt32 : JsVal → Except JsVal Int} {e t : Environment} {closures : List (Address × CallbackInfo)}

theorem members_owned {info : CallbackInfo} (complete : info.function.isSome ∧ info.errorFunction.isSome) :
    info.owned.map some = info.members := by
  obtain ⟨function, isFunction⟩ := Option.isSome_iff_exists.mp complete.1
  obtain ⟨errorFunction, isErrorFunction⟩ := Option.isSome_iff_exists.mp complete.2
  simp [CallbackInfo.owned, CallbackInfo.members, isFunction, isErrorFunction]

theorem Settled.balanced (settled : Settled e) : Balanced e := by
  have members : (e.closures.flatMap fun closure => closure.2.owned).map some =
      e.closures.flatMap fun closure => closure.2.members := by
    rw [List.map_flatMap]
    exact List.flatMap_congr fun closure member => members_owned (settled.complete closure member)
  refine ⟨?_, (List.nodup_append.mp settled.once).1, (List.nodup_append.mp settled.once).2.1⟩
  rw [← members]
  exact settled.owned.map some

/-- The closure that a finalizer frees, among the others. -/
theorem Settled.freed (settled : Settled e) {closure : Address} (pending : closure ∈ e.finalizers) :
    ∃ before info after, e.closures = before ++ (closure, info) :: after ∧
      e.closures.lookup closure = some info ∧
      e.closures.filter (fun other => other.1 ≠ closure) = before ++ after := by
  obtain ⟨⟨_, info⟩, member, rfl⟩ := List.mem_map.mp (settled.finalizers.mem_iff.mp pending)
  dsimp only at *
  rename_i closure
  obtain ⟨before, after, split⟩ := List.append_of_mem member
  have apart := settled.apart
  rw [split, List.map_append, List.map_cons, List.perm_middle.nodup_iff, ← List.map_append,
    List.nodup_cons] at apart
  have other : ∀ one ∈ before ++ after, one.1 ≠ closure := fun one inside same =>
    apart.1 (List.mem_map.mpr ⟨one, inside, same⟩)
  refine ⟨before, info, after, split, ?_, ?_⟩
  · rw [split]
    apply List.lookup_eq_some_iff.mpr
    refine ⟨before, after, rfl, ?_⟩
    intro one inside
    rw [bne_iff_ne]
    exact (other one (List.mem_append_left after inside)).symm
  · have keep : ∀ one ∈ before ++ after, decide (one.1 ≠ closure) = true := fun one inside =>
      decide_eq_true (other one inside)
    rw [split, List.filter_append, List.filter_cons_of_neg (by simp), ← List.filter_append,
      List.filter_eq_self.mpr keep]

theorem diff_owned {α : Type} [DecidableEq α] (owned others : List α) : (owned ++ others).diff owned = others := by
  induction owned with
  | nil => simp
  | cons reference rest further => simp [further]

/-- A finalizer deletes the two references of its closure and no other. -/
theorem Settled.finalize (settled : Settled e) {closure : Address}
    (next : step toInt32 e (.finalize closure) = some t) : Settled t := by
  by_cases pending : closure ∈ e.finalizers
  · obtain ⟨before, info, after, split, found, others⟩ := settled.freed pending
    rw [step, if_pos pending, closure_pointer_cb, found] at next
    obtain rfl := Option.some.inj next
    have middle : e.closures.Perm ((closure, info) :: (before ++ after)) := by
      rw [split]
      exact List.perm_middle
    have owned : e.references.Perm (info.owned ++ (before ++ after).flatMap fun closure => closure.2.owned) :=
      settled.owned.trans (middle.flatMap_right _)
    have left : (e.references.diff info.owned).Perm ((before ++ after).flatMap fun closure => closure.2.owned) := by
      have rest := owned.diff_right info.owned
      rwa [diff_owned] at rest
    have all : (e.references.diff info.owned ++ (e.deleted ++ info.owned)).Perm (e.references ++ e.deleted) := by
      have together : (info.owned ++ e.references.diff info.owned).Perm e.references :=
        (left.append_left info.owned).trans owned.symm
      calc e.references.diff info.owned ++ (e.deleted ++ info.owned)
        _ = e.references.diff info.owned ++ e.deleted ++ info.owned := (List.append_assoc ..).symm
        List.Perm _ (info.owned ++ (e.references.diff info.owned ++ e.deleted)) := List.perm_append_comm
        _ = info.owned ++ e.references.diff info.owned ++ e.deleted := (List.append_assoc ..).symm
        List.Perm _ (e.references ++ e.deleted) := together.append_right e.deleted
    have apart := (middle.map Prod.fst).nodup_iff.mp settled.apart
    have finalizers := (settled.finalizers.trans (middle.map Prod.fst)).erase closure
    rw [List.map_cons, List.nodup_cons] at apart
    rw [List.map_cons, List.erase_cons_head] at finalizers
    simp only [others, Environment.destroy]
    refine ⟨?_, left, all.nodup_iff.mpr settled.once, ?_, apart.2, finalizers⟩
    · intro one member
      exact settled.complete one (middle.mem_iff.mpr (List.mem_cons_of_mem _ member))
    · intro reference member
      exact settled.made reference (all.mem_iff.mp member)
  · rw [step, if_neg pending] at next
    cases next

/-- A construction that succeeds makes one closure with two references. -/
theorem Settled.prepared (settled : Settled e) {cbInfo code : Address} (resultSize argc : Int)
    (errorReportCallback callback : Nat) (fresh : e.closures.lookup cbInfo = none) :
    Settled { e with
      closures := e.closures ++ [(cbInfo, newInfo e resultSize argc errorReportCallback callback code)]
      references := e.references ++ newReferences e errorReportCallback callback
      made := e.made + 2
      finalizers := e.finalizers ++ [cbInfo] } := by
  have older : ∀ reference ∈ e.references ++ e.deleted, reference ∉ newReferences e errorReportCallback callback := by
    intro reference member inside
    have before := settled.made reference member
    simp only [newReferences, List.mem_cons, List.not_mem_nil, or_false] at inside
    rcases inside with rfl | rfl
    · exact absurd before (Nat.lt_irrefl _)
    · exact absurd before (by simp)
  have all : (e.references ++ newReferences e errorReportCallback callback ++ e.deleted).Perm
      (e.references ++ e.deleted ++ newReferences e errorReportCallback callback) := by
    rw [List.append_assoc, List.append_assoc]
    exact List.perm_append_comm.append_left _
  refine ⟨?_, ?_, ?_, ?_, ?_, ?_⟩
  · intro closure member
    rcases List.mem_append.mp member with before | new
    · exact settled.complete closure before
    · rw [List.mem_singleton] at new
      subst new
      exact ⟨rfl, rfl⟩
  · rw [List.flatMap_append, List.flatMap_singleton]
    exact settled.owned.append (List.Perm.swap _ _ [])
  · apply all.nodup_iff.mpr
    apply List.nodup_append.mpr
    refine ⟨settled.once, by simp [newReferences], ?_⟩
    intro old before new inside same
    exact older old before (same ▸ inside)
  · intro reference member
    rcases List.mem_append.mp (all.mem_iff.mp member) with before | new
    · exact Nat.lt_add_right 2 (settled.made reference before)
    · simp only [newReferences, List.mem_cons, List.not_mem_nil, or_false] at new
      rcases new with rfl | rfl
      · exact Nat.lt_add_of_pos_right (by decide)
      · exact Nat.lt_succ_self _
  · rw [List.map_append, List.map_singleton]
    apply List.nodup_append.mpr
    refine ⟨settled.apart, by simp, ?_⟩
    intro address member other new same
    obtain ⟨closure, inside, rfl⟩ := List.mem_map.mp member
    rw [List.mem_singleton] at new
    have apart := List.lookup_eq_none_iff.mp fresh closure inside
    rw [bne_iff_ne] at apart
    exact apart (new.symm.trans same.symm)
  · rw [List.map_append, List.map_singleton]
    exact settled.finalizers.append_right _

/-! ## Runs -/

/-- Either the construction throws before it has allocated anything, or it comes to
`ffi_prep_closure_loc`. -/
theorem step_construct {arguments : List JsVal} {allocated : Option (Address × Address)} {status : FfiStatus}
    (next : step toInt32 e (.construct arguments allocated status) = some t) :
    (t = e ∧ Prepares toInt32 (.construct arguments allocated status)) ∨ ∃ cbInfo code resultSize argc errorReportCallback callback,
      allocated = some (cbInfo, code) ∧ e.closures.lookup cbInfo = none ∧
        readArguments toInt32 arguments = .ok (resultSize, argc, errorReportCallback, callback) ∧
          t = ((Callback toInt32 arguments allocated status).run.run e).2 := by
  rw [step] at next
  obtain ⟨fresh, same⟩ := Option.ite_none_right_eq_some.mp next
  cases read : readArguments toInt32 arguments with
  | error raised =>
    rw [Callback_refused read] at same
    refine .inl ⟨(Option.some.inj same).symm, ?_⟩
    cases allocated with
    | none => trivial
    | some storage =>
      intro accepted
      rw [read] at accepted
      cases accepted
  | ok values =>
    cases allocated with
    | none =>
      rw [Callback_unallocated read] at same
      exact .inl ⟨(Option.some.inj same).symm, trivial⟩
    | some storage =>
      exact .inr ⟨storage.1, storage.2, values.1, values.2.1, values.2.2.1, values.2.2.2, rfl,
        Option.isNone_iff_eq_none.mp fresh, rfl, (Option.some.inj same).symm⟩

theorem Settled.step (settled : Settled e) {event : Event} (prepares : Prepares toInt32 event)
    (next : ClosureStorage.step toInt32 e event = some t) : Settled t := by
  cases event with
  | finalize closure => exact settled.finalize next
  | construct arguments allocated status =>
    rcases step_construct next with ⟨rfl, _⟩ | ⟨cbInfo, code, resultSize, argc, errorReportCallback, callback, rfl, fresh, read, rfl⟩
    · exact settled
    · obtain rfl : status = .ok := prepares (by rw [read]; rfl)
      rw [Callback_prepared read]
      exact settled.prepared resultSize argc errorReportCallback callback fresh

/-- Where a closure cannot be prepared, its references stay without it. -/
theorem Settled.unprepared (settled : Settled e) {event : Event} (unprepared : ¬ Prepares toInt32 event)
    (next : ClosureStorage.step toInt32 e event = some t) : ¬ Balanced t := by
  cases event with
  | finalize closure => exact absurd trivial unprepared
  | construct arguments allocated status =>
    rcases step_construct next with ⟨_, prepares⟩ | ⟨cbInfo, code, resultSize, argc, errorReportCallback, callback, rfl, fresh, read, rfl⟩
    · exact absurd prepares unprepared
    · have fails : status ≠ .ok := fun ok => unprepared fun _ => ok
      rw [Callback_unprepared read fails fresh]
      intro balanced
      have same := balanced.1.trans settled.balanced.1.symm
      have lengths := same.length_eq
      simp [newReferences] at lengths

theorem Settled.restores (settled : Settled e) {event : Event} (prepares : Prepares toInt32 event) :
    Restores toInt32 e event := by
  intro throws t next
  cases event with
  | finalize closure => cases throws
  | construct arguments allocated status =>
    rcases step_construct next with ⟨rfl, _⟩ | ⟨cbInfo, code, resultSize, argc, errorReportCallback, callback, rfl, fresh, read, rfl⟩
    · exact ⟨rfl, rfl⟩
    · obtain rfl : status = .ok := prepares (by rw [read]; rfl)
      obtain ⟨raised, error⟩ := throws
      rw [Callback_prepared read] at error
      cases error

/-- **Storage and references go together exactly as long as every closure can be prepared.** -/
theorem released_together_iff (toInt32 : JsVal → Except JsVal Int) (events : List Event) :
    (Along (step toInt32) Balanced .initial events ∧
      EachStep (step toInt32) (Restores toInt32) .initial events) ↔
        EachStep (step toInt32) (fun _ event => Prepares toInt32 event) .initial events := by
  have balanced : Along (step toInt32) Balanced .initial events ↔
      EachStep (step toInt32) (fun _ event => Prepares toInt32 event) .initial events :=
    along_iff_eachStep (fun _ => Settled.balanced) (fun _ _ _ settled => settled.step)
      (fun _ _ _ settled => settled.unprepared) settled_initial events
  constructor
  · rintro ⟨along, _⟩
    exact balanced.mp along
  · intro each
    refine ⟨balanced.mpr each, ?_⟩
    exact each.imp (fun _ _ _ settled => settled.step) (fun _ _ settled => settled.restores) settled_initial

/-- The conversion of zero. -/
def zeroToInt32 : JsVal → Except JsVal Int
  | .number 0 => .ok 0
  | value => .error value

/-- A cif whose ABI is not one of the platform's. -/
def badCif : Event :=
  .construct [.object (.buffer (some ⟨0, 0⟩) 32) none .writable, .number 0, .number 0,
    .object (.function 0) none .writable, .object (.function 1) none .writable] (some (64, 128)) .badAbi

instance decidableBalanced (e : Environment) : Decidable (Balanced e) :=
  inferInstanceAs (Decidable (List.Perm _ _ ∧ _))

/-- The construction throws, and both functions stay referenced for ever. -/
theorem badCif_leaks : ¬ (Along (step zeroToInt32) Balanced .initial [badCif] ∧
    EachStep (step zeroToInt32) (Restores zeroToInt32) .initial [badCif]) := by
  rintro ⟨along, _⟩
  revert along
  decide

end

end NodeFfi.ClosureStorage
