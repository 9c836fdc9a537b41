import NodeFfi.MarshallingRuns
import NodeFfi.RegionMemory
import NodeFfi.TransitionSystem

/-! Calls of proxies in flight, synchronous and asynchronous, as small steps over one
memory. The steps of different calls interleave freely, so that callbacks which call again,
the thread pool and the order of completions are all among the runs. Storage is where the
allocator puts it; nothing keeps a write inside it. -/
namespace NodeFfi.CallsInFlight
open BlockMemory RegionMemory

variable {m : DataModel}

/-- How far a call is, with what its native function received and returned once it has. -/
inductive Phase where
  /-- At the head of the loop over the arguments. -/
  | storing
  /-- `ref.alloc` has the buffer for the next argument. -/
  | allocated (valPtr : Pointer)
  /-- The value is set in it. -/
  | set (valPtr : Pointer)
  /-- `ffi_call` is called, or `ffi_call_async` has queued it. -/
  | invoked
  /-- The native function runs. -/
  | entered (received : List (List Cell))
  /-- `ffi_call` has stored its result. -/
  | returned (received : List (List Cell)) (cells : List Cell)
  /-- What `result.deref()` gives or throws is returned or delivered. -/
  | decoded (received : List (List Cell)) (cells : List Cell) (outcome : Except JsVal JsVal)
  /-- Setting a value threw. -/
  | threw (e : JsVal)

namespace Phase

def inFlight : Phase → Bool
  | decoded _ _ _ | threw _ => false
  | _ => true

/-- The buffer of the argument that is being stored. -/
def valPtr : Phase → List Pointer
  | allocated valPtr | set valPtr => [valPtr]
  | _ => []

end Phase

/-- A call of the proxy of a function. Proxies with one `ffi_cif` have it in common. -/
structure Call (m : DataModel) where
  signature : Signature m
  arguments : List JsVal
  result : Pointer
  argsList : Pointer
  /-- The buffers of the arguments that `argsList` points to. -/
  values : List Pointer
  phase : Phase

namespace Call

def parameters (c : Call m) : List (RefType × JsVal) := c.signature.argTypes.zip c.arguments

/-- The type and the value that are to be stored next. -/
def next (c : Call m) : Option (RefType × JsVal) := c.parameters[c.values.length]?

def resultRegion (c : Call m) : Region := ⟨c.result, resultSize m c.signature.returnType⟩

def argsRegion (c : Call m) : Region := ⟨c.argsList, c.signature.argTypes.length * m.pointer.bytes⟩

def valueRegion (m : DataModel) (valPtr : Pointer) (parameter : RefType × JsVal) : Region :=
  ⟨valPtr, derefReads m parameter.1⟩

/-- What is allocated for the call, until it is over. -/
def storage (c : Call m) : List Region :=
  if c.phase.inFlight then c.resultRegion :: c.argsRegion ::
    List.zipWith (valueRegion m) (c.values ++ c.phase.valPtr) c.parameters
  else []

/-- What `result.deref()` may hand on: a struct's fields are read and written there. -/
def handedOn (c : Call m) : List Region :=
  match c.phase with
  | .decoded _ _ _ => [c.resultRegion]
  | _ => []

end Call

/-- What `ffi_call` reads: the bytes each entry of the array points to, from entry `i` on.
An entry that is no address is undefined. -/
def gather (memory : Contents Cell) (argsList : Pointer) :
    Nat → List (FfiType m.sizeBits) → Option (List (List Cell))
  | _, [] => some []
  | i, atype :: rest => do
    let entry ← decodePointer m (peek memory (argsList.shift (i * m.pointer.bytes)) m.pointer.bytes)
    let others ← gather memory argsList (i + 1) rest
    return peek memory entry atype.size.toNat :: others

/-- What becomes of the bytes of the arguments on their way through registers and stack to
the native function, with the address of the result; `none` where that is undefined. -/
abbrev HandOver (m : DataModel) := Cif m → Pointer → List (List Cell) → Option (List (List Cell))

/-! ## Steps -/

/-- The next thing that a call does. A struct that is returned is written in place. -/
inductive Move where
  | alloc (valPtr : Pointer)
  | set
  | writePointer
  | invoke
  | enter
  | fill (cells : List Cell)
  | leave (cells : List Cell)
  | decode

/-- What the move allocates. -/
def Move.fresh (c : Call m) : Move → List Region
  | .alloc valPtr => c.next.toList.map (Call.valueRegion m valPtr)
  | _ => []

/-- `_foreign_function.js`, the body of `proxy` and of `proxy.async` after its two
allocations, with `ffi_call` of `ffi.cc`; `none` where the call cannot go on like this. -/
def advance (host : Host) (handOver : HandOver m) (memory : Contents Cell) (c : Call m) :
    Move → Option (Contents Cell × Call m)
  | .alloc valPtr =>
    match c.phase, c.next with
    | .storing, some (argType, _) =>
      some (poke memory valPtr (zeros (derefReads m argType)), { c with phase := .allocated valPtr })
    | _, _ => none
  | .set =>
    match c.phase, c.next with
    | .allocated valPtr, some (argType, val) =>
      let (cells, outcome) := host.set argType (peek memory valPtr (derefReads m argType)) val
      match outcome with
      | .ok _ => some (poke memory valPtr cells, { c with phase := .set valPtr })
      | .error e => some (poke memory valPtr cells, { c with phase := .threw e })
    | _, _ => none
  | .writePointer =>
    match c.phase with
    | .set valPtr =>
      some (poke memory (c.argsList.shift (c.values.length * m.pointer.bytes)) (pointerCells m valPtr),
        { c with values := c.values ++ [valPtr], phase := .storing })
    | _ => none
  | .invoke =>
    match c.phase with
    | .storing =>
      if c.values.length = c.signature.argTypes.length then some (memory, { c with phase := .invoked })
      else none
    | _ => none
  | .enter =>
    match c.phase with
    | .invoked => do
      let sent ← gather memory c.argsList 0 c.signature.cif.atypes
      let received ← handOver c.signature.cif c.result sent
      return (memory, { c with phase := .entered received })
    | _ => none
  | .fill cells =>
    match c.phase with
    | .entered _ =>
      if cells.length ≤ returnWidth c.signature.cif.rtype then some (poke memory c.result cells, c) else none
    | _ => none
  | .leave cells =>
    match c.phase with
    | .entered received =>
      if cells.length = returnWidth c.signature.cif.rtype then
        some (poke memory c.result (returned m c.signature.cif.rtype cells),
          { c with phase := .returned received cells })
      else none
    | _ => none
  | .decode =>
    match c.phase with
    | .returned received cells =>
      let outcome := host.get c.signature.returnType
        (peek memory c.result (derefReads m c.signature.returnType))
      some (memory, { c with phase := .decoded received cells outcome })
    | _ => none

structure State (m : DataModel) where
  memory : Contents Cell
  /-- Every call so far, oldest first. -/
  calls : List (Call m)
  /-- The storage that other code has pointers to: buffers of the program, whatever they
  were passed to, and what native code and the closures of callbacks use. -/
  given : List Region

namespace State

/-- The storage of the calls in flight. The proxy's variables refer to it, or the function
that `proxy.async` gives to `ffi_call_async`, and each value's buffer is kept by the array. -/
def owned (st : State m) : List Region := st.calls.flatMap Call.storage

def live (st : State m) : List Region := st.owned ++ st.given

end State

/-- What can happen next. The last three are other code, native functions included. -/
inductive Event (m : DataModel) where
  | call (s : Signature m) (arguments : List JsVal) (result argsList : Pointer)
  | move (call : Nat) (move : Move)
  | obtain (r : Region)
  | release (r : Region)
  | write (p : Pointer) (cells : List Cell)

/-- A call that begins; the asynchronous proxy has its callback besides. -/
def begun (s : Signature m) (arguments : List JsVal) (result argsList : Pointer) : Call m :=
  ⟨s, arguments, result, argsList, [], .storing⟩

def step (host : Host) (handOver : HandOver m) (st : State m) : Event m → Option (State m)
  | .call s arguments result argsList =>
    if arguments.length = s.argTypes.length then
      let memory := poke st.memory result (zeros (resultSize m s.returnType))
      let memory := poke memory argsList (zeros (s.argTypes.length * m.pointer.bytes))
      some { st with memory, calls := st.calls ++ [begun s arguments result argsList] }
    else none
  | .move call move =>
    match st.calls[call]? with
    | none => none
    | some c =>
      match advance host handOver st.memory c move with
      | none => none
      | some (memory, c) =>
        some { memory, calls := st.calls.set call c, given := st.given ++ c.handedOn }
  | .obtain r => some { st with given := st.given ++ [r] }
  | .release r => some { st with given := st.given.erase r }
  | .write p cells => some { st with memory := poke st.memory p cells }

/-- What is allocated is disjoint from all live storage, and other code writes only through
pointers that it was given. -/
def Permitted (st : State m) : Event m → Prop
  | .call s arguments result argsList =>
    let c := begun s arguments result argsList
    Apart c.resultRegion c.argsRegion ∧
      ∀ r ∈ st.live, Apart r c.resultRegion ∧ Apart r c.argsRegion
  | .move call move => ∀ c, st.calls[call]? = some c → ∀ r ∈ move.fresh c, ∀ s ∈ st.live, Apart s r
  | .obtain r => ∀ s ∈ st.owned, Apart s r
  | .release _ => True
  | .write p cells => ∃ r ∈ st.given, Region.Within ⟨p, cells.length⟩ r

instance (st : State m) : DecidablePred (Permitted st)
  | .call _ _ _ _ => inferInstanceAs (Decidable (_ ∧ ∀ r ∈ st.live, _ ∧ _))
  | .move call move =>
    inferInstanceAs (Decidable (∀ c ∈ st.calls[call]?, ∀ r ∈ move.fresh c, ∀ s ∈ st.live, Apart s r))
  | .obtain r => inferInstanceAs (Decidable (∀ s ∈ st.owned, Apart s r))
  | .release _ => isTrue trivial
  | .write p cells => inferInstanceAs (Decidable (∃ r ∈ st.given, Region.Within ⟨p, cells.length⟩ r))

/-! ## Isolation -/

/-- The bytes encoded from the call's own arguments. -/
def Call.encoded (host : Host) (c : Call m) : List (List Cell) :=
  c.parameters.map fun parameter => (stored m host parameter.1 parameter.2).1

/-- What is decoded from the bytes that the call's own native function returned: they are
stored over the zeros of the result buffer. -/
def Call.answer (host : Host) (c : Call m) (cells : List Cell) : Except JsVal JsVal :=
  let written := returned m c.signature.cif.rtype cells
  host.get c.signature.returnType
    ((written ++ zeros (resultSize m c.signature.returnType - written.length)).take
      (derefReads m c.signature.returnType))

/-- The native function has received the call's own arguments, and the caller what the
function returned. -/
def Call.Undisturbed (host : Host) (c : Call m) : Prop :=
  match c.phase with
  | .entered received | .returned received _ => received = c.encoded host
  | .decoded received cells outcome => received = c.encoded host ∧ outcome = c.answer host cells
  | _ => True

instance (host : Host) (c : Call m) : Decidable (c.Undisturbed host) := by
  unfold Call.Undisturbed
  split <;> infer_instance

/-- Calls do not interfere. -/
def Isolated (host : Host) (st : State m) : Prop := ∀ c ∈ st.calls, c.Undisturbed host

instance (host : Host) (st : State m) : Decidable (Isolated host st) :=
  inferInstanceAs (Decidable (∀ c ∈ st.calls, _))

/-- A call of the function uses its buffers: libffi takes each argument for as large as
`ref` does, and the result buffer holds what is stored into it and read from it. -/
structure Contained (s : Signature m) : Prop where
  reads : List.Forall₂ (fun atype argType => atype.size.toNat = derefReads m argType) s.cif.atypes s.argTypes
  stores : ffiCallStores m s.cif.rtype ≤ resultSize m s.returnType
  decodes : derefReads m s.returnType ≤ resultSize m s.returnType

instance (s : Signature m) : Decidable (Contained s) :=
  decidable_of_iff (_ ∧ _ ∧ _) ⟨fun ⟨reads, stores, decodes⟩ => ⟨reads, stores, decodes⟩,
    fun contained => ⟨contained.reads, contained.stores, contained.decodes⟩⟩

/-- Arguments of the sizes of their types arrive as they are. -/
def Faithful (handOver : HandOver m) (s : Signature m) : Prop :=
  ∀ (rvalue : Pointer) (sent : List (List Cell)),
    List.Forall₂ (fun atype cells => cells.length = atype.size.toNat) s.cif.atypes sent →
      handOver s.cif rvalue sent = some sent

/-- A call of a function that uses its buffers. -/
def Event.Contained : Event m → Prop
  | .call s _ _ _ => CallsInFlight.Contained s
  | _ => True

instance : DecidablePred (@Event.Contained m)
  | .call s _ _ _ => inferInstanceAs (Decidable (CallsInFlight.Contained s))
  | .move _ _ | .obtain _ | .release _ | .write _ _ => isTrue trivial

/-- A call of a function that receives what is handed over to it. -/
def Event.Faithful (handOver : HandOver m) : Event m → Prop
  | .call s _ _ _ => CallsInFlight.Faithful handOver s
  | _ => True

end NodeFfi.CallsInFlight
