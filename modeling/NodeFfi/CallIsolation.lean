import NodeFfi.HandOvers

/-! Each call in flight owns its buffers, and what they hold is its own doing: the values
encoded so far, their addresses, and what its native function returned. No step of another
call, and no other code, reaches them, as long as all calls use their buffers and nothing
else. -/
namespace NodeFfi.CallsInFlight
open BlockMemory RegionMemory TransitionSystem

variable {m : DataModel} {host : Host} {handOver : HandOver m} {memory memory' : Contents Cell} {c c' : Call m}
  {s : Signature m}
  {st st' : State m} {p : Pointer} {k : Nat}

/-! ## All calls -/

/-- Each call owns its storage, and holds in it what it should. -/
structure Secure (host : Host) (handOver : HandOver m) (st : State m) : Prop where
  apart : st.owned.Pairwise Apart
  given : ∀ r ∈ st.owned, ∀ s ∈ st.given, Apart r s
  contained : ∀ c ∈ st.calls, Contained c.signature
  faithful : ∀ c ∈ st.calls, Faithful handOver c.signature
  held : ∀ c ∈ st.calls, c.phase.inFlight = true → Held host st.memory c
  isolated : Isolated host st

theorem owned_mem {r : Region} (member : c ∈ st.calls) (inside : r ∈ c.storage) : r ∈ st.owned :=
  List.mem_flatMap.mpr ⟨c, member, inside⟩

/-- A call among the others. -/
theorem split_at {calls : List (Call m)} (found : calls[k]? = some c) : ∃ before after,
    calls = before ++ c :: after ∧ ∀ c', calls.set k c' = before ++ c' :: after := by
  obtain ⟨inside, here⟩ := List.getElem?_eq_some_iff.mp found
  refine ⟨calls.take k, calls.drop (k + 1), ?_, fun c' => ?_⟩
  · rw [← here, List.getElem_cons_drop, List.take_append_drop]
  · rw [List.set_eq_take_append_cons_drop, if_pos inside]

theorem fresh_pairwise (move : Move) (c : Call m) : (move.fresh c).Pairwise Apart := by
  cases move with
  | alloc valPtr =>
    rw [Move.fresh]
    cases c.next <;> simp
  | _ => exact .nil

/-- One owner's storage replaced by some of it and something fresh. -/
theorem pairwise_replace {before mine after fresh mine' : List Region}
    (apart : (before ++ (mine ++ after)).Pairwise Apart) (news : fresh.Pairwise Apart)
    (free : ∀ r ∈ before ++ (mine ++ after), ∀ s ∈ fresh, Apart r s) (part : mine'.Sublist (mine ++ fresh)) :
    (before ++ (mine' ++ after)).Pairwise Apart := by
  have all : ((before ++ (mine ++ after)) ++ fresh).Pairwise Apart :=
    List.pairwise_append.mpr ⟨apart, news, free⟩
  have moved : (before ++ (mine ++ fresh ++ after)).Perm ((before ++ (mine ++ after)) ++ fresh) := by
    rw [List.append_assoc, List.append_assoc, List.append_assoc]
    exact (List.perm_append_comm.append_left mine).append_left before
  refine List.Pairwise.sublist ?_ ((moved.pairwise_iff Apart.symm).mpr all)
  exact ((part.append_right after).append_left before)

/-- What a call's storage is apart from. -/
theorem apart_others {before mine after : List Region} (apart : (before ++ (mine ++ after)).Pairwise Apart)
    {r s : Region} (other : r ∈ before ++ after) (inside : s ∈ mine) : Apart r s := by
  obtain ⟨_, rest, first⟩ := List.pairwise_append.mp apart
  obtain ⟨_, _, second⟩ := List.pairwise_append.mp rest
  rcases List.mem_append.mp other with early | late
  · exact first r early s (List.mem_append_left _ inside)
  · exact (second s inside r late).symm

/-- A call that has only its two buffers. -/
theorem held_begun {arguments : List JsVal} {result argsList : Pointer}
    (arity : arguments.length = s.argTypes.length)
    (apart : Apart (begun s arguments result argsList).resultRegion
      (begun s arguments result argsList).argsRegion) :
    Held host (poke (poke memory result (zeros (resultSize m s.returnType))) argsList
      (zeros (s.argTypes.length * m.pointer.bytes))) (begun s arguments result argsList) := by
  refine ⟨arity, nofun, nofun, Nat.zero_le _, fun _ _ => trivial, nofun, ?_, trivial⟩
  have filled := peek_poke memory result (zeros (resultSize m s.returnType))
  rw [zeros_length] at filled
  have kept : Agree ⟨result, resultSize m s.returnType⟩ (poke memory result (zeros (resultSize m s.returnType)))
      (poke (poke memory result (zeros (resultSize m s.returnType))) argsList
        (zeros (s.argTypes.length * m.pointer.bytes))) := by
    apply agree_poke
    rw [zeros_length]
    exact apart
  simp only [begun]
  rw [peek_congr kept, filled, zeros, List.drop_replicate]
  rfl

theorem secure_call {arguments : List JsVal} {result argsList : Pointer} (secure : Secure host handOver st)
    (contained : Contained s) (faithful : Faithful handOver s)
    (permitted : Permitted st (.call s arguments result argsList))
    (next : step host handOver st (.call s arguments result argsList) = some st') : Secure host handOver st' := by
  obtain ⟨arity, same⟩ := Option.ite_none_right_eq_some.mp next
  cases same
  obtain ⟨apart, free⟩ := permitted
  have storage : (begun s arguments result argsList).storage =
      [(begun s arguments result argsList).resultRegion, (begun s arguments result argsList).argsRegion] := rfl
  have fresh : ∀ r ∈ st.live, ∀ t ∈ (begun s arguments result argsList).storage, Apart r t := by
    intro r inside t new
    rw [storage] at new
    rcases List.mem_cons.mp new with rfl | last
    · exact (free r inside).1
    · cases List.mem_singleton.mp last
      exact (free r inside).2
  refine ⟨?_, ?_, ?_, ?_, ?_, ?_⟩
  · rw [State.owned, List.flatMap_append, List.flatMap_singleton]
    refine List.pairwise_append.mpr ⟨secure.apart, ?_, fun r inside t new => ?_⟩
    · rw [storage]
      exact List.pairwise_pair.mpr apart
    · exact fresh r (List.mem_append_left _ inside) t new
  · intro r inside t there
    rw [State.owned, List.flatMap_append, List.flatMap_singleton] at inside
    rcases List.mem_append.mp inside with old | new
    · exact secure.given r old t there
    · exact (fresh t (List.mem_append_right _ there) r new).symm
  · intro d listed
    rcases List.mem_append.mp listed with old | new
    · exact secure.contained d old
    · cases List.mem_singleton.mp new
      exact contained
  · intro d listed
    rcases List.mem_append.mp listed with old | new
    · exact secure.faithful d old
    · cases List.mem_singleton.mp new
      exact faithful
  · intro d listed flying
    rcases List.mem_append.mp listed with old | new
    · apply (secure.held d old flying).frame flying
      intro r mine
      obtain ⟨first, second⟩ := free r (List.mem_append_left _ (owned_mem old mine))
      exact (agree_into (within_front (Nat.le_of_eq (zeros_length _))) first).trans
        (agree_into (within_front (Nat.le_of_eq (zeros_length _))) second)
    · cases List.mem_singleton.mp new
      exact held_begun arity apart
  · intro d listed
    rcases List.mem_append.mp listed with old | new
    · exact secure.isolated d old
    · cases List.mem_singleton.mp new
      exact trivial

section
variable {before after : List (Call m)} {fresh : List Region} {d : Call m}

theorem exchanged_cases (listed : d ∈ before ++ c' :: after) : d = c' ∨ d ∈ before ++ after := by
  rcases List.mem_append.mp listed with early | late
  · exact .inr (List.mem_append_left _ early)
  · exact (List.mem_cons.mp late).imp_right (List.mem_append_right _)

theorem other_listed (other : d ∈ before ++ after) : d ∈ before ++ c :: after := by
  rcases List.mem_append.mp other with early | late
  · exact List.mem_append_left _ early
  · exact List.mem_append_right _ (List.mem_cons_of_mem _ late)

theorem other_storage {r : Region} (other : d ∈ before ++ after) (owned : r ∈ d.storage) :
    r ∈ before.flatMap Call.storage ++ after.flatMap Call.storage := by
  rw [← List.flatMap_append]
  exact List.mem_flatMap.mpr ⟨d, other, owned⟩

theorem owned_eq (split : st.calls = before ++ c :: after) :
    st.owned = before.flatMap Call.storage ++ (c.storage ++ after.flatMap Call.storage) := by
  rw [State.owned, split, List.flatMap_append, List.flatMap_cons]

variable (secure : Secure host handOver st) (split : st.calls = before ++ c :: after)
  (free : ∀ r ∈ fresh, ∀ s ∈ st.live, Apart s r)
include secure split

theorem Secure.separate (flying : c.phase.inFlight = true) : Separate c := by
  have apart := secure.apart
  rw [owned_eq split] at apart
  obtain ⟨_, rest, _⟩ := List.pairwise_append.mp apart
  exact separate_of_pairwise flying (List.pairwise_append.mp rest).1

/-- The other calls own nothing of a call's storage. -/
theorem Secure.apart_call {r t : Region} (other : d ∈ before ++ after) (owned : r ∈ d.storage)
    (mine : t ∈ c.storage) : Apart r t := by
  have apart := secure.apart
  rw [owned_eq split] at apart
  exact apart_others apart (other_storage other owned) mine

include free

/-- What a call hands on, no call owns any more, and what other code was given before, no
call has got. -/
theorem Secure.given_moved {r t : Region} (advances : Advances host memory memory' c c' fresh)
    (listed : d ∈ before ++ c' :: after) (owned : r ∈ d.storage) (there : t ∈ st.given ++ c'.handedOn) :
    Apart r t := by
  have member : c ∈ st.calls := split ▸ List.mem_append_right _ List.mem_cons_self
  rcases List.mem_append.mp there with old | handed
  · rcases exchanged_cases listed with rfl | other
    · rcases List.mem_append.mp (advances.storage.subset owned) with mine | new
      · exact secure.given r (owned_mem member mine) t old
      · exact (free r new t (List.mem_append_right _ old)).symm
    · exact secure.given r (owned_mem (split ▸ other_listed other) owned) t old
  · obtain ⟨mine, finished⟩ := advances.handed t handed
    rcases exchanged_cases listed with rfl | other
    · rw [finished] at owned
      cases owned
    · exact secure.apart_call split other owned mine

/-- One call goes on: the other calls keep what they own and what it holds. -/
theorem secure_exchange (news : fresh.Pairwise Apart)
    (advances : Advances host st.memory memory' c c' fresh) :
    Secure host handOver ⟨memory', before ++ c' :: after, st.given ++ c'.handedOn⟩ := by
  have member : c ∈ st.calls := split ▸ List.mem_append_right _ List.mem_cons_self
  have others : ∀ d ∈ before ++ after, d ∈ st.calls := fun d other => split ▸ other_listed other
  refine ⟨?_, ?_, ?_, ?_, ?_, ?_⟩
  · have apart := secure.apart
    rw [owned_eq split] at apart
    rw [State.owned, List.flatMap_append, List.flatMap_cons]
    apply pairwise_replace apart news _ advances.storage
    intro r inside s new
    rw [← owned_eq split] at inside
    exact free s new r (List.mem_append_left _ inside)
  · intro r inside t there
    obtain ⟨d, listed, owned⟩ := List.mem_flatMap.mp inside
    exact secure.given_moved split free advances listed owned there
  · intro d listed
    rcases exchanged_cases listed with rfl | other
    · rw [advances.signature]
      exact secure.contained c member
    · exact secure.contained d (others d other)
  · intro d listed
    rcases exchanged_cases listed with rfl | other
    · rw [advances.signature]
      exact secure.faithful c member
    · exact secure.faithful d (others d other)
  · intro d listed flying
    rcases exchanged_cases listed with rfl | other
    · exact advances.held flying
    · apply (secure.held d (others d other) flying).frame flying
      intro r owned
      apply advances.frame r
      intro t there
      rcases List.mem_append.mp there with mine | new
      · exact secure.apart_call split other owned mine
      · exact free t new r (List.mem_append_left _ (owned_mem (others d other) owned))
  · intro d listed
    rcases exchanged_cases listed with rfl | other
    · exact advances.undisturbed
    · exact secure.isolated d (others d other)

end

theorem secure_move {call : Nat} {move : Move} (secure : Secure host handOver st)
    (permitted : Permitted st (.move call move)) (next : step host handOver st (.move call move) = some st') :
    Secure host handOver st' := by
  rw [step] at next
  split at next
  · cases next
  · next c found =>
    split at next
    · cases next
    · next memory' c' moved =>
      cases next
      obtain ⟨before, after, split, replaced⟩ := split_at found
      have member : c ∈ st.calls := List.mem_of_getElem? found
      have free := permitted c found
      have unowned : ∀ r ∈ move.fresh c, ∀ s ∈ c.storage, Apart s r := by
        intro r new s mine
        exact free r new s (List.mem_append_left _ (owned_mem member mine))
      have advances : Advances host st.memory memory' c c' (move.fresh c) :=
        advances_of_advance (secure.held c member) (secure.separate split) (secure.contained c member)
          (secure.faithful c member) (secure.isolated c member) unowned moved
      rw [replaced]
      exact secure_exchange secure split free (fresh_pairwise move c) advances

/-- Other code changes the memory, or what it has pointers to. -/
theorem secure_other {memory : Contents Cell} {given : List Region} (secure : Secure host handOver st)
    (agree : ∀ r ∈ st.owned, Agree r st.memory memory)
    (apart : ∀ r ∈ st.owned, ∀ s ∈ given, Apart r s) : Secure host handOver { st with memory, given } where
  apart := secure.apart
  given := apart
  contained := secure.contained
  faithful := secure.faithful
  held := fun c member flying =>
    (secure.held c member flying).frame flying fun r mine => agree r (owned_mem member mine)
  isolated := secure.isolated

/-- Every permitted step leaves the storage of each call to the call. -/
theorem secure_step {event : Event m} (secure : Secure host handOver st) (permitted : Permitted st event)
    (contained : event.Contained) (faithful : event.Faithful handOver)
    (next : step host handOver st event = some st') : Secure host handOver st' := by
  cases event with
  | call s arguments result argsList => exact secure_call secure contained faithful permitted next
  | move call move => exact secure_move secure permitted next
  | obtain r =>
    cases next
    apply secure_other secure (fun r _ => agree_refl r _)
    intro s inside t there
    rcases List.mem_append.mp there with old | new
    · exact secure.given s inside t old
    · cases List.mem_singleton.mp new
      exact permitted s inside
  | release r =>
    cases next
    apply secure_other secure (fun r _ => agree_refl r _)
    intro s inside t there
    exact secure.given s inside t (List.mem_of_mem_erase there)
  | write p cells =>
    cases next
    obtain ⟨r, there, inside⟩ := permitted
    refine secure_other secure (fun s owned => ?_) secure.given
    exact agree_into inside (secure.given s owned r there)

/-- **Calls in flight do not interfere**, whatever is called, in whatever order the calls go
on, return and are completed, as long as all use their buffers and libffi hands their
arguments over as they are. -/
theorem isolated_of_contained (host : Host) (handOver : HandOver m) {start st : State m} (fresh : start.calls = [])
    (reached : Reaches (step host handOver)
      (fun st event => Permitted st event ∧ event.Contained ∧ event.Faithful handOver) start st) :
    Isolated host st := by
  have initially : Secure host handOver start := by
    refine ⟨?_, ?_, ?_, ?_, ?_, ?_⟩ <;> simp [State.owned, Isolated, fresh]
  refine (reached.invariant (Secure host handOver) initially fun s event t secure allowed next => ?_).isolated
  exact secure_step secure allowed.1 allowed.2.1 allowed.2.2 next

/-- A function uses its buffers where libffi and `ref` agree on its argument types
and the result buffer is large enough. -/
theorem contained_of_agrees (supported : Supported m) (returnable : Returnable m s.returnType)
    (fits : ¬ (Widened m s.returnType ∧ m.long.bytes ≤ s.returnType.size m ∧
      s.returnType.size m < m.ffiArg.bytes))
    (agrees : ∀ argType ∈ s.argTypes, LayoutAgrees m argType) : Contained s := by
  obtain ⟨ready, readyArgs⟩ := prepCif_eq_some s.prepared
  obtain ⟨stores, decodes⟩ := (result_fits_iff supported returnable).mpr fits s.cif.rtype ready
  refine ⟨?_, stores, decodes⟩
  refine (List.forall₂_iff_get.mpr ⟨readyArgs.length_eq.symm, fun k inside inside' => ?_⟩)
  obtain ⟨ft, initialised, size, _⟩ := agrees _ (List.get_mem s.argTypes ⟨k, inside'⟩)
  have same := (readyArgs.get inside' inside).symm.trans initialised
  rw [Option.some.inj same, size, derefReads_eq]

/-! ## Two calls at once -/

/-- `int ()`. -/
def intFunction (m : DataModel) : Signature m where
  returnType := .scalar (.named .int)
  argTypes := []
  cif := ⟨(CType.int true .w32).ffiType m, []⟩
  prepared := by
    have ready : initialized (ffiType m (.scalar (.named .int))) = some ((CType.int true .w32).ffiType m) :=
      initialized_ctype _
    rw [prepCif, ready]
    rfl

/-- `int (int)`. -/
def unaryFunction : Signature lp64 where
  returnType := .scalar (.named .int)
  argTypes := [.scalar (.named .int)]
  cif := (prepCif lp64 (.scalar (.named .int)) [.scalar (.named .int)]).get (by decide)
  prepared := (Option.some_get _).symm

/-- `int (struct rows)`, for which libffi reads a struct of two pointers. -/
def rowsFunction : Signature lp64 where
  returnType := .scalar (.named .int)
  argTypes := [rows]
  cif := (prepCif lp64 (.scalar (.named .int)) [rows]).get (by decide)
  prepared := (Option.some_get _).symm

/-- `ref.types.int`, as far as reading goes; what is set is in every byte. -/
def intHost : Host := { exampleHost with
  set := fun _ cells val => (cells.map fun _ => .byte (if val = .undefined then 0 else 1), .ok ())
  get := fun _ cells => .ok (.number (bitsOf cells))
  set_length := by simp }

/-- Nothing has been allocated. -/
def State.initial (m : DataModel) : State m := ⟨fun _ => .byte 0, [], []⟩

def fourBytes (low : BitVec 8) : List Cell := [.byte low, .byte 0, .byte 0, .byte 0]

/-- Two calls of the first function, with the second result buffer right behind the first.
The second returns five, and is read after the first has returned seven. -/
def twoCalls (m : DataModel) : List (Event m) :=
  [.call (intFunction m) [] ⟨0, 0⟩ ⟨1, 0⟩,
    .call (intFunction m) [] ⟨0, resultSize m (.scalar (.named .int))⟩ ⟨1, 0⟩,
    .move 0 .invoke, .move 1 .invoke, .move 0 .enter, .move 1 .enter,
    .move 1 (.leave (fourBytes 5)), .move 0 (.leave (fourBytes 7)), .move 1 .decode, .move 0 .decode]

/-- Two calls that take turns at every step. -/
def interleavedCalls : List (Event lp64) :=
  [.call unaryFunction [.undefined] ⟨0, 0⟩ ⟨1, 0⟩, .call unaryFunction [.null] ⟨0, 8⟩ ⟨1, 8⟩,
    .move 0 (.alloc ⟨2, 0⟩), .move 1 (.alloc ⟨2, 4⟩), .move 1 .set, .move 0 .set,
    .move 0 .writePointer, .move 1 .writePointer, .move 0 .invoke, .move 1 .invoke,
    .move 1 .enter, .move 0 .enter, .move 1 (.leave (fourBytes 5)), .move 0 (.leave (fourBytes 7)),
    .move 1 .decode, .move 0 .decode]

/-- A call of the second function, with the result of one of the first right behind the
struct. -/
def rowsCall : List (Event lp64) :=
  [.call (intFunction lp64) [] ⟨0, 6⟩ ⟨1, 0⟩, .move 0 .invoke, .move 0 .enter,
    .move 0 (.leave (fourBytes 7)), .call rowsFunction [.undefined] ⟨2, 0⟩ ⟨3, 0⟩,
    .move 1 (.alloc ⟨0, 0⟩), .move 1 .set, .move 1 .writePointer, .move 1 .invoke, .move 1 .enter]

/-- On 64-bit Linux the calls that take turns do not interfere. -/
theorem two_calls_isolated : ∃ st,
    Reaches (step intHost whole) (fun st event => Permitted st event ∧ event.Contained ∧ event.Faithful whole)
      (State.initial lp64) st ∧
      st.calls.length = 2 ∧ (∀ c ∈ st.calls, c.phase.inFlight = false) ∧ Isolated intHost st := by
  obtain ⟨st, reached, found⟩ := exists_reaches (step intHost whole)
    (fun st event => Permitted st event ∧ event.Contained) (State.initial lp64) interleavedCalls
    (fun st => st.calls.length = 2 ∧ ∀ c ∈ st.calls, c.phase.inFlight = false) (by decide)
  obtain ⟨both, ended⟩ := of_decide_eq_true found
  have allowed : Reaches (step intHost whole)
      (fun st event => Permitted st event ∧ event.Contained ∧ event.Faithful whole) (State.initial lp64) st :=
    reached.mono fun _ event ⟨permitted, contained⟩ => ⟨permitted, contained, event_faithful event⟩
  exact ⟨st, allowed, both, ended, isolated_of_contained intHost whole rfl allowed⟩

/-- On 64-bit Windows the first result overwrites the second, and on Linux the struct is
passed with the other call's result behind it. -/
theorem calls_interfere :
    (∃ st, Reaches (step intHost whole) Permitted (State.initial llp64) st ∧ ¬ Isolated intHost st) ∧
      ∃ st, Reaches (step intHost whole) Permitted (State.initial lp64) st ∧ ¬ Isolated intHost st := by
  constructor
  · obtain ⟨st, reached, found⟩ := exists_reaches (step intHost whole) Permitted (State.initial llp64)
      (twoCalls llp64) (fun st => !decide (Isolated intHost st)) (by decide)
    exact ⟨st, reached, by simpa using found⟩
  · obtain ⟨st, reached, found⟩ := exists_reaches (step intHost whole) Permitted (State.initial lp64)
      rowsCall (fun st => !decide (Isolated intHost st)) (by decide)
    exact ⟨st, reached, by simpa using found⟩

end NodeFfi.CallsInFlight
