import NodeFfi.CallsInFlight
import NodeFfi.AsyncSteps

/-! One call: what it owns from its first `Buffer` to its result, what its buffers hold, and
what each of its moves does to both. -/
namespace NodeFfi.CallsInFlight
open BlockMemory RegionMemory

variable {m : DataModel} {host : Host} {handOver : HandOver m} {memory memory' : Contents Cell} {c c' : Call m}
  {s : Signature m}
  {p : Pointer} {parameter : RefType × JsVal} {k : Nat}

/-! ## What a call owns -/

theorem storage_flying (flying : c.phase.inFlight = true) : c.storage = c.resultRegion :: c.argsRegion ::
    List.zipWith (Call.valueRegion m) (c.values ++ c.phase.valPtr) c.parameters :=
  if_pos flying

theorem result_mem (flying : c.phase.inFlight = true) : c.resultRegion ∈ c.storage := by
  rw [storage_flying flying]
  exact List.mem_cons_self

/-- The buffer of the `k`th argument, the one that is being stored included. -/
structure Call.HasBuffer (c : Call m) (k : Nat) (p : Pointer) (parameter : RefType × JsVal) : Prop where
  found : (c.values ++ c.phase.valPtr)[k]? = some p
  declared : c.parameters[k]? = some parameter

theorem Call.HasBuffer.region (buffer : c.HasBuffer k p parameter) :
    (List.zipWith (Call.valueRegion m) (c.values ++ c.phase.valPtr) c.parameters)[k]? =
      some (Call.valueRegion m p parameter) := by
  rw [List.getElem?_zipWith, buffer.found, buffer.declared]

theorem Call.HasBuffer.mem_storage (buffer : c.HasBuffer k p parameter) (flying : c.phase.inFlight = true) :
    Call.valueRegion m p parameter ∈ c.storage := by
  rw [storage_flying flying]
  exact List.mem_cons_of_mem _ (List.mem_cons_of_mem _ (List.mem_of_getElem? buffer.region))

theorem hasBuffer_stored (found : c.values[k]? = some p) (declared : c.parameters[k]? = some parameter) :
    c.HasBuffer k p parameter := by
  refine ⟨?_, declared⟩
  rw [List.getElem?_append_left (List.getElem?_eq_some_iff.mp found).1, found]

theorem hasBuffer_current (current : c.phase.valPtr = [p]) (next : c.next = some parameter) :
    c.HasBuffer c.values.length p parameter :=
  ⟨by simp [current], next⟩

/-- The buffers of a call are apart from one another. -/
structure Separate (c : Call m) : Prop where
  result_args : Apart c.resultRegion c.argsRegion
  result_value : ∀ k p parameter, c.HasBuffer k p parameter →
    Apart c.resultRegion (Call.valueRegion m p parameter)
  args_value : ∀ k p parameter, c.HasBuffer k p parameter →
    Apart c.argsRegion (Call.valueRegion m p parameter)
  value_value : ∀ j k p q parameter other, c.HasBuffer j p parameter → c.HasBuffer k q other → j < k →
    Apart (Call.valueRegion m p parameter) (Call.valueRegion m q other)

theorem separate_of_pairwise (flying : c.phase.inFlight = true) (apart : c.storage.Pairwise Apart) :
    Separate c := by
  rw [storage_flying flying, List.pairwise_cons, List.pairwise_cons] at apart
  obtain ⟨result, args, values⟩ := apart
  refine ⟨?_, ?_, ?_, ?_⟩
  · exact result _ List.mem_cons_self
  · exact fun k p parameter buffer =>
      result _ (List.mem_cons_of_mem _ (List.mem_of_getElem? buffer.region))
  · exact fun k p parameter buffer => args _ (List.mem_of_getElem? buffer.region)
  · intro j k p q parameter other buffer buffer' less
    obtain ⟨inside, here⟩ := List.getElem?_eq_some_iff.mp buffer.region
    obtain ⟨inside', here'⟩ := List.getElem?_eq_some_iff.mp buffer'.region
    rw [← here, ← here']
    exact List.pairwise_iff_getElem.mp values j k inside inside' less

/-! ## What the buffers hold -/

/-- The buffer of the next argument. -/
def CurrentHeld (host : Host) (memory : Contents Cell) (c : Call m) (parameter : RefType × JsVal) : Prop :=
  match c.phase with
  | .allocated valPtr => peek memory valPtr (derefReads m parameter.1) = zeros (derefReads m parameter.1)
  | .set valPtr => peek memory valPtr (derefReads m parameter.1) = (stored m host parameter.1 parameter.2).1
  | _ => True

/-- The result buffer: zeros beyond what `ffi_call` stores, and then what it has stored. -/
def ResultHeld (memory : Contents Cell) (c : Call m) : Prop :=
  let cells := peek memory c.result (resultSize m c.signature.returnType)
  let stores := ffiCallStores m c.signature.cif.rtype
  cells.drop stores = zeros (resultSize m c.signature.returnType - stores) ∧
    match c.phase with
    | .returned _ value => value.length = returnWidth c.signature.cif.rtype ∧
        cells.take stores = returned m c.signature.cif.rtype value
    | _ => True

structure Held (host : Host) (memory : Contents Cell) (c : Call m) : Prop where
  arity : c.arguments.length = c.signature.argTypes.length
  values : ∀ (k : Nat) (p : Pointer) (parameter : RefType × JsVal), c.values[k]? = some p →
    c.parameters[k]? = some parameter →
    peek memory p (derefReads m parameter.1) = (stored m host parameter.1 parameter.2).1
  entries : ∀ (k : Nat) (p : Pointer), c.values[k]? = some p →
    peek memory (c.argsList.shift (k * m.pointer.bytes)) m.pointer.bytes = pointerCells m p
  few : (c.values ++ c.phase.valPtr).length ≤ c.signature.argTypes.length
  current : ∀ parameter, c.next = some parameter → CurrentHeld host memory c parameter
  ready : c.phase = .invoked → c.values.length = c.signature.argTypes.length
  result : ResultHeld memory c

theorem parameters_length (arity : c.arguments.length = c.signature.argTypes.length) :
    c.parameters.length = c.signature.argTypes.length := by
  rw [Call.parameters, List.length_zip, arity, Nat.min_self]

/-- An entry of the array is inside it. -/
theorem entry_within (inside : k < c.signature.argTypes.length) :
    (⟨c.argsList.shift (k * m.pointer.bytes), m.pointer.bytes⟩ : Region).Within c.argsRegion := by
  apply within_shift
  rw [← Nat.succ_mul]
  exact Nat.mul_le_mul_right _ inside

section
variable (held : Held host memory c)
include held

theorem Held.values_kept (agree : ∀ k p parameter, c.HasBuffer k p parameter → k < c.values.length →
      Agree (Call.valueRegion m p parameter) memory memory')
    (found : c.values[k]? = some p) (declared : c.parameters[k]? = some parameter) :
    peek memory' p (derefReads m parameter.1) = (stored m host parameter.1 parameter.2).1 := by
  have inside := (List.getElem?_eq_some_iff.mp found).1
  rw [peek_congr (agree k p parameter (hasBuffer_stored found declared) inside)]
  exact held.values k p parameter found declared

theorem Held.entries_kept (agree : Agree c.argsRegion memory memory') (found : c.values[k]? = some p) :
    peek memory' (c.argsList.shift (k * m.pointer.bytes)) m.pointer.bytes = pointerCells m p := by
  have inside := (List.getElem?_eq_some_iff.mp found).1
  have few := held.few
  rw [List.length_append] at few
  rw [peek_congr (agree.within (entry_within (by omega)))]
  exact held.entries k p found

theorem Held.result_kept (agree : Agree c.resultRegion memory memory') : ResultHeld memory' c := by
  have same : peek memory' c.result (resultSize m c.signature.returnType) =
      peek memory c.result (resultSize m c.signature.returnType) := peek_congr agree
  have before := held.result
  rw [ResultHeld] at before ⊢
  rwa [same]

/-- What the buffers hold is not changed from outside. -/
theorem Held.frame (flying : c.phase.inFlight = true) (agree : ∀ r ∈ c.storage, Agree r memory memory') :
    Held host memory' c := by
  rw [storage_flying flying, List.forall_mem_cons, List.forall_mem_cons] at agree
  obtain ⟨result, args, values⟩ := agree
  have value : ∀ k p parameter, c.HasBuffer k p parameter →
      Agree (Call.valueRegion m p parameter) memory memory' :=
    fun k p parameter buffer => values _ (List.mem_of_getElem? buffer.region)
  refine { held with values := ?_, entries := ?_, current := ?_, result := held.result_kept result }
  · exact fun k p parameter => held.values_kept fun k p parameter buffer _ => value k p parameter buffer
  · exact fun k p => held.entries_kept args
  · intro parameter next
    have before := held.current parameter next
    unfold CurrentHeld at before ⊢
    cases phase : c.phase with
    | allocated valPtr | set valPtr =>
      rw [phase] at before
      dsimp only at before ⊢
      rw [peek_congr (value _ valPtr parameter (hasBuffer_current (by rw [phase]; rfl) next))]
      exact before
    | _ => trivial

end

/-! ## What a call does -/

/-- A move of one call: it writes to nothing but its own buffers and what it allocates, and
they hold what they should. -/
structure Advances (host : Host) (memory memory' : Contents Cell) (c c' : Call m) (fresh : List Region) :
    Prop where
  signature : c'.signature = c.signature
  frame : ∀ s, (∀ r ∈ c.storage ++ fresh, Apart s r) → Agree s memory memory'
  storage : c'.storage.Sublist (c.storage ++ fresh)
  handed : ∀ r ∈ c'.handedOn, r ∈ c.storage ∧ c'.storage = []
  held : c'.phase.inFlight = true → Held host memory' c'
  undisturbed : c'.Undisturbed host

theorem agree_refl (r : Region) (memory : Contents Cell) : Agree r memory memory := fun _ _ => rfl

theorem zeros_length (count : Nat) : (zeros count).length = count := List.length_replicate

theorem zipWith_concat {α β γ : Type} (f : α → β → γ) {as : List α} {bs : List β} {b : β} (a : α)
    (here : bs[as.length]? = some b) :
    List.zipWith f (as ++ [a]) bs = List.zipWith f as bs ++ [f a b] := by
  induction as generalizing bs with
  | nil =>
    cases bs with
    | nil => cases here
    | cons first rest =>
      cases here
      simp
  | cons first rest further =>
    cases bs with
    | nil => cases here
    | cons other others =>
      rw [List.cons_append, List.zipWith_cons_cons, List.zipWith_cons_cons, List.cons_append]
      rw [further here]

/-- An element of a list that has grown by one. -/
theorem concat_cases {α : Type} {as : List α} {a b : α} (found : (as ++ [a])[k]? = some b) :
    as[k]? = some b ∨ k = as.length ∧ b = a := by
  by_cases old : k < as.length
  · rw [List.getElem?_append_left old] at found
    exact .inl found
  · obtain ⟨inside, here⟩ := List.getElem?_eq_some_iff.mp found
    rw [List.length_append, List.length_singleton] at inside
    obtain rfl : k = as.length := by omega
    rw [List.getElem_concat_length rfl] at here
    exact .inr ⟨rfl, here.symm⟩

theorem gather_eq {argsList : Pointer} {i : Nat} {atypes : List (FfiType m.sizeBits)}
    {received : List (List Cell)} (long : received.length = atypes.length)
    (each : ∀ (k : Nat) (atype : FfiType m.sizeBits) (cells : List Cell), atypes[k]? = some atype →
      received[k]? = some cells → ∃ entry,
        peek memory (argsList.shift ((i + k) * m.pointer.bytes)) m.pointer.bytes = pointerCells m entry ∧
          peek memory entry atype.size.toNat = cells) :
    gather memory argsList i atypes = some received := by
  induction atypes generalizing i received with
  | nil =>
    cases received with
    | nil => rfl
    | cons => cases long
  | cons atype rest further =>
    cases received with
    | nil => cases long
    | cons cells others =>
      obtain ⟨entry, address, bytes⟩ := each 0 atype cells rfl rfl
      have onward : gather memory argsList (i + 1) rest = some others := by
        apply further (Nat.succ.inj long)
        intro k atype cells found here
        rw [Nat.add_right_comm, Nat.add_assoc]
        exact each (k + 1) atype cells found here
      rw [Nat.add_zero] at address
      rw [gather, address, decodePointer_pointerCells, onward, ← bytes]
      rfl

theorem Contained.reads_at {atype : FfiType m.sizeBits} {argType : RefType} (contained : Contained s)
    (found : s.cif.atypes[k]? = some atype) (declared : s.argTypes[k]? = some argType) :
    atype.size.toNat = derefReads m argType := by
  obtain ⟨inside, rfl⟩ := List.getElem?_eq_some_iff.mp found
  obtain ⟨inside', rfl⟩ := List.getElem?_eq_some_iff.mp declared
  exact contained.reads.get inside inside'

theorem returnWidth_le (rtype : FfiType m.sizeBits) : returnWidth rtype ≤ ffiCallStores m rtype := by
  have width := zeros_length (returnWidth rtype)
  have long := returned_length (m := m) rtype width
  have kept := congrArg List.length (returned_take (m := m) rtype (zeros (returnWidth rtype)))
  rw [List.length_take] at kept
  omega

section
variable (held : Held host memory c) {argType : RefType} {val : JsVal} {valPtr : Pointer}

/-- A write into some storage leaves all that is apart from it. -/
theorem agree_into {r s : Region} {cells : List Cell} (inside : (⟨p, cells.length⟩ : Region).Within s)
    (apart : Apart r s) : Agree r memory (poke memory p cells) :=
  agree_poke (apart.within inside)

theorem value_within {cells : List Cell} (long : cells.length = derefReads m argType) :
    (⟨valPtr, cells.length⟩ : Region).Within (Call.valueRegion m valPtr (argType, val)) :=
  within_front (Nat.le_of_eq long)

theorem stored_within : (⟨valPtr, (stored m host argType val).1.length⟩ : Region).Within
    (Call.valueRegion m valPtr (argType, val)) :=
  value_within (stored_length argType val)

/-- What a value that is refused leaves behind. -/
theorem advances_threw {e : JsVal} (phase : c.phase = .allocated valPtr)
    (next : c.next = some (argType, val)) :
    Advances host memory (poke memory valPtr (stored m host argType val).1) c
      { c with phase := .threw e } [] := by
  have flying : c.phase.inFlight = true := by rw [phase]; rfl
  have buffer := hasBuffer_current (by rw [phase]; rfl) next
  refine ⟨rfl, ?_, List.nil_sublist _, nofun, nofun, trivial⟩
  exact fun s apart => agree_into stored_within
    (apart _ (List.mem_append_left _ (buffer.mem_storage flying)))

include held

theorem advances_alloc (phase : c.phase = .storing) (next : c.next = some (argType, val))
    (apart : ∀ r ∈ c.storage, Apart r (Call.valueRegion m valPtr (argType, val))) :
    Advances host memory (poke memory valPtr (zeros (derefReads m argType))) c
      { c with phase := .allocated valPtr } [Call.valueRegion m valPtr (argType, val)] := by
  have flying : c.phase.inFlight = true := by rw [phase]; rfl
  have inside : (⟨valPtr, (zeros (derefReads m argType)).length⟩ : Region).Within
      (Call.valueRegion m valPtr (argType, val)) := value_within (zeros_length _)
  have after : Held host (poke memory valPtr (zeros (derefReads m argType))) c :=
    held.frame flying fun r member => agree_into inside (apart r member)
  refine ⟨rfl, ?_, ?_, nofun, fun _ => ?_, trivial⟩
  · exact fun s apart => agree_into inside (apart _ (List.mem_append_right _ List.mem_cons_self))
  · have idle : c.phase.valPtr = [] := by rw [phase]; rfl
    have longer : List.zipWith (Call.valueRegion m) (c.values ++ [valPtr]) c.parameters =
        List.zipWith (Call.valueRegion m) (c.values ++ c.phase.valPtr) c.parameters ++
          [Call.valueRegion m valPtr (argType, val)] := by
      rw [zipWith_concat _ valPtr next, idle, List.append_nil]
    rw [storage_flying flying]
    exact .cons_cons _ (.cons_cons _ (longer ▸ .refl _))
  · refine { after with few := ?_, current := ?_, ready := nofun, result := ⟨after.result.1, trivial⟩ }
    · have inside := (List.getElem?_eq_some_iff.mp next).1
      rw [parameters_length held.arity] at inside
      simp only [Phase.valPtr, List.length_append, List.length_singleton]
      omega
    · intro parameter next'
      cases next.symm.trans next'
      have filled := peek_poke memory valPtr (zeros (derefReads m argType))
      rwa [zeros_length] at filled

/-- `type.set` finds the zeros of a fresh buffer. -/
theorem set_stored (phase : c.phase = .allocated valPtr) (next : c.next = some (argType, val)) :
    host.set argType (peek memory valPtr (derefReads m argType)) val = stored m host argType val := by
  have current := held.current _ next
  rw [CurrentHeld, phase] at current
  rw [current]
  rfl

theorem advances_set (separate : Separate c) (phase : c.phase = .allocated valPtr)
    (next : c.next = some (argType, val)) :
    Advances host memory (poke memory valPtr (stored m host argType val).1) c
      { c with phase := .set valPtr } [] := by
  have flying : c.phase.inFlight = true := by rw [phase]; rfl
  have current : c.phase.valPtr = [valPtr] := by rw [phase]; rfl
  have buffer := hasBuffer_current current next
  refine ⟨rfl, ?_, ?_, nofun, fun _ => ?_, trivial⟩
  · exact fun s apart => agree_into stored_within
      (apart _ (List.mem_append_left _ (buffer.mem_storage flying)))
  · rw [storage_flying flying, current, List.append_nil]
    exact .refl _
  · refine ⟨held.arity, ?_, ?_, ?_, ?_, nofun, ?_⟩
    · exact fun k p parameter => held.values_kept fun k p parameter other less =>
        agree_into stored_within (separate.value_value _ _ _ _ _ _ other buffer less)
    · exact fun k p => held.entries_kept (agree_into stored_within (separate.args_value _ _ _ buffer))
    · have few := held.few
      rwa [current] at few
    · intro parameter next'
      cases next.symm.trans next'
      have filled := peek_poke memory valPtr (stored m host argType val).1
      rwa [stored_length] at filled
    · exact ⟨(held.result_kept (agree_into stored_within (separate.result_value _ _ _ buffer))).1, trivial⟩

/-- A call that goes on without writing, and is not at a value. -/
theorem advances_still {phase' : Phase} (flying : c.phase.inFlight = true) (idle : c.phase.valPtr = [])
    (flying' : phase'.inFlight = true) (idle' : phase'.valPtr = [])
    (ready : phase' = .invoked → c.values.length = c.signature.argTypes.length)
    (early : ∀ received cells, phase' ≠ .returned received cells)
    (undisturbed : Call.Undisturbed host { c with phase := phase' }) :
    Advances host memory memory c { c with phase := phase' } [] := by
  refine ⟨rfl, fun s _ => agree_refl s memory, ?_, ?_, fun _ => ?_, undisturbed⟩
  · rw [storage_flying flying, storage_flying flying', idle, List.append_nil]
    dsimp only
    rw [idle']
    exact .refl _
  · intro r handed
    cases phase' with
    | decoded => cases flying'
    | _ => cases handed
  · refine { held with few := ?_, current := ?_, ready := ready, result := ⟨held.result.1, ?_⟩ }
    · have few := held.few
      rw [idle] at few
      dsimp only
      rwa [idle']
    · intro parameter _
      cases phase' with
      | allocated | set => cases idle'
      | _ => trivial
    · cases phase' with
      | returned => exact absurd rfl (early _ _)
      | _ => trivial

theorem advances_writePointer (separate : Separate c) (phase : c.phase = .set valPtr) :
    Advances host memory
      (poke memory (c.argsList.shift (c.values.length * m.pointer.bytes)) (pointerCells m valPtr)) c
      { c with values := c.values ++ [valPtr], phase := .storing } [] := by
  have flying : c.phase.inFlight = true := by rw [phase]; rfl
  have current : c.phase.valPtr = [valPtr] := by rw [phase]; rfl
  have few := held.few
  rw [current, List.length_append, List.length_singleton] at few
  obtain ⟨parameter, next⟩ : ∃ parameter, c.next = some parameter := by
    refine ⟨_, List.getElem?_eq_getElem ?_⟩
    rw [parameters_length held.arity]
    omega
  have buffer := hasBuffer_current current next
  have inside : (⟨c.argsList.shift (c.values.length * m.pointer.bytes), (pointerCells m valPtr).length⟩ :
      Region).Within c.argsRegion := by
    rw [pointerCells_length]
    exact entry_within (by omega)
  have written : ∀ k p parameter, c.HasBuffer k p parameter → Agree (Call.valueRegion m p parameter) memory
      (poke memory (c.argsList.shift (c.values.length * m.pointer.bytes)) (pointerCells m valPtr)) :=
    fun k p parameter other => agree_into inside (separate.args_value k p parameter other).symm
  refine ⟨rfl, ?_, ?_, nofun, fun _ => ?_, trivial⟩
  · refine fun s apart => agree_into inside (apart _ (List.mem_append_left _ ?_))
    rw [storage_flying flying]
    exact List.mem_cons_of_mem _ List.mem_cons_self
  · rw [storage_flying flying, storage_flying rfl, current, List.append_nil]
    simp only [Phase.valPtr, List.append_nil]
    exact .refl _
  · refine ⟨held.arity, ?_, ?_, ?_, fun _ _ => trivial, nofun, ?_⟩
    · intro k p parameter' found declared
      rw [peek_congr (written k p parameter' ⟨by rw [current]; exact found, declared⟩)]
      rcases concat_cases found with old | ⟨rfl, rfl⟩
      · exact held.values k p parameter' old declared
      · have set := held.current parameter' declared
        rwa [CurrentHeld, phase] at set
    · intro k p found
      rcases concat_cases found with old | ⟨rfl, rfl⟩
      · rw [← held.entries k p old]
        refine peek_congr (agree_poke (apart_iff.mpr ?_))
        have earlier := (List.getElem?_eq_some_iff.mp old).1
        have ends : (k + 1) * m.pointer.bytes ≤ c.values.length * m.pointer.bytes :=
          Nat.mul_le_mul_right _ earlier
        rw [Nat.succ_mul] at ends
        simp only [Pointer.shift]
        omega
      · have filled := peek_poke memory (c.argsList.shift (c.values.length * m.pointer.bytes))
          (pointerCells m p)
        rwa [pointerCells_length] at filled
    · simpa [Phase.valPtr] using few
    · exact ⟨(held.result_kept (agree_into inside separate.result_args)).1, trivial⟩

/-- What is read through the array is what was stored. -/
theorem gather_encoded (contained : Contained c.signature) (phase : c.phase = .invoked) :
    gather memory c.argsList 0 c.signature.cif.atypes = some (c.encoded host) := by
  have ready := held.ready phase
  have arity := parameters_length held.arity
  refine gather_eq ?_ fun k atype cells found here => ?_
  · rw [Call.encoded, List.length_map, arity, readyArgs c.signature]
  · rw [Call.encoded, List.getElem?_map] at here
    obtain ⟨parameter, declared, rfl⟩ := Option.map_eq_some_iff.mp here
    have inside := (List.getElem?_eq_some_iff.mp declared).1
    obtain ⟨p, stored⟩ : ∃ p, c.values[k]? = some p :=
      ⟨_, List.getElem?_eq_getElem (by omega)⟩
    refine ⟨p, ?_, ?_⟩
    · rw [Nat.zero_add]
      exact held.entries k p stored
    · rw [contained.reads_at found (List.getElem?_zip_eq_some.mp declared).1]
      exact held.values k p parameter stored declared

/-- Each argument has the size of its type. -/
theorem encoded_sizes (contained : Contained c.signature) :
    List.Forall₂ (fun atype cells => cells.length = atype.size.toNat) c.signature.cif.atypes (c.encoded host) := by
  have arity := parameters_length held.arity
  refine List.forall₂_iff_get.mpr ⟨?_, fun k inside inside' => ?_⟩
  · rw [Call.encoded, List.length_map, arity, readyArgs c.signature]
  · have long : k < c.parameters.length := by rwa [Call.encoded, List.length_map] at inside'
    have declared : c.parameters[k]? = some c.parameters[k] := List.getElem?_eq_getElem long
    have same := contained.reads_at (List.getElem?_eq_getElem inside) (List.getElem?_zip_eq_some.mp declared).1
    simp only [Call.encoded, List.get_eq_getElem, List.getElem_map]
    rw [stored_length, same]

theorem advances_enter (contained : Contained c.signature) (faithful : Faithful handOver c.signature)
    (phase : c.phase = .invoked) {sent received : List (List Cell)}
    (gathered : gather memory c.argsList 0 c.signature.cif.atypes = some sent)
    (handed : handOver c.signature.cif c.result sent = some received) :
    Advances host memory memory c { c with phase := .entered received } [] := by
  rw [gather_encoded held contained phase] at gathered
  cases gathered
  rw [faithful c.result _ (encoded_sizes held contained)] at handed
  cases handed
  exact advances_still held (by rw [phase]; rfl) (by rw [phase]; rfl) rfl rfl nofun nofun rfl

/-- Where a struct is returned, its native function may write before it returns. -/
theorem advances_fill (separate : Separate c) (contained : Contained c.signature)
    {received : List (List Cell)} (phase : c.phase = .entered received) (undisturbed : c.Undisturbed host)
    {cells : List Cell} (short : cells.length ≤ returnWidth c.signature.cif.rtype) :
    Advances host memory (poke memory c.result cells) c c [] := by
  have flying : c.phase.inFlight = true := by rw [phase]; rfl
  have idle : c.phase.valPtr = [] := by rw [phase]; rfl
  have stores := returnWidth_le (m := m) c.signature.cif.rtype
  have fits := contained.stores
  have inside : (⟨c.result, cells.length⟩ : Region).Within c.resultRegion := within_front (by omega)
  refine ⟨rfl, ?_, ?_, ?_, fun _ => ?_, undisturbed⟩
  · exact fun s apart => agree_into inside (apart _ (List.mem_append_left _ (result_mem flying)))
  · rw [List.append_nil]
  · intro r handed
    rw [Call.handedOn, phase] at handed
    cases handed
  · refine { held with values := ?_, entries := ?_, current := ?_, result := ?_ }
    · exact fun k p parameter => held.values_kept fun k p parameter other _ =>
        agree_into inside (separate.result_value _ _ _ other).symm
    · exact fun k p => held.entries_kept (agree_into inside separate.result_args.symm)
    · intro parameter _
      rw [CurrentHeld, phase]
      trivial
    · have before := held.result
      rw [ResultHeld, phase] at before ⊢
      refine ⟨?_, trivial⟩
      rw [drop_poke (by omega) (by omega)]
      exact before.1

theorem advances_leave (separate : Separate c) (contained : Contained c.signature)
    {received : List (List Cell)} (phase : c.phase = .entered received) (undisturbed : c.Undisturbed host)
    {cells : List Cell} (width : cells.length = returnWidth c.signature.cif.rtype) :
    Advances host memory (poke memory c.result (returned m c.signature.cif.rtype cells)) c
      { c with phase := .returned received cells } [] := by
  have flying : c.phase.inFlight = true := by rw [phase]; rfl
  have idle : c.phase.valPtr = [] := by rw [phase]; rfl
  have stores := returned_length (m := m) c.signature.cif.rtype width
  have fits := contained.stores
  have inside : (⟨c.result, (returned m c.signature.cif.rtype cells).length⟩ : Region).Within c.resultRegion :=
    within_front (by omega)
  refine ⟨rfl, ?_, ?_, nofun, fun _ => ?_, ?_⟩
  · exact fun s apart => agree_into inside (apart _ (List.mem_append_left _ (result_mem flying)))
  · rw [storage_flying flying, storage_flying rfl, idle, List.append_nil]
    exact .refl _
  · refine ⟨held.arity, ?_, ?_, ?_, fun _ _ => trivial, nofun, ?_, width, ?_⟩
    · exact fun k p parameter => held.values_kept fun k p parameter other _ =>
        agree_into inside (separate.result_value _ _ _ other).symm
    · exact fun k p => held.entries_kept (agree_into inside separate.result_args.symm)
    · have few := held.few
      rwa [idle] at few
    · dsimp only
      rw [drop_poke (by omega) (by omega)]
      exact held.result.1
    · dsimp only
      rw [peek_poke_front (by omega), ← stores, List.take_left]
  · rw [Call.Undisturbed, phase] at undisturbed
    exact undisturbed

/-- The whole result buffer, once the native function has returned. -/
theorem result_returned {received : List (List Cell)} {cells : List Cell} (phase : c.phase = .returned received cells) :
    peek memory c.result (resultSize m c.signature.returnType) =
      returned m c.signature.cif.rtype cells ++ zeros (resultSize m c.signature.returnType -
        (returned m c.signature.cif.rtype cells).length) := by
  have result := held.result
  rw [ResultHeld, phase] at result
  obtain ⟨rest, width, first⟩ := result
  rw [← List.take_append_drop (ffiCallStores m c.signature.cif.rtype)
    (peek memory c.result (resultSize m c.signature.returnType)), first, rest, returned_length _ width]

theorem advances_decode (contained : Contained c.signature) {received : List (List Cell)} {cells : List Cell}
    (phase : c.phase = .returned received cells) (undisturbed : c.Undisturbed host) :
    Advances host memory memory c
      { c with phase := .decoded received cells (host.get c.signature.returnType
          (peek memory c.result (derefReads m c.signature.returnType))) } [] := by
  have flying : c.phase.inFlight = true := by rw [phase]; rfl
  refine ⟨rfl, fun s _ => agree_refl s memory, List.nil_sublist _, ?_, nofun, ?_⟩
  · intro r handed
    cases List.mem_singleton.mp handed
    exact ⟨result_mem flying, rfl⟩
  · rw [Call.Undisturbed, phase] at undisturbed
    refine ⟨undisturbed, ?_⟩
    rw [Call.answer, ← result_returned held phase, peek_take contained.decodes]

end

/-- **A call keeps to itself.** -/
theorem advances_of_advance {move : Move} (held : c.phase.inFlight = true → Held host memory c)
    (separate : c.phase.inFlight = true → Separate c) (contained : Contained c.signature)
    (faithful : Faithful handOver c.signature) (undisturbed : c.Undisturbed host)
    (fresh : ∀ r ∈ move.fresh c, ∀ s ∈ c.storage, Apart s r)
    (next : advance host handOver memory c move = some (memory', c')) :
    Advances host memory memory' c c' (move.fresh c) := by
  cases move with
  | alloc valPtr =>
    rw [advance] at next
    split at next
    · next argType val phase here =>
      cases next
      have only : (Move.alloc valPtr).fresh c = [Call.valueRegion m valPtr (argType, val)] := by
        rw [Move.fresh, here]
        rfl
      rw [only] at fresh ⊢
      exact advances_alloc (held (by rw [phase]; rfl)) phase here (fresh _ List.mem_cons_self)
    · cases next
  | set =>
    rw [advance] at next
    split at next
    · next valPtr argType val phase here =>
      have holds := held (by rw [phase]; rfl)
      rw [set_stored holds phase here] at next
      dsimp only at next
      split at next
      · cases next
        exact advances_set holds (separate (by rw [phase]; rfl)) phase here
      · cases next
        exact advances_threw phase here
    · cases next
  | writePointer =>
    rw [advance] at next
    split at next
    · next valPtr phase =>
      cases next
      exact advances_writePointer (held (by rw [phase]; rfl)) (separate (by rw [phase]; rfl)) phase
    · cases next
  | invoke =>
    rw [advance] at next
    split at next
    · next phase =>
      obtain ⟨ready, same⟩ := Option.ite_none_right_eq_some.mp next
      cases same
      exact advances_still (held (by rw [phase]; rfl)) (by rw [phase]; rfl) (by rw [phase]; rfl) rfl rfl
        (fun _ => ready) nofun trivial
    · cases next
  | enter =>
    rw [advance] at next
    split at next
    · next phase =>
      obtain ⟨sent, gathered, onward⟩ := Option.bind_eq_some_iff.mp next
      obtain ⟨received, handed, same⟩ := Option.bind_eq_some_iff.mp onward
      cases same
      exact advances_enter (held (by rw [phase]; rfl)) contained faithful phase gathered handed
    · cases next
  | fill cells =>
    rw [advance] at next
    split at next
    · next received phase =>
      obtain ⟨short, same⟩ := Option.ite_none_right_eq_some.mp next
      cases same
      exact advances_fill (held (by rw [phase]; rfl)) (separate (by rw [phase]; rfl)) contained phase
        undisturbed short
    · cases next
  | leave cells =>
    rw [advance] at next
    split at next
    · next received phase =>
      obtain ⟨width, same⟩ := Option.ite_none_right_eq_some.mp next
      cases same
      exact advances_leave (held (by rw [phase]; rfl)) (separate (by rw [phase]; rfl)) contained phase
        undisturbed width
    · cases next
  | decode =>
    rw [advance] at next
    split at next
    · next received cells phase =>
      cases next
      exact advances_decode (held (by rw [phase]; rfl)) contained phase undisturbed
    · cases next

end NodeFfi.CallsInFlight
