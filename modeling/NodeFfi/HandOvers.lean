import NodeFfi.CallMoves
import NodeFfi.UnixCalls

/-! The steps of a call in flight and `ffi_call` as a whole: where nothing comes between,
they read the same arguments and store the same result; and what x86-64 Unix makes of the
arguments on the way is a hand-over, faithful to those that have no padding exactly when
none spills. -/
namespace NodeFfi.CallsInFlight
open BlockMemory RegionMemory PartialPrograms AlignedLayout

variable {m : DataModel} {host : Host} {memory : Contents Cell} {w w' : World m} {c : Call m}

/-! ## The arguments and the result -/

theorem gather_of_loadArguments (covers : Covers memory w.memory) {argsList : Pointer} {i : Nat}
    {atypes : List (FfiType m.sizeBits)} {sent : List (List Cell)}
    (loads : exec (loadArguments argsList i atypes) w = some (sent, w')) :
    gather memory argsList i atypes = some sent := by
  induction atypes generalizing i sent w' with
  | nil => exact congrArg some (Prod.mk.inj (Option.some.inj loads)).1
  | cons atype rest further =>
    obtain ⟨entry, _, finds, others⟩ := exec_bind_some.mp loads
    obtain rfl := exec_loadPointer_some finds
    obtain ⟨bytes, _, reads, decodes⟩ := exec_bind_some.mp finds
    obtain ⟨loaded, rfl⟩ := exec_read_some reads
    have decoded : decodePointer m bytes = some entry := by
      cases target : decodePointer m bytes with
      | none =>
        rw [target] at decodes
        cases decodes
      | some found =>
        rw [target] at decodes
        rw [(Prod.mk.inj (Option.some.inj decodes)).1]
    obtain ⟨cells, _, fetches, tail⟩ := exec_bind_some.mp others
    obtain ⟨fetched, rfl⟩ := exec_read_some fetches
    obtain ⟨onward, _, loop, built⟩ := exec_bind_some.mp tail
    obtain ⟨rfl, _⟩ := Prod.mk.inj (Option.some.inj built)
    rw [gather, covers.peek loaded]
    simp only [decoded, further loop, covers.peek fetched, Option.bind_eq_bind, Option.bind_some, Option.pure_def]

/-- What is in the buffers arrives. -/
def whole : HandOver m := fun _ _ sent => some sent

theorem event_faithful (event : Event m) : event.Faithful whole := by
  cases event with
  | call => exact fun _ _ _ => rfl
  | move | obtain | release | write => trivial

/-- **One call on its own.** Where the arguments are handed over whole, entering the native
function and leaving it is what `ffi_call` does. -/
theorem ffiCall_agrees (covers : Covers memory w.memory) (phase : c.phase = .invoked)
    {fn : List (List Cell) → List Cell}
    (calls : exec (ffiCall c.signature.cif (ofFunction fn) c.result c.argsList) w = some ((), w')) :
    ∃ sent, advance host whole memory c .enter = some (memory, { c with phase := .entered sent }) ∧
      ∃ memory', advance host whole memory { c with phase := .entered sent } (.leave (fn sent)) =
          some (memory', { c with phase := .returned sent (fn sent) }) ∧
        Covers memory' w'.memory := by
  obtain ⟨sent, blocks, loads, width, stores, rfl⟩ := exec_ffiCall_some calls
  refine ⟨sent, ?_, _, if_pos width, ?_⟩
  · simp only [advance, phase, gather_of_loadArguments covers loads, whole, Option.bind_eq_bind, Option.bind_some,
      Option.pure_def]
  · exact covers.poke stores

/-! ## x86-64 Unix -/

/-- What reaches a closure through the registers and the stack. -/
def unix64 (residue : Residue) : HandOver lp64 := fun cif rvalue sent =>
  (ffiPrepCifMachdep cif).bind fun mc => relay residue mc rvalue (cif.atypes.zip sent)

/-- The steps read for `ffi_call_int` what `ffi_call` does. -/
theorem enter_unix64 {w w' : World lp64} {c : Call lp64} {mc : MachineCif} (covers : Covers memory w.memory)
    (phase : c.phase = .invoked) (did : ffiPrepCifMachdep c.signature.cif = some mc) (residue : Residue)
    {sent : List (List Cell)}
    (loads : exec (loadArguments c.argsList 0 c.signature.cif.atypes) w = some (sent, w')) :
    advance host (unix64 residue) memory c .enter =
      (relay residue mc c.result (c.signature.cif.atypes.zip sent)).map fun received =>
        (memory, { c with phase := .entered received }) := by
  simp only [advance, phase, gather_of_loadArguments covers loads, unix64, did, Option.bind_eq_bind, Option.bind_some]
  cases relay residue mc c.result (c.signature.cif.atypes.zip sent) <;> rfl

theorem arrives_refl {types : List (FfiType lp64.sizeBits)} {sent : List (List Cell)}
    (sizes : List.Forall₂ (fun t cells => cells.length = t.size.toNat) types sent) :
    List.Forall₂ (fun argument cells => Arrives argument.1 argument.2 cells) (types.zip sent) sent := by
  induction sizes with
  | nil => exact .nil
  | cons length _ further => exact .cons ⟨length, fun _ _ _ _ => rfl⟩ further

/-- **Registers and stack are faithful** to arguments without padding exactly when none of
them spills. -/
theorem unix64_faithful_iff {s : Signature lp64} {mc : MachineCif} (prepared : Prepared s.cif mc)
    (unpadded : Unpadded s.cif.atypes) :
    (∀ residue, Faithful (unix64 residue) s) ↔ spills (Counts.start mc.flags) s.cif.atypes = false := by
  have relays : ∀ residue rvalue sent, unix64 residue s.cif rvalue sent =
      relay residue mc rvalue (s.cif.atypes.zip sent) := by
    intro residue rvalue sent
    rw [unix64, prepared.did]
    rfl
  constructor
  · intro faithful
    apply dry_of_delivers prepared
    intro residue rvalue sent sizes
    refine ⟨sent, ?_, arrives_refl sizes⟩
    rw [← relays, faithful residue rvalue sent sizes]
  · intro dry residue rvalue sent sizes
    obtain ⟨got, did, arrive⟩ := delivers_of_dry prepared dry residue rvalue sent sizes
    rw [relays, did, arrived_eq unpadded sizes arrive]

end NodeFfi.CallsInFlight
