import NodeFfi.ReturnRegisters
import NodeFfi.MarshallingInversions
import NodeFfi.MarshallingRoundTrip

/-! A call of a closure through `ffi_call` on x86-64 Unix, with the arguments and the result in
registers and on the stack, is the call that hands over the bytes of the arguments and stores
those of the result. -/
namespace NodeFfi
open AlignedLayout BlockMemory PartialPrograms

/-- Code outside the world, whose undefined behaviour is the program's. -/
def defined {m : DataModel} {α : Type} (x : Option α) : NativeM m α := fun w => x.map fun a => (a, w)

/-- `ffi_call` of a closure whose function is `fn`. `r` is what is in the registers that the
closure does not set, and `slot` what is in the rest of its return slot. -/
def ffiCallUnix64 (residue : Residue) (r : ReturnRegs) (slot : List Cell) (cif : Cif lp64) (mc : MachineCif)
    (fn : Native lp64) (rvalue avalue : Pointer) : NativeM lp64 Unit := do
  let arguments ← loadArguments avalue 0 cif.atypes
  let got ← defined (relay residue mc rvalue (cif.atypes.zip arguments))
  let cells ← fn got
  undefinedUnless (cells.length = returnWidth cif.rtype)
  if returnsInMemory mc.flags then
    -- the function's return slot is the caller's memory
    write rvalue cells
  else do
    let r ← defined (closureReturn mc.flags ((cells ++ slot).take 32) r)
    let stored ← defined (storeTable mc.flags r)
    write rvalue stored

/-- A function that does not look at padding. -/
def ReadsScalars (cif : Cif lp64) (fn : Native lp64) : Prop :=
  ∀ sent got : List (List Cell), List.Forall₂ (fun t cells => cells.length = t.size.toNat) cif.atypes sent →
    List.Forall₂ (fun argument cells => Arrives argument.1 argument.2 cells) (cif.atypes.zip sent) got →
    fn got = fn sent

variable {w w' : World lp64}

theorem exec_defined {m : DataModel} {w : World m} {α : Type} {x : Option α} {a : α} (is : x = some a) :
    exec (defined x) w = some (a, w) := by
  rw [is]
  rfl

theorem loadArguments_sizes {array : Pointer} {i : Nat} {atypes : List (FfiType lp64.sizeBits)}
    {arguments : List (List Cell)} (did : exec (loadArguments array i atypes) w = some (arguments, w')) :
    List.Forall₂ (fun t cells => cells.length = t.size.toNat) atypes arguments := by
  induction atypes generalizing i w w' arguments with
  | nil =>
    obtain ⟨rfl, _⟩ := Prod.mk.inj (Option.some.inj did)
    exact .nil
  | cons atype rest ih =>
    obtain ⟨_, _, loads, others⟩ := exec_bind_some.mp did
    obtain ⟨cells, _, reads, tail⟩ := exec_bind_some.mp others
    obtain ⟨_, _, loop, built⟩ := exec_bind_some.mp tail
    obtain ⟨rfl, _⟩ := Prod.mk.inj (Option.some.inj built)
    rw [exec_read] at reads
    obtain ⟨_, loaded, same⟩ := Option.map_eq_some_iff.mp reads
    obtain ⟨rfl, _⟩ := Prod.mk.inj same
    exact .cons (load_length loaded) (ih loop)

section
variable {cif : Cif lp64} {mc : MachineCif} {fn : Native lp64}

theorem returnWidth_le (rtype : FfiType lp64.sizeBits) : returnWidth rtype ≤ rtype.size.toNat := by
  cases rtype with
  | aggregate size alignment elements => exact Nat.le_refl _
  | basic size alignment type =>
    cases type with
    | void => exact Nat.zero_le _
    | value c => exact Nat.le_refl _

theorem returned_large {rtype : FfiType lp64.sizeBits} (is : Returned rtype) (large : 16 < rtype.size.toNat)
    (cells : List Cell) : returned lp64 rtype cells = cells := by
  rcases is with rfl | formed
  · rfl
  · cases formed with
    | scalar c =>
      have small := (size_le_eight c).1
      rw [ctype_size_toNat] at large
      omega
    | struct nonempty each natural => rfl

/-- Storing the result. -/
theorem store_result (is : Returned cif.rtype) (did : ffiPrepCifMachdep cif = some mc) (r : ReturnRegs)
    {slot : List Cell} (room : 32 ≤ slot.length) (rvalue : Pointer) {cells : List Cell}
    (width : cells.length = returnWidth cif.rtype) :
    exec (if returnsInMemory mc.flags then write rvalue cells
      else do
        let r ← defined (closureReturn mc.flags ((cells ++ slot).take 32) r)
        let stored ← defined (storeTable mc.flags r)
        write rvalue stored) w = exec (write rvalue (returned lp64 cif.rtype cells)) w := by
  have long : ((cells ++ slot).take 32).length = 32 := by
    rw [List.length_take, List.length_append]
    omega
  obtain ⟨small, large⟩ := result_conveyed is did ((cells ++ slot).take 32) r long
  rcases Nat.lt_or_ge 16 cif.rtype.size.toNat with big | fits
  · have memory := (large big).1
    rw [if_pos memory, returned_large is big]
  · obtain ⟨registers, r', loads, stores⟩ := small fits
    have narrow := (returnWidth_le cif.rtype).trans fits
    have same : ((cells ++ slot).take 32).take (returnWidth cif.rtype) = cells := by
      rw [List.take_take, ← width, Nat.min_eq_left (by omega), List.take_left]
    rw [same] at stores
    rw [if_neg (by simp [registers]), exec_bind (exec_defined loads), exec_bind (exec_defined stores)]

/-- **Calls through registers.** On prepared types whose arguments do not spill, `ffi_call` of a
closure does what handing over the arguments' bytes and storing the result's would do. -/
theorem ffiCall_unix64 (residue : Residue) (r : ReturnRegs) {slot : List Cell} (room : 32 ≤ slot.length)
    (is : Returned cif.rtype) (prepared : Prepared cif mc)
    (dry : spills (Counts.start mc.flags) cif.atypes = false) (reads : ReadsScalars cif fn)
    (rvalue avalue : Pointer) :
    ffiCallUnix64 residue r slot cif mc fn rvalue avalue = ffiCall cif fn rvalue avalue := by
  funext w
  refine exec_bind_congr fun arguments w' loads => ?_
  have sizes := loadArguments_sizes loads
  obtain ⟨got, did, arrive⟩ := delivers_of_dry prepared dry residue rvalue arguments sizes
  rw [exec_bind (exec_defined did), reads arguments got sizes arrive]
  refine exec_bind_congr fun cells w' _ => exec_bind_congr fun _ w'' guarded => ?_
  exact store_result is prepared.did r room rvalue (exec_undefinedUnless_some guarded).1

/-- Every byte of the arguments is in a scalar. -/
def Unpadded (types : List (FfiType lp64.sizeBits)) : Prop :=
  ∀ t ∈ types, ∀ i < t.size.toNat, ∃ s ∈ scalars t, s.offset ≤ i ∧ i < s.offset + s.type.size lp64

/-- Without padding the scalars are all there is. -/
theorem arrived_eq {types : List (FfiType lp64.sizeBits)} {sent got : List (List Cell)} (unpadded : Unpadded types)
    (sizes : List.Forall₂ (fun t cells => cells.length = t.size.toNat) types sent)
    (arrive : List.Forall₂ (fun argument cells => Arrives argument.1 argument.2 cells) (types.zip sent) got) :
    got = sent := by
  induction sizes generalizing got with
  | nil =>
    cases arrive
    rfl
  | @cons t cells types sent length rest ih =>
    rw [List.zip_cons_cons] at arrive
    obtain ⟨cells', others, first, tail, rfl⟩ := List.forall₂_cons_left_iff.mp arrive
    have same : cells' = cells := by
      apply List.ext_getElem?
      intro i
      by_cases inside : i < t.size.toNat
      · obtain ⟨s, member, low, high⟩ := unpadded t (by simp) i inside
        have scalar := first.scalars s member (i - s.offset) (by omega)
        rwa [Nat.add_sub_cancel' low] at scalar
      · have short : cells'.length = t.size.toNat := first.length
        rw [List.getElem?_eq_none_iff.mpr (by omega), List.getElem?_eq_none_iff.mpr (by omega)]
    rw [same, ih (fun other member => unpadded other (List.mem_cons_of_mem _ member)) tail]

theorem readsScalars_of_unpadded (unpadded : Unpadded cif.atypes) : ReadsScalars cif fn := by
  intro sent got sizes arrive
  rw [arrived_eq unpadded sizes arrive]

end

/-! ## Declared functions -/

theorem formed_of_passable {type : RefType} {ft : FfiType lp64.sizeBits} (passable : Passable lp64 type)
    (ready : initialized (ffiType lp64 type) = some ft) : Formed ft := by
  have told := passable.asPassed
  rw [← (RefType.ffiType_asPassed type).1] at ready
  exact (formed_of_encodable told.plain.byValue told.plain.direct (passable.plain.encodable lp64_target)
    told.fits ready).1

theorem exists_related {α β : Type*} {R : α → β → Prop} {as : List α} {bs : List β} {b : β}
    (all : List.Forall₂ R as bs) (member : b ∈ bs) : ∃ a ∈ as, R a b := by
  induction all with
  | nil => cases member
  | cons related rest ih =>
    rcases List.mem_cons.mp member with rfl | inside
    · exact ⟨_, by simp, related⟩
    · obtain ⟨a, there, holds⟩ := ih inside
      exact ⟨a, List.mem_cons_of_mem _ there, holds⟩

/-- `ffi_prep_cif_machdep` accepts every declaration. -/
theorem machdep_prepared {s : Signature lp64} (declarable : Declarable lp64 s.returnType s.argTypes)
    (whole : ∀ t ∈ s.cif.atypes, unsplit t 0) :
    Returned s.cif.rtype ∧ (∀ t ∈ s.cif.atypes, Passed t) ∧ ∃ mc, ffiPrepCifMachdep s.cif = some mc := by
  obtain ⟨returnReady, argsReady⟩ := prepCif_eq_some s.prepared
  have returned : Returned s.cif.rtype := by
    rcases declarable.returns with void | passable
    · rw [void] at returnReady
      have same : initialized (ffiTypeVoid lp64) = some (ffiTypeVoid lp64) := rfl
      exact .inl (Option.some.inj (returnReady.symm.trans same))
    · exact .inr (formed_of_passable passable returnReady)
  have passed : ∀ t ∈ s.cif.atypes, Passed t := by
    intro t member
    obtain ⟨type, inside, ready⟩ := exists_related argsReady member
    exact ⟨formed_of_passable (declarable.takes type inside) ready, whole t member⟩
  obtain ⟨flags, returns, _⟩ := returnFlags_spec returned
  exact ⟨returned, passed, by simp [ffiPrepCifMachdep, returns, countArguments passed]⟩

/-- **Declared functions through registers.** `ffi_prep_cif_machdep` accepts every declaration
whose types it classifies as the psABI does. If moreover the stack arguments fit an `unsigned` and
none of the others spills, calling a closure with that signature does, from every state of the world,
what handing over the bytes of the arguments and storing those of the result would do. -/
theorem declared_ffiCall {s : Signature lp64} (declarable : Declarable lp64 s.returnType s.argTypes)
    (whole : ∀ t ∈ s.cif.atypes, unsplit t 0) : ∃ mc, ffiPrepCifMachdep s.cif = some mc ∧
      (roundUp (s.cif.atypes.foldl Counts.after (Counts.start mc.flags)).bytes 8 < 2 ^ 32 →
        spills (Counts.start mc.flags) s.cif.atypes = false →
        ∀ (residue : Residue) (r : ReturnRegs) (slot : List Cell) (fn : Native lp64) (rvalue avalue : Pointer),
          32 ≤ slot.length → ReadsScalars s.cif fn →
          ffiCallUnix64 residue r slot s.cif mc fn rvalue avalue = ffiCall s.cif fn rvalue avalue) := by
  obtain ⟨returned, passed, mc, did⟩ := machdep_prepared declarable whole
  refine ⟨mc, did, fun fits dry residue r slot fn rvalue avalue room reads => ?_⟩
  exact ffiCall_unix64 residue r room returned ⟨did, passed, fits⟩ dry reads rvalue avalue

theorem example_ffiCall : ∃ mc, ffiPrepCifMachdep exampleSignature.cif = some mc ∧
    ffiCallUnix64 ⟨fun _ => .byte 0, fun _ => .byte 0, fun _ => .byte 0⟩ ⟨[], [], [], []⟩ (zeros 32) exampleSignature.cif
      mc (closure exampleHost ⟨exampleSignature, some select⟩) ⟨0, 0⟩ ⟨1, 0⟩ =
    ffiCall exampleSignature.cif (closure exampleHost ⟨exampleSignature, some select⟩) ⟨0, 0⟩ ⟨1, 0⟩ := by
  obtain ⟨mc, did, calls⟩ := declared_ffiCall (s := exampleSignature) exampleDeclarable (by decide)
  have same : ffiPrepCifMachdep exampleSignature.cif = some ⟨Unix64Ret.xmm64.code ||| flagXmmArgs, 0⟩ := by rfl
  obtain rfl := Option.some.inj (did.symm.trans same)
  refine ⟨_, did, calls (by decide) (by decide) _ _ _ _ _ _ (by decide) (readsScalars_of_unpadded ?_)⟩
  have types : exampleSignature.cif.atypes = [CType.double, CType.int false .w8].map (CType.ffiType lp64) := rfl
  intro t member i inside
  rw [types] at member
  obtain ⟨c, -, rfl⟩ := List.mem_map.mp member
  rw [ctype_size_toNat] at inside
  exact ⟨⟨0, c⟩, List.mem_singleton_self _, Nat.zero_le i, by rwa [Nat.zero_add]⟩

end NodeFfi
