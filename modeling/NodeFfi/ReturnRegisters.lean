import NodeFfi.RegisterRoundTrip

/-! Results on x86-64 Unix: `load_table` of `x86/unix64.S`, by which a closure returns what is
in its return slot, and `store_table`, by which `ffi_call_unix64` stores what a function
returned. Together they store what the slot held, an integer extended to a whole register. -/
namespace NodeFfi
open AlignedLayout BlockMemory RegClass

/-- The registers a result is in: the low eight bytes of each. -/
structure ReturnRegs where
  rax : List Cell
  rdx : List Cell
  xmm0 : List Cell
  xmm1 : List Cell

/-- The entry of a jump table that the first byte of the flags selects; past the last one
the code aborts. -/
def Unix64Ret.entry (flags : BitVec 32) : Option Unix64Ret := Unix64Ret.all[(flags.setWidth 8).toNat]?

/-- `movzbl`, `movzwl`, `movl` and `movd`: the rest of the register is cleared. -/
def zeroExtended (cells : List Cell) : List Cell := cells ++ zeros (8 - cells.length)

/-- `movsbl` and `movswl`: the low half of the register is the extended value. -/
def signExtendedLow (cells : List Cell) : List Cell :=
  zeroExtended (cells ++ List.replicate (4 - cells.length) (extension true cells))

/-- `movsbq`, `movswq` and `cltq`. -/
def signExtended (cells : List Cell) : List Cell :=
  cells ++ List.replicate (8 - cells.length) (extension true cells)

/-- `load_table`, from the return slot. The two x87 entries are for no type here. -/
def loadTable (ret : Unix64Ret) (slot : List Cell) (r : ReturnRegs) : Option ReturnRegs :=
  match ret with
  | .void => some r
  | .uint8 => (slice slot 0 1).map fun v => { r with rax := zeroExtended v }
  | .uint16 => (slice slot 0 2).map fun v => { r with rax := zeroExtended v }
  | .uint32 => (slice slot 0 4).map fun v => { r with rax := zeroExtended v }
  | .sint8 => (slice slot 0 1).map fun v => { r with rax := signExtendedLow v }
  | .sint16 => (slice slot 0 2).map fun v => { r with rax := signExtendedLow v }
  | .sint32 => (slice slot 0 4).map fun v => { r with rax := zeroExtended v }
  | .int64 => (slice slot 0 8).map fun v => { r with rax := v }
  | .xmm32 => (slice slot 0 4).map fun v => { r with xmm0 := zeroExtended v }
  | .xmm64 => (slice slot 0 8).map fun v => { r with xmm0 := v }
  | .x87 | .x87_2 => none
  | .stXmm0Rax => do
    let high ← slice slot 8 8
    let low ← slice slot 0 8
    some { r with rax := high, xmm0 := low }
  | .stRaxXmm0 => do
    let high ← slice slot 8 8
    let low ← slice slot 0 8
    some { r with xmm0 := high, rax := low }
  | .stXmm0Xmm1 => do
    let high ← slice slot 8 8
    let low ← slice slot 0 8
    some { r with xmm1 := high, xmm0 := low }
  | .stRaxRdx => do
    let high ← slice slot 8 8
    let low ← slice slot 0 8
    some { r with rdx := high, rax := low }

/-- `ffi_closure_unix64_inner` returns `flags`, or `UNIX64_RET_INT64` for a result in memory,
whose slot holds the caller's pointer. -/
def closureReturn (flags : BitVec 32) (slot : List Cell) (r : ReturnRegs) : Option ReturnRegs := do
  let ret ← Unix64Ret.entry (if returnsInMemory flags then Unix64Ret.int64.code else flags)
  loadTable ret slot r

/-- `rep movsb` from the scratch area, by the size in the flags. -/
def copyPair (flags : BitVec 32) (low high : List Cell) : Option (List Cell) :=
  slice (low ++ high) 0 (flags >>> sizeShift).toNat

/-- `store_table`: what is written at `raddr`. -/
def storeTable (flags : BitVec 32) (r : ReturnRegs) : Option (List Cell) := do
  match ← Unix64Ret.entry flags with
  | .void => some []
  | .uint8 => (slice r.rax 0 1).map zeroExtended
  | .uint16 => (slice r.rax 0 2).map zeroExtended
  | .uint32 => (slice r.rax 0 4).map zeroExtended
  | .sint8 => (slice r.rax 0 1).map signExtended
  | .sint16 => (slice r.rax 0 2).map signExtended
  | .sint32 => (slice r.rax 0 4).map signExtended
  | .int64 => some r.rax
  | .xmm32 => slice r.xmm0 0 4
  | .xmm64 => some r.xmm0
  | .x87 | .x87_2 => none
  | .stXmm0Rax => copyPair flags r.xmm0 r.rax
  | .stRaxXmm0 => copyPair flags r.rax r.xmm0
  | .stXmm0Xmm1 => copyPair flags r.xmm0 r.xmm1
  | .stRaxRdx => copyPair flags r.rax r.rdx

/-! ## Reading the flags back -/

/-- The flags of a kind and a size, and possibly of arguments in SSE registers. -/
def flagsOf (ret : Unix64Ret) (size : Nat) (xmm : Bool) : BitVec 32 :=
  (ret.code ||| BitVec.ofNat 32 size <<< sizeShift) ||| if xmm then flagXmmArgs else 0

theorem entry_flagsOf (ret : Unix64Ret) {size : Nat} (small : size ≤ 16) (xmm : Bool) :
    Unix64Ret.entry (flagsOf ret size xmm) = some ret ∧ (flagsOf ret size xmm >>> sizeShift).toNat = size ∧
      returnsInMemory (flagsOf ret size xmm) = false := by
  have all : ∀ ret ∈ Unix64Ret.all, ∀ size < 17, ∀ xmm,
      Unix64Ret.entry (flagsOf ret size xmm) = some ret ∧ (flagsOf ret size xmm >>> sizeShift).toNat = size ∧
        returnsInMemory (flagsOf ret size xmm) = false := by decide +kernel
  exact all ret (by cases ret <;> decide) size (by omega) xmm

/-! ## One result -/

/-- The two tables by a kind and a size store what `ffi_call` is to store of a result. -/
def Conveys (rtype : FfiType lp64.sizeBits) (ret : Unix64Ret) (size : Nat) : Prop :=
  ∀ (flags : BitVec 32) (slot : List Cell) (r : ReturnRegs), slot.length = 32 →
    Unix64Ret.entry flags = some ret → (flags >>> sizeShift).toNat = size →
    ∃ r', loadTable ret slot r = some r' ∧
      storeTable flags r' = some (returned lp64 rtype (slot.take (returnWidth rtype)))

theorem slice_take {slot : List Cell} {n : Nat} (room : n ≤ slot.length) : slice slot 0 n = some (slot.take n) := by
  rw [slice_of_fits (by omega), List.drop_zero]

theorem slice_prefix {cells rest : List Cell} {n : Nat} (length : cells.length = n) :
    slice (cells ++ rest) 0 n = some cells := by
  rw [slice_take (by rw [List.length_append]; omega), ← length, List.take_left]

theorem slice_zeroExtended {cells : List Cell} {n : Nat} (length : cells.length = n) :
    slice (zeroExtended cells) 0 n = some cells := slice_prefix length

theorem slice_signExtendedLow {cells : List Cell} {n : Nat} (length : cells.length = n) :
    slice (signExtendedLow cells) 0 n = some cells := by
  rw [signExtendedLow, zeroExtended, List.append_assoc]
  exact slice_prefix length

theorem extension_false (cells : List Cell) : extension false cells = .byte 0 := by
  rw [extension]
  split <;> simp

theorem returned_unsigned {size : BitVec lp64.sizeBits} {alignment : Nat} {width : IntWidth} (cells : List Cell) :
    returned lp64 (.basic size alignment (.value (.int false width))) cells = zeroExtended cells := by
  rw [returned, extension_false]
  rfl

theorem returned_signed {size : BitVec lp64.sizeBits} {alignment : Nat} {width : IntWidth} (cells : List Cell) :
    returned lp64 (.basic size alignment (.value (.int true width))) cells = signExtended cells := rfl

/-- Eight bytes fill the register. -/
theorem returned_whole {c : CType} {cells : List Cell} (whole : cells.length = 8 ∨ c = .float ∨ c = .double) :
    returned lp64 (c.ffiType lp64) cells = cells := by
  have none : ∀ cell : Cell, List.replicate (8 - 8) cell = [] := fun _ => rfl
  cases c with
  | float => rfl
  | double => rfl
  | int signed width =>
    rw [CType.ffiType, returned, whole.resolve_right (by simp)]
    exact (congrArg _ (none _)).trans (List.append_nil _)
  | pointer =>
    rw [CType.ffiType, returned, whole.resolve_right (by simp)]
    exact (congrArg _ (none _)).trans (List.append_nil _)

theorem conveys_narrow {c : CType} {signed : Bool} {width : IntWidth} {ret : Unix64Ret} {n size : Nat}
    (is : c = .int signed width) (bytes : c.size lp64 = n) (small : n ≤ 4)
    (load : ∀ slot r, loadTable ret slot r = (slice slot 0 n).map fun v =>
      { r with rax := if signed && n < 4 then signExtendedLow v else zeroExtended v })
    (store : ∀ flags r, Unix64Ret.entry flags = some ret → storeTable flags r =
      (slice r.rax 0 n).map fun v => if signed then signExtended v else zeroExtended v) :
    Conveys (c.ffiType lp64) ret size := by
  intro flags slot r long entry _
  have taken : (slot.take n).length = n := by
    rw [List.length_take, long]
    omega
  have returns : returnWidth (c.ffiType lp64) = n := by
    rw [← bytes, ← ctype_size_toNat (m := lp64) c]
    rfl
  refine ⟨_, by rw [load, slice_take (by omega)]; rfl, ?_⟩
  rw [store _ _ entry, returns, is]
  have low : slice (if (signed && n < 4) = true then signExtendedLow (slot.take n) else zeroExtended (slot.take n)) 0 n =
      some (slot.take n) := by
    split
    · exact slice_signExtendedLow taken
    · exact slice_zeroExtended taken
  simp only [low, Option.map_some]
  cases signed
  · exact congrArg some (returned_unsigned _).symm
  · exact congrArg some (returned_signed _).symm

section
variable {rtype : FfiType lp64.sizeBits} {size : Nat}

theorem conveys_eight {ret : Unix64Ret} (kind : ret = .int64 ∨ ret = .xmm64) (width : returnWidth rtype = 8)
    (whole : ∀ cells : List Cell, cells.length = 8 → returned lp64 rtype cells = cells) :
    Conveys rtype ret size := by
  intro flags slot r long entry _
  have taken : (slot.take 8).length = 8 := by
    rw [List.length_take, long]
    rfl
  rw [width, whole _ taken]
  rcases kind with rfl | rfl
  · exact ⟨_, by rw [loadTable, slice_take (by omega)]; rfl, by simp [storeTable, entry]⟩
  · exact ⟨_, by rw [loadTable, slice_take (by omega)]; rfl, by simp [storeTable, entry]⟩

theorem conveys_four (width : returnWidth rtype = 4)
    (whole : ∀ cells : List Cell, returned lp64 rtype cells = cells) : Conveys rtype .xmm32 size := by
  intro flags slot r long entry _
  have taken : (slot.take 4).length = 4 := by
    rw [List.length_take, long]
    rfl
  refine ⟨_, by rw [loadTable, slice_take (by omega)]; rfl, ?_⟩
  simp only [storeTable, entry, Option.bind_eq_bind, Option.bind_some]
  rw [slice_zeroExtended taken, width, whole]

/-- Two registers between them carry up to sixteen bytes. -/
theorem conveys_pair (classes : List RegClass) (width : returnWidth rtype = size) (small : size ≤ 16)
    (whole : ∀ cells : List Cell, returned lp64 rtype cells = cells) :
    Conveys rtype (pairKind classes) size := by
  intro flags slot r long entry sized
  have low : slice slot 0 8 = some (slot.take 8) := slice_take (by omega)
  have high : slice slot 8 8 = some ((slot.drop 8).take 8) := slice_of_fits (by omega)
  have both : slot.take 8 ++ (slot.drop 8).take 8 = slot.take 16 := by
    rw [← List.take_add]
  have copied : copyPair flags (slot.take 8) ((slot.drop 8).take 8) = some (slot.take size) := by
    rw [copyPair, both, sized, slice_take (by rw [List.length_take]; omega), List.take_take,
      Nat.min_eq_left small]
  rw [width, whole]
  cases kind : pairKind classes with
  | stXmm0Rax | stRaxXmm0 | stXmm0Xmm1 | stRaxRdx =>
    rw [kind] at entry
    exact ⟨_, by simp only [loadTable, low, high, Option.bind_eq_bind, Option.bind_some]; rfl,
      by simp only [storeTable, entry, Option.bind_eq_bind, Option.bind_some, copied]⟩
  | _ =>
    rw [pairKind] at kind
    split at kind
    · cases kind
    · split at kind
      · cases kind
      · split at kind <;> cases kind

end

/-- A type that a function returns: a prepared one, or `void`. -/
def Returned (rtype : FfiType lp64.sizeBits) : Prop := rtype = ffiTypeVoid lp64 ∨ Formed rtype

/-- The flags of a result in registers name a kind that conveys it. -/
theorem returnFlags_scalar (c : CType) :
    ∃ ret, returnFlags (c.ffiType lp64) = some (flagsOf ret 0 false) ∧ Conveys (c.ffiType lp64) ret 0 := by
  have plain : ∀ ret : Unix64Ret, ret.code = flagsOf ret 0 false := by
    intro ret
    cases ret <;> decide
  have eight : ∀ ret, (ret = .int64 ∨ ret = .xmm64) → c.size lp64 = 8 → Conveys (c.ffiType lp64) ret 0 :=
    fun ret kind bytes => conveys_eight kind (by rw [← bytes, ← ctype_size_toNat (m := lp64) c]; rfl)
      fun _ length => returned_whole (.inl length)
  cases c with
  | int signed width =>
    cases signed <;> cases width
    · exact ⟨.uint8, congrArg some (plain _), conveys_narrow (n := 1) rfl rfl (by omega) (fun _ _ => rfl)
        fun _ _ entry => by simp [storeTable, entry]⟩
    · exact ⟨.uint16, congrArg some (plain _), conveys_narrow (n := 2) rfl rfl (by omega) (fun _ _ => rfl)
        fun _ _ entry => by simp [storeTable, entry]⟩
    · exact ⟨.uint32, congrArg some (plain _), conveys_narrow (n := 4) rfl rfl (by omega) (fun _ _ => rfl)
        fun _ _ entry => by simp [storeTable, entry]⟩
    · exact ⟨.int64, congrArg some (plain _), eight _ (.inl rfl) rfl⟩
    · exact ⟨.sint8, congrArg some (plain _), conveys_narrow (n := 1) rfl rfl (by omega) (fun _ _ => rfl)
        fun _ _ entry => by simp [storeTable, entry]⟩
    · exact ⟨.sint16, congrArg some (plain _), conveys_narrow (n := 2) rfl rfl (by omega) (fun _ _ => rfl)
        fun _ _ entry => by simp [storeTable, entry]⟩
    · exact ⟨.sint32, congrArg some (plain _), conveys_narrow (n := 4) rfl rfl (by omega) (fun _ _ => rfl)
        fun _ _ entry => by simp [storeTable, entry]⟩
    · exact ⟨.int64, congrArg some (plain _), eight _ (.inl rfl) rfl⟩
  | float => exact ⟨.xmm32, congrArg some (plain _), conveys_four rfl fun _ => rfl⟩
  | double => exact ⟨.xmm64, congrArg some (plain _), eight _ (.inr rfl) rfl⟩
  | pointer => exact ⟨.int64, congrArg some (plain _), eight _ (.inl rfl) rfl⟩

/-- The flags of a return type name a kind that conveys it, or memory from 17 bytes on. -/
theorem returnFlags_spec {rtype : FfiType lp64.sizeBits} (is : Returned rtype) :
    ∃ flags, returnFlags rtype = some flags ∧
      (16 < rtype.size.toNat → flags = Unix64Ret.void.code ||| flagRetInMem) ∧
      (rtype.size.toNat ≤ 16 → ∃ ret size, size ≤ 16 ∧ flags = flagsOf ret size false ∧ Conveys rtype ret size) := by
  rcases is with rfl | formed
  · refine ⟨_, rfl, fun large => absurd large (by decide), fun _ => ⟨.void, 0, by omega, by decide, ?_⟩⟩
    exact fun flags slot r _ entry _ => ⟨r, rfl, by simp only [storeTable, entry]; rfl⟩
  · cases formed with
    | scalar c =>
      obtain ⟨ret, flags, conveys⟩ := returnFlags_scalar c
      have bytes := (size_le_eight c).1
      refine ⟨_, flags, fun large => ?_, fun _ => ⟨ret, 0, by omega, rfl, conveys⟩⟩
      rw [ctype_size_toNat] at large
      omega
    | @struct size alignment elements nonempty each natural =>
      obtain ⟨e, did, memory, _, _⟩ := examineArgument_defined (.struct nonempty each natural)
      refine ⟨_, by rw [returnFlags, did]; rfl, fun large => if_pos (memory.mpr large), fun small => ?_⟩
      have registers : e.classes ≠ [] := fun none => by
        have large := memory.mp none
        omega
      have whole : ∀ cells : List Cell,
          returned lp64 (.aggregate size alignment elements) cells = cells := fun _ => rfl
      change size.toNat ≤ 16 at small
      rw [if_neg registers, structFlags]
      split
      · next single =>
        exact ⟨.xmm32, 0, by omega, by decide, conveys_four single.1 whole⟩
      · split
        · next eight =>
          split
          · exact ⟨.xmm64, 0, by omega, by decide, conveys_eight (.inr rfl) eight fun cells _ => whole cells⟩
          · exact ⟨.int64, 0, by omega, by decide, conveys_eight (.inl rfl) eight fun cells _ => whole cells⟩
        · refine ⟨pairKind e.classes, size.toNat, small, ?_, conveys_pair e.classes rfl small whole⟩
          simp [flagsOf]

/-- The flags of a prepared cif are those of its return type, with one more bit. -/
theorem prepared_flags {cif : Cif lp64} {mc : MachineCif} (did : ffiPrepCifMachdep cif = some mc) :
    ∃ flags xmm, returnFlags cif.rtype = some flags ∧ mc.flags = flags ||| if xmm = true then flagXmmArgs else 0 := by
  simp only [ffiPrepCifMachdep, Option.bind_eq_bind, Option.bind_eq_some_iff, Option.some.injEq] at did
  obtain ⟨flags, returns, final, _, rfl⟩ := did
  refine ⟨flags, final.ssecount ≠ 0, returns, ?_⟩
  by_cases used : final.ssecount = 0 <;> simp [used]

/-- **What a closure returns is what `ffi_call` stores**: of every type up to sixteen bytes, by
way of the registers, the bytes of the return slot, an integer extended to `ffi_arg`. Of a larger
type `ffi_call` stores nothing itself, and the closure returns the pointer it was given. -/
theorem result_conveyed {cif : Cif lp64} {mc : MachineCif} (is : Returned cif.rtype)
    (did : ffiPrepCifMachdep cif = some mc) (slot : List Cell) (r : ReturnRegs) (long : slot.length = 32) :
    (cif.rtype.size.toNat ≤ 16 → returnsInMemory mc.flags = false ∧ ∃ r', closureReturn mc.flags slot r = some r' ∧
      storeTable mc.flags r' = some (returned lp64 cif.rtype (slot.take (returnWidth cif.rtype)))) ∧
    (16 < cif.rtype.size.toNat → returnsInMemory mc.flags = true ∧ ∃ r', closureReturn mc.flags slot r = some r' ∧
      r'.rax = slot.take 8 ∧ storeTable mc.flags r' = some []) := by
  obtain ⟨flags, xmm, returns, whole⟩ := prepared_flags did
  obtain ⟨flags', returns', large, small⟩ := returnFlags_spec is
  obtain rfl := Option.some.inj (returns.symm.trans returns')
  refine ⟨fun fits => ?_, fun big => ?_⟩
  · obtain ⟨ret, size, bound, rfl, conveys⟩ := small fits
    have same : mc.flags = flagsOf ret size xmm := by
      rw [whole, flagsOf, flagsOf]
      simp
    obtain ⟨entry, sized, registers⟩ := entry_flagsOf ret bound xmm
    rw [← same] at entry sized registers
    obtain ⟨r', loads, stores⟩ := conveys mc.flags slot r long entry sized
    exact ⟨registers, r', by simp [closureReturn, registers, entry, loads], stores⟩
  · have memory : returnsInMemory mc.flags = true ∧ Unix64Ret.entry mc.flags = some .void := by
      rw [whole, large big]
      cases xmm <;> decide
    have entry : Unix64Ret.entry Unix64Ret.int64.code = some .int64 := by decide
    exact ⟨memory.1, { r with rax := slot.take 8 },
      by simp [closureReturn, memory.1, entry, loadTable, slice_take (show 8 ≤ slot.length by omega)], rfl,
      by simp [storeTable, memory.2]⟩

/-- `struct { int64_t; double; } ()`. -/
def longDoubleCif : Cif lp64 := ⟨longDoubleType, []⟩

theorem longDouble_conveyed : ∃ r',
    closureReturn (flagsOf .stRaxXmm0 16 false) (zeros 32) ⟨[], [], [], []⟩ = some r' ∧
      storeTable (flagsOf .stRaxXmm0 16 false) r' =
        some (returned lp64 longDoubleType ((zeros 32).take (returnWidth longDoubleType))) :=
  ((result_conveyed (.inr longDouble_formed : Returned longDoubleCif.rtype)
    (show ffiPrepCifMachdep longDoubleCif = some ⟨flagsOf .stRaxXmm0 16 false, 0⟩ by rfl)
    (zeros 32) ⟨[], [], [], []⟩ (by rfl)).1 (by decide)).2

end NodeFfi
