import NodeFfi.ArgumentRegisters

/-! What `ffi_call` passes is what a closure finds: over whole argument lists, each scalar of
each argument arrives exactly when no argument spills. -/
namespace NodeFfi
open AlignedLayout BlockMemory RegClass

/-- The types and the bytes of the arguments of a call. -/
abbrev Arguments := List (FfiType lp64.sizeBits × List Cell)

/-- The bytes of each argument are those of its type. -/
def Sized (arguments : Arguments) : Prop :=
  ∀ argument ∈ arguments, Passed argument.1 ∧ argument.2.length = argument.1.size.toNat

/-- What passing some arguments does to the frame. -/
structure Ran (arguments : Arguments) (f f' : Frame) : Prop where
  counts : f'.toCounts = (arguments.map Prod.fst).foldl Counts.after f.toCounts
  registers : f'.registers.length = f.registers.length
  stack : f'.stack.length = f.stack.length
  gpr : ∀ p < gprOffset f.gprcount, f'.registers[p]? = f.registers[p]?
  sse : spills f.toCounts (arguments.map Prod.fst) = false → ∀ p, 48 ≤ p → p < sseOffset f.ssecount →
    f'.registers[p]? = f.registers[p]?
  kept : ∀ q < f.bytes, f'.stack[q]? = f.stack[q]?

theorem Ran.refl (f : Frame) : Ran [] f f := ⟨rfl, rfl, rfl, fun _ _ => rfl, fun _ _ _ _ => rfl, fun _ _ => rfl⟩

theorem Ran.cons {t : FfiType lp64.sizeBits} {e : Examined} {sent : List Cell} {rest : Arguments}
    {f between f' : Frame} (placed : Placed t e sent f between) (passed : Passed t) (examines : Examines t e)
    (length : sent.length = t.size.toNat) (others : Ran rest between f') : Ran ((t, sent) :: rest) f f' := by
  obtain ⟨gpr, sse, kept⟩ := placed.keeps passed examines length
  obtain ⟨moreGpr, moreSse, moreBytes⟩ := after_grows f.toCounts t
  have counts := placed.counts
  rw [← counts] at moreGpr moreSse moreBytes
  refine ⟨by rw [others.counts, counts]; rfl, others.registers.trans placed.registers,
    others.stack.trans placed.stack, fun p low => ?_, fun dry p high low => ?_, fun q below => ?_⟩
  · rw [others.gpr p (by simp only [gprOffset] at low ⊢; omega), gpr p low]
  · simp only [List.map_cons, spills, Bool.or_eq_false_iff, ← counts] at dry
    rw [others.sse dry.2 p high (by simp only [sseOffset] at low ⊢; omega), sse dry.1 p high low]
  · rw [others.kept q (by omega), kept q below]

theorem foldl_after_grows (types : List (FfiType lp64.sizeBits)) (c : Counts) :
    c.gprcount ≤ (types.foldl Counts.after c).gprcount ∧ c.ssecount ≤ (types.foldl Counts.after c).ssecount ∧
      c.bytes ≤ (types.foldl Counts.after c).bytes := by
  induction types generalizing c with
  | nil => simp
  | cons t rest ih =>
    have one := after_grows c t
    have others := ih (c.after t)
    rw [List.foldl_cons]
    omega

/-- `ffi_call_int` places every argument, as long as the stack has room for them. -/
theorem passArguments_run {arguments : Arguments} (sized : Sized arguments) {f : Frame}
    (long : f.registers.length = 176)
    (room : ((arguments.map Prod.fst).foldl Counts.after f.toCounts).bytes ≤ f.stack.length) :
    ∃ f', arguments.foldlM passArgument f = some f' ∧ Ran arguments f f' := by
  induction arguments generalizing f with
  | nil => exact ⟨f, rfl, .refl f⟩
  | cons argument rest ih =>
    obtain ⟨t, sent⟩ := argument
    obtain ⟨passed, length⟩ := sized (t, sent) (by simp)
    obtain ⟨e, examines⟩ := passed.examines
    rw [List.map_cons, List.foldl_cons] at room
    have grows := (foldl_after_grows (rest.map Prod.fst) (f.toCounts.after t)).2.2
    obtain ⟨between, did, placed⟩ := passArgument_placed passed examines length long (grows.trans room)
    obtain ⟨f', loop, others⟩ := ih (fun other member => sized other (List.mem_cons_of_mem _ member))
      (placed.registers.trans long) (by rw [placed.counts, placed.stack]; exact room)
    exact ⟨f', by simp [did, loop], .cons placed passed examines length others⟩

/-- The same, with one of the arguments in view. -/
theorem passArguments_at {before after : Arguments} {t : FfiType lp64.sizeBits} {sent : List Cell} {e : Examined}
    (sized : Sized (before ++ (t, sent) :: after)) (examines : Examines t e) {f : Frame}
    (long : f.registers.length = 176)
    (room : (((before ++ (t, sent) :: after).map Prod.fst).foldl Counts.after f.toCounts).bytes ≤ f.stack.length) :
    ∃ first second f', (before ++ (t, sent) :: after).foldlM passArgument f = some f' ∧
      Ran before f first ∧ Placed t e sent first second ∧ Ran after second f' ∧
      after.foldlM passArgument second = some f' := by
  have each := fun other member => sized other (List.mem_append_right before member)
  rw [List.map_append, List.foldl_append, List.map_cons, List.foldl_cons] at room
  have last := (foldl_after_grows (after.map Prod.fst)
    (((before.map Prod.fst).foldl Counts.after f.toCounts).after t)).2.2
  have middle := (after_grows ((before.map Prod.fst).foldl Counts.after f.toCounts) t).2.2
  obtain ⟨first, ran, start⟩ := passArguments_run (fun other member => sized other (List.mem_append_left _ member))
    long (f := f) (middle.trans (last.trans room))
  obtain ⟨passed, length⟩ := each (t, sent) (by simp)
  obtain ⟨second, did, placed⟩ := passArgument_placed passed examines length (start.registers.trans long)
    (by rw [start.counts, start.stack]; exact last.trans room)
  obtain ⟨f', loop, rest⟩ := passArguments_run (fun other member => each other (List.mem_cons_of_mem _ member))
    (placed.registers.trans (start.registers.trans long))
    (by rw [placed.counts, placed.stack, start.counts, start.stack]; exact room)
  exact ⟨first, second, f', by simp [List.foldlM_append, ran, did, loop], start, placed, rest, loop⟩

/-- The closure finds every argument. -/
theorem closureArguments_found {types : List (FfiType lp64.sizeBits)} (passed : ∀ t ∈ types, Passed t)
    {registers : List Cell} (stack : List Cell) {c : Counts} (long : registers.length = 176)
    (room : (types.foldl Counts.after c).bytes ≤ stack.length) :
    ∃ got, closureArguments registers stack c types = some got ∧ got.length = types.length ∧
      ∀ (before : List (FfiType lp64.sizeBits)) (t : FfiType lp64.sizeBits) (after : List (FfiType lp64.sizeBits))
        (e : Examined), types = before ++ t :: after → Examines t e →
        ∃ cells, got[before.length]? = some cells ∧
          Found t e registers stack (before.foldl Counts.after c) cells := by
  induction types generalizing c with
  | nil => exact ⟨[], rfl, rfl, fun before t after e none => by simp at none⟩
  | cons t rest ih =>
    obtain ⟨e, examines⟩ := (passed t (by simp)).examines
    rw [List.foldl_cons] at room
    have grows := (foldl_after_grows rest (c.after t)).2.2
    obtain ⟨cells, did, found⟩ := closureArgument_found (passed t (by simp)) examines stack long
      (grows.trans room)
    obtain ⟨others, loop, length, each⟩ := ih (fun other member => passed other (List.mem_cons_of_mem _ member)) room
    refine ⟨cells :: others, by simp [closureArguments, did, loop], by simp [length], ?_⟩
    intro before t' after e' split examines'
    cases before with
    | nil =>
      obtain ⟨rfl, _⟩ := List.cons.inj split
      obtain rfl : e = e' := Option.some.inj (examines.did.symm.trans examines'.did)
      exact ⟨cells, rfl, found⟩
    | cons first before =>
      obtain ⟨rfl, same⟩ := List.cons.inj split
      obtain ⟨cells', at_, found'⟩ := each before t' after e' same examines'
      exact ⟨cells', at_, found'⟩

/-! ## Arrival -/

/-- Every scalar of the argument has the bytes that were sent. -/
structure Arrives (t : FfiType lp64.sizeBits) (sent got : List Cell) : Prop where
  length : got.length = t.size.toNat
  scalars : ∀ s ∈ scalars t, ∀ j < s.type.size lp64, got[s.offset + j]? = sent[s.offset + j]?

/-- An argument's bytes are in the registers that it takes. -/
theorem byteSlot_owned {classes : List RegClass} {c : Counts} (moved : ∀ class_ ∈ classes, class_.moved)
    (room : Room classes c) {i : Nat} (inside : i < 8 * classes.length) :
    byteSlot classes c i < gprOffset (classes.foldl Counts.next c).gprcount ∧ byteSlot classes c i < 48 ∨
      48 ≤ byteSlot classes c i ∧ byteSlot classes c i < sseOffset (classes.foldl Counts.next c).ssecount := by
  induction classes generalizing c i with
  | nil => simp at inside
  | cons class_ rest ih =>
    have first := moved class_ (by simp)
    have tail := fun other member => moved other (List.mem_cons_of_mem class_ member)
    rw [byteSlot]
    split
    · next early =>
      have bound := room.offset_le first
      rw [List.foldl_cons, foldl_next tail]
      simp only [registerOffset, Counts.next] at bound ⊢
      cases sse : class_.isSse <;> simp only [sse, if_true, if_false, Bool.false_eq_true] at bound ⊢ <;>
        simp only [gprOffset, sseOffset] at bound ⊢ <;> omega
    · next late =>
      rw [List.length_cons] at inside
      exact ih tail (room.next first) (by omega)

/-- The saved registers are those of the call, wherever arguments are. -/
structure Saved (registers : List Cell) (f : Frame) : Prop where
  long : registers.length = 176
  gpr : ∀ p < 48, registers[p]? = f.registers[p]?
  sse : f.ssecount ≠ 0 → ∀ p, 48 ≤ p → registers[p]? = f.registers[p]?

/-- An argument arrives if none of those after it spills. -/
theorem arrives_at {t : FfiType lp64.sizeBits} {e : Examined} {sent got : List Cell} {after : Arguments}
    {f second f' : Frame} {registers : List Cell} (passed : Passed t) (examines : Examines t e)
    (length : sent.length = t.size.toNat) (placed : Placed t e sent f second) (rest : Ran after second f')
    (saved : Saved registers f') (dry : spills second.toCounts (after.map Prod.fst) = false)
    (found : Found t e registers f'.stack f.toCounts got) : Arrives t sent got := by
  refine ⟨found.length, fun s member j inside => ?_⟩
  have bounds := (scalar_inside passed.formed member).1
  have below : s.offset + j < t.size.toNat := by omega
  by_cases fits : fitsRegisters f.toCounts (psabiClasses t)
  · obtain ⟨small, room, _⟩ := examines.fits fits
    have classified := examines.classified passed small
    have stored := placed.stored fits
    have carried := classified.carries_scalar passed member inside
    rw [found.loaded fits _ below, ← stored.content _ (by omega) carried]
    have grows := (foldl_after_grows (after.map Prod.fst) second.toCounts).2.1
    rw [← rest.counts] at grows
    have owned := byteSlot_owned (i := s.offset + j) examines.moved room (by
      rw [classified.length]
      omega)
    rw [← stored.counts] at owned
    rcases owned with ⟨low, gpr⟩ | ⟨high, low⟩
    · rw [saved.gpr _ gpr, rest.gpr _ low]
    · have used : second.ssecount ≠ 0 := by
        rintro zero
        rw [zero, sseOffset] at low
        omega
      rw [saved.sse (by omega) _ high, rest.sse dry _ high low]
  · obtain ⟨_, wrote⟩ := placed.copied fits
    have read := found.onStack fits
    have next : second.bytes = roundUp f.bytes (stackAlignment t) + t.size.toNat := by
      rw [placed.counts, Counts.after, if_neg fits]
    rw [slice_get read, if_pos below, rest.kept _ (by omega), put_get wrote, if_pos (by omega),
      Nat.add_sub_cancel_left]

/-! ## Flags -/

theorem returnsInMemory_eq (flags : BitVec 32) : returnsInMemory flags = flags.getLsbD 10 := by
  have power : flagRetInMem = BitVec.twoPow 32 10 := rfl
  rw [returnsInMemory, power, BitVec.and_twoPow]
  cases flags.getLsbD 10 <;> rfl

theorem passesInXmm_eq (flags : BitVec 32) : passesInXmm flags = flags.getLsbD 11 := by
  have power : flagXmmArgs = BitVec.twoPow 32 11 := rfl
  rw [passesInXmm, power, BitVec.and_twoPow]
  cases flags.getLsbD 11 <;> rfl

theorem code_bits (ret : Unix64Ret) : ret.code.getLsbD 10 = false ∧ ret.code.getLsbD 11 = false := by
  cases ret <;> decide

theorem structFlags_bits (size : Nat) (classes : List RegClass) :
    (structFlags size classes).getLsbD 10 = false ∧ (structFlags size classes).getLsbD 11 = false := by
  have kind := code_bits
  have sized : ∀ ret : Unix64Ret, (ret.code ||| BitVec.ofNat 32 size <<< sizeShift).getLsbD 10 = false ∧
      (ret.code ||| BitVec.ofNat 32 size <<< sizeShift).getLsbD 11 = false := by
    intro ret
    rw [BitVec.getLsbD_or, BitVec.getLsbD_or, BitVec.getLsbD_shiftLeft, BitVec.getLsbD_shiftLeft,
      (kind ret).1, (kind ret).2]
    simp [sizeShift]
  simp only [structFlags]
  split
  · exact kind _
  · split
    · split <;> exact kind _
    · exact sized _

/-- The flags of a return type say nothing of the arguments. -/
theorem returnFlags_bits {rtype : FfiType lp64.sizeBits} {flags : BitVec 32} (did : returnFlags rtype = some flags) :
    flags.getLsbD 11 = false := by
  have kind := code_bits
  cases rtype with
  | basic size alignment type =>
    cases type with
    | void => exact Option.some.inj did ▸ (kind _).2
    | value c =>
      cases c with
      | int signed width =>
        cases signed <;> cases width <;> exact Option.some.inj did ▸ (kind _).2
      | float => exact Option.some.inj did ▸ (kind _).2
      | double => exact Option.some.inj did ▸ (kind _).2
      | pointer => exact Option.some.inj did ▸ (kind _).2
  | aggregate size alignment elements =>
    simp only [returnFlags, Option.map_eq_some_iff] at did
    obtain ⟨e, _, rfl⟩ := did
    split
    · decide
    · exact (structFlags_bits _ _).2

/-! ## Whole calls -/

/-- A cif that libffi has prepared for types it classifies as the psABI does, and whose stack
arguments an `unsigned` can count. -/
structure Prepared (cif : Cif lp64) (mc : MachineCif) : Prop where
  did : ffiPrepCifMachdep cif = some mc
  passed : ∀ t ∈ cif.atypes, Passed t
  fits : roundUp (cif.atypes.foldl Counts.after (Counts.start mc.flags)).bytes 8 < 2 ^ 32

section
variable {cif : Cif lp64} {mc : MachineCif}

theorem or_bit {flags mask : BitVec 32} {i : Nat} (clear : mask.getLsbD i = false) :
    (flags ||| mask).getLsbD i = flags.getLsbD i := by
  rw [BitVec.getLsbD_or, clear, Bool.or_false]

/-- The flags and the stack size are those of the allocation that starts with the flags. -/
theorem Prepared.counted (prepared : Prepared cif mc) :
    (cif.atypes.foldl Counts.after (Counts.start mc.flags)).bytes ≤ mc.bytes ∧
      passesInXmm mc.flags = ((cif.atypes.foldl Counts.after (Counts.start mc.flags)).ssecount != 0) := by
  obtain ⟨did, passed, fits⟩ := prepared
  simp only [ffiPrepCifMachdep, countArguments passed, Option.bind_eq_bind, Option.bind_eq_some_iff,
    Option.some.injEq] at did
  obtain ⟨flags, returns, final, rfl, rfl⟩ := did
  have clear := returnFlags_bits returns
  have start : Counts.start (if (cif.atypes.foldl Counts.after (Counts.start flags)).ssecount ≠ 0 then
      flags ||| flagXmmArgs else flags) = Counts.start flags := by
    split
    · rw [Counts.start, Counts.start, returnsInMemory_eq, returnsInMemory_eq, or_bit rfl]
    · rfl
  simp only [start] at fits ⊢
  refine ⟨?_, ?_⟩
  · rw [Nat.mod_eq_of_lt fits]
    exact le_roundUp _ (by omega)
  · rw [passesInXmm_eq]
    by_cases used : (cif.atypes.foldl Counts.after (Counts.start flags)).ssecount = 0
    · simp only [used, ne_eq, not_true_eq_false, if_false, clear]
      rfl
    · simp only [used, ne_eq, not_false_eq_true, if_true]
      rw [BitVec.getLsbD_or, show flagXmmArgs.getLsbD 11 = true from rfl, Bool.or_true]
      exact (bne_iff_ne.mpr used).symm

theorem foldl_after_bounds (types : List (FfiType lp64.sizeBits)) {c : Counts} (gpr : c.gprcount ≤ 6)
    (sse : c.ssecount ≤ 8) :
    (types.foldl Counts.after c).gprcount ≤ 6 ∧ (types.foldl Counts.after c).ssecount ≤ 8 := by
  induction types generalizing c with
  | nil => exact ⟨gpr, sse⟩
  | cons t rest ih =>
    rw [List.foldl_cons]
    by_cases fits : fitsRegisters c (psabiClasses t)
    · obtain ⟨_, moreGpr, moreSse⟩ := fitsRegisters_iff.mp fits
      exact ih (by rw [Counts.after, if_pos fits]; exact moreGpr) (by rw [Counts.after, if_pos fits]; exact moreSse)
    · exact ih (by rw [Counts.after, if_neg fits]; exact gpr) (by rw [Counts.after, if_neg fits]; exact sse)

/-- The frame that `ffi_call_int` starts with. -/
theorem ffiCallInt_start (residue : Residue) (mc : MachineCif) (rvalue : Pointer) :
    ∃ f, f.toCounts = Counts.start mc.flags ∧ f.registers.length = 176 ∧ f.stack.length = mc.bytes ∧
      ∀ arguments, ffiCallInt residue mc rvalue arguments = arguments.foldlM passArgument f := by
  have cells : (pointerCells lp64 rvalue).length = 8 := by
    rw [pointerCells, List.length_map, List.length_range]
    rfl
  by_cases memory : returnsInMemory mc.flags
  · obtain ⟨registers, wrote⟩ : ∃ registers, put ((List.range 176).map residue.registers) (gprOffset 0)
        (pointerCells lp64 rvalue) = some registers :=
      ⟨_, put_of_fits (by rw [cells, List.length_map, List.length_range, gprOffset]; omega)⟩
    refine ⟨{ Counts.start mc.flags with registers, stack := (List.range mc.bytes).map residue.stack }, rfl,
      ?_, by simp, fun arguments => by simp [ffiCallInt, memory, wrote]⟩
    rw [put_length wrote, List.length_map, List.length_range]
  · exact ⟨{ Counts.start mc.flags with
        registers := (List.range 176).map residue.registers
        stack := (List.range mc.bytes).map residue.stack },
      rfl, by simp, by simp, fun arguments => by simp [ffiCallInt, memory]⟩

/-- The closure's entry point saves every register that has an argument. -/
theorem savedRegisters_saved (residue : Residue) (flags : BitVec 32) {f : Frame} (long : f.registers.length = 176)
    (xmm : passesInXmm flags = (f.ssecount != 0)) : Saved (savedRegisters residue flags f) f := by
  have first : (f.registers.take 48).length = 48 := by rw [List.length_take, long]; rfl
  refine ⟨?_, fun p low => ?_, fun used p high => ?_⟩
  · rw [savedRegisters, List.length_append, first]
    split
    · rw [List.length_drop, long]
    · rw [List.length_map, List.length_range]
  · rw [savedRegisters, List.getElem?_append_left (by omega), List.getElem?_take_of_lt low]
  · rw [savedRegisters, xmm, if_pos (by simp [used]), List.getElem?_append_right (by omega), first,
      List.getElem?_drop, Nat.add_sub_cancel' high]

/-- Arguments of the sizes of their types. -/
theorem sized_zip {types : List (FfiType lp64.sizeBits)} {sent : List (List Cell)}
    (passed : ∀ t ∈ types, Passed t)
    (sizes : List.Forall₂ (fun t cells => cells.length = t.size.toNat) types sent) :
    Sized (types.zip sent) ∧ (types.zip sent).map Prod.fst = types := by
  refine ⟨?_, List.map_fst_zip (Nat.le_of_eq sizes.length_eq)⟩
  rintro ⟨t, cells⟩ member
  exact ⟨passed t (List.of_mem_zip member).1, List.forall₂_zip sizes member⟩

/-- One call, from the arguments to what the closure's function is given. -/
theorem relay_at (residue : Residue) (rvalue : Pointer) (prepared : Prepared cif mc) {before after : Arguments}
    {t : FfiType lp64.sizeBits} {sent : List Cell} {e : Examined}
    (sized : Sized (before ++ (t, sent) :: after)) (examines : Examines t e)
    (types : (before ++ (t, sent) :: after).map Prod.fst = cif.atypes) :
    ∃ f first second f' got cells, Ran before f first ∧ Placed t e sent first second ∧ Ran after second f' ∧
      f.toCounts = Counts.start mc.flags ∧ f.registers.length = 176 ∧ f.stack.length = mc.bytes ∧
      ffiCallInt residue mc rvalue (before ++ (t, sent) :: after) = some f' ∧
      after.foldlM passArgument second = some f' ∧
      relay residue mc rvalue (before ++ (t, sent) :: after) = some got ∧ got[before.length]? = some cells ∧
      Saved (savedRegisters residue mc.flags f') f' ∧
      Found t e (savedRegisters residue mc.flags f') f'.stack first.toCounts cells := by
  obtain ⟨fits, xmm⟩ := prepared.counted
  obtain ⟨f, counts, long, stack, run⟩ := ffiCallInt_start residue mc rvalue
  obtain ⟨first, second, f', loop, start, placed, rest, tail⟩ := passArguments_at sized examines long
    (by rw [types, counts, stack]; exact fits)
  have final : f'.toCounts = cif.atypes.foldl Counts.after (Counts.start mc.flags) := by
    rw [rest.counts, placed.counts, start.counts, counts, ← types]
    simp
  have registers : f'.registers.length = 176 :=
    rest.registers.trans (placed.registers.trans (start.registers.trans long))
  have saved := savedRegisters_saved residue mc.flags registers (by rw [xmm, ← final])
  have room : (cif.atypes.foldl Counts.after (Counts.start mc.flags)).bytes ≤ f'.stack.length := by
    rw [rest.stack, placed.stack, start.stack, stack]
    exact fits
  obtain ⟨got, finds, _, each⟩ := closureArguments_found prepared.passed f'.stack saved.long room
  obtain ⟨cells, at_, found⟩ := each (before.map Prod.fst) t (after.map Prod.fst) e (by rw [← types]; simp) examines
  rw [List.length_map] at at_
  rw [← counts, ← start.counts] at found
  exact ⟨f, first, second, f', got, cells, start, placed, rest, counts, long, stack, by rw [run, loop], tail,
    by simp [relay, run, loop, types, finds], at_, saved, found⟩

/-- **Memory safety of a call.** `ffi_call_int` and the closure reached by it read and write
inside the arguments, the register area and the `bytes` of stack that
`ffi_prep_cif_machdep` computed, and use no more registers than there are. -/
theorem relay_defined (residue : Residue) (rvalue : Pointer) (prepared : Prepared cif mc)
    {sent : List (List Cell)}
    (sizes : List.Forall₂ (fun t cells => cells.length = t.size.toNat) cif.atypes sent) :
    ∃ f got, ffiCallInt residue mc rvalue (cif.atypes.zip sent) = some f ∧ f.gprcount ≤ 6 ∧ f.ssecount ≤ 8 ∧
      f.bytes ≤ mc.bytes ∧ relay residue mc rvalue (cif.atypes.zip sent) = some got ∧
      List.Forall₂ (fun t cells => cells.length = t.size.toNat) cif.atypes got := by
  obtain ⟨fits, xmm⟩ := prepared.counted
  obtain ⟨sized, types⟩ := sized_zip prepared.passed sizes
  obtain ⟨f, counts, long, stack, run⟩ := ffiCallInt_start residue mc rvalue
  obtain ⟨f', loop, ran⟩ := passArguments_run sized long (by rw [types, counts, stack]; exact fits)
  have final : f'.toCounts = cif.atypes.foldl Counts.after (Counts.start mc.flags) := by
    rw [ran.counts, types, counts]
  have bounds := foldl_after_bounds cif.atypes (c := Counts.start mc.flags)
    (by simp only [Counts.start]; split <;> omega) (by simp [Counts.start])
  have saved := savedRegisters_saved residue mc.flags (ran.registers.trans long) (by rw [xmm, ← final])
  obtain ⟨got, finds, length, each⟩ := closureArguments_found prepared.passed f'.stack saved.long
    (c := Counts.start mc.flags) (by rw [ran.stack, stack]; exact fits)
  rw [← final] at bounds fits
  refine ⟨f', got, by rw [run, loop], bounds.1, bounds.2, fits, by simp [relay, run, loop, types, finds], ?_⟩
  refine List.forall₂_iff_get.mpr ⟨length.symm, fun i inTypes inGot => ?_⟩
  have split : cif.atypes = cif.atypes.take i ++ cif.atypes[i] :: cif.atypes.drop (i + 1) := by simp
  obtain ⟨e, examines⟩ := (prepared.passed _ (List.getElem_mem inTypes)).examines
  obtain ⟨cells, at_, found⟩ := each _ _ _ e split examines
  rw [List.length_take, Nat.min_eq_left (by omega), List.getElem?_eq_getElem inGot, Option.some.injEq] at at_
  rw [List.get_eq_getElem, List.get_eq_getElem, at_]
  exact found.length

/-! ## Spilling -/

theorem spills_append (before after : List (FfiType lp64.sizeBits)) (c : Counts) :
    spills c (before ++ after) = (spills c before || spills (before.foldl Counts.after c) after) := by
  induction before generalizing c with
  | nil => rfl
  | cons t rest ih => rw [List.cons_append, spills, spills, ih, List.foldl_cons, Bool.or_assoc]

theorem exists_spill {types : List (FfiType lp64.sizeBits)} {c : Counts} (wet : spills c types = true) :
    ∃ before t after, types = before ++ t :: after ∧ spillsAt (before.foldl Counts.after c) t = true := by
  induction types generalizing c with
  | nil => cases wet
  | cons t rest ih =>
    rw [spills, Bool.or_eq_true] at wet
    rcases wet with here | later
    · exact ⟨[], t, rest, rfl, here⟩
    · obtain ⟨before, t', after, rfl, there⟩ := ih later
      exact ⟨t :: before, t', after, rfl, there⟩

/-- The argument that takes the first SSE register. -/
theorem exists_first_sse {types : List (FfiType lp64.sizeBits)} {c : Counts} (none : c.ssecount = 0)
    (used : (types.foldl Counts.after c).ssecount ≠ 0) :
    ∃ before t after, types = before ++ t :: after ∧ (before.foldl Counts.after c).ssecount = 0 ∧
      ((before.foldl Counts.after c).after t).ssecount ≠ 0 := by
  induction types generalizing c with
  | nil => exact absurd none used
  | cons t rest ih =>
    by_cases first : (c.after t).ssecount = 0
    · obtain ⟨before, t', after, rfl, zero, more⟩ := ih first used
      exact ⟨t :: before, t', after, rfl, zero, more⟩
    · exact ⟨[], t, rest, rfl, none, first⟩

/-- Its first SSE eightbyte is in `sse[0]`. -/
theorem byteSlot_first_sse {classes : List RegClass} {c : Counts} (moved : ∀ class_ ∈ classes, class_.moved)
    (none : c.ssecount = 0) (some_ : 0 < classes.countP takesSse) :
    ∃ k < classes.length, byteSlot classes c (8 * k) = 48 := by
  induction classes generalizing c with
  | nil => simp at some_
  | cons class_ rest ih =>
    obtain ⟨sseIs, _⟩ := isSse_of_moved (moved class_ (by simp))
    cases sse : class_.takesSse with
    | true =>
      refine ⟨0, by simp, ?_⟩
      rw [byteSlot, if_pos (by omega), registerOffset, sseIs, sse, none]
      rfl
    | false =>
      rw [List.countP_cons, sse] at some_
      obtain ⟨k, inside, slot⟩ := ih (c := c.next class_)
        (fun other member => moved other (List.mem_cons_of_mem _ member))
        (by rw [Counts.next, sseIs, sse]; exact none) (by simpa using some_)
      exact ⟨k + 1, by simp [inside], by rw [byteSlot, if_neg (by omega)]; exact slot⟩

/-- Every argument arrives at the closure, whatever the arguments are. -/
def Delivers (cif : Cif lp64) (mc : MachineCif) : Prop :=
  ∀ (residue : Residue) (rvalue : Pointer) (sent : List (List Cell)),
    List.Forall₂ (fun t cells => cells.length = t.size.toNat) cif.atypes sent →
    ∃ got, relay residue mc rvalue (cif.atypes.zip sent) = some got ∧
      List.Forall₂ (fun argument cells => Arrives argument.1 argument.2 cells) (cif.atypes.zip sent) got

theorem delivers_of_dry (prepared : Prepared cif mc)
    (dry : spills (Counts.start mc.flags) cif.atypes = false) : Delivers cif mc := by
  intro residue rvalue sent sizes
  obtain ⟨_, got, _, _, _, _, did, lengths⟩ := relay_defined residue rvalue prepared sizes
  obtain ⟨sized, types⟩ := sized_zip prepared.passed sizes
  have same : (cif.atypes.zip sent).length = got.length := by
    rw [List.length_zip, ← sizes.length_eq, Nat.min_self, lengths.length_eq]
  refine ⟨got, did, List.forall₂_iff_get.mpr ⟨same, fun i inArguments inGot => ?_⟩⟩
  generalize cif.atypes.zip sent = arguments at *
  obtain ⟨⟨t, cells⟩, at_⟩ : ∃ argument, arguments[i] = argument := ⟨_, rfl⟩
  have split : arguments = arguments.take i ++ (t, cells) :: arguments.drop (i + 1) := by
    rw [← at_]
    simp
  obtain ⟨passed, length⟩ := sized (t, cells) (split ▸ by simp)
  obtain ⟨e, examines⟩ := passed.examines
  rw [split] at did sized types
  obtain ⟨f, first, second, f', got', found, start, placed, rest, counts, _, _, _, _, relayed, entry, saved, finds⟩ :=
    relay_at residue rvalue prepared sized examines types
  obtain rfl := Option.some.inj (did.symm.trans relayed)
  have later : spills second.toCounts ((arguments.drop (i + 1)).map Prod.fst) = false := by
    rw [← types, List.map_append, spills_append, List.map_cons, spills, Bool.or_eq_false_iff,
      Bool.or_eq_false_iff] at dry
    rw [placed.counts, start.counts, counts]
    exact dry.2.2
  rw [List.length_take, Nat.min_eq_left (by omega), List.getElem?_eq_getElem inGot, Option.some.injEq] at entry
  rw [List.get_eq_getElem, List.get_eq_getElem, at_, entry]
  exact arrives_at passed examines length placed rest saved later finds

/-- Arguments of zeros keep a zero at the start of `sse[0]`, once there is one. -/
theorem Ran.keeps_zero {arguments : Arguments} {f f' : Frame} (sized : Sized arguments)
    (zero : ∀ argument ∈ arguments, ∀ i < argument.2.length, argument.2[i]? = some (.byte 0))
    (long : f.registers.length = 176) (used : f.ssecount ≠ 0) (before : f.registers[48]? = some (.byte 0))
    (room : ((arguments.map Prod.fst).foldl Counts.after f.toCounts).bytes ≤ f.stack.length)
    (did : arguments.foldlM passArgument f = some f') : f'.registers[48]? = some (.byte 0) := by
  induction arguments generalizing f with
  | nil =>
    obtain rfl : f = f' := by simpa using did
    exact before
  | cons argument rest ih =>
    obtain ⟨t, sent⟩ := argument
    obtain ⟨passed, length⟩ := sized (t, sent) (by simp)
    obtain ⟨e, examines⟩ := passed.examines
    rw [List.map_cons, List.foldl_cons] at room
    have grows := (foldl_after_grows (rest.map Prod.fst) (f.toCounts.after t)).2.2
    obtain ⟨between, one, placed⟩ := passArgument_placed passed examines length long (grows.trans room)
    have loop : rest.foldlM passArgument between = some f' := by simpa [one] using did
    refine ih (fun other member => sized other (List.mem_cons_of_mem _ member))
      (fun other member => zero other (List.mem_cons_of_mem _ member)) (placed.registers.trans long) ?_ ?_
      (by rw [placed.counts, placed.stack]; exact room) loop
    · have more := (after_grows f.toCounts t).2.1
      rw [← placed.counts] at more
      omega
    · cases wet : spillsAt f.toCounts t with
      | false =>
        rw [(placed.keeps passed examines length).2.1 wet 48 (by omega) (by rw [sseOffset]; omega), before]
      | true => exact placed.spilled examines passed length wet ▸ zero (t, sent) (by simp) 8 (by
          have long := spilled_size wet
          rw [length]
          exact long)

/-- After a spill of zeros, and with zeros from there on, `sse[0]` starts with a zero. -/
theorem spilled_zero {residue : Residue} {rvalue : Pointer} (prepared : Prepared cif mc)
    (before : Arguments) {after : Arguments} {t : FfiType lp64.sizeBits} {sent : List Cell} {f' : Frame}
    (sized : Sized (before ++ (t, sent) :: after))
    (types : (before ++ (t, sent) :: after).map Prod.fst = cif.atypes)
    (wet : spillsAt ((before.map Prod.fst).foldl Counts.after (Counts.start mc.flags)) t = true)
    (zero : ∀ argument ∈ (t, sent) :: after, ∀ i < argument.2.length, argument.2[i]? = some (.byte 0))
    (did : ffiCallInt residue mc rvalue (before ++ (t, sent) :: after) = some f') :
    f'.registers[48]? = some (.byte 0) := by
  have each := fun other member => sized other (List.mem_append_right before member)
  obtain ⟨passed, length⟩ := each (t, sent) (by simp)
  obtain ⟨e, examines⟩ := passed.examines
  obtain ⟨f, first, second, final, _, _, start, placed, rest, counts, long, stack, whole, tail, _⟩ :=
    relay_at residue rvalue prepared sized examines types
  obtain rfl := Option.some.inj (did.symm.trans whole)
  rw [← counts, ← start.counts] at wet
  have used : first.ssecount ≠ 0 := by
    simp only [spillsAt, Bool.and_eq_true, decide_eq_true_eq] at wet
    exact wet.2
  have more := (after_grows first.toCounts t).2.1
  rw [← placed.counts] at more
  have here : second.registers[48]? = some (.byte 0) := by
    rw [placed.spilled examines passed length wet]
    exact zero (t, sent) (by simp) 8 (length ▸ spilled_size wet)
  refine Ran.keeps_zero (fun other member => each other (List.mem_cons_of_mem _ member))
    (fun other member => zero other (List.mem_cons_of_mem _ member))
    (placed.registers.trans (start.registers.trans long)) (by omega) here ?_ tail
  have room := prepared.counted.1
  rw [← types, List.map_append, List.foldl_append, List.map_cons, List.foldl_cons, ← counts, ← start.counts] at room
  rw [placed.counts, placed.stack, start.stack, stack]
  exact room

/-- The bytes of an argument that are all the same. -/
def filled (value : BitVec 8) (types : List (FfiType lp64.sizeBits)) : Arguments :=
  types.map fun t => (t, List.replicate t.size.toNat (.byte value))

theorem mem_filled {value : BitVec 8} (types : List (FfiType lp64.sizeBits))
    {argument : FfiType lp64.sizeBits × List Cell} (member : argument ∈ filled value types) :
    argument.1 ∈ types ∧ argument.2 = List.replicate argument.1.size.toNat (.byte value) := by
  obtain ⟨t, inside, rfl⟩ := List.mem_map.mp member
  exact ⟨inside, rfl⟩

theorem filled_fst (value : BitVec 8) (types : List (FfiType lp64.sizeBits)) :
    (filled value types).map Prod.fst = types := by
  simp [filled, Function.comp_def]

theorem forall₂_middle {α β : Type*} {R : α → β → Prop} {before after : List α} {a : α} {bs : List β} {b : β}
    (all : List.Forall₂ R (before ++ a :: after) bs) (found : bs[before.length]? = some b) : R a b := by
  obtain ⟨inside, rfl⟩ := List.getElem?_eq_some_iff.mp found
  have related := (List.forall₂_iff_get.mp all).2 before.length (by simp) inside
  simpa using related

theorem dry_of_delivers (prepared : Prepared cif mc) (delivers : Delivers cif mc) :
    spills (Counts.start mc.flags) cif.atypes = false := by
  rw [← Bool.not_eq_true]
  intro wet
  obtain ⟨before, t, after, split, wet⟩ := exists_spill wet
  have used : (before.foldl Counts.after (Counts.start mc.flags)).ssecount ≠ 0 := by
    simp only [spillsAt, Bool.and_eq_true, decide_eq_true_eq] at wet
    exact wet.2
  obtain ⟨early, u, late, rfl, zero, more⟩ := exists_first_sse (by rfl) used
  -- ones are sent up to the argument that spills, and zeros from there on
  have types : (filled 1 (early ++ u :: late) ++ filled 0 (t :: after)).map Prod.fst = cif.atypes := by
    rw [List.map_append, filled_fst, filled_fst, split]
  have sized : Sized (filled 1 (early ++ u :: late) ++ filled 0 (t :: after)) := by
    intro argument member
    have typed : argument.1 ∈ cif.atypes := types ▸ List.mem_map_of_mem member
    rcases List.mem_append.mp member with first | second
    · exact ⟨prepared.passed _ typed, by rw [(mem_filled _ first).2, List.length_replicate]⟩
    · exact ⟨prepared.passed _ typed, by rw [(mem_filled _ second).2, List.length_replicate]⟩
  obtain ⟨got, did, arrive⟩ := delivers ⟨fun _ => .byte 0, fun _ => .byte 0, fun _ => .byte 0⟩ ⟨0, 0⟩
    ((filled 1 (early ++ u :: late) ++ filled 0 (t :: after)).map Prod.snd) (by
      rw [← types, List.forall₂_map_left_iff, List.forall₂_map_right_iff]
      exact List.forall₂_same.mpr fun argument member => (sized argument member).2)
  have zipped : cif.atypes.zip ((filled 1 (early ++ u :: late) ++ filled 0 (t :: after)).map Prod.snd) =
      filled 1 (early ++ u :: late) ++ filled 0 (t :: after) := by
    rw [← types, List.zip_map', List.map_id']
  rw [zipped] at did arrive
  -- the argument in `sse[0]` is given the zero
  have inView : filled 1 (early ++ u :: late) ++ filled 0 (t :: after) =
      filled 1 early ++ (u, List.replicate u.size.toNat (.byte 1)) :: (filled 1 late ++ filled 0 (t :: after)) := by
    simp [filled]
  have passed : Passed u := (sized (u, List.replicate u.size.toNat (.byte 1)) (inView ▸ by simp)).1
  obtain ⟨e, examines⟩ := passed.examines
  have sizedView := inView ▸ sized
  have typesView := inView ▸ types
  obtain ⟨f, first, second, f', got', cells, start, placed, rest, counts, _, _, whole, _, relayed, entry, saved,
    found⟩ := relay_at _ _ prepared sizedView examines typesView
  rw [← inView] at whole relayed
  obtain rfl := Option.some.inj (did.symm.trans relayed)
  have position : first.toCounts = early.foldl Counts.after (Counts.start mc.flags) := by
    rw [start.counts, counts, filled_fst]
  have zeroed : f'.registers[48]? = some (.byte 0) := by
    refine spilled_zero prepared (filled 1 (early ++ u :: late)) sized types
      (by rw [filled_fst]; exact wet) (fun argument member i inside => ?_) whole
    rw [(mem_filled (t :: after) member).2] at inside ⊢
    rw [List.getElem?_replicate, if_pos (by simpa using inside)]
  have fits : fitsRegisters first.toCounts (psabiClasses u) = true := by
    rw [position]
    by_contra full
    rw [Counts.after, if_neg full] at more
    exact more zero
  obtain ⟨small, room, _⟩ := examines.fits fits
  have classified := examines.classified passed small
  rw [← position] at more zero
  have sse : 0 < e.classes.countP takesSse := by
    rw [Counts.after, if_pos fits] at more
    change first.ssecount + (psabiClasses u).count .sse ≠ 0 at more
    rw [zero, Nat.zero_add] at more
    rw [examines.countP.2]
    exact Nat.pos_of_ne_zero more
  obtain ⟨k, inside, slot⟩ := byteSlot_first_sse examines.moved zero sse
  rw [classified.length] at inside
  obtain ⟨s, member, at_⟩ := passed.formed.eightbyte_starts (k := k) (by omega)
  have arrived := forall₂_middle (inView ▸ arrive) entry
  have one := arrived.scalars s member 0 (size_le_eight s.type).2
  have final : f'.ssecount ≠ 0 := by
    have grows := (foldl_after_grows ((filled 1 late ++ filled 0 (t :: after)).map Prod.fst) second.toCounts).2.1
    rw [← rest.counts, placed.counts] at grows
    omega
  rw [Nat.add_zero, at_, found.loaded fits _ (by omega), slot, saved.sse final 48 (by omega), zeroed,
    List.getElem?_replicate, if_pos (by omega)] at one
  cases one

/-- **What `ffi_call` passes is what a closure finds**, scalar for scalar and for all values,
exactly when no argument spills. -/
theorem relay_delivers_iff (prepared : Prepared cif mc) :
    Delivers cif mc ↔ spills (Counts.start mc.flags) cif.atypes = false :=
  ⟨dry_of_delivers prepared, delivers_of_dry prepared⟩

end

/-- `void (double, int64_t × count, struct { int64_t; double; })`. -/
def longsCif (count : Nat) : Cif lp64 where
  rtype := ffiTypeVoid lp64
  atypes := CType.double.ffiType lp64 :: List.replicate count (CType.ffiType lp64 (.int true .w64)) ++ [longDoubleType]

def longsMachine (bytes : Nat) : MachineCif := ⟨Unix64Ret.void.code ||| flagXmmArgs, bytes⟩

theorem longs_passed (count : Nat) : ∀ t ∈ (longsCif count).atypes, Passed t := by
  intro t member
  simp only [longsCif, List.cons_append, List.mem_cons, List.mem_append, List.not_mem_nil, or_false] at member
  rcases member with rfl | member | rfl
  · exact ⟨.scalar _, rfl⟩
  · obtain rfl := List.eq_of_mem_replicate member
    exact ⟨.scalar _, rfl⟩
  · exact ⟨longDouble_formed, rfl⟩

/-- With four integers the struct has two registers, with six it is on the stack. -/
theorem longs_prepared : Prepared (longsCif 4) (longsMachine 0) ∧ Prepared (longsCif 5) (longsMachine 0) ∧
    Prepared (longsCif 6) (longsMachine 16) :=
  ⟨⟨by rfl, longs_passed 4, by decide⟩, ⟨by rfl, longs_passed 5, by decide⟩, ⟨by rfl, longs_passed 6, by decide⟩⟩

theorem longs_defined : ∃ f got,
    ffiCallInt ⟨fun _ => .byte 0, fun _ => .byte 0, fun _ => .byte 0⟩ (longsMachine 16) ⟨0, 0⟩
      ((longsCif 6).atypes.zip ((longsCif 6).atypes.map fun t => zeros t.size.toNat)) = some f ∧
    f.gprcount ≤ 6 ∧ f.ssecount ≤ 8 ∧ f.bytes ≤ 16 ∧
    relay ⟨fun _ => .byte 0, fun _ => .byte 0, fun _ => .byte 0⟩ (longsMachine 16) ⟨0, 0⟩
      ((longsCif 6).atypes.zip ((longsCif 6).atypes.map fun t => zeros t.size.toNat)) = some got ∧
    List.Forall₂ (fun t cells => cells.length = t.size.toNat) (longsCif 6).atypes got := by
  refine relay_defined _ _ longs_prepared.2.2 ?_
  rw [List.forall₂_map_right_iff, List.forall₂_same]
  simp [zeros]

/-- Only the struct that takes the last general register destroys the `double`. -/
theorem longs_delivers : Delivers (longsCif 4) (longsMachine 0) ∧ ¬ Delivers (longsCif 5) (longsMachine 0) ∧
    Delivers (longsCif 6) (longsMachine 16) :=
  ⟨(relay_delivers_iff longs_prepared.1).mpr (by decide),
    fun delivers => absurd ((relay_delivers_iff longs_prepared.2.1).mp delivers) (by decide),
    (relay_delivers_iff longs_prepared.2.2).mpr (by decide)⟩

end NodeFfi
