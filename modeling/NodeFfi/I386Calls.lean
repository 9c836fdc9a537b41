import NodeFfi.I386Frames
import Mathlib.Data.List.Nodup

/-! A call of a closure on 32-bit x86 delivers the arguments and the result, but for the two
conventions that fill the stack from its end: no closure of `FFI_REGISTER` finds itself, and with
`FFI_PASCAL` a result in memory is written to no pointer of the caller's. -/
namespace NodeFfi.I386
open AlignedLayout BlockMemory PartialPrograms

variable {m : DataModel} {abi : Abi} {base : Nat}

/-! ## Places -/

/-- Where an argument is. -/
inductive Place where
  | reg (r : Reg)
  | stack (offset : Nat)

def Frame.get (frame : Frame) (count : Nat) : Place → Option (List Cell)
  | .reg r => slice (frame.regs r) 0 count
  | .stack offset => slice frame.stack offset count

def Frame.put (frame : Frame) (val : List Cell) : Place → Option Frame
  | .reg r => some { frame with regs := Function.update frame.regs r val }
  | .stack offset => (BlockMemory.put frame.stack offset val).map fun stack => { frame with stack }

/-- Where both loops have an argument, and how they go on. -/
def nextPlace (abi : Abi) (base : Nat) (ty : FfiType m.sizeBits) (walk : Walk) : Option (Place × Walk) :=
  match smallCode ty with
  | some code =>
    match nextReg abi walk.nargReg code with
    | some r => some (.reg r, ⟨walk.nargReg + 1, walk.argp⟩)
    | none => (nextSlot abi base walk.argp 4 1).map fun (offset, argp) => (.stack offset, ⟨walk.nargReg, argp⟩)
  | none => (nextSlot abi base walk.argp (roundUp ty.size.toNat 4) (largeAlign ty)).map fun (offset, argp) =>
      (.stack offset, ⟨if endsRegs abi ty then 2 else walk.nargReg, argp⟩)

/-- An argument as it is passed. -/
def widened (ty : FfiType m.sizeBits) (cells : List Cell) : List Cell :=
  match smallCode ty with
  | some (.value (.int signed _)) => extended signed cells
  | _ => cells

/-- A type of an argument: not `void`, and laid out. -/
structure Passes (ty : FfiType m.sizeBits) : Prop where
  predefined : Predefined ty
  value : ∀ size alignment, ty ≠ .basic size alignment .void
  aligned : 0 < ty.alignment ∧ ty.alignment < 16

variable {ty : FfiType m.sizeBits} {rest : List (FfiType m.sizeBits)} {walk walk' : Walk} {frame frame' : Frame}
  {place other : Place} {cells : List Cell} {w : World m} {valp : Pointer}

theorem receive_eq : receive abi base ty walk frame =
    (nextPlace abi base ty walk).bind fun (place, walk) =>
      (frame.get ty.size.toNat place).map fun cells => (cells, walk) := by
  rw [receive, nextPlace]
  cases smallCode ty with
  | some code =>
    dsimp only
    cases nextReg abi walk.nargReg code with
    | some r =>
      simp only [Option.bind_eq_bind, Option.bind_some, Frame.get]
      cases slice (frame.regs r) 0 ty.size.toNat <;> rfl
    | none =>
      cases nextSlot abi base walk.argp 4 1 with
      | none => rfl
      | some found =>
        simp only [Option.bind_eq_bind, Option.bind_some, Option.map_some, Frame.get]
        cases slice frame.stack found.1 ty.size.toNat <;> rfl
  | none =>
    dsimp only
    cases nextSlot abi base walk.argp (roundUp ty.size.toNat 4) (largeAlign ty) with
    | none => rfl
    | some found =>
      simp only [Option.bind_eq_bind, Option.bind_some, Option.map_some, Frame.get]
      cases slice frame.stack found.1 ty.size.toNat <;> rfl

theorem smallCode_eq_some {code : FfiTypeCode} : smallCode ty = some code ↔
    ∃ size alignment, ty = .basic size alignment code ∧ size.toNat ≤ 4 := by
  cases ty with
  | aggregate size alignment elements => simp [smallCode]
  | basic size alignment type =>
    by_cases small : size.toNat ≤ 4
    · simp only [smallCode, if_pos small, Option.some.injEq, FfiType.basic.injEq]
      constructor
      · rintro rfl
        exact ⟨size, alignment, ⟨rfl, rfl, rfl⟩, small⟩
      · rintro ⟨_, _, ⟨_, _, rfl⟩, _⟩
        rfl
    · simp only [smallCode, if_neg small, FfiType.basic.injEq, false_iff, not_exists, not_and, reduceCtorEq]
      rintro _ _ ⟨rfl, _, _⟩
      exact small

theorem small_size {code : FfiTypeCode} (small : smallCode ty = some code) : ty.size.toNat ≤ 4 := by
  obtain ⟨size, alignment, rfl, fits⟩ := smallCode_eq_some.mp small
  exact fits

/-- A small argument is one word after `extend_basic_type`. -/
theorem exec_extendBasicType (passes : Passes ty) (pointer : m.pointer = .four) {code : FfiTypeCode}
    (small : smallCode ty = some code) : exec (extendBasicType valp code) w =
      ((load w.memory valp ty.size.toNat).map (widened ty)).map fun val => (val, w) := by
  obtain ⟨size, alignment, rfl, fits⟩ := smallCode_eq_some.mp small
  have held : ∀ (count : Nat) (signed : Bool), exec (do return extended signed (← read valp count)) w =
      ((load w.memory valp count).map (extended signed)).map fun val => (val, w) := by
    intro count signed
    cases loaded : load w.memory valp count with
    | none => exact exec_bind_none (by rw [exec_read, loaded]; rfl)
    | some cells => exact exec_bind (by rw [exec_read, loaded]; rfl)
  have four : ∀ cells : List Cell, cells.length = 4 → ∀ signed, extended signed cells = cells := by
    intro cells length signed
    rw [extended, length]
    exact List.append_nil cells
  have itself : ∀ t : FfiType m.sizeBits, (∀ signed width, smallCode t ≠ some (.value (.int signed width))) →
      ∀ cells, widened t cells = cells := by
    intro t other cells
    unfold widened
    split
    · next is => exact absurd is (other _ _)
    · rfl
  cases code with
  | void => exact absurd rfl (passes.value size alignment)
  | value c =>
    have sized : size.toNat = c.size m := passes.predefined
    change exec (extendBasicType valp (.value c)) w =
      ((load w.memory valp size.toNat).map (widened (.basic size alignment (.value c)))).map fun val => (val, w)
    cases c with
    | int signed width =>
      have widens : widened (.basic size alignment (.value (.int signed width)) : FfiType m.sizeBits) =
          extended signed := by
        funext cells
        simp only [widened, small]
      rw [widens, sized]
      cases width with
      | w8 => exact held 1 signed
      | w16 => exact held 2 signed
      | w32 =>
        refine exec_read.trans ?_
        cases loaded : load w.memory valp (CType.size m (.int signed .w32)) with
        | none => rw [show load w.memory valp 4 = none from loaded]; rfl
        | some cells =>
          rw [show load w.memory valp 4 = some cells from loaded, Option.map_some, Option.map_some, Option.map_some,
            four cells (load_length loaded)]
      | w64 =>
        have eight : CType.size m (.int signed .w64) = 8 := rfl
        omega
    | float =>
      rw [funext (itself _ (by simp [small])), Option.map_id', sized]
      exact exec_read
    | double =>
      have eight : CType.size m .double = 8 := rfl
      omega
    | pointer =>
      rw [funext (itself _ (by simp [small])), Option.map_id', sized, CType.size_pointer, pointer]
      exact exec_read

/-- An argument is passed by putting it where it belongs. -/
theorem exec_pass (passes : Passes ty) (pointer : m.pointer = .four) :
    exec (pass abi base ty valp walk frame) w = ((load w.memory valp ty.size.toNat).map (widened ty)).bind fun val =>
      (nextPlace abi base ty walk).bind fun (place, walk) =>
        (frame.put val place).map fun frame => ((walk, frame), w) := by
  rw [pass, nextPlace]
  cases small : smallCode ty with
  | some code =>
    dsimp only
    rw [exec_bind_reads (exec_extendBasicType passes pointer small)]
    cases (load w.memory valp ty.size.toNat).map (widened ty) with
    | none => rfl
    | some val =>
      simp only [Option.bind_some]
      cases nextReg abi walk.nargReg code with
      | some r => rfl
      | none =>
        cases nextSlot abi base walk.argp 4 1 with
        | none => rfl
        | some found =>
          refine (exec_bind (exec_defined rfl)).trans ?_
          simp only [Option.bind_some, Option.map_some, Frame.put]
          cases put frame.stack found.1 val <;> rfl
  | none =>
    dsimp only
    have itself : widened ty = id := by
      funext cells
      simp only [widened, small, id_eq]
    rw [itself, Option.map_id_fun, id_eq]
    cases nextSlot abi base walk.argp (roundUp ty.size.toNat 4) (largeAlign ty) with
    | none => cases load w.memory valp ty.size.toNat <;> rfl
    | some found =>
      refine (exec_bind (exec_defined rfl)).trans ((exec_bind_reads exec_read).trans ?_)
      cases load w.memory valp ty.size.toNat with
      | none => rfl
      | some cells =>
        simp only [Option.bind_some, Option.map_some, Frame.put]
        cases put frame.stack found.1 cells <;> rfl

/-! ## Room -/

/-- What the arguments take of the stack at most. -/
def room : List (FfiType m.sizeBits) → Nat
  | [] => 0
  | t :: rest => roundUp t.size.toNat 4 + room rest

/-- A place that the walk has left behind. -/
def Passed (abi : Abi) (walk : Walk) (count : Nat) : Place → Prop
  | .reg r => ∃ k < walk.nargReg, abi.params.regs[k]? = some r
  | .stack offset => if abi.params.downward then walk.argp ≤ offset else offset + count ≤ walk.argp

/-- Places that have nothing in common. -/
def Apart (count : Nat) (place : Place) (length : Nat) : Place → Prop
  | .reg r => place ≠ .reg r
  | .stack offset => ∀ start, place = .stack start → start + count ≤ offset ∨ offset + length ≤ start

theorem get_put_same {val : List Cell} (did : frame.put val place = some frame') {count : Nat}
    (enough : count ≤ val.length) : frame'.get count place = some (val.take count) := by
  cases place with
  | reg r =>
    obtain rfl := Option.some.inj did
    simp only [Frame.get, Function.update_self]
    exact slice_take enough
  | stack offset =>
    obtain ⟨stack, written, rfl⟩ := Option.map_eq_some_iff.mp did
    exact slice_put written enough

theorem get_put_apart {val : List Cell} (did : frame.put val other = some frame') {count : Nat}
    (apart : Apart count place val.length other) : frame'.get count place = frame.get count place := by
  cases other with
  | reg r =>
    obtain rfl := Option.some.inj did
    cases place with
    | stack offset => rfl
    | reg r' =>
      have different : r' ≠ r := fun same => apart (by rw [same])
      simp only [Frame.get, Function.update_of_ne different]
  | stack offset =>
    obtain ⟨stack, written, rfl⟩ := Option.map_eq_some_iff.mp did
    cases place with
    | reg r => rfl
    | stack start =>
      exact slice_put_apart written (apart start rfl)

/-- The walk has room for the types on a stack, and has not run past the registers. -/
structure Ready (abi : Abi) (stack : Nat) (types : List (FfiType m.sizeBits)) (walk : Walk) : Prop where
  regs : abi = .thiscall ∨ abi = .fastcall → walk.nargReg ≤ 2
  down : abi.params.downward = true → room types ≤ walk.argp ∧ walk.argp ≤ stack
  up : abi.params.downward = false → 4 ∣ walk.argp ∧ walk.argp + room types ≤ stack

/-- What the next argument takes is on the stack, and apart from all before it. -/
structure Advances (abi : Abi) (stack length : Nat) (walk : Walk) (place : Place) (walk' : Walk) : Prop where
  inside : ∀ offset, place = .stack offset → offset + length ≤ stack
  passed : Passed abi walk' length place
  keeps : ∀ other count, Passed abi walk count other → Passed abi walk' count other ∧ Apart count other length place

variable {stack : Nat}

theorem nextSlot_advances {size align argp : Nat} (aligned : 4 ∣ base) (align_dvd : align = 1 ∨ align = 4)
    (down : abi.params.downward = true → size ≤ argp) (up : abi.params.downward = false → 4 ∣ argp) :
    nextSlot abi base argp size align = some (if abi.params.downward then (argp - size, argp - size)
      else (argp, argp + size)) := by
  rw [nextSlot]
  cases direction : abi.params.downward with
  | true => rw [if_pos rfl, if_pos (down direction), if_pos rfl]
  | false =>
    have multiple : align ∣ base + argp := by
      rcases align_dvd with rfl | rfl
      · exact Nat.one_dvd _
      · exact Nat.dvd_add aligned (up direction)
    have positive : 0 < align := by omega
    rw [if_neg Bool.false_ne_true, Shape.roundUp_of_dvd positive multiple, Nat.add_sub_cancel_left, if_neg Bool.false_ne_true]

theorem roundUp_small {size : Nat} (positive : 0 < size) (small : size ≤ 4) : roundUp size 4 = 4 := by
  rw [roundUp]
  omega

theorem Passes.size_pos (passes : Passes ty) {code : FfiTypeCode} (small : smallCode ty = some code) :
    0 < ty.size.toNat := by
  obtain ⟨size, alignment, rfl, fits⟩ := smallCode_eq_some.mp small
  cases code with
  | void => exact absurd rfl (passes.value size alignment)
  | value c =>
    have sized : size.toNat = c.size m := passes.predefined
    change 0 < size.toNat
    rw [sized]
    exact c.size_pos m

/-- A step over the stack. -/
theorem slot_advances {length nargReg : Nat} (more : walk.nargReg ≤ nargReg)
    (limit : abi = .thiscall ∨ abi = .fastcall → nargReg ≤ 2) (multiple : 4 ∣ length)
    (ready : Ready abi stack (ty :: rest) walk) (takes : roundUp ty.size.toNat 4 = length) :
    ∀ found, found = (if abi.params.downward then (walk.argp - length, walk.argp - length)
        else (walk.argp, walk.argp + length)) →
      Ready abi stack rest ⟨nargReg, found.2⟩ ∧
        Advances abi stack length walk (.stack found.1) ⟨nargReg, found.2⟩ := by
  rintro found rfl
  have whole : room (ty :: rest) = length + room rest := by simp [room, takes]
  have registers : ∀ r, (∃ k < walk.nargReg, abi.params.regs[k]? = some r) →
      ∃ k < nargReg, abi.params.regs[k]? = some r := by
    rintro r ⟨k, before, is⟩
    exact ⟨k, by omega, is⟩
  cases direction : abi.params.downward with
  | true =>
    obtain ⟨enough, bound⟩ := ready.down direction
    rw [if_pos rfl]
    refine ⟨⟨limit, fun _ => ⟨by dsimp only; omega, by dsimp only; omega⟩, fun up => ?_⟩, ⟨?_, ?_, ?_⟩⟩
    · rw [direction] at up
      cases up
    · rintro offset ⟨⟩
      omega
    · simp [Passed, direction]
    · rintro (r | offset) count passed
      · exact ⟨registers r passed, nofun⟩
      · rw [Passed, if_pos direction] at passed
        refine ⟨?_, ?_⟩
        · rw [Passed, if_pos direction]
          dsimp only
          omega
        · rintro start ⟨⟩
          omega
  | false =>
    obtain ⟨dvd, enough⟩ := ready.up direction
    rw [if_neg Bool.false_ne_true]
    refine ⟨⟨limit, fun down => ?_, fun _ => ⟨Nat.dvd_add dvd multiple, by dsimp only; omega⟩⟩, ⟨?_, ?_, ?_⟩⟩
    · rw [direction] at down
      cases down
    · rintro offset ⟨⟩
      omega
    · simp [Passed, direction]
    · rintro (r | offset) count passed
      · exact ⟨registers r passed, nofun⟩
      · rw [Passed, if_neg (by simp [direction])] at passed
        refine ⟨?_, ?_⟩
        · rw [Passed, if_neg (by simp [direction])]
          dsimp only
          omega
        · rintro start ⟨⟩
          omega

theorem endsRegs_abi (ends : endsRegs abi ty = true) : abi = .thiscall ∨ abi = .fastcall := by
  cases ty with
  | aggregate size alignment elements => simpa [endsRegs] using ends
  | basic size alignment type =>
    rcases type with _ | c
    · cases ends
    · rcases c with ⟨_, _ | _ | _ | _⟩ | _ | _ | _
      · cases ends
      · cases ends
      · cases ends
      · simpa [endsRegs] using ends
      · cases ends
      · cases ends
      · cases ends

/-- The registers of a convention are different ones. -/
theorem regs_distinct {i j : Nat} {r : Reg} (before : i < j) (first : abi.params.regs[i]? = some r) :
    abi.params.regs[j]? ≠ some r := by
  have distinct : abi.params.regs.Nodup := by cases abi <;> decide
  intro second
  have inside := (List.getElem?_eq_some_iff.mp second).1
  exact List.nodup_iff_getElem?_ne_getElem?.mp distinct i j before inside (first.trans second.symm)

/-- An argument in a register. -/
theorem register_advances {r : Reg} (is : abi.params.regs[walk.nargReg]? = some r)
    (ready : Ready abi stack (ty :: rest) walk) (length : Nat) :
    Ready abi stack rest ⟨walk.nargReg + 1, walk.argp⟩ ∧
      Advances abi stack length walk (.reg r) ⟨walk.nargReg + 1, walk.argp⟩ := by
  have whole : room (ty :: rest) = roundUp ty.size.toNat 4 + room rest := by simp [room]
  have bound := (List.getElem?_eq_some_iff.mp is).1
  refine ⟨⟨?_, fun down => ?_, fun up => ?_⟩, ⟨nofun, ⟨walk.nargReg, Nat.lt_succ_self _, is⟩, ?_⟩⟩
  · rintro (rfl | rfl)
    · exact Nat.le_trans bound (by decide)
    · exact bound
  · obtain ⟨enough, fits⟩ := ready.down down
    exact ⟨by dsimp only; omega, fits⟩
  · obtain ⟨dvd, enough⟩ := ready.up up
    exact ⟨dvd, by dsimp only; omega⟩
  · rintro (r' | offset) count passed
    · obtain ⟨k, before, other⟩ := passed
      refine ⟨⟨k, Nat.lt_succ_of_lt before, other⟩, ?_⟩
      rintro ⟨⟩
      exact regs_distinct before other is
    · exact ⟨passed, nofun⟩

/-- Where the next argument is put. -/
theorem nextPlace_advances (passes : Passes ty) (aligned : 4 ∣ base) (ready : Ready abi stack (ty :: rest) walk) :
    ∃ place walk', nextPlace abi base ty walk = some (place, walk') ∧ Ready abi stack rest walk' ∧
      Advances abi stack (roundUp ty.size.toNat 4) walk place walk' := by
  have whole : room (ty :: rest) = roundUp ty.size.toNat 4 + room rest := by simp [room]
  have slot : ∀ align, align = 1 ∨ align = 4 →
      nextSlot abi base walk.argp (roundUp ty.size.toNat 4) align =
        some (if abi.params.downward then
          (walk.argp - roundUp ty.size.toNat 4, walk.argp - roundUp ty.size.toNat 4)
        else (walk.argp, walk.argp + roundUp ty.size.toNat 4)) := by
    intro align either
    refine nextSlot_advances aligned either (fun down => ?_) fun up => ?_
    · obtain ⟨enough, bound⟩ := ready.down down
      omega
    · exact (ready.up up).1
  have multiple : 4 ∣ roundUp ty.size.toNat 4 := dvd_roundUp _ _
  rw [nextPlace]
  cases small : smallCode ty with
  | some code =>
    dsimp only
    cases register : nextReg abi walk.nargReg code with
    | some r =>
      have is : abi.params.regs[walk.nargReg]? = some r := by
        rw [nextReg] at register
        split at register
        · cases register
        · exact register
      exact ⟨_, _, rfl, register_advances is ready _⟩
    | none =>
      have four : roundUp ty.size.toNat 4 = 4 := roundUp_small (passes.size_pos small) (small_size small)
      have found := slot 1 (.inl rfl)
      rw [four] at found
      dsimp only
      rw [found]
      refine ⟨_, _, rfl, ?_⟩
      have advances := slot_advances (Nat.le_refl _) ready.regs multiple ready rfl _ rfl
      rw [four] at advances ⊢
      exact advances
  | none =>
    have align : largeAlign ty = 4 := by
      cases ty with
      | basic size alignment type => rfl
      | aggregate size alignment elements => exact if_neg (Nat.not_le_of_lt passes.aligned.2)
    dsimp only
    rw [align, slot 4 (.inr rfl)]
    refine ⟨_, _, rfl, slot_advances ?_ ?_ multiple ready rfl _ rfl⟩
    · split
      · next ends => exact ready.regs (endsRegs_abi ends)
      · exact Nat.le_refl _
    · intro either
      split
      · exact Nat.le_refl 2
      · exact ready.regs either

/-! ## The loops -/

theorem widened_cells (passes : Passes ty) (length : cells.length = ty.size.toNat) :
    (widened ty cells).length ≤ roundUp ty.size.toNat 4 ∧ cells.length ≤ (widened ty cells).length ∧
      (widened ty cells).take ty.size.toNat = cells := by
  have least : ty.size.toNat ≤ roundUp ty.size.toNat 4 := le_roundUp _ (by omega)
  rw [widened]
  split
  · next signed width small =>
    have fits := small_size small
    rw [roundUp_small (passes.size_pos small) fits]
    refine ⟨?_, ?_, ?_⟩
    · simp only [extended, List.length_append, List.length_replicate]
      omega
    · simp [extended]
    · rw [extended, ← length, List.take_left]
  · have whole : cells.take ty.size.toNat = cells := by rw [← length, List.take_length]
    exact ⟨by omega, Nat.le_refl _, whole⟩

theorem Passed.mono {count less : Nat} (passed : Passed abi walk count place) (le : less ≤ count) :
    Passed abi walk less place := by
  cases place with
  | reg r => exact passed
  | stack offset =>
    simp only [Passed] at passed ⊢
    split
    · next down => rwa [if_pos down] at passed
    · next up =>
      rw [if_neg up] at passed
      omega

/-- Putting an argument where it belongs. -/
theorem put_advances {length : Nat} (advances : Advances abi frame.stack.length length walk place walk')
    (enough : cells.length ≤ length) : ∃ frame', frame.put cells place = some frame' ∧
      frame'.stack.length = frame.stack.length ∧ (∀ other count, Passed abi walk count other →
        frame'.get count other = frame.get count other) := by
  have did : ∃ frame', frame.put cells place = some frame' ∧ frame'.stack.length = frame.stack.length := by
    cases place with
    | reg r => exact ⟨_, rfl, rfl⟩
    | stack offset =>
      have inside := advances.inside offset rfl
      have fits : offset + cells.length ≤ frame.stack.length := by omega
      exact ⟨_, by rw [Frame.put, put_of_fits fits]; rfl, splice_length fits⟩
  obtain ⟨frame', put, same⟩ := did
  refine ⟨frame', put, same, fun other count passed => get_put_apart put ?_⟩
  have apart := (advances.keeps other count passed).2
  cases place with
  | reg r => exact apart
  | stack offset =>
    intro start is
    have disjoint := apart start is
    omega

/-- **What the loop of `ffi_call_int` writes, that of `ffi_closure_inner` reads.** -/
theorem exec_passAll (pointer : m.pointer = .four) {types : List (FfiType m.sizeBits)}
    (passes : ∀ t ∈ types, Passes t) (aligned : 4 ∣ base) (avalue : Pointer) (i : Nat)
    (ready : Ready abi frame.stack.length types walk) :
    exec (loadArguments avalue i types) w = none ∧ exec (passAll abi base avalue i types walk frame) w = none ∨
      ∃ arguments frame', exec (loadArguments avalue i types) w = some (arguments, w) ∧
        exec (passAll abi base avalue i types walk frame) w = some (frame', w) ∧
        receiveAll abi base types walk frame' = some arguments ∧ frame'.stack.length = frame.stack.length ∧
        ∀ place count, Passed abi walk count place → frame'.get count place = frame.get count place := by
  induction types generalizing i walk frame with
  | nil => exact .inr ⟨[], frame, rfl, rfl, rfl, rfl, fun _ _ _ => rfl⟩
  | cons ty rest ih =>
    obtain ⟨first, others⟩ := List.forall_mem_cons.mp passes
    rw [loadArguments, passAll, exec_bind_reads exec_loadPointer_eq, exec_bind_reads exec_loadPointer_eq]
    cases (load w.memory (avalue.shift (i * m.pointer.bytes)) m.pointer.bytes).bind (decodePointer m) with
    | none => exact .inl ⟨rfl, rfl⟩
    | some valp =>
      simp only [Option.bind_some]
      obtain ⟨place, walk', next, ready', advances⟩ := nextPlace_advances first aligned ready
      cases loaded : load w.memory valp ty.size.toNat with
      | none =>
        refine .inl ⟨exec_bind_none (by rw [exec_read, loaded]; rfl), exec_bind_none ?_⟩
        rw [exec_pass first pointer, loaded]
        rfl
      | some cells =>
        have length := load_length loaded
        obtain ⟨narrow, covers, taken⟩ := widened_cells first length
        obtain ⟨frame₁, put, same, kept⟩ := put_advances advances narrow
        have step : exec (pass abi base ty valp walk frame) w = some ((walk', frame₁), w) := by
          simp only [exec_pass first pointer, loaded, next, put, Option.map_some, Option.bind_some]
        rw [exec_bind (by rw [exec_read, loaded]; rfl), exec_bind step]
        rw [← same] at ready'
        rcases ih others (i + 1) ready' with ⟨failed, fails⟩ | ⟨arguments, frame', loop, run, receives, long, keeps⟩
        · exact .inl ⟨exec_bind_none failed, fails⟩
        · refine .inr ⟨cells :: arguments, frame', exec_bind loop, run, ?_, long.trans same, ?_⟩
          · have got := get_put_same put (show ty.size.toNat ≤ (widened ty cells).length by omega)
            rw [taken] at got
            have least : ty.size.toNat ≤ roundUp ty.size.toNat 4 := le_roundUp _ (by omega)
            have still := (keeps place _ (advances.passed.mono least)).trans got
            simp only [receiveAll, receive_eq, next, still, receives, Option.bind_eq_bind, Option.bind_some,
              Option.map_some]
          · intro other count passed
            rw [keeps other count (advances.keeps other count passed).1, kept other count passed]

/-! ## Entering the closure -/

theorem nextPlace_reg {r : Reg} (next : nextPlace abi base ty walk = some (.reg r, walk')) : r ∈ abi.params.regs := by
  rw [nextPlace] at next
  split at next
  · next code small =>
    split at next
    · next r' register =>
      cases next
      rw [nextReg] at register
      split at register
      · cases register
      · exact List.mem_of_getElem? register
    · obtain ⟨_, _, impossible⟩ := Option.map_eq_some_iff.mp next
      cases impossible
  · obtain ⟨_, _, impossible⟩ := Option.map_eq_some_iff.mp next
    cases impossible

/-- The trampoline writes over no register with an argument. -/
theorem saveRegs_regs (codeloc : List Cell) (frame : Frame) {r : Reg} (member : r ∈ abi.params.regs) :
    (saveRegs abi codeloc frame).regs r = frame.regs r := by
  rw [saveRegs]
  split
  · rfl
  · next other =>
    have different : r ≠ .eax := by
      rintro rfl
      cases abi <;> simp_all [Abi.params]
    simp only [Function.update_of_ne different]

theorem saveRegs_stack (codeloc : List Cell) (frame : Frame) : (saveRegs abi codeloc frame).stack = frame.stack := by
  rw [saveRegs]
  split <;> rfl

theorem saveRegs_get (codeloc : List Cell) (frame : Frame) (count : Nat) (place : Place)
    (inside : ∀ r, place = .reg r → r ∈ abi.params.regs) :
    (saveRegs abi codeloc frame).get count place = frame.get count place := by
  cases place with
  | reg r => simp only [Frame.get, saveRegs_regs codeloc frame (inside r rfl)]
  | stack offset => simp only [Frame.get, saveRegs_stack]

theorem receiveAll_saveRegs (codeloc : List Cell) (frame : Frame) (types : List (FfiType m.sizeBits)) (walk : Walk) :
    receiveAll abi base types walk (saveRegs abi codeloc frame) = receiveAll abi base types walk frame := by
  induction types generalizing walk with
  | nil => rfl
  | cons ty rest ih =>
    simp only [receiveAll, receive_eq]
    cases next : nextPlace abi base ty walk with
    | none => rfl
    | some found =>
      have same := saveRegs_get codeloc frame ty.size.toNat found.1 fun r is =>
        nextPlace_reg (next.trans (congrArg (fun place => some (place, found.2)) is))
      simp only [Option.bind_some, same, ih]

/-! ## Results -/

/-- Both conventions that fill the stack from its end fail: one never gets to its function, the other
when the result is in memory. -/
def Works (abi : Abi) (ret : Ret) : Prop := abi ≠ .register ∧ (abi = .pascal → ret.inMemory = false)

theorem Works.upward {ret : Ret} (works : Works abi ret) (memory : ret.inMemory = true) :
    abi.params.downward = false := by
  cases abi with
  | register => exact absurd rfl works.1
  | pascal => cases (works.2 rfl).symm.trans memory
  | _ => rfl

/-- The pointer for the result is where the closure looks for it. -/
structure ResultPassed (m : DataModel) (abi : Abi) (ret : Ret) (rvalue : Pointer) (frame : Frame)
    (types : List (FfiType m.sizeBits)) (walk : Walk) (frame₁ : Frame) : Prop where
  did : passResult abi ret (pointerCells m rvalue) frame = some (walk, frame₁)
  same : frame₁.stack.length = frame.stack.length
  ready : Ready abi frame.stack.length types walk
  received : ∀ frame' : Frame, frame'.stack.length = frame.stack.length →
    (∀ place, Passed abi walk 4 place → (∀ r, place = .reg r → r ∈ abi.params.regs) →
      frame'.get 4 place = frame₁.get 4 place) →
    receiveResult m abi ret frame' = some (if ret.inMemory then some rvalue else none, walk)

section
variable {ret : Ret} {rvalue : Pointer} {types : List (FfiType m.sizeBits)}

theorem passResult_register {r : Reg} {more : List Reg} (is : ret = .structArg) (regs : abi.params.regs = r :: more)
    (up : abi.params.downward = false) (pointer : m.pointer = .four) (enough : 4 + room types ≤ frame.stack.length) :
    ∃ walk frame₁, ResultPassed m abi ret rvalue frame types walk frame₁ := by
  subst is
  have word : (pointerCells m rvalue).length = 4 := by
    rw [pointerCells_length, pointer]
    rfl
  refine ⟨⟨1, 0⟩, { frame with regs := Function.update frame.regs r (pointerCells m rvalue) }, ?_, rfl,
    ⟨?_, fun down => ?_, fun _ => ⟨Nat.dvd_zero 4, by dsimp only; omega⟩⟩, ?_⟩
  · simp [passResult, regs, up]
  · exact fun _ => Nat.le_succ 1
  · rw [up] at down
    cases down
  · intro frame' _ agrees
    have first : Passed abi ⟨1, 0⟩ 4 (.reg r) := ⟨0, Nat.zero_lt_one, by rw [regs]; rfl⟩
    have got := agrees (.reg r) first (by rintro _ ⟨⟩; rw [regs]; exact List.mem_cons_self ..)
    simp only [Frame.get, Function.update_self] at got
    rw [slice_take (Nat.le_of_eq word.symm), ← word, List.take_length, word] at got
    simp [receiveResult, regs, up, got, decodePointer_pointerCells, Ret.inMemory]

theorem passResult_stack (memory : ret.inMemory = true) (regs : ret = .structArg → abi.params.regs = [])
    (up : abi.params.downward = false) (pointer : m.pointer = .four) (enough : 4 + room types ≤ frame.stack.length) :
    ∃ walk frame₁, ResultPassed m abi ret rvalue frame types walk frame₁ := by
  have word : (pointerCells m rvalue).length = 4 := by
    rw [pointerCells_length, pointer]
    rfl
  have fits : 0 + (pointerCells m rvalue).length ≤ frame.stack.length := by omega
  have written := put_of_fits fits
  have kind : ret = .structArg ∨ ret = .structPop := by simpa [Ret.inMemory] using memory
  refine ⟨⟨0, 4⟩, { frame with stack := splice frame.stack 0 (pointerCells m rvalue) }, ?_, splice_length fits,
    ⟨fun _ => Nat.zero_le 2, fun down => ?_, fun _ => ⟨Nat.dvd_refl 4, enough⟩⟩, ?_⟩
  · rcases kind with rfl | rfl
    · simp [passResult, regs rfl, up, written]
    · simp [passResult, up, written]
  · rw [up] at down
    cases down
  · intro frame' _ agrees
    have first : Passed abi ⟨0, 4⟩ 4 (.stack 0) := by simp [Passed, up]
    have got := agrees (.stack 0) first nofun
    have back := slice_put written (Nat.le_of_eq word.symm)
    rw [← word, List.take_length, word] at back
    simp only [Frame.get, back] at got
    rcases kind with rfl | rfl
    · simp [receiveResult, regs rfl, up, got, decodePointer_pointerCells, Ret.inMemory]
    · simp [receiveResult, up, got, decodePointer_pointerCells, Ret.inMemory]

theorem passResult_spec (works : Works abi ret) (pointer : m.pointer = .four) (rvalue : Pointer) (frame : Frame)
    (enough : (if ret.inMemory then 4 else 0) + room types ≤ frame.stack.length) :
    ∃ walk frame₁, ResultPassed m abi ret rvalue frame types walk frame₁ := by
  by_cases memory : ret.inMemory = true
  · have up := works.upward memory
    rw [if_pos memory] at enough
    have kind : ret = .structArg ∨ ret = .structPop := by simpa [Ret.inMemory] using memory
    cases regs : abi.params.regs with
    | nil => exact passResult_stack memory (fun _ => regs) up pointer enough
    | cons r more =>
      rcases kind with is | is
      · exact passResult_register is regs up pointer enough
      · exact passResult_stack memory (fun other => by rw [is] at other; cases other) up pointer enough
  · rw [if_neg memory] at enough
    refine ⟨⟨0, if abi.params.downward then frame.stack.length else 0⟩, frame, ?_, rfl,
      ⟨fun _ => Nat.zero_le 2, fun down => ?_, fun up => ?_⟩, fun frame' same _ => ?_⟩
    · cases ret <;> first | rfl | exact absurd rfl memory
    · simp only [down, if_true]
      exact ⟨by omega, Nat.le_refl _⟩
    · simp only [up, Bool.false_eq_true, if_false]
      exact ⟨Nat.dvd_zero 4, by omega⟩
    · rw [if_neg memory, ← same]
      cases ret <;> first | rfl | exact absurd rfl memory

end

/-- What a value is after it has been on the floating-point stack, if its type puts it there. -/
def through (x87 : List Cell → List Cell) (rtype : FfiType m.sizeBits) (cells : List Cell) : List Cell :=
  if rtype.floating then x87 cells else cells

theorem returned_word (word : m.ffiArg = .four) {size : BitVec m.sizeBits} {alignment : Nat} {signed : Bool}
    {width : IntWidth} (cells : List Cell) :
    returned m (.basic size alignment (.value (.int signed width))) cells = extended signed cells := by
  have four : m.ffiArg.bytes = 4 := by
    rw [word]
    rfl
  rw [returned, four]
  rfl

theorem extended_whole {signed : Bool} (length : 4 ≤ cells.length) : extended signed cells = cells := by
  rw [extended, Nat.sub_eq_zero_of_le length]
  exact List.append_nil cells

theorem slice_extended {signed : Bool} {n : Nat} (length : cells.length = n) :
    slice (extended signed cells) 0 n = some cells := slice_prefix length

/-- The words of `rettemp`, with what the function wrote at its start. -/
structure Rettemp (cells buffer : List Cell) : Prop where
  eax : slice buffer 0 4 = some (buffer.take 4)
  low : ∀ n ≤ 4, cells.length = n → slice (buffer.take 4) 0 n = some cells
  eight : cells.length = 8 → slice buffer 0 8 = some cells
  high : cells.length = 8 → ∃ top, slice buffer 4 4 = some top ∧ buffer.take 4 ++ top = cells

theorem Rettemp.four {buffer : List Cell} (temp : Rettemp cells buffer) (length : cells.length = 4) :
    buffer.take 4 = cells := by
  have all := temp.low 4 (Nat.le_refl 4) length
  rw [slice_take (slice_eq_some.mp all).1, List.take_take] at all
  exact Option.some.inj all

theorem rettemp_of_long {rettemp : List Cell} (long : 16 ≤ rettemp.length) :
    Rettemp cells ((cells ++ rettemp).take 16) := by
  have whole : ((cells ++ rettemp).take 16).length = 16 := by
    rw [List.length_take, List.length_append]
    omega
  have first : ((cells ++ rettemp).take 16).take 4 = (cells ++ rettemp).take 4 := by
    rw [List.take_take]
    rfl
  have eight : cells.length = 8 → ((cells ++ rettemp).take 16).take 8 = cells := by
    intro length
    rw [List.take_take, ← length, Nat.min_eq_left (by omega), List.take_left]
  refine ⟨slice_take (by omega), fun n small length => ?_, fun length => ?_, fun length => ?_⟩
  · rw [first, slice_take (by rw [List.length_take, List.length_append]; omega), List.take_take, Nat.min_eq_left small,
      ← length, List.take_left]
  · rw [slice_take (by omega), eight length]
  · refine ⟨_, slice_of_fits (by omega), ?_⟩
    rw [← List.take_add, eight length]

section
variable {build : Build} {x87 : List Cell → List Cell} {buffer : List Cell}

/-- The tables of the closure and of `ffi_call_i386` store a value that the function returned. -/
theorem returnTables_value (pointer : m.pointer = .four) (word : m.ffiArg = .four) {size : BitVec m.sizeBits}
    {alignment : Nat} {c : CType} (bytes : cells.length = c.size m) (temp : Rettemp cells buffer) (r : ReturnRegs) :
    ∃ r', loadTable (ctypeRet c) buffer r = some r' ∧ storeTable x87 (ctypeRet c) r' =
      some (returned m (.basic size alignment (.value c))
        (through x87 (.basic size alignment (.value c) : FfiType m.sizeBits) cells)) := by
  cases c with
  | float =>
    refine ⟨{ r with rax := cells, xmm0 := cells }, ?_, rfl⟩
    simp only [ctypeRet, loadTable, temp.eax, temp.four bytes]
    rfl
  | double =>
    refine ⟨{ r with rax := buffer.take 4, xmm0 := cells }, ?_, rfl⟩
    simp only [ctypeRet, loadTable, temp.eax, temp.eight bytes]
    rfl
  | pointer =>
    have word' : cells.length = 4 := by
      rw [bytes, CType.size_pointer, pointer]
      rfl
    have same : returned m (.basic size alignment (.value .pointer)) cells = cells := by
      rw [returned, word, word']
      exact List.append_nil cells
    refine ⟨{ r with rax := cells }, ?_, ?_⟩
    · simp only [ctypeRet, loadTable, temp.eax, temp.four word']
      rfl
    · exact congrArg some same.symm
  | int signed width =>
    have same : returned m (.basic size alignment (.value (.int signed width))) cells = extended signed cells :=
      returned_word word cells
    change ∃ r', loadTable _ _ r = some r' ∧ storeTable x87 _ r' =
      some (returned m (.basic size alignment (.value (.int signed width))) cells)
    rw [same]
    cases width with
    | w8 =>
      refine ⟨{ r with rax := extended signed cells }, ?_, ?_⟩ <;> cases signed
      · simp only [ctypeRet, loadTable, temp.eax, Option.bind_eq_bind, Option.bind_some, temp.low 1 (by omega) bytes]
        rfl
      · simp only [ctypeRet, loadTable, temp.eax, Option.bind_eq_bind, Option.bind_some, temp.low 1 (by omega) bytes]
        rfl
      · exact congrArg (Option.map (extended false)) (slice_extended bytes)
      · exact congrArg (Option.map (extended true)) (slice_extended bytes)
    | w16 =>
      refine ⟨{ r with rax := extended signed cells }, ?_, ?_⟩ <;> cases signed
      · simp only [ctypeRet, loadTable, temp.eax, Option.bind_eq_bind, Option.bind_some, temp.low 2 (by omega) bytes]
        rfl
      · simp only [ctypeRet, loadTable, temp.eax, Option.bind_eq_bind, Option.bind_some, temp.low 2 (by omega) bytes]
        rfl
      · exact congrArg (Option.map (extended false)) (slice_extended bytes)
      · exact congrArg (Option.map (extended true)) (slice_extended bytes)
    | w32 =>
      refine ⟨{ r with rax := cells }, ?_, ?_⟩
      · cases signed <;>
        · simp only [ctypeRet, loadTable, temp.eax, temp.four bytes]
          rfl
      · rw [extended_whole (Nat.le_of_eq bytes.symm)]
        cases signed <;> rfl
    | w64 =>
      obtain ⟨top, upper, joined⟩ := temp.high bytes
      have wide : 4 ≤ cells.length := by
        rw [bytes]
        exact Nat.le_add_right 4 4
      refine ⟨{ r with rax := buffer.take 4, rdx := top }, ?_, ?_⟩
      · cases signed <;>
        · simp only [ctypeRet, loadTable, temp.eax, upper]
          rfl
      · rw [extended_whole wide]
        cases signed <;> exact congrArg some joined

theorem structRet_inMemory (abi : Abi) : (structRet abi).inMemory = true := by cases abi <;> rfl

/-- And a struct. -/
theorem returnTables_aggregate {size : BitVec m.sizeBits} {alignment : Nat} {elements : List (FfiType m.sizeBits)}
    (registers : (flags build abi (.aggregate size alignment elements)).inMemory = false)
    (bytes : cells.length = size.toNat) (temp : Rettemp cells buffer) (r : ReturnRegs) :
    ∃ r', loadTable (flags build abi (.aggregate size alignment elements)) buffer r = some r' ∧
      storeTable x87 (flags build abi (.aggregate size alignment elements)) r' = some cells := by
  rw [flags] at registers ⊢
  split at registers
  · cases registers.symm.trans (structRet_inMemory abi)
  · next small =>
    rw [if_neg small]
    split at registers
    · next one =>
      have taken := temp.low 1 (by omega) (bytes.trans one)
      refine ⟨{ r with rax := extended false cells }, ?_, slice_extended (bytes.trans one)⟩
      simp only [loadTable, temp.eax, Option.bind_eq_bind, Option.bind_some, taken]
      rfl
    · next two =>
      have taken := temp.low 2 (by omega) (bytes.trans two)
      refine ⟨{ r with rax := extended false cells }, ?_, slice_extended (bytes.trans two)⟩
      simp only [loadTable, temp.eax, Option.bind_eq_bind, Option.bind_some, taken]
      rfl
    · next four =>
      refine ⟨{ r with rax := cells }, ?_, rfl⟩
      simp only [loadTable, temp.eax, temp.four (bytes.trans four)]
      rfl
    · next eight =>
      obtain ⟨top, upper, joined⟩ := temp.high (bytes.trans eight)
      refine ⟨{ r with rax := buffer.take 4, rdx := top }, ?_, congrArg some joined⟩
      simp only [loadTable, temp.eax, upper]
      rfl
    · cases registers.symm.trans (structRet_inMemory abi)

/-- The tables of the closure and of `ffi_call_i386` store what the function returned. -/
theorem returnTables (x87 : List Cell → List Cell) {rtype : FfiType m.sizeBits} (pointer : m.pointer = .four) (word : m.ffiArg = .four)
    (predefined : Predefined rtype) (registers : (flags build abi rtype).inMemory = false)
    (filled : cells.length = returnWidth rtype) (temp : Rettemp cells buffer) (r : ReturnRegs) :
    ∃ r', loadTable (flags build abi rtype) buffer r = some r' ∧
      storeTable x87 (flags build abi rtype) r' = some (returned m rtype (through x87 rtype cells)) := by
  cases rtype with
  | aggregate size alignment elements => exact returnTables_aggregate registers filled temp r
  | basic size alignment type =>
    cases type with
    | value c => exact returnTables_value pointer word (filled.trans predefined) temp r
    | void =>
      obtain rfl := List.length_eq_zero_iff.mp filled
      refine ⟨{ r with rax := buffer.take 4 }, ?_, rfl⟩
      simp only [flags, loadTable, temp.eax]
      rfl

end

/-! ## Calls -/

/-- `ffi_prep_cif_machdep` counts enough for both walks. -/
theorem room_le_argumentBytes {types : List (FfiType m.sizeBits)} (aligned : ∀ t ∈ types, 0 < t.alignment)
    (bytes : Nat) : bytes + room types ≤ argumentBytes bytes types := by
  induction types generalizing bytes with
  | nil => exact Nat.le_refl bytes
  | cons t rest ih =>
    obtain ⟨first, others⟩ := List.forall_mem_cons.mp aligned
    have onward := ih others (roundUp bytes t.alignment + roundUp t.size.toNat 4)
    have least : bytes ≤ roundUp bytes t.alignment := le_roundUp bytes first
    have whole : room (t :: rest) = roundUp t.size.toNat 4 + room rest := by simp [room]
    have step : argumentBytes bytes (t :: rest) =
        argumentBytes (roundUp bytes t.alignment + roundUp t.size.toNat 4) rest := rfl
    omega

theorem through_length {x87 : List Cell → List Cell} (keeps : ∀ cells, (x87 cells).length = cells.length)
    (rtype : FfiType m.sizeBits) (cells : List Cell) : (through x87 rtype cells).length = cells.length := by
  rw [through]
  split
  · exact keeps cells
  · rfl

section
variable {build : Build} {cif : Cif m} {fn : Native m} {x87 : List Cell → List Cell} {context : Context}

/-- A result in memory is a struct. -/
theorem inMemory_aggregate (memory : (flags build abi cif.rtype).inMemory = true) :
    ∃ size alignment elements, cif.rtype = .aggregate size alignment elements := by
  cases h : cif.rtype with
  | aggregate size alignment elements => exact ⟨size, alignment, elements, rfl⟩
  | basic size alignment type =>
    rw [h] at memory
    rcases type with _ | c
    · cases memory
    · rcases c with ⟨_ | _, _ | _ | _ | _⟩ | _ | _ | _ <;> cases memory

theorem exec_returnResult (pointer : m.pointer = .four) (word : m.ffiArg = .four) (returns : Predefined cif.rtype)
    (long : 16 ≤ context.rettemp.length) (rvalue : Pointer) (filled : cells.length = returnWidth cif.rtype) :
    exec (returnResult x87 (flags build abi cif.rtype) context
      (if (flags build abi cif.rtype).inMemory then some rvalue else none) rvalue cells) w =
      exec (write rvalue (returned m cif.rtype (through x87 cif.rtype cells))) w := by
  by_cases memory : (flags build abi cif.rtype).inMemory = true
  · obtain ⟨size, alignment, elements, is⟩ := inMemory_aggregate memory
    have same : returned m cif.rtype (through x87 cif.rtype cells) = cells := by
      rw [is]
      rfl
    rw [if_pos memory, same]
    rfl
  · obtain ⟨r, loads, stores⟩ := returnTables x87 pointer word returns (Bool.eq_false_iff.mpr memory) filled
      (rettemp_of_long long) context.returns
    rw [if_neg memory]
    exact (exec_bind (exec_defined loads)).trans (exec_bind (exec_defined stores))

/-- **Calls in every convention but two.** -/
theorem ffiCall_i386 (pointer : m.pointer = .four) (word : m.ffiArg = .four)
    (works : Works abi (flags build abi cif.rtype)) (returns : Predefined cif.rtype)
    (takes : ∀ t ∈ cif.atypes, Passes t) (fits : roundUp (prepBytes build abi cif) 16 < 2 ^ 32)
    (keeps : ∀ cells, (x87 cells).length = cells.length) (aligned : 4 ∣ context.base)
    (long : 16 ≤ context.rettemp.length) (rvalue avalue : Pointer) :
    ffiCallI386 build abi x87 context cif fn rvalue avalue =
      ffiCall cif (fun arguments => do return through x87 cif.rtype (← fn arguments)) rvalue avalue := by
  funext w
  have least : prepBytes build abi cif ≤ roundUp (prepBytes build abi cif) 16 := le_roundUp _ (by omega)
  have enough : prepBytes build abi cif ≤ build.stackAlign (prepBytes build abi cif) % 2 ^ 32 := by
    rw [Build.stackAlign]
    split
    · rwa [Nat.mod_eq_of_lt fits]
    · rw [Nat.mod_eq_of_lt (by omega)]
  have counted : _ + room cif.atypes ≤ prepBytes build abi cif :=
    room_le_argumentBytes (fun t member => (takes t member).aligned.1)
    (if (flags build abi cif.rtype).inMemory then 4 else 0)
  let frame : Frame :=
    { regs := Function.update context.regs abi.params.staticChain (zeros 4)
      stack := (List.range (build.stackAlign (prepBytes build abi cif) % 2 ^ 32)).map context.stack }
  have length : frame.stack.length = build.stackAlign (prepBytes build abi cif) % 2 ^ 32 := by simp [frame]
  obtain ⟨walk, frame₁, passed⟩ := passResult_spec works pointer rvalue frame (Nat.le_trans (counted.trans enough) (Nat.le_of_eq length.symm))
  refine (exec_bind (exec_defined passed.did)).trans ?_
  have ready := passed.ready
  rw [← passed.same] at ready
  rcases exec_passAll (w := w) pointer takes aligned avalue 0 ready with
    ⟨failed, fails⟩ | ⟨arguments, frame', loads, run, receives, same, kept⟩
  · exact (exec_bind_none fails).trans (exec_bind_none failed).symm
  · have found : closureLoaded abi context.codeloc context.retaddr = context.codeloc := if_neg works.1
    have address := passed.received (saveRegs abi context.codeloc frame') (by rw [saveRegs_stack, same, passed.same])
      fun place before inside => by rw [saveRegs_get _ _ _ _ inside, kept place 4 before]
    have got := (receiveAll_saveRegs context.codeloc frame' cif.atypes walk).trans receives
    refine (exec_bind run).trans ((exec_bind (exec_undefinedUnless found)).trans
      ((exec_bind (exec_defined address)).trans ((exec_bind (exec_defined got)).trans
        (.trans ?_ (exec_bind loads).symm))))
    simp only [bind_assoc, pure_bind]
    refine exec_bind_congr fun cells w' _ => ?_
    have through := through_length keeps cif.rtype cells
    by_cases filled : cells.length = returnWidth cif.rtype
    · rw [exec_bind (exec_undefinedUnless filled), exec_bind (exec_undefinedUnless (through.trans filled))]
      exact exec_returnResult pointer word returns long rvalue filled
    · have undefined : ∀ {p : Prop} [Decidable p], ¬ p → exec (undefinedUnless p : NativeM m Unit) w' = none :=
        fun no => if_neg no
      rw [exec_bind_none (undefined filled), exec_bind_none (undefined (by rwa [through]))]

/-- Where it does not work, no call comes to its end. -/
theorem ffiCall_i386_fails (pointer : m.pointer = .four) (fails : ¬ Works abi (flags build abi cif.rtype))
    (apart : context.retaddr ≠ context.codeloc) (rvalue avalue : Pointer) (w : World m) :
    exec (ffiCallI386 build abi x87 context cif fn rvalue avalue) w = none := by
  by_cases register : abi = .register
  · have missed : closureLoaded abi context.codeloc context.retaddr ≠ context.codeloc := by
      rwa [closureLoaded, if_pos register]
    exact exec_bind_dead fun _ _ => exec_bind_dead fun _ _ => exec_bind_none (if_neg missed)
  · have pascal : abi = .pascal ∧ (flags build abi cif.rtype).inMemory = true := by
      simpa [Works, register] using fails
    obtain ⟨rfl, memory⟩ := pascal
    refine exec_bind_none ?_
    -- the pointer goes past the end of the stack
    have word : (pointerCells m rvalue).length = 4 := by
      rw [pointerCells_length, pointer]
      rfl
    have outside : ∀ stack : List Cell, put stack stack.length (pointerCells m rvalue) = none := by
      intro stack
      rw [put, if_neg (by omega)]
    have kind : flags build .pascal cif.rtype = .structArg ∨ flags build .pascal cif.rtype = .structPop := by
      simpa [Ret.inMemory] using memory
    rcases kind with is | is <;> rw [is] <;> simp only [passResult, Abi.params, if_true, outside] <;> rfl

end

/-! ## Declared functions -/

/-- The descriptors that `Type` makes, which libffi has not laid out yet. -/
inductive Blank : FfiType m.sizeBits → Prop
  | void : Blank (ffiTypeVoid m)
  | value (c : CType) : Blank (c.ffiType m)
  | aggregate {elements} (each : ∀ element ∈ elements, Blank element) : Blank (.aggregate 0 0 elements)

theorem ffiType_blank (type : RefType) : Blank (ffiType m type) ∧
    ∀ elements, arrayElements m type = some elements → ∀ element ∈ elements, Blank element := by
  induction type with
  | void => exact ⟨.void, fun _ are => by cases are⟩
  | scalar s => exact ⟨.value _, fun _ are => by cases are⟩
  | pointer pointee ih => exact ⟨.value .pointer, ih.2⟩
  | array type fixedLength ih =>
    refine ⟨.value .pointer, fun elements are element member => ?_⟩
    rw [arrayElements] at are
    split at are
    · cases are
      rw [(List.mem_replicate.mp member).2]
      exact ih.1
    · cases are
  | struct fields ih =>
    refine ⟨?_, fun _ are => by cases are⟩
    rw [ffiType_struct]
    refine .aggregate fun element member => ?_
    obtain ⟨field, inside, written⟩ := List.mem_flatMap.mp member
    obtain ⟨own, array⟩ := ih field inside
    rw [fieldFfiTypes] at written
    cases are : arrayElements m field with
    | none =>
      rw [are] at written
      rwa [List.mem_singleton.mp written]
    | some elements =>
      rw [are] at written
      exact array elements are element written

theorem walkElements_alignment {elements : List (FfiType m.sizeBits)} {size : BitVec m.sizeBits} {alignment : Nat}
    {walked : BitVec m.sizeBits × Nat × List (FfiType m.sizeBits)}
    (walk : walkElements elements size alignment = some walked)
    (each : ∀ element ∈ elements, ∀ t, initialized element = some t → 0 < t.alignment ∧ t.alignment ≤ 8) :
    (elements ≠ [] ∨ 0 < alignment → 0 < walked.2.1) ∧ (alignment ≤ 8 → walked.2.1 ≤ 8) := by
  induction elements generalizing size alignment walked with
  | nil =>
    obtain rfl := Option.some.inj walk
    exact ⟨fun either => either.resolve_left fun none => none rfl, id⟩
  | cons element rest ih =>
    rw [walkElements_cons] at walk
    obtain ⟨t, ready, onward⟩ := Option.bind_eq_some_iff.mp walk
    obtain ⟨r, loop, rfl⟩ := Option.map_eq_some_iff.mp onward
    obtain ⟨positive, small⟩ := each element (by simp) t ready
    obtain ⟨some, bound⟩ := ih loop fun other member => each other (List.mem_cons_of_mem _ member)
    refine ⟨fun _ => some (.inr ?_), fun narrow => bound ?_⟩ <;> split <;> omega

theorem initialized_alignment {t ft : FfiType m.sizeBits} (blank : Blank t) (ready : initialized t = some ft) :
    0 < ft.alignment ∧ ft.alignment ≤ 8 := by
  induction blank generalizing ft with
  | void =>
    rw [ffiTypeVoid, initialized] at ready
    split at ready
    · cases ready
    · obtain rfl := Option.some.inj ready
      exact ⟨Nat.one_pos, Nat.le_add_left 1 7⟩
  | value c =>
    obtain rfl := Option.some.inj ((initialized_ctype c).symm.trans ready)
    obtain ⟨e, small, is⟩ := CType.isAlignment m c
    change 0 < c.alignment m ∧ c.alignment m ≤ 8
    rw [is]
    exact ⟨Nat.two_pow_pos e, Nat.pow_le_pow_right (Nat.succ_pos 1) (Nat.le_of_lt_succ small)⟩
  | @aggregate elements each ih =>
    rw [initialized_unset_aggregate] at ready
    obtain ⟨walked, walk, laid⟩ := Option.bind_eq_some_iff.mp ready
    have nonempty : elements ≠ [] := by
      rintro rfl
      cases (FfiType.Invalid.empty.refused (w := m.sizeBits)).symm.trans ((initialized_unset_aggregate 0 []).trans ready)
    obtain ⟨positive, small⟩ := walkElements_alignment walk fun element member t is => ih element member is
    split at laid
    · cases laid
    · obtain rfl := Option.some.inj laid
      exact ⟨positive (.inl nonempty), small (Nat.zero_le 8)⟩

/-- Libffi makes no `void` of another type. -/
theorem initialized_value {type : RefType} {ft : FfiType m.sizeBits} (other : type ≠ .void)
    (ready : initialized (ffiType m type) = some ft) (size : BitVec m.sizeBits) (alignment : Nat) :
    ft ≠ .basic size alignment .void := by
  have value : ∀ c : CType, initialized (c.ffiType m) = some ft → ft ≠ .basic size alignment .void := by
    intro c ready
    obtain rfl := Option.some.inj ((initialized_ctype c).symm.trans ready)
    intro same
    cases same
  cases type with
  | void => exact absurd rfl other
  | scalar s => exact value _ ready
  | pointer pointee => exact value _ ready
  | array type fixedLength => exact value _ ready
  | struct fields =>
    rw [ffiType, initialized_unset_aggregate] at ready
    obtain ⟨walked, _, laid⟩ := Option.bind_eq_some_iff.mp ready
    split at laid
    · cases laid
    · obtain rfl := Option.some.inj laid
      intro same
      cases same

/-- **Declared functions on 32-bit x86.** For every build, convention and signature without arguments
of type `void` whose arguments fit an `unsigned`: calling a closure through `ffi_call` does what handing
over the bytes of the arguments and storing those of the result would do, but for what becomes of a
floating-point result on its stack; with `FFI_REGISTER`, and with `FFI_PASCAL` when the result is in
memory, no call comes to its end. -/
theorem declared_ffiCall_i386 {s : Signature m} (build : Build) (abi : Abi) (pointer : m.pointer = .four)
    (word : m.ffiArg = .four) (values : ∀ type ∈ s.argTypes, type ≠ .void)
    (fits : roundUp (prepBytes build abi s.cif) 16 < 2 ^ 32) (fn : Native m) (x87 : List Cell → List Cell)
    (keeps : ∀ cells, (x87 cells).length = cells.length) (context : Context) (aligned : 4 ∣ context.base)
    (long : 16 ≤ context.rettemp.length) (apart : context.retaddr ≠ context.codeloc) (rvalue avalue : Pointer) :
    (Works abi (flags build abi s.cif.rtype) → ffiCallI386 build abi x87 context s.cif fn rvalue avalue =
        ffiCall s.cif (fun arguments => do return through x87 s.cif.rtype (← fn arguments)) rvalue avalue) ∧
      (¬ Works abi (flags build abi s.cif.rtype) → ∀ w : World m,
        exec (ffiCallI386 build abi x87 context s.cif fn rvalue avalue) w = none) := by
  obtain ⟨returnReady, argsReady⟩ := prepCif_eq_some s.prepared
  refine ⟨fun works => ?_, fun fails w => ffiCall_i386_fails pointer fails apart rvalue avalue w⟩
  refine ffiCall_i386 pointer word works (predefined_initialized returnReady) (fun t member => ?_) fits keeps aligned
    long rvalue avalue
  obtain ⟨type, inside, ready⟩ := exists_related argsReady member
  obtain ⟨positive, small⟩ := initialized_alignment (ffiType_blank type).1 ready
  exact ⟨predefined_initialized ready, initialized_value (values type inside) ready, positive, by omega⟩

/-- A `struct` of three ints from an `int` and a `struct` of two. -/
def exampleInts : Signature ilp32 where
  returnType := .struct [.scalar (.named .int), .scalar (.named .int), .scalar (.named .int)]
  argTypes := [.scalar (.named .int), .struct [.scalar (.named .int), .scalar (.named .int)]]
  cif :=
    let int := (CType.int true .w32).ffiType ilp32
    ⟨.aggregate 12 4 [int, int, int], [int, .aggregate 8 4 [int, int]]⟩
  prepared := rfl

def exampleContext : Context where
  base := 0
  regs := fun _ => zeros 4
  stack := fun _ => .byte 0
  codeloc := List.replicate 4 (.byte 1)
  retaddr := zeros 4
  returns := ⟨zeros 4, zeros 4, zeros 8, zeros 8⟩
  rettemp := zeros 16

theorem exampleInts_ffiCall :
    ffiCallI386 ⟨true, true⟩ .fastcall id exampleContext exampleInts.cif (ofFunction List.flatten) ⟨0, 0⟩ ⟨1, 0⟩ =
        ffiCall exampleInts.cif (fun arguments => do
          return through id exampleInts.cif.rtype (← (ofFunction List.flatten : Native ilp32) arguments)) ⟨0, 0⟩ ⟨1, 0⟩ ∧
      ∀ w, exec (ffiCallI386 ⟨true, true⟩ .pascal id exampleContext exampleInts.cif (ofFunction List.flatten)
        ⟨0, 0⟩ ⟨1, 0⟩) w = none := by
  have values : ∀ type ∈ exampleInts.argTypes, type ≠ .void := by simp [exampleInts]
  have calls := fun abi fits => declared_ffiCall_i386 (s := exampleInts) ⟨true, true⟩ abi rfl rfl values fits
    (ofFunction List.flatten) id (fun _ => rfl) exampleContext (Nat.dvd_zero 4) (by decide) (by decide) ⟨0, 0⟩ ⟨1, 0⟩
  refine ⟨(calls .fastcall (by decide)).1 ⟨by decide, by decide⟩, (calls .pascal (by decide)).2 fun works => ?_⟩
  exact absurd (works.2 rfl) (by decide)

example : (exec (ffiCallI386 ⟨true, true⟩ .fastcall id exampleContext exampleInts.cif (ofFunction List.flatten)
    ⟨0, 0⟩ ⟨1, 0⟩) ((World.initial ilp32).setMemory [zeros 12, pointerCells ilp32 ⟨2, 0⟩ ++ pointerCells ilp32 ⟨3, 0⟩,
      List.replicate 4 (.byte 1), List.replicate 8 (.byte 2)])).map (fun ran => ran.2.memory.head?) =
    some (some (List.replicate 4 (.byte 1) ++ List.replicate 8 (.byte 2))) := by
  rfl

end NodeFfi.I386
