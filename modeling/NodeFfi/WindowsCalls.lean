import NodeFfi.UnixCalls

/-! A call of a closure through `ffi_call` on x86-64 Windows, `x86/ffiw64.c` and
`x86/win64.S`: each argument has a slot of eight bytes, which holds its value or its address,
and the first four slots are also in both kinds of registers. -/
namespace NodeFfi
open BlockMemory PartialPrograms

variable {m : DataModel}

/-! ## `ffi_prep_cif_machdep` -/

/-- The `flags` of a `ffi_cif`, in the order of the jump table of `ffi_call_win64`. -/
inductive Win64Ret where
  | void
  | int
  | float
  | double
  | longdouble
  | uint8
  | sint8
  | uint16
  | sint16
  | uint32
  | sint32
  | uint64
  | sint64
  | struct
  | pointer
  | complex
  | smallStruct1B
  | smallStruct2B
  | smallStruct4B
  deriving DecidableEq, Repr

def CType.win64Ret : CType → Win64Ret
  | .int false .w8 => .uint8
  | .int true .w8 => .sint8
  | .int false .w16 => .uint16
  | .int true .w16 => .sint16
  | .int false .w32 => .uint32
  | .int true .w32 => .sint32
  | .int false .w64 => .uint64
  | .int true .w64 => .sint64
  | .float => .float
  | .double => .double
  | .pointer => .pointer

def win64Flags {w : Nat} : FfiType w → Win64Ret
  | .basic _ _ .void => .void
  | .basic _ _ (.value c) => c.win64Ret
  | .aggregate size _ _ =>
    match size.toNat with
    | 8 => .uint64
    | 4 => .smallStruct4B
    | 2 => .smallStruct2B
    | 1 => .smallStruct1B
    | _ => .struct

/-- Where the arguments begin, after the address of a result in memory. -/
def firstSlot (cif : Cif m) : Nat := if win64Flags cif.rtype = .struct then 1 else 0

/-- `cif->bytes`, an `unsigned`. -/
def win64Bytes (cif : Cif m) : Nat := max 4 (cif.atypes.length + firstSlot cif) * 8 % 2 ^ 32

/-! ## `ffi_call_int` -/

/-- What goes in the slot of an argument: its value, or its address. -/
def argumentSlot (entry : Pointer) (atype : FfiType m.sizeBits) : NativeM m (List Cell) :=
  match atype.size.toNat with
  | 8 => read entry 8
  | 4 => do return zeroExtended (← read entry 4)
  | 2 => do return zeroExtended (← read entry 2)
  | 1 => do return zeroExtended (← read entry 1)
  | _ => return pointerCells m entry

/-- The loop over the arguments, from entry `i` of `avalue` and slot `j` on. -/
def fillSlots (avalue : Pointer) : Nat → List (FfiType m.sizeBits) → Nat → List Cell → NativeM m (List Cell)
  | _, [], _, stack => return stack
  | i, atype :: rest, j, stack => do
    let entry ← loadPointer (avalue.shift (i * m.pointer.bytes))
    let slot ← argumentSlot entry atype
    let stack ← defined (put stack (8 * j) slot)
    fillSlots avalue (i + 1) rest (j + 1) stack

/-- The jump table of `ffi_call_win64`: what is stored at `rvalue`. -/
def storeWin64 (flags : Win64Ret) (rax xmm0 : List Cell) : Option (List Cell) :=
  match flags with
  | .void | .struct => some []
  | .int | .sint32 => (slice rax 0 4).map signExtended
  | .float => slice xmm0 0 4
  | .double => slice xmm0 0 8
  | .longdouble | .complex => none
  | .uint8 => (slice rax 0 1).map zeroExtended
  | .sint8 => (slice rax 0 1).map signExtended
  | .uint16 => (slice rax 0 2).map zeroExtended
  | .sint16 => (slice rax 0 2).map signExtended
  | .uint32 => (slice rax 0 4).map zeroExtended
  | .uint64 | .sint64 | .pointer => slice rax 0 8
  | .smallStruct1B => slice rax 0 1
  | .smallStruct2B => slice rax 0 2
  | .smallStruct4B => slice rax 0 4

/-! ## `ffi_closure_win64` -/

/-- `win64_closure_frame`. -/
structure Win64Frame where
  fargs : List Cell
  args : List Cell

/-- `ffi_call_win64` loads the first four slots into both kinds of registers; a closure stores
the general ones in the same slots, and the others in its frame. -/
def enterClosure (stack : List Cell) : Option Win64Frame := do
  let general ← slice stack 0 32
  let vector ← slice stack 0 32
  let args ← put stack 0 general
  return ⟨vector, args⟩

def FfiType.floating {w : Nat} : FfiType w → Bool
  | .basic _ _ (.value c) => c.floating
  | _ => false

/-- The sizes that are passed in a slot and not by reference. -/
def InSlot (size : Nat) : Prop := size = 1 ∨ size = 2 ∨ size = 4 ∨ size = 8

instance (size : Nat) : Decidable (InSlot size) := inferInstanceAs (Decidable (_ ∨ _))

/-- The bytes at the address that `ffi_closure_win64_inner` hands over for the argument of slot
`nreg`. -/
def win64Argument (frame : Win64Frame) (nreg : Nat) (atype : FfiType m.sizeBits) : NativeM m (List Cell) :=
  let size := atype.size.toNat
  if atype.floating then
    defined (slice (if nreg < 4 then frame.fargs else frame.args) (8 * nreg) size)
  else if InSlot size then defined (slice frame.args (8 * nreg) size)
  else do
    let address ← defined ((slice frame.args (8 * nreg) 8).bind (decodePointer m))
    read address size

/-- The loop of `ffi_closure_win64_inner`, from slot `nreg` on. -/
def win64Arguments (frame : Win64Frame) : Nat → List (FfiType m.sizeBits) → NativeM m (List (List Cell))
  | _, [] => return []
  | nreg, atype :: rest => do
    let cells ← win64Argument frame nreg atype
    let others ← win64Arguments frame (nreg + 1) rest
    return cells :: others

/-- What the function returned, by way of the closure's `rvalue` and a register or of the caller's
memory. -/
def returnWin64 (cif : Cif m) (frame : Win64Frame) (slot : List Cell) (rvalue : Pointer) (cells : List Cell) :
    NativeM m Unit :=
  if win64Flags cif.rtype = .struct then do
    let address ← defined ((slice frame.args 0 8).bind (decodePointer m))
    write address cells
  else do
    let result ← defined (slice (cells ++ slot) 0 8)
    let stored ← defined (storeWin64 (win64Flags cif.rtype) result result)
    write rvalue stored

/-- `ffi_call` of a closure whose function is `fn`. `uninitialised` is what is on the stack before,
and `slot` what is in the closure's `rvalue`. -/
def ffiCallWin64 (uninitialised : Nat → Cell) (slot : List Cell) (cif : Cif m) (fn : Native m)
    (rvalue avalue : Pointer) : NativeM m Unit := do
  let stack := (List.range (win64Bytes cif)).map uninitialised
  let stack ← defined (if win64Flags cif.rtype = .struct then put stack 0 (pointerCells m rvalue) else some stack)
  let stack ← fillSlots avalue 0 cif.atypes (firstSlot cif) stack
  let frame ← defined (enterClosure stack)
  let arguments ← win64Arguments frame (firstSlot cif) cif.atypes
  let cells ← fn arguments
  undefinedUnless (cells.length = returnWidth cif.rtype)
  returnWin64 cif frame slot rvalue cells

/-! ## Types -/

/-- A predefined descriptor has the size of its type. -/
def Predefined : FfiType m.sizeBits → Prop
  | .basic size _ (.value c) => size.toNat = c.size m
  | _ => True

theorem predefined_initialized {type : RefType} {ft : FfiType m.sizeBits}
    (ready : initialized (ffiType m type) = some ft) : Predefined ft := by
  have declared : Predefined (ffiType m type) := by
    cases type with
    | void => trivial
    | scalar s => exact ctype_size_toNat _
    | pointer _ => exact ctype_size_toNat _
    | array _ _ => exact ctype_size_toNat _
    | struct fields => trivial
  generalize ffiType m type = t at ready declared
  rw [initialized] at ready
  split at ready
  · cases t with
    | basic size alignment type => cases ready
    | aggregate size alignment elements =>
      -- what is laid out is an aggregate again
      rw [initializeAggregate] at ready
      split at ready
      · cases ready
      · dsimp only at ready
        split at ready
        · cases ready
        · obtain rfl := Option.some.inj ready
          trivial
  · obtain rfl := Option.some.inj ready
    exact declared

theorem inSlot_ctype (c : CType) : InSlot (c.size m) := by
  have small := c.logSize_lt m
  rw [InSlot, CType.size]
  rcases (by omega : c.logSize m = 0 ∨ c.logSize m = 1 ∨ c.logSize m = 2 ∨ c.logSize m = 3) with h | h | h | h <;>
    simp [h]

theorem floating_small {t : FfiType m.sizeBits} (predefined : Predefined t) (floating : t.floating = true) :
    InSlot t.size.toNat := by
  cases t with
  | aggregate size alignment elements => cases floating
  | basic size alignment type =>
    cases type with
    | void => cases floating
    | value c =>
      have sized : size.toNat = c.size m := predefined
      change InSlot size.toNat
      rw [sized]
      exact inSlot_ctype c

/-! ## The slots -/

theorem exec_loadPointer_eq {w : World m} {p : Pointer} :
    exec (loadPointer p) w = ((load w.memory p m.pointer.bytes).bind (decodePointer m)).map fun q => (q, w) := by
  rw [loadPointer]
  cases loaded : load w.memory p m.pointer.bytes with
  | none => exact exec_bind_none (by rw [exec_read, loaded]; rfl)
  | some cells =>
    rw [exec_bind (by rw [exec_read, loaded]; rfl), Option.bind_some]
    cases decodePointer m cells <;> rfl

/-- What `ffi_call` puts in the slot of an argument that is at `entry`. -/
def slotOf (memory : Memory Cell) (entry : Pointer) (atype : FfiType m.sizeBits) : Option (List Cell) :=
  if InSlot atype.size.toNat then (load memory entry atype.size.toNat).map zeroExtended
  else some (pointerCells m entry)

/-- What a closure makes of the slot of an argument. -/
def slotArgument (memory : Memory Cell) (slot : List Cell) (atype : FfiType m.sizeBits) : Option (List Cell) :=
  if InSlot atype.size.toNat then BlockMemory.slice slot 0 atype.size.toNat
  else (decodePointer m slot).bind fun address => load memory address atype.size.toNat

variable {w : World m} {memory : Memory Cell} {entry avalue : Pointer} {atype : FfiType m.sizeBits}
  {types : List (FfiType m.sizeBits)}

theorem exec_argumentSlot :
    exec (argumentSlot entry atype) w = (slotOf w.memory entry atype).map fun slot => (slot, w) := by
  have held : ∀ size : Nat, exec (do return zeroExtended (← read entry size)) w =
      ((load w.memory entry size).map zeroExtended).map fun slot => (slot, w) := by
    intro size
    cases loaded : load w.memory entry size with
    | none => exact exec_bind_none (by rw [exec_read, loaded]; rfl)
    | some cells => exact exec_bind (by rw [exec_read, loaded]; rfl)
  rw [argumentSlot, slotOf]
  split
  · next eight =>
    rw [if_pos (by simp [InSlot, eight]), exec_read, eight, Option.map_map]
    cases loaded : load w.memory entry 8 with
    | none => rfl
    | some cells => simp [zeroExtended, zeros, load_length loaded]
  · next four => rw [held, if_pos (by simp [InSlot, four]), four]
  · next two => rw [held, if_pos (by simp [InSlot, two]), two]
  · next one => rw [held, if_pos (by simp [InSlot, one]), one]
  · next notEight notFour notTwo notOne =>
    have reference : ¬ InSlot atype.size.toNat := by
      simp only [InSlot, not_or]
      exact ⟨notOne, notTwo, notFour, notEight⟩
    rw [if_neg reference]
    rfl

theorem slotOf_length (eight : m.pointer = .eight) {slot : List Cell} (did : slotOf memory entry atype = some slot) :
    slot.length = 8 := by
  rw [slotOf] at did
  split at did
  · next inSlot =>
    obtain ⟨cells, loaded, rfl⟩ := Option.map_eq_some_iff.mp did
    have length := load_length loaded
    simp only [InSlot] at inSlot
    rw [zeroExtended, List.length_append, zeros, List.length_replicate]
    omega
  · obtain rfl := Option.some.inj did
    rw [pointerCells_length, eight]
    rfl

/-- One argument goes through its slot. -/
theorem slotOf_bind : ((slotOf memory entry atype).bind fun slot => slotArgument memory slot atype) =
    load memory entry atype.size.toNat := by
  by_cases inSlot : InSlot atype.size.toNat
  · simp only [slotOf, slotArgument, if_pos inSlot]
    cases loaded : load memory entry atype.size.toNat with
    | none => rfl
    | some cells => exact slice_zeroExtended (load_length loaded)
  · simp only [slotOf, slotArgument, if_neg inSlot, Option.bind_some, decodePointer_pointerCells]

/-! ## The loops -/

/-- The slots of the arguments from entry `i` on. -/
def slotContents (memory : Memory Cell) (avalue : Pointer) : Nat → List (FfiType m.sizeBits) → Option (List (List Cell))
  | _, [] => some []
  | i, atype :: rest => do
    let entry ← (load memory (avalue.shift (i * m.pointer.bytes)) m.pointer.bytes).bind (decodePointer m)
    let slot ← slotOf memory entry atype
    let others ← slotContents memory avalue (i + 1) rest
    some (slot :: others)

/-- What the arguments in such slots are. -/
def slotArguments (memory : Memory Cell) : List (FfiType m.sizeBits) → List (List Cell) → Option (List (List Cell))
  | [], [] => some []
  | atype :: rest, slot :: slots => do
    let cells ← slotArgument memory slot atype
    let others ← slotArguments memory rest slots
    some (cells :: others)
  | _, _ => none

theorem slotContents_lengths (eight : m.pointer = .eight) {i : Nat} {slots : List (List Cell)}
    (did : slotContents memory avalue i types = some slots) :
    slots.length = types.length ∧ ∀ slot ∈ slots, slot.length = 8 := by
  induction types generalizing i slots with
  | nil =>
    obtain rfl := Option.some.inj did
    simp
  | cons atype rest ih =>
    simp only [slotContents, Option.bind_eq_bind, Option.bind_eq_some_iff, Option.some.injEq] at did
    obtain ⟨entry, _, slot, first, others, tail, rfl⟩ := did
    obtain ⟨length, each⟩ := ih tail
    exact ⟨by simp [length], List.forall_mem_cons.mpr ⟨slotOf_length eight first, each⟩⟩

/-- **Arguments go through their slots**: `ffi_call` and the closure between them find what is at
the entries of the argument array. -/
theorem exec_loadArguments_eq {i : Nat} : exec (loadArguments avalue i types) w =
    ((slotContents w.memory avalue i types).bind (slotArguments w.memory types)).map fun arguments =>
      (arguments, w) := by
  induction types generalizing i with
  | nil => rfl
  | cons atype rest ih =>
    rw [loadArguments, exec_bind_reads exec_loadPointer_eq, slotContents]
    cases (load w.memory (avalue.shift (i * m.pointer.bytes)) m.pointer.bytes).bind (decodePointer m) with
    | none => rfl
    | some entry =>
      simp only [Option.bind_eq_bind, Option.bind_some, exec_bind_reads exec_read, ← slotOf_bind]
      cases slotOf w.memory entry atype with
      | none => rfl
      | some slot =>
        simp only [Option.bind_some, exec_bind_reads ih]
        cases slotContents w.memory avalue (i + 1) rest with
        | none => cases slotArgument w.memory slot atype <;> rfl
        | some slots =>
          simp only [Option.bind_some, slotArguments, Option.bind_eq_bind]
          cases slotArgument w.memory slot atype with
          | none => rfl
          | some cells => cases slotArguments w.memory rest slots <;> rfl

/-- The loop of `ffi_call_int` writes the slots one after the other. -/
theorem exec_fillSlots (avalue : Pointer) (eight : m.pointer = .eight) {i j : Nat} (before : List Cell) {old : List Cell}
    (after : List Cell) (starts : before.length = 8 * j) (room : old.length = 8 * types.length) :
    exec (fillSlots avalue i types j (before ++ old ++ after)) w =
      (slotContents w.memory avalue i types).map fun slots => (before ++ slots.flatten ++ after, w) := by
  induction types generalizing i j before old with
  | nil =>
    obtain rfl := List.length_eq_zero_iff.mp room
    rfl
  | cons atype rest ih =>
    rw [List.length_cons] at room
    rw [fillSlots, exec_bind_reads exec_loadPointer_eq, slotContents]
    cases (load w.memory (avalue.shift (i * m.pointer.bytes)) m.pointer.bytes).bind (decodePointer m) with
    | none => rfl
    | some entry =>
      simp only [Option.bind_eq_bind, Option.bind_some, exec_bind_reads exec_argumentSlot]
      cases is : slotOf w.memory entry atype with
      | none => rfl
      | some slot =>
        have length := slotOf_length eight is
        have split : before ++ old ++ after = before ++ old.take 8 ++ (old.drop 8 ++ after) := by
          rw [List.append_assoc, List.append_assoc, ← List.append_assoc (old.take 8), List.take_append_drop]
        have one : (old.take 8).length = 8 := by
          rw [List.length_take]
          omega
        have did : put (before ++ old ++ after) (8 * j) slot =
            some (before ++ slot ++ old.drop 8 ++ after) := by
          rw [put_of_fits (by simp; omega), split, ← starts, splice_append (length.trans one.symm)]
          simp
        rw [Option.bind_some, exec_bind (exec_defined did),
          ih (before ++ slot) (by rw [List.length_append]; omega) (by rw [List.length_drop]; omega)]
        cases slotContents w.memory avalue (i + 1) rest <;> simp

/-! ## The closure -/

theorem enterClosure_eq {stack : List Cell} (room : 32 ≤ stack.length) :
    enterClosure stack = some ⟨stack.take 32, stack⟩ := by
  have general : slice stack 0 32 = some (stack.take 32) := slice_take room
  have args : put stack 0 (stack.take 32) = some stack := by
    have length : (stack.take 32).length = 32 := by
      rw [List.length_take]
      omega
    rw [put_of_fits (by omega), splice, List.take_zero, List.nil_append, length, Nat.zero_add, List.take_append_drop]
  rw [enterClosure, general]
  simp only [Option.bind_eq_bind, Option.bind_some, args]
  rfl

/-- A floating argument is in the vector registers as it is in the others. -/
theorem exec_win64Argument {before slot : List Cell} (after : List Cell) {nreg : Nat} (predefined : Predefined atype)
    (starts : before.length = 8 * nreg) (length : slot.length = 8) :
    exec (win64Argument ⟨(before ++ slot ++ after).take 32, before ++ slot ++ after⟩ nreg atype) w =
      (slotArgument w.memory slot atype).map fun cells => (cells, w) := by
  have held : ∀ size ≤ 8, slice (before ++ slot ++ after) (8 * nreg) size = slice slot 0 size := by
    intro size small
    rw [slice_of_fits (by simp; omega), slice_take (by omega), List.append_assoc, ← starts, List.drop_left,
      List.take_append_of_le_length (by omega)]
  rw [win64Argument, slotArgument]
  dsimp only
  by_cases floating : atype.floating = true
  · have inSlot := floating_small predefined floating
    have small : atype.size.toNat ≤ 8 := by
      simp only [InSlot] at inSlot
      omega
    rw [if_pos floating, if_pos inSlot, ← held _ small]
    split
    · next register =>
      have same : slice ((before ++ slot ++ after).take 32) (8 * nreg) atype.size.toNat =
          slice (before ++ slot ++ after) (8 * nreg) atype.size.toNat := by
        rw [slice_of_fits (by simp; omega), slice_of_fits (by simp; omega), List.drop_take, List.take_take,
          Nat.min_eq_left (by omega)]
      rw [same]
      rfl
    · rfl
  · rw [if_neg floating]
    by_cases inSlot : InSlot atype.size.toNat
    · have small : atype.size.toNat ≤ 8 := by
        simp only [InSlot] at inSlot
        omega
      rw [if_pos inSlot, if_pos inSlot, held _ small]
      rfl
    · have whole : slice slot 0 8 = some slot := by
        rw [slice_take (by omega), ← length, List.take_length]
      rw [if_neg inSlot, if_neg inSlot, held 8 (Nat.le_refl 8), whole, Option.bind_some]
      cases decodePointer m slot with
      | none => rfl
      | some address => exact exec_bind rfl

/-- The loop of the closure finds the slots one after the other. -/
theorem exec_win64Arguments {nreg : Nat} (before : List Cell) {slots : List (List Cell)} (after : List Cell)
    (predefined : ∀ t ∈ types, Predefined t) (starts : before.length = 8 * nreg)
    (arity : slots.length = types.length) (lengths : ∀ slot ∈ slots, slot.length = 8) :
    exec (win64Arguments ⟨(before ++ slots.flatten ++ after).take 32, before ++ slots.flatten ++ after⟩ nreg types) w =
      (slotArguments w.memory types slots).map fun arguments => (arguments, w) := by
  induction types generalizing nreg before slots with
  | nil =>
    obtain rfl := List.length_eq_zero_iff.mp arity
    rfl
  | cons atype rest ih =>
    have nonempty : slots ≠ [] := by
      rintro rfl
      simp at arity
    obtain ⟨slot, others, rfl⟩ := List.exists_cons_of_ne_nil nonempty
    obtain ⟨length, tail⟩ := List.forall_mem_cons.mp lengths
    have split : before ++ (slot :: others).flatten ++ after = before ++ slot ++ (others.flatten ++ after) := by simp
    have onward := @ih (nreg + 1) (before ++ slot) others
      (fun t member => predefined t (List.mem_cons_of_mem _ member)) (by rw [List.length_append]; omega)
      (by simpa using arity) tail
    rw [← split.trans (List.append_assoc _ _ _).symm] at onward
    have first := exec_win64Argument (w := w) (others.flatten ++ after)
      (predefined atype (by simp)) starts length
    rw [← split] at first
    rw [win64Arguments, exec_bind_reads first, slotArguments]
    cases slotArgument w.memory slot atype with
    | none => rfl
    | some cells =>
      simp only [Option.bind_eq_bind, Option.bind_some, exec_bind_reads onward]
      cases slotArguments w.memory rest others <;> rfl

/-! ## Results -/

theorem returned_extended (eight : m.ffiArg = .eight) {size : BitVec m.sizeBits} {alignment : Nat} {signed : Bool}
    {width : IntWidth} (cells : List Cell) : returned m (.basic size alignment (.value (.int signed width))) cells =
      if signed then signExtended cells else zeroExtended cells := by
  have wide : m.ffiArg.bytes = 8 := by
    rw [eight]
    rfl
  rw [returned, wide]
  cases signed
  · rw [extension_false]
    rfl
  · rfl

theorem zeroExtended_whole {cells : List Cell} (length : cells.length = 8) : zeroExtended cells = cells := by
  rw [zeroExtended, length]
  exact List.append_nil cells

theorem signExtended_whole {cells : List Cell} (length : cells.length = 8) : signExtended cells = cells := by
  rw [signExtended, length]
  exact List.append_nil cells

/-- What is stored of a result in a register. -/
theorem storeWin64_returned {rtype : FfiType m.sizeBits} (pointer : m.pointer = .eight) (eight : m.ffiArg = .eight)
    (predefined : Predefined rtype) (register : win64Flags rtype ≠ .struct) {cells slot : List Cell}
    (filled : cells.length = returnWidth rtype) (room : 8 ≤ slot.length) :
    ∃ result, slice (cells ++ slot) 0 8 = some result ∧
      storeWin64 (win64Flags rtype) result result = some (returned m rtype cells) := by
  refine ⟨_, slice_take (by rw [List.length_append]; omega), ?_⟩
  have low : ∀ n ≤ 8, cells.length = n → slice ((cells ++ slot).take 8) 0 n = some cells := by
    intro n small length
    rw [slice_take (by rw [List.length_take, List.length_append]; omega), List.take_take, Nat.min_eq_left small,
      ← length, List.take_left]
  cases rtype with
  | basic size alignment type =>
    cases type with
    | void =>
      obtain rfl := List.length_eq_zero_iff.mp filled
      rfl
    | value c =>
      have bytes : cells.length = c.size m := filled.trans predefined
      cases c with
      | float => exact low 4 (by omega) bytes
      | double => exact low 8 (by omega) bytes
      | pointer =>
        have whole : cells.length = 8 := by
          rw [bytes, CType.size_pointer, pointer]
          rfl
        have same : returned m (.basic size alignment (.value .pointer)) cells = cells := by
          rw [returned, eight, whole]
          exact List.append_nil cells
        rw [same]
        exact low 8 (by omega) whole
      | int signed width =>
        rw [returned_extended eight]
        cases signed <;> cases width
        · exact congrArg (Option.map zeroExtended) (low 1 (by omega) bytes)
        · exact congrArg (Option.map zeroExtended) (low 2 (by omega) bytes)
        · exact congrArg (Option.map zeroExtended) (low 4 (by omega) bytes)
        · exact (low 8 (by omega) bytes).trans (congrArg some (zeroExtended_whole bytes).symm)
        · exact congrArg (Option.map signExtended) (low 1 (by omega) bytes)
        · exact congrArg (Option.map signExtended) (low 2 (by omega) bytes)
        · exact congrArg (Option.map signExtended) (low 4 (by omega) bytes)
        · exact (low 8 (by omega) bytes).trans (congrArg some (signExtended_whole bytes).symm)
  | aggregate size alignment elements =>
    rw [win64Flags] at register ⊢
    split at register
    · next eightBytes => exact low 8 (by omega) (filled.trans eightBytes)
    · next four => exact low 4 (by omega) (filled.trans four)
    · next two => exact low 2 (by omega) (filled.trans two)
    · next one => exact low 1 (by omega) (filled.trans one)
    · exact absurd rfl register

/-! ## Calls -/

section
variable {cif : Cif m} {fn : Native m}

/-- The stack when the arguments are about to be written. -/
theorem stack_begins (pointer : m.pointer = .eight) (uninitialised : Nat → Cell) (rvalue : Pointer)
    (fits : max 4 (cif.atypes.length + firstSlot cif) * 8 < 2 ^ 32) :
    ∃ before old after : List Cell, before.length = 8 * firstSlot cif ∧ old.length = 8 * cif.atypes.length ∧
      32 ≤ (before ++ old ++ after).length ∧
      (win64Flags cif.rtype = .struct → before = pointerCells m rvalue) ∧
      (if win64Flags cif.rtype = .struct then
          put ((List.range (win64Bytes cif)).map uninitialised) 0 (pointerCells m rvalue)
        else some ((List.range (win64Bytes cif)).map uninitialised)) = some (before ++ old ++ after) := by
  have bytes : win64Bytes cif = max 4 (cif.atypes.length + firstSlot cif) * 8 := Nat.mod_eq_of_lt fits
  have length : ((List.range (win64Bytes cif)).map uninitialised).length =
      max 4 (cif.atypes.length + firstSlot cif) * 8 := by simp [bytes]
  generalize (List.range (win64Bytes cif)).map uninitialised = stack at length
  have word : (pointerCells m rvalue).length = 8 := by
    rw [pointerCells_length, pointer]
    rfl
  by_cases struct : win64Flags cif.rtype = .struct
  · have first : firstSlot cif = 1 := if_pos struct
    rw [first] at length ⊢
    have middle : ((stack.drop 8).take (8 * cif.atypes.length)).length = 8 * cif.atypes.length := by
      rw [List.length_take, List.length_drop]
      omega
    refine ⟨pointerCells m rvalue, (stack.drop 8).take (8 * cif.atypes.length),
      (stack.drop 8).drop (8 * cif.atypes.length), word, middle, ?_, fun _ => rfl, ?_⟩
    · simp only [List.length_append, word, middle, List.length_drop]
      omega
    · rw [if_pos struct, put_of_fits (by omega), splice, word, List.append_assoc (pointerCells m rvalue),
        List.take_append_drop]
      rfl
  · have first : firstSlot cif = 0 := if_neg struct
    rw [first] at length ⊢
    refine ⟨[], stack.take (8 * cif.atypes.length), stack.drop (8 * cif.atypes.length), rfl, by simp; omega,
      by simp; omega, fun is => absurd is struct, ?_⟩
    rw [if_neg struct, List.nil_append, List.take_append_drop]

/-- A result in memory is where the first slot points. -/
theorem exec_returnWin64 {w : World m} (pointer : m.pointer = .eight) (eight : m.ffiArg = .eight)
    (returns : Predefined cif.rtype) {frame : Win64Frame} {before rest : List Cell} (args : frame.args = before ++ rest)
    {rvalue : Pointer} (struct : win64Flags cif.rtype = .struct → before = pointerCells m rvalue) {cells slot : List Cell}
    (filled : cells.length = returnWidth cif.rtype) (room : 8 ≤ slot.length) :
    exec (returnWin64 cif frame slot rvalue cells) w = exec (write rvalue (returned m cif.rtype cells)) w := by
  rw [returnWin64]
  split
  · next memory =>
    have first : slice frame.args 0 8 = some (pointerCells m rvalue) := by
      rw [args, struct memory]
      refine slice_prefix ?_
      rw [pointerCells_length, pointer]
      rfl
    have whole : returned m cif.rtype cells = cells := by
      cases h : cif.rtype with
      | aggregate size alignment elements => rfl
      | basic size alignment type =>
        rw [h] at memory
        rcases type with _ | c
        · cases memory
        · rcases c with ⟨_ | _, _ | _ | _ | _⟩ | _ | _ | _ <;> cases memory
    rw [exec_bind (exec_defined (by rw [first, Option.bind_some, decodePointer_pointerCells])), whole]
  · next register =>
    obtain ⟨result, taken, stores⟩ := storeWin64_returned pointer eight returns register filled room
    rw [exec_bind (exec_defined taken), exec_bind (exec_defined stores)]

/-- **Calls through slots.** `ffi_call` of a closure does what handing over the arguments' bytes and
storing the result's would do. -/
theorem ffiCall_win64 (pointer : m.pointer = .eight) (eight : m.ffiArg = .eight) (returns : Predefined cif.rtype)
    (takes : ∀ t ∈ cif.atypes, Predefined t) (fits : max 4 (cif.atypes.length + firstSlot cif) * 8 < 2 ^ 32)
    (uninitialised : Nat → Cell) {slot : List Cell} (room : 8 ≤ slot.length) (rvalue avalue : Pointer) :
    ffiCallWin64 uninitialised slot cif fn rvalue avalue = ffiCall cif fn rvalue avalue := by
  funext w
  obtain ⟨before, old, after, starts, middle, enough, struct, begins⟩ :=
    stack_begins pointer uninitialised rvalue fits
  refine (exec_bind (exec_defined begins)).trans (.trans ?_ (exec_bind_reads exec_loadArguments_eq).symm)
  have fills := exec_fillSlots avalue (w := w) (i := 0) pointer before after starts middle
  cases contents : slotContents w.memory avalue 0 cif.atypes with
  | none =>
    rw [contents] at fills
    exact exec_bind_none fills
  | some slots =>
    rw [contents] at fills
    obtain ⟨arity, lengths⟩ := slotContents_lengths pointer contents
    have filled : slots.flatten.length = 8 * slots.length := by
      rw [List.length_flatten, List.map_eq_replicate_iff.mpr lengths, List.sum_replicate_nat, Nat.mul_comm]
    have stack : 32 ≤ (before ++ slots.flatten ++ after).length := by
      simp only [List.length_append] at enough ⊢
      omega
    have arguments := exec_win64Arguments (w := w) before after takes starts arity lengths
    refine (exec_bind fills).trans ((exec_bind (exec_defined (enterClosure_eq stack))).trans
      ((exec_bind_reads arguments).trans ?_))
    refine congrArg (Option.bind _) (funext fun passed => exec_bind_congr fun cells w' _ =>
      exec_bind_congr fun _ w'' guarded => ?_)
    exact exec_returnWin64 pointer eight returns (List.append_assoc _ _ _) struct
      (exec_undefinedUnless_some guarded).1 room

end

/-- **Declared functions through slots.** On a target with eight-byte pointers, calling a closure
through `ffi_call` does, from every state of the world, what handing over the bytes of the arguments
and storing those of the result would do: for every signature with fewer arguments than overflow
`cif->bytes`, and whatever the function does. -/
theorem declared_ffiCall_win64 {s : Signature m} (pointer : m.pointer = .eight) (eight : m.ffiArg = .eight)
    (few : s.argTypes.length + 1 < 2 ^ 29) (uninitialised : Nat → Cell) {slot : List Cell} (room : 8 ≤ slot.length)
    (fn : Native m) (rvalue avalue : Pointer) :
    ffiCallWin64 uninitialised slot s.cif fn rvalue avalue = ffiCall s.cif fn rvalue avalue := by
  obtain ⟨returnReady, argsReady⟩ := prepCif_eq_some s.prepared
  have arity : s.argTypes.length = s.cif.atypes.length := argsReady.length_eq
  have one : firstSlot s.cif ≤ 1 := by
    rw [firstSlot]
    split <;> omega
  refine ffiCall_win64 pointer eight (predefined_initialized returnReady) (fun t member => ?_) (by omega) uninitialised
    room rvalue avalue
  obtain ⟨type, _, ready⟩ := exists_related argsReady member
  exact predefined_initialized ready

/-- A `struct` of three doubles from one of two and a `double`: the result is in memory, and the first
argument is passed by reference. -/
def exampleTriple : Signature llp64 where
  returnType := .struct [.scalar .double, .scalar .double, .scalar .double]
  argTypes := [.struct [.scalar .double, .scalar .double], .scalar .double]
  cif := ⟨.aggregate 24 8 [CType.double.ffiType llp64, CType.double.ffiType llp64, CType.double.ffiType llp64],
    [.aggregate 16 8 [CType.double.ffiType llp64, CType.double.ffiType llp64], CType.double.ffiType llp64]⟩
  prepared := rfl

theorem exampleTriple_ffiCall :
    ffiCallWin64 (fun _ => .byte 0) (zeros 16) exampleTriple.cif (ofFunction List.flatten) ⟨0, 0⟩ ⟨1, 0⟩ =
      ffiCall exampleTriple.cif (ofFunction List.flatten) ⟨0, 0⟩ ⟨1, 0⟩ :=
  declared_ffiCall_win64 rfl rfl (by decide) _ (by decide) _ _ _

example : (exec (ffiCallWin64 (fun _ => .byte 0) (zeros 16) exampleTriple.cif (ofFunction List.flatten) ⟨0, 0⟩ ⟨1, 0⟩)
    ((World.initial llp64).setMemory [zeros 24, pointerCells llp64 ⟨2, 0⟩ ++ pointerCells llp64 ⟨3, 0⟩,
      List.replicate 16 (.byte 1), List.replicate 8 (.byte 2)])).map (fun ran => ran.2.memory.head?) =
    some (some (List.replicate 16 (.byte 1) ++ List.replicate 8 (.byte 2))) := by
  rfl

end NodeFfi
