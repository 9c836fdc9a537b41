import NodeFfi.RegisterPassing

/-! One argument between `ffi_call` and a closure. The two loops and `ffi_prep_cif_machdep`
each allocate registers on their own, and all three as the psABI does; `ffi_call_int` stores
each eightbyte where `ffi_closure_unix64_inner` looks for it and leaves what earlier arguments
have alone, except where it copies a whole struct into the last general register and runs over
into an SSE register that is already in use. -/
namespace NodeFfi
open AlignedLayout BlockMemory RegClass

/-! ## Allocation -/

/-- The psABI passes an argument in registers only if there are enough for all of it. -/
def fitsRegisters (c : Counts) (classes : List EightbyteClass) : Bool :=
  classes ≠ [] && c.gprcount + classes.count .integer ≤ 6 && c.ssecount + classes.count .sse ≤ 8

/-- What is taken after an argument. -/
def Counts.after {w : Nat} (c : Counts) (t : FfiType w) : Counts :=
  if fitsRegisters c (psabiClasses t) then
    { c with gprcount := c.gprcount + (psabiClasses t).count .integer,
             ssecount := c.ssecount + (psabiClasses t).count .sse }
  else { c with bytes := roundUp c.bytes (stackAlignment t) + t.size.toNat }

/-- An argument of an INTEGER and an SSE eightbyte takes the last general register when an
SSE register is already in use. -/
def spillsAt {w : Nat} (c : Counts) (t : FfiType w) : Bool :=
  fitsRegisters c (psabiClasses t) && psabiClasses t = [.integer, .sse] && c.gprcount = 5 && c.ssecount ≠ 0

def spills {w : Nat} : Counts → List (FfiType w) → Bool
  | _, [] => false
  | c, t :: rest => spillsAt c t || spills (c.after t) rest

/-- The types that are classified as the psABI does. -/
structure Passed (t : FfiType lp64.sizeBits) : Prop where
  formed : Formed t
  whole : unsplit t 0

/-- What `examine_argument` says of such a type. -/
structure Examines (t : FfiType lp64.sizeBits) (e : Examined) : Prop where
  did : examineArgument t = some e
  eightbytes : e.classes.map RegClass.eightbyte = (psabiClasses t).map some
  ngpr : e.ngpr = (psabiClasses t).count .integer
  nsse : e.nsse = (psabiClasses t).count .sse

theorem Passed.examines {t : FfiType lp64.sizeBits} (passed : Passed t) : ∃ e, Examines t e := by
  obtain ⟨e, did, eightbytes, ngpr, nsse⟩ := examineArgument_psabi passed.formed passed.whole
  exact ⟨e, did, eightbytes, ngpr, nsse⟩

namespace Examines

variable {t : FfiType lp64.sizeBits} {e : Examined}

theorem classes_nil (examines : Examines t e) : e.classes = [] ↔ psabiClasses t = [] := by
  have same := examines.eightbytes
  constructor
  · intro none
    rw [none] at same
    simpa using same.symm
  · intro none
    rw [none] at same
    simpa using same

theorem inRegisters (examines : Examines t e) (c : Counts) :
    e.inRegisters c = fitsRegisters c (psabiClasses t) := by
  rw [Examined.inRegisters, fitsRegisters, examines.ngpr, examines.nsse]
  simp only [ne_eq, examines.classes_nil]

/-- `ffi_prep_cif_machdep` allocates as the psABI does. -/
theorem countArgument (examines : Examines t e) (c : Counts) : countArgument c t = some (c.after t) := by
  simp only [NodeFfi.countArgument, examines.did, Option.bind_eq_bind, Option.bind_some,
    examines.inRegisters, Counts.after, examines.ngpr, examines.nsse]
  split <;> rfl

end Examines

theorem countArguments {types : List (FfiType lp64.sizeBits)} (passed : ∀ t ∈ types, Passed t) (c : Counts) :
    types.foldlM countArgument c = some (types.foldl Counts.after c) := by
  induction types generalizing c with
  | nil => rfl
  | cons t rest ih =>
    obtain ⟨e, examines⟩ := (passed t (by simp)).examines
    rw [List.foldlM_cons, examines.countArgument, Option.bind_eq_bind, Option.bind_some,
      ih (fun other member => passed other (List.mem_cons_of_mem _ member)), List.foldl_cons]

/-! ## Where an argument's bytes are -/

/-- A class whose eightbyte is moved through a register. -/
def RegClass.moved (class_ : RegClass) : Bool := class_.isInteger || class_.takesSse

/-- Where in the registers byte `i` of an argument is. -/
def byteSlot : List RegClass → Counts → Nat → Nat
  | [], _, i => i
  | class_ :: rest, c, i =>
    if i < 8 then registerOffset class_ c + i else byteSlot rest (c.next class_) (i - 8)

/-- Byte `i` of an argument is copied: only four bytes are of an eightbyte with one `float`. -/
def carries : List RegClass → Nat → Bool
  | [], _ => false
  | class_ :: rest, i => if i < 8 then class_ ≠ .sseSF || i < 4 else carries rest (i - 8)

/-- As many bytes are left of the argument as each SSE move reads. -/
def Enough : List RegClass → Nat → Prop
  | [], _ => True
  | class_ :: rest, left =>
    (class_.takesSse → (if class_ = .sseSF then 4 else 8) ≤ left) ∧ Enough rest (left - 8)

/-- There is a register for each eightbyte. -/
structure Room (classes : List RegClass) (c : Counts) : Prop where
  gpr : c.gprcount + classes.countP isInteger ≤ 6
  sse : c.ssecount + classes.countP takesSse ≤ 8

theorem isSse_of_moved {class_ : RegClass} (moved : class_.moved) :
    class_.isSse = class_.takesSse ∧ class_.isInteger = !class_.takesSse := by
  cases class_ <;> cases moved <;> exact ⟨rfl, rfl⟩

theorem Room.next {class_ : RegClass} {rest : List RegClass} {c : Counts} (moved : class_.moved)
    (room : Room (class_ :: rest) c) : Room rest (c.next class_) := by
  obtain ⟨gpr, sse⟩ := room
  obtain ⟨sseIs, integerIs⟩ := isSse_of_moved moved
  rw [List.countP_cons] at gpr sse
  rw [integerIs] at gpr
  rw [Counts.next, sseIs]
  cases taken : class_.takesSse <;> simp only [taken] at gpr sse ⊢ <;>
    exact ⟨by simp at gpr ⊢; omega, by simp at sse ⊢; omega⟩

theorem Room.offset_le {class_ : RegClass} {rest : List RegClass} {c : Counts} (moved : class_.moved)
    (room : Room (class_ :: rest) c) :
    if class_.isSse then registerOffset class_ c + 16 ≤ 176 else registerOffset class_ c + 8 ≤ 48 := by
  obtain ⟨gpr, sse⟩ := room
  obtain ⟨sseIs, integerIs⟩ := isSse_of_moved moved
  rw [List.countP_cons] at gpr sse
  rw [integerIs] at gpr
  rw [registerOffset, sseIs]
  cases taken : class_.takesSse <;> simp [taken, gprOffset, sseOffset] at gpr sse ⊢ <;> omega

/-- The second half of the closure's loop puts the eightbytes next to each other. -/
theorem gather_spec {registers : List Cell} (long : registers.length = 176) {classes : List RegClass}
    {c : Counts} (moved : ∀ class_ ∈ classes, class_.moved) (room : Room classes c) :
    ∃ cells, gather registers classes c = some (cells, classes.foldl Counts.next c) ∧
      cells.length = 8 * classes.length ∧
      ∀ i < 8 * classes.length, cells[i]? = registers[byteSlot classes c i]? := by
  induction classes generalizing c with
  | nil => exact ⟨[], rfl, rfl, by simp⟩
  | cons class_ rest ih =>
    have first := moved class_ (by simp)
    obtain ⟨others, tail, length, bytes⟩ := ih (fun other member => moved other (List.mem_cons_of_mem _ member))
      (room.next first)
    have bound := room.offset_le first
    have inside : registerOffset class_ c + 8 ≤ registers.length := by
      split at bound <;> omega
    obtain ⟨cells, read⟩ : ∃ cells, slice registers (registerOffset class_ c) 8 = some cells :=
      ⟨_, slice_of_fits inside⟩
    refine ⟨cells ++ others, by simp [gather, read, tail], ?_, ?_⟩
    · rw [List.length_append, slice_length read, length, List.length_cons]
      omega
    · intro i below
      rw [List.length_cons] at below
      rw [byteSlot]
      split
      · next early => rw [List.getElem?_append_left (by rw [slice_length read]; omega), slice_get read, if_pos early]
      · next late => rw [List.getElem?_append_right (by rw [slice_length read]; omega), slice_length read,
          bytes (i - 8) (by omega)]

/-! ## Storing an argument -/

/-- The first eightbyte is an INTEGER one whose copy runs past the general registers. -/
def Overruns (classes : List RegClass) (length : Nat) (c : Counts) : Prop :=
  (∃ class_ ∈ classes.head?, class_.isInteger = true) ∧ 48 < gprOffset c.gprcount + length

/-- What storing the eightbytes `classes` of `a` does to the registers. -/
structure Stored (classes : List RegClass) (a : List Cell) (f f' : Frame) : Prop where
  counts : f'.toCounts = classes.foldl Counts.next f.toCounts
  stack : f'.stack = f.stack
  long : f'.registers.length = f.registers.length
  content : ∀ i < a.length, carries classes i → f'.registers[byteSlot classes f.toCounts i]? = a[i]?
  frame : ∀ p, (p < gprOffset f.gprcount ∨ 48 ≤ p ∧ p < sseOffset f.ssecount ∧
    ¬ Overruns classes a.length f.toCounts) → f'.registers[p]? = f.registers[p]?
  overrun : Overruns classes a.length f.toCounts → f.ssecount ≠ 0 →
    f'.registers[48]? = a[48 - gprOffset f.gprcount]?

/-- What storing one eightbyte does: it writes all that is left of the argument, or eight
bytes if there are fewer. -/
structure StoredOne (class_ : RegClass) (a : List Cell) (f f' : Frame) : Prop where
  counts : f'.toCounts = f.toCounts.next class_
  stack : f'.stack = f.stack
  long : f'.registers.length = f.registers.length
  content : ∀ i < a.length, (class_.isInteger ∨ i < 8) → (class_ = .sseSF → i < 4) →
    f'.registers[registerOffset class_ f.toCounts + i]? = a[i]?
  frame : ∀ p, (p < registerOffset class_ f.toCounts ∨ registerOffset class_ f.toCounts + 8 ≤ p ∧
    (class_.isInteger → registerOffset class_ f.toCounts + a.length ≤ p)) → f'.registers[p]? = f.registers[p]?

variable {w : Nat} {type : FfiType w}

theorem storeSse_one {class_ : RegClass} {count : Nat} {a : List Cell} {f : Frame} (sse : class_.isSse)
    (counted : if class_ = .sseSF then count = 4 else count = 8) (enough : count ≤ a.length)
    (room : registerOffset class_ f.toCounts + 8 ≤ f.registers.length) :
    ∃ f', storeSse count a f = some f' ∧ StoredOne class_ a f f' := by
  have small : count ≤ 8 := by split at counted <;> omega
  have at_ : registerOffset class_ f.toCounts = sseOffset f.ssecount := by rw [registerOffset, if_pos sse]
  rw [at_] at room
  obtain ⟨value, read⟩ : ∃ value, slice a 0 count = some value := ⟨_, slice_of_fits (by omega)⟩
  have width := slice_length read
  obtain ⟨registers, wrote⟩ : ∃ registers, put f.registers (sseOffset f.ssecount) value = some registers :=
    ⟨_, put_of_fits (by omega)⟩
  refine ⟨{ f with ssecount := f.ssecount + 1, registers }, by simp [storeSse, read, wrote], ?_, rfl,
    put_length wrote, ?_, ?_⟩
  · simp [Counts.next, sse]
  · intro i below early whole
    have notInteger : ¬ class_.isInteger := by cases class_ <;> cases sse <;> simp [isInteger]
    have inside : i < count := by
      split at counted
      · next single => exact counted ▸ whole single
      · have eight := early.resolve_left notInteger
        omega
    rw [at_, put_get wrote, if_pos (by omega), Nat.add_sub_cancel_left, slice_get read, if_pos inside, Nat.zero_add]
  · intro p outside
    rw [at_] at outside
    rw [put_get wrote, if_neg (by omega)]

theorem storeGpr_one {class_ : RegClass} {a : List Cell} {f : Frame} (integer : class_.isInteger)
    (narrow : ∀ bytes, narrowSigned type = some bytes → bytes = a.length ∧ bytes ≤ 8)
    (room : registerOffset class_ f.toCounts + 8 ≤ f.registers.length ∧
      registerOffset class_ f.toCounts + a.length ≤ f.registers.length) :
    ∃ f', storeGpr type a f = some f' ∧ StoredOne class_ a f f' := by
  have notSse : class_.isSse = false := by cases class_ <;> cases integer <;> rfl
  have at_ : registerOffset class_ f.toCounts = gprOffset f.gprcount := by
    rw [registerOffset, notSse]
    rfl
  have next : f.toCounts.next class_ = { f.toCounts with gprcount := f.gprcount + 1 } := by
    rw [Counts.next, notSse]
    rfl
  have single : ¬ class_ = .sseSF := by
    rintro rfl
    cases integer
  rw [at_] at room
  cases width : narrowSigned type with
  | some bytes =>
    obtain ⟨rfl, small⟩ := narrow bytes width
    have read : slice a 0 a.length = some a := by simp [slice]
    have extended : (a ++ List.replicate (8 - a.length) (extension true a)).length = 8 := by simp; omega
    obtain ⟨registers, wrote⟩ : ∃ registers, put f.registers (gprOffset f.gprcount)
        (a ++ List.replicate (8 - a.length) (extension true a)) = some registers :=
      ⟨_, put_of_fits (by rw [extended]; exact room.1)⟩
    refine ⟨{ f with gprcount := f.gprcount + 1, registers }, by simp [storeGpr, width, read, wrote],
      next.symm, rfl, put_length wrote, ?_, ?_⟩
    · intro i below early _
      rw [at_, put_get wrote, extended, if_pos (by omega), Nat.add_sub_cancel_left,
        List.getElem?_append_left below]
    · intro p outside
      rw [at_] at outside
      rw [put_get wrote, extended, if_neg (by omega)]
  | none =>
    obtain ⟨zeroed, cleared⟩ : ∃ zeroed, put f.registers (gprOffset f.gprcount) (zeros 8) = some zeroed :=
      ⟨_, put_of_fits (by simpa [zeros] using room.1)⟩
    obtain ⟨registers, wrote⟩ : ∃ registers, put zeroed (gprOffset f.gprcount) a = some registers :=
      ⟨_, put_of_fits (by rw [put_length cleared]; exact room.2)⟩
    refine ⟨{ f with gprcount := f.gprcount + 1, registers }, by simp [storeGpr, width, cleared, wrote],
      next.symm, rfl, (put_length wrote).trans (put_length cleared), ?_, ?_⟩
    · intro i below _ _
      rw [at_, put_get wrote, if_pos (by omega), Nat.add_sub_cancel_left]
    · intro p outside
      rw [at_] at outside
      simp only [integer, forall_const] at outside
      rw [put_get wrote, if_neg (by omega), put_get cleared, if_neg (by simp only [zeros, List.length_replicate]; omega)]

theorem storeEightbyte_one {class_ : RegClass} {rest : List RegClass} {a : List Cell} {f : Frame}
    (moved : class_.moved) (room : Room (class_ :: rest) f.toCounts) (long : f.registers.length = 176)
    (enough : Enough (class_ :: rest) a.length) (short : a.length ≤ 16)
    (narrow : ∀ bytes, narrowSigned type = some bytes → bytes = a.length ∧ bytes ≤ 8) :
    ∃ f', storeEightbyte type class_ a f = some f' ∧ StoredOne class_ a f f' := by
  have bound := room.offset_le moved
  have read := enough.1
  cases class_ with
  | integer => exact storeGpr_one rfl narrow (by simp [isSse] at bound; omega)
  | integerSI => exact storeGpr_one rfl narrow (by simp [isSse] at bound; omega)
  | sse => exact storeSse_one rfl (by simp) (read rfl) (by simp [isSse] at bound; omega)
  | sseDF => exact storeSse_one rfl (by simp) (read rfl) (by simp [isSse] at bound; omega)
  | sseSF => exact storeSse_one rfl (by simp) (read rfl) (by simp [isSse] at bound; omega)
  | _ => cases moved

/-- An eightbyte takes the next general register or the next SSE register. -/
theorem StoredOne.cases {class_ : RegClass} {rest : List RegClass} {a : List Cell} {f f' : Frame}
    (one : StoredOne class_ a f f') (moved : class_.moved) (room : Room (class_ :: rest) f.toCounts) :
    (class_.isInteger = true ∧ registerOffset class_ f.toCounts = gprOffset f.gprcount ∧
      f'.gprcount = f.gprcount + 1 ∧ f'.ssecount = f.ssecount ∧ f.gprcount < 6) ∨
    (class_.isInteger = false ∧ registerOffset class_ f.toCounts = sseOffset f.ssecount ∧
      f'.gprcount = f.gprcount ∧ f'.ssecount = f.ssecount + 1 ∧ f.gprcount ≤ 6) := by
  obtain ⟨sseIs, integerIs⟩ := isSse_of_moved moved
  have gpr := room.gpr
  rw [List.countP_cons, integerIs] at gpr
  rw [one.counts, integerIs, registerOffset, Counts.next, sseIs]
  cases taken : class_.takesSse
  · exact .inl ⟨rfl, rfl, rfl, rfl, by simp [taken] at gpr; omega⟩
  · exact .inr ⟨rfl, rfl, rfl, rfl, by omega⟩

/-- One eightbyte and then the others, which run past the general registers no more. -/
theorem StoredOne.cons {class_ : RegClass} {rest : List RegClass} {a : List Cell} {f between f' : Frame}
    (one : StoredOne class_ a f between) (others : Stored rest (a.drop 8) between f') (moved : class_.moved)
    (room : Room (class_ :: rest) f.toCounts) (tame : ¬ Overruns rest (a.drop 8).length between.toCounts) :
    Stored (class_ :: rest) a f f' := by
  have slot := one.cases moved room
  refine ⟨by rw [others.counts, one.counts, List.foldl_cons], others.stack.trans one.stack,
    others.long.trans one.long, ?_, ?_, ?_⟩
  · intro i below carried
    rw [byteSlot]
    rw [carries] at carried
    split at carried
    · next early =>
      -- the others use later registers
      have kept : registerOffset class_ f.toCounts + i < gprOffset between.gprcount ∨
          48 ≤ registerOffset class_ f.toCounts + i ∧
            registerOffset class_ f.toCounts + i < sseOffset between.ssecount ∧
            ¬ Overruns rest (a.drop 8).length between.toCounts := by
        rcases slot with ⟨_, at_, gpr, _, _⟩ | ⟨_, at_, _, sse, _⟩
        · rw [at_, gpr]
          simp only [gprOffset]
          omega
        · rw [at_, sse]
          simp only [sseOffset]
          exact .inr ⟨by omega, by omega, tame⟩
      rw [if_pos early, others.frame _ kept, one.content i below (.inr early)]
      intro single
      simpa [single] using carried
    · next late =>
      rw [if_neg late, ← one.counts, others.content (i - 8) (by rw [List.length_drop]; omega) carried,
        List.getElem?_drop, Nat.add_sub_cancel' (by omega)]
  · intro p outside
    have before : p < gprOffset between.gprcount ∨
        48 ≤ p ∧ p < sseOffset between.ssecount ∧ ¬ Overruns rest (a.drop 8).length between.toCounts := by
      rcases slot with ⟨_, _, gpr, sse, _⟩ | ⟨_, _, gpr, sse, _⟩
      · rw [gpr, sse]
        simp only [gprOffset] at outside ⊢
        rcases outside with low | ⟨high, within, _⟩
        · omega
        · exact .inr ⟨high, within, tame⟩
      · rw [gpr, sse]
        simp only [sseOffset] at outside ⊢
        rcases outside with low | ⟨high, within, _⟩
        · exact .inl low
        · exact .inr ⟨high, by omega, tame⟩
    rw [others.frame p before, one.frame p]
    rcases slot with ⟨integer, at_, _, _, last⟩ | ⟨sse, at_, _, _, last⟩
    · rw [at_]
      simp only [Overruns, List.head?_cons, Option.mem_some_iff, exists_eq_left', integer, true_and] at outside
      simp only [gprOffset] at outside ⊢
      omega
    · rw [at_]
      simp only [gprOffset, sseOffset] at outside ⊢
      omega
  · rintro ⟨⟨first, head, integer⟩, past⟩ used
    obtain rfl : class_ = first := Option.some.inj head
    rcases slot with ⟨_, at_, _, sse, last⟩ | ⟨notInteger, _⟩
    · simp only [gprOffset] at past at_ ⊢
      have past := one.content (48 - 8 * f.gprcount) (by omega) (.inl integer) fun single => by
        rw [single] at integer
        cases integer
      rw [at_, Nat.add_sub_cancel' (by omega)] at past
      rw [others.frame 48 (.inr ⟨by omega, by rw [sse, sseOffset]; omega, tame⟩), past]
    · exact absurd integer (by simp [notInteger])

/-- The eightbytes of an argument of at most two of them. -/
theorem storeEightbytes_spec (type : FfiType w) {classes : List RegClass} {a : List Cell} {f : Frame}
    (moved : ∀ class_ ∈ classes, class_.moved) (room : Room classes f.toCounts)
    (long : f.registers.length = 176) (few : classes.length ≤ 2) (short : a.length ≤ 8 * classes.length)
    (enough : Enough classes a.length)
    (narrow : classes ≠ [] → ∀ bytes, narrowSigned type = some bytes →
      bytes = a.length ∧ bytes ≤ 8 ∧ classes.length ≤ 1) :
    ∃ f', storeEightbytes type classes a f = some f' ∧ Stored classes a f f' := by
  induction classes generalizing a f with
  | nil => exact ⟨f, rfl, rfl, rfl, rfl, by simp [carries], fun _ _ => rfl, by simp [Overruns]⟩
  | cons class_ rest ih =>
    have first := moved class_ (by simp)
    rw [List.length_cons] at few short narrow
    obtain ⟨between, did, one⟩ := storeEightbyte_one first room long enough (by omega)
      fun bytes width => ⟨(narrow (by simp) bytes width).1, (narrow (by simp) bytes width).2.1⟩
    have next := room.next first
    rw [← one.counts] at next
    obtain ⟨f', loop, others⟩ := ih (a := a.drop 8) (f := between)
      (fun other member => moved other (List.mem_cons_of_mem _ member)) next (one.long.trans long) (by omega)
      (by rw [List.length_drop]; omega) (by rw [List.length_drop]; exact enough.2) fun more bytes width => by
        have single := (narrow (by simp) bytes width).2.2
        have some_ := List.length_pos_iff.mpr more
        omega
    refine ⟨f', by simp [storeEightbytes, did, loop], one.cons others first room ?_⟩
    rintro ⟨⟨other, head, integer⟩, past⟩
    have taken : 0 < rest.countP isInteger :=
      List.countP_pos_iff.mpr ⟨other, List.mem_of_mem_head? head, integer⟩
    have gpr := next.gpr
    rw [List.length_drop] at past
    simp only [gprOffset] at past
    omega

/-! ## What is stored of an argument -/

theorem carries_of_class {classes : List RegClass} {i : Nat} {class_ : RegClass}
    (found : classes[i / 8]? = some class_) (whole : class_ = .sseSF → i % 8 < 4) : carries classes i := by
  induction classes generalizing i with
  | nil => simp at found
  | cons first rest ih =>
    rw [carries]
    split
    · next early =>
      rw [Nat.div_eq_of_lt early] at found
      obtain rfl : first = class_ := by simpa using found
      by_cases single : first = .sseSF
      · have low := whole single
        simp [show i < 4 by omega]
      · simp [single]
    · next late =>
      rw [show i / 8 = (i - 8) / 8 + 1 by omega, List.getElem?_cons_succ] at found
      exact ih found fun single => by
        have low := whole single
        omega

theorem enough_of_each {classes : List RegClass} {left : Nat}
    (each : ∀ (k : Nat) (class_ : RegClass), classes[k]? = some class_ → class_.takesSse →
      8 * k + (if class_ = .sseSF then 4 else 8) ≤ left) : Enough classes left := by
  induction classes generalizing left with
  | nil => trivial
  | cons first rest ih =>
    refine ⟨fun sse => ?_, ih fun k class_ found sse => ?_⟩
    · have here := each 0 first rfl sse
      omega
    · have here := each (k + 1) class_ (by simpa using found) sse
      omega

theorem examineArgument_classes {t : FfiType w} {e : Examined} (did : examineArgument t = some e) :
    classifyArgument t 0 = some e.classes := by
  rw [examineArgument] at did
  split at did
  · cases did
  · next classes classified =>
    split at did
    · cases did
    · obtain rfl := Option.some.inj did
      exact classified

section
variable {t : FfiType lp64.sizeBits} {e : Examined}

theorem Examines.classified (examines : Examines t e) (passed : Passed t) (small : t.size.toNat ≤ 16) :
    Classified t 0 e.classes := by
  obtain ⟨classes, did, _, fits⟩ := passed.formed.classified
  obtain rfl := Option.some.inj (did.symm.trans (examineArgument_classes examines.did))
  exact fits small

theorem Examines.moved (examines : Examines t e) : ∀ class_ ∈ e.classes, class_.moved := by
  intro class_ member
  have kind : class_.eightbyte ∈ (psabiClasses t).map some := examines.eightbytes ▸ List.mem_map_of_mem member
  obtain ⟨eightbyte, _, same⟩ := List.mem_map.mp kind
  cases class_ <;> first | rfl | cases same

theorem float_of_regClass {c : CType} {offset : Nat} (single : c.regClass offset = .sseSF) :
    c = .float ∧ offset % 8 = 0 := by
  cases c with
  | float =>
    refine ⟨rfl, not_not.mp fun later => ?_⟩
    rw [CType.regClass, if_neg later] at single
    cases single
  | double => cases single
  | int signed width =>
    simp only [CType.regClass] at single
    split at single <;> cases single
  | pointer =>
    simp only [CType.regClass] at single
    split at single <;> cases single

/-- An eightbyte that is moved by four bytes has no scalars but a `float` at its start. -/
theorem Classified.single {classes : List RegClass} (classified : Classified t 0 classes) (passed : Passed t)
    {k : Nat} (found : classes[k]? = some .sseSF) {s : ScalarAt} (member : s ∈ scalars t)
    (position : s.offset / 8 = k) : s.type = .float ∧ s.offset % 8 = 0 := by
  have wide := classified.additive passed.whole _ additive_wide _ _ found
  refine float_of_regClass (not_not.mp fun other => ?_)
  refine (wide.mpr ⟨s, member, by omega, regClass_occupied _ _, ?_⟩).2 rfl
  rwa [Nat.zero_add]

theorem Classified.carries_scalar {classes : List RegClass} (classified : Classified t 0 classes)
    (passed : Passed t) {s : ScalarAt} (member : s ∈ scalars t) {j : Nat} (inside : j < s.type.size lp64) :
    carries classes (s.offset + j) := by
  have bounds := scalar_inside passed.formed member
  have within := scalar_within s.type bounds.2
  have kept : s.offset / 8 < classes.length := by
    rw [classified.length]
    have sized := (size_le_eight s.type).2
    omega
  have found := List.getElem?_eq_getElem kept
  refine carries_of_class (i := s.offset + j) (by rw [show (s.offset + j) / 8 = s.offset / 8 by omega, found]) ?_
  intro same
  rw [same] at found
  obtain ⟨float, start⟩ := classified.single passed found member rfl
  have four : s.type.size lp64 = 4 := by
    rw [float]
    rfl
  omega

/-- Each SSE move stays inside the argument. -/
theorem Classified.enough {classes : List RegClass} (classified : Classified t 0 classes) (passed : Passed t) :
    Enough classes t.size.toNat := by
  refine enough_of_each fun k class_ found sse => ?_
  have bound : k < (t.size.toNat + 7) / 8 := classified.length ▸ (List.getElem?_eq_some_iff.mp found).1
  split
  · next same =>
    subst same
    obtain ⟨s, member, start⟩ := passed.formed.eightbyte_starts (k := k) (by omega)
    obtain ⟨float, _⟩ := classified.single passed found member (by omega)
    have inside := (scalar_inside passed.formed member).1
    rw [float, start] at inside
    exact inside
  · next wide =>
    have occupied : class_ ≠ .noClass ∧ class_ ≠ .sseSF := by
      refine ⟨?_, wide⟩
      rintro rfl
      cases sse
    obtain ⟨s, member, position, _, notSingle⟩ :=
      (classified.additive passed.whole _ additive_wide _ _ found).mp occupied
    have integer := classified.additive passed.whole _ additive_isInteger _ _ found
    have notInteger : ¬ class_.isInteger := by cases class_ <;> cases sse <;> simp [isInteger]
    have floating : s.type.floating := by
      by_contra fixed
      refine notInteger (integer.mpr ⟨s, member, position, ?_⟩)
      rw [regClass_isInteger]
      simpa using fixed
    have inside := scalar_inside passed.formed member
    rw [Nat.zero_add] at position notSingle
    -- a double, or the second of two floats
    cases type : s.type with
    | double =>
      rw [type] at inside
      change s.offset + 8 ≤ t.size.toNat ∧ 8 ∣ s.offset at inside
      omega
    | float =>
      rw [type] at inside notSingle
      change s.offset + 4 ≤ t.size.toNat ∧ 4 ∣ s.offset at inside
      have second : s.offset % 8 ≠ 0 := fun zero => notSingle (if_pos zero)
      omega
    | int signed width =>
      rw [type] at floating
      cases floating
    | pointer =>
      rw [type] at floating
      cases floating

/-- A type whose integer is sign-extended has one eightbyte. -/
theorem Passed.narrow (passed : Passed t) {bytes : Nat} (width : narrowSigned t = some bytes) :
    bytes = t.size.toNat ∧ bytes ≤ 8 := by
  cases passed.formed with
  | struct nonempty each natural => cases width
  | scalar c =>
    rw [ctype_size_toNat]
    cases c with
    | int signed size =>
      cases signed <;> cases size <;> simp [CType.ffiType, narrowSigned] at width <;>
        simp [← width, CType.size, CType.logSize, IntWidth.log]
    | float => cases width
    | double => cases width
    | pointer => cases width

end

/-! ## One argument -/

theorem foldl_next {classes : List RegClass} (moved : ∀ class_ ∈ classes, class_.moved) (c : Counts) :
    classes.foldl Counts.next c = { c with gprcount := c.gprcount + classes.countP isInteger,
                                           ssecount := c.ssecount + classes.countP takesSse } := by
  induction classes generalizing c with
  | nil => rfl
  | cons class_ rest ih =>
    obtain ⟨sseIs, integerIs⟩ := isSse_of_moved (moved class_ (by simp))
    rw [List.foldl_cons, ih fun other member => moved other (List.mem_cons_of_mem _ member),
      List.countP_cons, List.countP_cons, integerIs, Counts.next, sseIs]
    cases class_.takesSse <;> simp <;> omega

section
variable {t : FfiType lp64.sizeBits} {e : Examined}

theorem Examines.countP (examines : Examines t e) :
    e.classes.countP isInteger = (psabiClasses t).count .integer ∧
      e.classes.countP takesSse = (psabiClasses t).count .sse := by
  obtain ⟨integer, sse⟩ := countP_eightbyte e.classes
  have injective : Function.Injective (some : EightbyteClass → _) := Option.some_injective _
  rw [integer, sse, examines.eightbytes, List.count_map_of_injective _ _ injective,
    List.count_map_of_injective _ _ injective]
  exact ⟨rfl, rfl⟩

theorem fitsRegisters_iff {c : Counts} {classes : List EightbyteClass} :
    fitsRegisters c classes = true ↔ classes ≠ [] ∧ c.gprcount + classes.count .integer ≤ 6 ∧
      c.ssecount + classes.count .sse ≤ 8 := by
  simp [fitsRegisters, and_assoc]

/-- An argument in registers has at most two eightbytes, and registers for them. -/
theorem Examines.fits (examines : Examines t e) {c : Counts} (fits : fitsRegisters c (psabiClasses t)) :
    t.size.toNat ≤ 16 ∧ Room e.classes c ∧ e.classes.foldl Counts.next c = c.after t := by
  obtain ⟨some_, gpr, sse⟩ := fitsRegisters_iff.mp fits
  obtain ⟨integers, sses⟩ := examines.countP
  refine ⟨?_, ⟨by rwa [integers], by rwa [sses]⟩, ?_⟩
  · by_contra large
    exact some_ (if_pos (by omega))
  · rw [foldl_next examines.moved, integers, sses, Counts.after, if_pos fits]

/-- What `ffi_call_int` does with one argument. -/
structure Placed (t : FfiType lp64.sizeBits) (e : Examined) (sent : List Cell) (f f' : Frame) : Prop where
  counts : f'.toCounts = f.toCounts.after t
  registers : f'.registers.length = f.registers.length
  stack : f'.stack.length = f.stack.length
  stored : fitsRegisters f.toCounts (psabiClasses t) → Stored e.classes sent f f'
  copied : ¬ fitsRegisters f.toCounts (psabiClasses t) → f'.registers = f.registers ∧
    put f.stack (roundUp f.bytes (stackAlignment t)) sent = some f'.stack

theorem passArgument_placed (passed : Passed t) (examines : Examines t e) {f : Frame} {sent : List Cell}
    (length : sent.length = t.size.toNat) (long : f.registers.length = 176)
    (room : (f.toCounts.after t).bytes ≤ f.stack.length) :
    ∃ f', passArgument f (t, sent) = some f' ∧ Placed t e sent f f' := by
  have whole : slice sent 0 t.size.toNat = some sent := by simp [slice, ← length]
  by_cases fits : fitsRegisters f.toCounts (psabiClasses t)
  · obtain ⟨small, registers, next⟩ := examines.fits fits
    have classified := examines.classified passed small
    obtain ⟨f', did, stored⟩ := storeEightbytes_spec t (a := sent) (f := f) examines.moved registers
      long (by rw [classified.length]; omega) (by rw [classified.length]; omega)
      (length ▸ classified.enough passed) fun _ bytes width => by
        obtain ⟨same, narrow⟩ := passed.narrow width
        rw [classified.length]
        omega
    refine ⟨f', ?_, stored.counts.trans next, stored.long, by rw [stored.stack], fun _ => stored,
      fun other => absurd fits other⟩
    simp [passArgument, whole, examines.did, examines.inRegisters, fits, did]
  · rw [Counts.after, if_neg fits] at room
    obtain ⟨stack, wrote⟩ : ∃ stack, put f.stack (roundUp f.bytes (stackAlignment t)) sent = some stack :=
      ⟨_, put_of_fits (by rw [length]; exact room)⟩
    refine ⟨{ f with bytes := roundUp f.bytes (stackAlignment t) + t.size.toNat, stack }, ?_, ?_, rfl,
      put_length wrote, fun other => absurd other fits, fun _ => ⟨rfl, wrote⟩⟩
    · simp [passArgument, whole, examines.did, examines.inRegisters, fits, wrote]
    · rw [Counts.after, if_neg fits]

/-- What `ffi_closure_unix64_inner` finds of one argument. -/
structure Found (t : FfiType lp64.sizeBits) (e : Examined) (registers stack : List Cell) (c : Counts)
    (got : List Cell) : Prop where
  length : got.length = t.size.toNat
  loaded : fitsRegisters c (psabiClasses t) → ∀ i < t.size.toNat, got[i]? = registers[byteSlot e.classes c i]?
  onStack : ¬ fitsRegisters c (psabiClasses t) →
    slice stack (roundUp c.bytes (stackAlignment t)) t.size.toNat = some got

/-- The bytes at the address of a register are those of the eightbytes, also of two INTEGER ones. -/
theorem byteSlot_direct {classes : List RegClass} {class_ : RegClass} {rest : List RegClass}
    (same : class_ :: rest = classes)
    (direct : classes.length = 1 ∨ classes.length = 2 ∧ ∀ c ∈ classes, c.isSse = false) (c : Counts) {i : Nat}
    (inside : i < 8 * classes.length) : byteSlot classes c i = registerOffset class_ c + i := by
  subst same
  rw [byteSlot]
  split
  · rfl
  · next late =>
    rcases direct with single | ⟨double, integer⟩
    · rw [single] at inside
      omega
    · obtain ⟨other, rfl⟩ := List.length_eq_one_iff.mp (Nat.succ.inj double)
      rw [double] at inside
      have first := integer class_ (by simp)
      have second := integer other (by simp)
      rw [byteSlot, if_pos (by omega)]
      simp only [registerOffset, Counts.next, first, second, gprOffset, Bool.false_eq_true, if_false]
      omega

/-- The registers from the first eightbyte's on hold the whole argument, if it is found there. -/
theorem direct_read {registers : List Cell} (long : registers.length = 176) {class_ : RegClass}
    {rest : List RegClass} {c : Counts} (moved : ∀ other ∈ class_ :: rest, other.moved)
    (room : Room (class_ :: rest) c) {size : Nat} (short : size ≤ 8 * (rest.length + 1))
    (direct : rest = [] ∨ rest.length = 1 ∧ ∀ other ∈ class_ :: rest, other.isSse = false) :
    ∃ got, slice registers (registerOffset class_ c) size = some got ∧ got.length = size ∧
      ∀ i < size, got[i]? = registers[byteSlot (class_ :: rest) c i]? := by
  have bound := room.offset_le (moved class_ (by simp))
  have inside : registerOffset class_ c + size ≤ registers.length := by
    rcases direct with rfl | ⟨single, integer⟩
    · rw [List.length_nil] at short
      split at bound <;> omega
    · obtain ⟨other, rfl⟩ := List.length_eq_one_iff.mp single
      have next := (room.next (moved class_ (by simp))).offset_le (moved other (by simp))
      have first := integer class_ (by simp)
      have second := integer other (by simp)
      simp only [registerOffset, Counts.next, first, second, gprOffset, Bool.false_eq_true, if_false] at next ⊢
      simp only [List.length_singleton] at short
      omega
  obtain ⟨got, read⟩ : ∃ got, slice registers (registerOffset class_ c) size = some got :=
    ⟨_, slice_of_fits inside⟩
  refine ⟨got, read, slice_length read, fun i below => ?_⟩
  rw [slice_get read, if_pos below, byteSlot_direct rfl ?_ c]
  · rw [List.length_cons]
    omega
  · rcases direct with rfl | ⟨single, integer⟩
    · exact .inl rfl
    · exact .inr ⟨by rw [List.length_cons, single], integer⟩

theorem closureArgument_found (passed : Passed t) (examines : Examines t e) {registers : List Cell}
    (stack : List Cell) {c : Counts} (long : registers.length = 176) (room : (c.after t).bytes ≤ stack.length) :
    ∃ got, closureArgument registers stack c t = some (got, c.after t) ∧ Found t e registers stack c got := by
  by_cases fits : fitsRegisters c (psabiClasses t)
  · obtain ⟨small, available, next⟩ := examines.fits fits
    have classified := examines.classified passed small
    have bytes := passed.formed.size_pos
    have length := classified.length
    have moved := examines.moved
    have whole : ∀ {got : List Cell}, got.length = t.size.toNat →
        (∀ i < t.size.toNat, got[i]? = registers[byteSlot e.classes c i]?) → Found t e registers stack c got :=
      fun size bytes => ⟨size, fun _ => bytes, fun other => absurd fits other⟩
    obtain ⟨class_, rest, same⟩ := List.exists_cons_of_ne_nil
      (List.ne_nil_of_length_pos (l := e.classes) (by omega))
    have two : rest.length ≤ 1 := by
      rw [same, List.length_cons] at length
      omega
    have short : t.size.toNat ≤ 8 * (rest.length + 1) := by
      rw [same, List.length_cons] at length
      omega
    rw [same] at moved available next whole
    by_cases direct : rest = [] ∨ rest.length = 1 ∧ ∀ other ∈ class_ :: rest, other.isSse = false
    · obtain ⟨got, read, size, bytes⟩ := direct_read long moved available short direct
      refine ⟨got, ?_, whole size bytes⟩
      rw [← next]
      rcases direct with rfl | ⟨single, integer⟩
      · cases sse : class_.isSse <;> simp [registerOffset, sse] at read <;>
          simp [closureArgument, sse0, sse1, examines.did, examines.inRegisters, fits, same, sse, read, Counts.next]
      · obtain ⟨other, rfl⟩ := List.length_eq_one_iff.mp single
        have first := integer class_ (by simp)
        have second := integer other (by simp)
        simp [registerOffset, first] at read
        simp [closureArgument, sse0, sse1, examines.did, examines.inRegisters, fits, same, first, second, read, Counts.next]
    · obtain ⟨a, gathered, size, bytes⟩ := gather_spec long moved available
      obtain ⟨got, read⟩ : ∃ got, slice a 0 t.size.toNat = some got :=
        ⟨_, slice_of_fits (by rw [size, List.length_cons]; omega)⟩
      obtain ⟨other, rfl⟩ : ∃ other, rest = [other] := by
        rw [not_or] at direct
        exact List.length_eq_one_iff.mp (by have some_ := List.length_pos_iff.mpr direct.1; omega)
      refine ⟨got, ?_, whole (slice_length read) fun i below => ?_⟩
      · rw [← next]
        have mixed : class_.isSse = true ∨ other.isSse = true := by
          by_contra none
          simp only [not_or, Bool.not_eq_true] at none
          exact direct (.inr ⟨rfl, by simp [none.1, none.2]⟩)
        rcases mixed with sse | sse <;>
          simp [closureArgument, sse0, sse1, examines.did, examines.inRegisters, fits, same, sse, gathered, read]
      · rw [slice_get read, if_pos below, Nat.zero_add, bytes i (by rw [List.length_cons]; omega)]
  · obtain ⟨got, read⟩ : ∃ got, slice stack (roundUp c.bytes (stackAlignment t)) t.size.toNat = some got :=
      ⟨_, slice_of_fits (by rwa [Counts.after, if_neg fits] at room)⟩
    refine ⟨got, ?_, slice_length read, fun other => absurd other fits, fun _ => read⟩
    rw [Counts.after, if_neg fits]
    simp [closureArgument, sse0, sse1, examines.did, examines.inRegisters, fits, read]

theorem Examines.head_integer (examines : Examines t e) :
    (∃ class_ ∈ e.classes.head?, class_.isInteger = true) ↔ (psabiClasses t).head? = some .integer := by
  have kinds := congrArg List.head? examines.eightbytes
  have moved := examines.moved
  cases classes : e.classes with
  | nil =>
    rw [classes] at kinds
    cases psabi : psabiClasses t <;> simp_all
  | cons class_ rest =>
    rw [classes] at kinds moved
    have first := moved class_ (by simp)
    cases psabi : psabiClasses t with
    | nil => simp [psabi] at kinds
    | cons kind others =>
      rw [psabi] at kinds
      simp only [List.map_cons, List.head?_cons, Option.some.injEq] at kinds
      cases class_ <;> cases first <;> cases kind <;> simp_all [RegClass.eightbyte, isInteger]

/-- The copy runs past the general registers only where an argument spills. -/
theorem Examines.overruns (examines : Examines t e) (passed : Passed t) {c : Counts}
    (fits : fitsRegisters c (psabiClasses t)) :
    Overruns e.classes t.size.toNat c ↔ psabiClasses t = [.integer, .sse] ∧ c.gprcount = 5 := by
  obtain ⟨small, _, _⟩ := examines.fits fits
  obtain ⟨some_, gpr, _⟩ := fitsRegisters_iff.mp fits
  have length := (examines.classified passed small).length
  have same := congrArg List.length examines.eightbytes
  rw [List.length_map, List.length_map, length] at same
  rw [Overruns, examines.head_integer]
  cases kinds : psabiClasses t with
  | nil => exact absurd kinds some_
  | cons first rest =>
    rw [kinds] at gpr same
    cases rest with
    | nil =>
      simp only [List.length_singleton] at same
      cases first <;> simp [gprOffset] at gpr ⊢
      omega
    | cons second rest =>
      obtain rfl : rest = [] := by
        rw [List.length_cons, List.length_cons] at same
        exact List.eq_nil_of_length_eq_zero (by omega)
      simp only [List.length_cons, List.length_nil] at same
      cases first <;> cases second <;> simp [gprOffset] at gpr ⊢ <;> omega

theorem after_grows (c : Counts) (t : FfiType w) :
    c.gprcount ≤ (c.after t).gprcount ∧ c.ssecount ≤ (c.after t).ssecount ∧ c.bytes ≤ (c.after t).bytes := by
  have positive : 0 < stackAlignment t := by
    rw [stackAlignment]
    split <;> omega
  have rounds := le_roundUp c.bytes positive
  rw [Counts.after]
  split
  · simp
  · simp only [le_refl, true_and]
    omega

/-- What passing an argument leaves alone. -/
theorem Placed.keeps {sent : List Cell} {f f' : Frame} (placed : Placed t e sent f f') (passed : Passed t)
    (examines : Examines t e) (length : sent.length = t.size.toNat) :
    (∀ p < gprOffset f.gprcount, f'.registers[p]? = f.registers[p]?) ∧
      (spillsAt f.toCounts t = false → ∀ p, 48 ≤ p → p < sseOffset f.ssecount →
        f'.registers[p]? = f.registers[p]?) ∧
      ∀ q < f.bytes, f'.stack[q]? = f.stack[q]? := by
  by_cases fits : fitsRegisters f.toCounts (psabiClasses t)
  · have stored := placed.stored fits
    refine ⟨fun p low => stored.frame p (.inl low), fun dry p high low => stored.frame p (.inr ⟨high, low, ?_⟩),
      fun q _ => by rw [stored.stack]⟩
    intro past
    rw [length, examines.overruns passed fits] at past
    have used : f.ssecount ≠ 0 := by
      rintro zero
      rw [zero, sseOffset] at low
      omega
    rw [spillsAt, fits] at dry
    simp [past.1, past.2, used] at dry
  · obtain ⟨same, wrote⟩ := placed.copied fits
    have rounds : f.bytes ≤ roundUp f.bytes (stackAlignment t) := le_roundUp _ (by
      rw [stackAlignment]
      split <;> omega)
    refine ⟨fun p _ => by rw [same], fun _ p _ _ => by rw [same], fun q below => ?_⟩
    rw [put_get wrote, if_neg (by omega)]

/-- An argument that spills has more than eight bytes. -/
theorem spilled_size {c : Counts} (wet : spillsAt c t = true) : 8 < t.size.toNat := by
  have length : (psabiClasses t).length = 2 := by
    simp only [spillsAt, Bool.and_eq_true, decide_eq_true_eq] at wet
    rw [wet.1.1.2]
    rfl
  rw [psabiClasses] at length
  split at length
  · cases length
  · rw [List.length_map, List.length_range] at length
    omega

/-- An argument that spills leaves its second eightbyte at the start of `sse[0]`. -/
theorem Placed.spilled {sent : List Cell} {f f' : Frame} (placed : Placed t e sent f f') (examines : Examines t e)
    (passed : Passed t) (length : sent.length = t.size.toNat) (wet : spillsAt f.toCounts t = true) :
    f'.registers[48]? = sent[8]? := by
  simp only [spillsAt, Bool.and_eq_true, decide_eq_true_eq] at wet
  obtain ⟨⟨⟨fits, kinds⟩, last⟩, used⟩ := wet
  have past := (examines.overruns passed fits).mpr ⟨kinds, last⟩
  rw [(placed.stored fits).overrun (length ▸ past) used, last]
  rfl

end

end NodeFfi
