import Mathlib.Data.List.Basic

/-! A memory of separately allocated blocks. A pointer names a block and an offset
into it, an access outside its block is undefined (`none`), and no block is ever
released. -/
namespace BlockMemory

variable {α : Type*}

structure Pointer where
  block : Nat
  offset : Nat
  deriving DecidableEq, Repr

/-- The pointer `distance` cells further on. -/
def Pointer.shift (p : Pointer) (distance : Nat) : Pointer := ⟨p.block, p.offset + distance⟩

/-- Blocks in the order they were allocated. -/
abbrev Memory (α : Type*) := List (List α)

/-- The first cell of the block that is allocated next. -/
def next (memory : Memory α) : Pointer := ⟨memory.length, 0⟩

def load (memory : Memory α) (p : Pointer) (count : Nat) : Option (List α) :=
  match memory[p.block]? with
  | none => none
  | some cells =>
    if p.offset + count ≤ cells.length then some ((cells.drop p.offset).take count) else none

/-- A block with `values` written over its cells from `offset` on. -/
def splice (cells : List α) (offset : Nat) (values : List α) : List α :=
  cells.take offset ++ values ++ cells.drop (offset + values.length)

def store (memory : Memory α) (p : Pointer) (values : List α) : Option (Memory α) :=
  match memory[p.block]? with
  | none => none
  | some cells =>
    if p.offset + values.length ≤ cells.length then
      some (memory.set p.block (splice cells p.offset values))
    else none

variable {memory memory' : Memory α} {p q : Pointer} {cells values : List α} {count : Nat}

theorem splice_length {offset : Nat} (inside : offset + values.length ≤ cells.length) :
    (splice cells offset values).length = cells.length := by
  simp only [splice, List.length_append, List.length_take, List.length_drop]
  omega

/-- A block written over in the middle. -/
theorem splice_append {before after : List α} (same : values.length = cells.length) :
    splice (before ++ cells ++ after) before.length values = before ++ values ++ after := by
  have rest : (before ++ cells ++ after).drop (before.length + values.length) = after := by
    rw [same, ← List.length_append, List.drop_left]
  rw [splice, rest, List.append_assoc before cells after, List.take_left]

theorem splice_read {offset : Nat} (inside : offset + values.length ≤ cells.length) :
    ((splice cells offset values).drop offset).take values.length = values := by
  have before : (cells.take offset).length = offset := by
    rw [List.length_take]
    omega
  rw [splice, List.append_assoc, List.drop_left' before, List.take_left]

theorem splice_other {offset i : Nat} (inside : offset + values.length ≤ cells.length)
    (other : i < offset ∨ offset + values.length ≤ i) : (splice cells offset values)[i]? = cells[i]? := by
  rw [splice, List.append_assoc]
  rcases other with before | after
  · rw [List.getElem?_append_left (by rw [List.length_take]; omega), List.getElem?_take_of_lt before]
  · rw [List.getElem?_append_right (by rw [List.length_take]; omega),
      List.getElem?_append_right (by rw [List.length_take]; omega), List.getElem?_drop, List.length_take]
    congr 1
    omega

/-- What is read after a write: the written values inside it, what was there before outside. -/
theorem splice_get {offset : Nat} (inside : offset + values.length ≤ cells.length) (i : Nat) :
    (splice cells offset values)[i]? =
      if offset ≤ i ∧ i < offset + values.length then values[i - offset]? else cells[i]? := by
  split
  · next within =>
    have before : (cells.take offset).length = offset := by
      rw [List.length_take]
      omega
    rw [splice, List.append_assoc, List.getElem?_append_right (by omega), before,
      List.getElem?_append_left (by omega)]
  · next outside => exact splice_other inside (by omega)

/-! ## One block -/

/-- A write to a block, undefined past its end. -/
def put (block : List α) (offset : Nat) (values : List α) : Option (List α) :=
  if offset + values.length ≤ block.length then some (splice block offset values) else none

/-- A read from a block, undefined past its end. -/
def slice (block : List α) (offset count : Nat) : Option (List α) :=
  if offset + count ≤ block.length then some ((block.drop offset).take count) else none

section
variable {block block' : List α} {offset : Nat}

theorem put_of_fits (inside : offset + values.length ≤ block.length) :
    put block offset values = some (splice block offset values) := if_pos inside

theorem put_eq_some : put block offset values = some block' ↔
    offset + values.length ≤ block.length ∧ block' = splice block offset values := by
  by_cases inside : offset + values.length ≤ block.length <;> simp [put, inside, eq_comm]

theorem put_length (did : put block offset values = some block') : block'.length = block.length := by
  obtain ⟨inside, rfl⟩ := put_eq_some.mp did
  exact splice_length inside

theorem put_get (did : put block offset values = some block') (i : Nat) :
    block'[i]? = if offset ≤ i ∧ i < offset + values.length then values[i - offset]? else block[i]? := by
  obtain ⟨inside, rfl⟩ := put_eq_some.mp did
  exact splice_get inside i

theorem slice_of_fits (inside : offset + count ≤ block.length) :
    slice block offset count = some ((block.drop offset).take count) := if_pos inside

theorem slice_eq_some {read : List α} : slice block offset count = some read ↔
    offset + count ≤ block.length ∧ read = (block.drop offset).take count := by
  by_cases inside : offset + count ≤ block.length <;> simp [slice, inside, eq_comm]

theorem slice_get {read : List α} (did : slice block offset count = some read) (i : Nat) :
    read[i]? = if i < count then block[offset + i]? else none := by
  obtain ⟨inside, rfl⟩ := slice_eq_some.mp did
  rw [List.getElem?_take]
  simp [List.getElem?_drop]

/-- What was put is what is read back, as far as it is read. -/
theorem slice_put (did : put block offset values = some block') (enough : count ≤ values.length) :
    slice block' offset count = some (values.take count) := by
  obtain ⟨inside, rfl⟩ := put_eq_some.mp did
  have long : (splice block offset values).length = block.length := splice_length inside
  have here := congrArg (List.take count) (@splice_read _ block values _ inside)
  rw [List.take_take, Nat.min_eq_left enough] at here
  rw [slice_of_fits (by omega), here]

/-- Nothing else changes. -/
theorem slice_put_apart (did : put block offset values = some block') {start : Nat}
    (apart : start + count ≤ offset ∨ offset + values.length ≤ start) :
    slice block' start count = slice block start count := by
  obtain ⟨inside, rfl⟩ := put_eq_some.mp did
  have long : (splice block offset values).length = block.length := splice_length inside
  simp only [slice, long]
  split
  · congr 1
    apply List.ext_getElem?
    intro i
    simp only [List.getElem?_take, List.getElem?_drop]
    split
    · exact splice_other inside (by omega)
    · rfl
  · rfl

theorem slice_length {read : List α} (did : slice block offset count = some read) :
    read.length = count := by
  obtain ⟨inside, rfl⟩ := slice_eq_some.mp did
  simp only [List.length_take, List.length_drop]
  omega

end

/-! ## Loads -/

theorem load_eq_some {loaded : List α} : load memory p count = some loaded ↔
    ∃ cells, memory[p.block]? = some cells ∧ p.offset + count ≤ cells.length ∧
      loaded = (cells.drop p.offset).take count := by
  unfold load
  cases found : memory[p.block]? with
  | none => simp
  | some cells => simp [eq_comm]

theorem load_of_block (found : memory[p.block]? = some cells) (inside : p.offset + count ≤ cells.length) :
    load memory p count = some ((cells.drop p.offset).take count) :=
  load_eq_some.mpr ⟨cells, found, inside, rfl⟩

theorem load_length {loaded : List α} (did : load memory p count = some loaded) :
    loaded.length = count := by
  obtain ⟨cells, _, inside, rfl⟩ := load_eq_some.mp did
  simp only [List.length_take, List.length_drop]
  omega

/-- From the cells in the middle of a block. -/
theorem load_middle {before after : List α}
    (found : memory[p.block]? = some (before ++ cells ++ after)) (starts : p.offset = before.length)
    (enough : count ≤ cells.length) : load memory p count = some (cells.take count) := by
  rw [load_of_block found (by simp; omega), starts, List.append_assoc, List.drop_left,
    List.take_append_of_le_length enough]

/-- From the first cells of a block. -/
theorem load_first {block : Nat} (found : memory[block]? = some cells) (enough : count ≤ cells.length) :
    load memory ⟨block, 0⟩ count = some (cells.take count) :=
  load_of_block found (by simpa using enough)

theorem load_whole {block : Nat} (found : memory[block]? = some cells) (long : cells.length = count) :
    load memory ⟨block, 0⟩ count = some cells := by
  rw [load_first found (Nat.le_of_eq long.symm), ← long, List.take_length]

/-! ## Stores -/

theorem store_eq_some : store memory p values = some memory' ↔
    ∃ cells, memory[p.block]? = some cells ∧ p.offset + values.length ≤ cells.length ∧
      memory' = memory.set p.block (splice cells p.offset values) := by
  unfold store
  cases found : memory[p.block]? with
  | none => simp
  | some cells => simp [eq_comm]

theorem store_of_block (found : memory[p.block]? = some cells)
    (inside : p.offset + values.length ≤ cells.length) :
    store memory p values = some (memory.set p.block (splice cells p.offset values)) :=
  store_eq_some.mpr ⟨cells, found, inside, rfl⟩

theorem store_keeps_length (did : store memory p values = some memory') :
    memory'.length = memory.length := by
  obtain ⟨cells, _, _, rfl⟩ := store_eq_some.mp did
  rw [List.length_set]

/-- Other blocks are untouched. -/
theorem store_other (did : store memory p values = some memory') {block : Nat} (other : block ≠ p.block) :
    memory'[block]? = memory[block]? := by
  obtain ⟨cells, _, _, rfl⟩ := store_eq_some.mp did
  exact List.getElem?_set_ne other.symm

/-- What was stored is what is loaded back, as far as it is read. -/
theorem load_store (did : store memory p values = some memory') (enough : count ≤ values.length) :
    load memory' p count = some (values.take count) := by
  obtain ⟨cells, found, inside, rfl⟩ := store_eq_some.mp did
  have bound : p.block < memory.length := (List.getElem?_eq_some_iff.mp found).1
  have before : (cells.take p.offset).length = p.offset := by
    rw [List.length_take]
    omega
  exact load_middle (List.getElem?_set_self bound) before.symm enough

/-- A store into one block among others, over cells in the middle of the block. -/
theorem store_middle (front back : Memory α) (before old after : List α) {values : List α}
    (same : values.length = old.length) :
    store (front ++ [before ++ old ++ after] ++ back) ⟨front.length, before.length⟩ values =
      some (front ++ [before ++ values ++ after] ++ back) := by
  have found : (front ++ [before ++ old ++ after] ++ back)[front.length]? =
      some (before ++ old ++ after) := by simp
  rw [store_of_block found (by simp; omega), splice_append same]
  simp

/-! ## Growth -/

/-- Every block of the one is a block of the same length of the other. -/
def Grows (memory memory' : Memory α) : Prop :=
  ∀ (block : Nat) (cells : List α), memory[block]? = some cells →
    ∃ cells', memory'[block]? = some cells' ∧ cells'.length = cells.length

theorem Grows.refl (memory : Memory α) : Grows memory memory :=
  fun _ cells found => ⟨cells, found, rfl⟩

theorem Grows.trans {memory'' : Memory α} (first : Grows memory memory')
    (second : Grows memory' memory'') : Grows memory memory'' := by
  intro block cells found
  obtain ⟨cells', found', same'⟩ := first block cells found
  obtain ⟨cells'', found'', same''⟩ := second block cells' found'
  exact ⟨cells'', found'', same''.trans same'⟩

theorem Grows.length_le (grows : Grows memory memory') : memory.length ≤ memory'.length := by
  by_contra shrinks
  have bound : memory'.length < memory.length := by omega
  obtain ⟨cells, found, _⟩ := grows memory'.length memory[memory'.length] (by simp [bound])
  simp at found

theorem grows_append (more : Memory α) : Grows memory (memory ++ more) := by
  intro block cells found
  have bound := (List.getElem?_eq_some_iff.mp found).1
  exact ⟨cells, by rw [List.getElem?_append_left bound, found], rfl⟩

theorem grows_store (did : store memory p values = some memory') : Grows memory memory' := by
  obtain ⟨written, found, inside, rfl⟩ := store_eq_some.mp did
  intro block cells here
  by_cases moved : block = p.block
  · subst moved
    obtain rfl : cells = written := Option.some.inj (here.symm.trans found)
    exact ⟨_, List.getElem?_set_self (List.getElem?_eq_some_iff.mp found).1, splice_length inside⟩
  · exact ⟨cells, by rw [List.getElem?_set_ne (Ne.symm moved), here], rfl⟩

end BlockMemory
