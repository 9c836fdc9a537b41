import Mathlib.Data.List.GetD
import NodeFfi.BlockMemory

/-! A memory without bounds: every address holds a cell, whatever was allocated there, and
storage is a range of addresses that someone keeps to himself. What a write changes for
ranges that it overlaps, and for those apart from it. -/
namespace RegionMemory
open BlockMemory

variable {α : Type*}

/-- What every address holds. -/
abbrev Contents (α : Type*) := Pointer → α

/-- A range of addresses. -/
structure Region where
  start : Pointer
  length : Nat
  deriving DecidableEq

def Region.Holds (r : Region) (p : Pointer) : Prop :=
  p.block = r.start.block ∧ r.start.offset ≤ p.offset ∧ p.offset < r.start.offset + r.length

instance (r : Region) (p : Pointer) : Decidable (r.Holds p) :=
  inferInstanceAs (Decidable (_ ∧ _))

/-- No address is in both. -/
def Apart (r s : Region) : Prop := ∀ p, r.Holds p → ¬ s.Holds p

def Region.Within (r s : Region) : Prop := ∀ p, r.Holds p → s.Holds p

def peek (memory : Contents α) (p : Pointer) (count : Nat) : List α :=
  (List.range count).map fun k => memory (p.shift k)

/-- The cells written from an address on, over whatever is there. -/
def poke (memory : Contents α) (p : Pointer) (cells : List α) : Contents α := fun q =>
  if (⟨p, cells.length⟩ : Region).Holds q then cells.getD (q.offset - p.offset) (memory q) else memory q

/-- The two memories hold the same in the range. -/
def Agree (r : Region) (memory memory' : Contents α) : Prop := ∀ p, r.Holds p → memory' p = memory p

variable {memory memory' memory'' : Contents α} {p q : Pointer} {r s t : Region} {cells : List α}
  {count : Nat}

theorem holds_shift {k : Nat} : (⟨p, count⟩ : Region).Holds (p.shift k) ↔ k < count := by
  simp [Region.Holds, Pointer.shift]

theorem apart_iff : Apart r s ↔ r.length = 0 ∨ s.length = 0 ∨ r.start.block ≠ s.start.block ∨
    r.start.offset + r.length ≤ s.start.offset ∨ s.start.offset + s.length ≤ r.start.offset := by
  constructor
  · intro apart
    by_contra overlap
    obtain ⟨some_r, some_s, block, reach_r, reach_s⟩ : r.length ≠ 0 ∧ s.length ≠ 0 ∧
        r.start.block = s.start.block ∧ s.start.offset < r.start.offset + r.length ∧
          r.start.offset < s.start.offset + s.length := by omega
    by_cases first : r.start.offset ≤ s.start.offset
    · exact apart s.start ⟨block.symm, first, reach_r⟩ ⟨rfl, Nat.le_refl _, by omega⟩
    · exact apart r.start ⟨rfl, Nat.le_refl _, by omega⟩ ⟨block, by omega, reach_s⟩
  · intro parted p inside inside'
    simp only [Region.Holds] at inside inside'
    omega

instance (r s : Region) : Decidable (Apart r s) := decidable_of_iff _ apart_iff.symm

theorem within_iff : r.Within s ↔ r.length = 0 ∨ r.start.block = s.start.block ∧
    s.start.offset ≤ r.start.offset ∧ r.start.offset + r.length ≤ s.start.offset + s.length := by
  constructor
  · intro within
    by_cases nothing : r.length = 0
    · exact .inl nothing
    · obtain ⟨block, low, _⟩ := within r.start ⟨rfl, Nat.le_refl _, by omega⟩
      obtain ⟨_, _, high⟩ := within ⟨r.start.block, r.start.offset + (r.length - 1)⟩
        ⟨rfl, by simp only; omega, by simp only; omega⟩
      simp only at high
      exact .inr ⟨block, low, by omega⟩
  · intro inside p here
    simp only [Region.Holds] at here ⊢
    omega

instance (r s : Region) : Decidable (r.Within s) := decidable_of_iff _ within_iff.symm

theorem Apart.symm (apart : Apart r s) : Apart s r := fun p inside inside' => apart p inside' inside

theorem Apart.within (apart : Apart r s) (inside : t.Within s) : Apart r t :=
  fun p here there => apart p here (inside p there)

/-- A part of a range. -/
theorem within_shift {offset length : Nat} (fits : offset + length ≤ count) :
    (⟨p.shift offset, length⟩ : Region).Within ⟨p, count⟩ := by
  rintro q ⟨block, low, high⟩
  simp only [Pointer.shift] at block low high
  exact ⟨block, by simp only; omega, by simp only; omega⟩

theorem within_front {length : Nat} (fits : length ≤ count) :
    (⟨p, length⟩ : Region).Within ⟨p, count⟩ := by
  rintro q ⟨block, low, high⟩
  exact ⟨block, low, by simp only at high ⊢; omega⟩

/-! ## Reading -/

@[simp] theorem peek_length (memory : Contents α) (p : Pointer) (count : Nat) :
    (peek memory p count).length = count := by
  simp [peek]

theorem peek_congr (agree : Agree ⟨p, count⟩ memory memory') : peek memory' p count = peek memory p count := by
  refine List.map_congr_left fun k inside => agree _ ?_
  exact holds_shift.mpr (List.mem_range.mp inside)

theorem peek_take {fewer : Nat} (fits : fewer ≤ count) :
    (peek memory p count).take fewer = peek memory p fewer := by
  rw [peek, ← List.map_take, List.take_range, Nat.min_eq_left fits]
  rfl

theorem Agree.within (agree : Agree r memory memory') (inside : s.Within r) : Agree s memory memory' :=
  fun p here => agree p (inside p here)

theorem Agree.trans (first : Agree r memory memory') (second : Agree r memory' memory'') :
    Agree r memory memory'' :=
  fun p here => (second p here).trans (first p here)

/-! ## Writing -/

theorem agree_poke (apart : Apart r ⟨p, cells.length⟩) : Agree r memory (poke memory p cells) :=
  fun q inside => if_neg (apart q inside)

theorem poke_shift (k : Nat) :
    poke memory p cells (p.shift k) = cells.getD k (memory (p.shift k)) := by
  by_cases inside : k < cells.length
  · rw [poke, if_pos (holds_shift.mpr inside)]
    simp [Pointer.shift]
  · rw [poke, if_neg fun holds => inside (holds_shift.mp holds), List.getD_eq_default]
    omega

/-- What is written over the first cells of a range. -/
theorem peek_poke_front (fits : cells.length ≤ count) :
    peek (poke memory p cells) p count = cells ++ (peek memory p count).drop cells.length := by
  apply List.ext_getElem (by simp; omega)
  intro k inside inside'
  simp only [peek, List.getElem_map, List.getElem_range, poke_shift]
  by_cases written : k < cells.length
  · rw [List.getElem_append_left written, List.getD_eq_getElem _ _ written]
  · rw [List.getElem_append_right (by omega), List.getD_eq_default _ _ (by omega)]
    simp only [List.getElem_drop, List.getElem_map, List.getElem_range]
    congr 2
    omega

/-- Beyond what is written nothing changes. -/
theorem drop_poke {far : Nat} (fits : cells.length ≤ count) (beyond : cells.length ≤ far) :
    (peek (poke memory p cells) p count).drop far = (peek memory p count).drop far := by
  rw [peek_poke_front fits, List.drop_append, List.drop_of_length_le beyond, List.nil_append, List.drop_drop]
  congr 1
  omega

theorem peek_poke (memory : Contents α) (p : Pointer) (cells : List α) :
    peek (poke memory p cells) p cells.length = cells := by
  rw [peek_poke_front (Nat.le_refl _), List.drop_of_length_le (Nat.le_of_eq (peek_length ..)), List.append_nil]

/-! ## Allocated blocks -/

/-- What the blocks hold is there. -/
def Covers (contents : Contents α) (blocks : Memory α) : Prop :=
  ∀ (p : Pointer) (block : List α) (a : α),
    blocks[p.block]? = some block → block[p.offset]? = some a → contents p = a

section
variable {contents : Contents α} {blocks blocks' : Memory α} {values : List α}

theorem Covers.peek (covers : Covers contents blocks) (loads : load blocks p count = some cells) :
    peek contents p count = cells := by
  unfold load at loads
  split at loads
  · cases loads
  · next block there =>
    obtain ⟨inside, same⟩ := Option.ite_none_right_eq_some.mp loads
    obtain rfl := Option.some.inj same
    apply List.ext_getElem (by simp; omega)
    intro k within _
    rw [peek_length] at within
    simp only [RegionMemory.peek, List.getElem_map, List.getElem_range, List.getElem_take, List.getElem_drop]
    exact covers (p.shift k) block _ there (List.getElem?_eq_getElem (by simp only [Pointer.shift]; omega))

theorem Covers.poke (covers : Covers contents blocks) (stores : store blocks p values = some blocks') :
    Covers (poke contents p values) blocks' := by
  unfold store at stores
  split at stores
  · cases stores
  · next block there =>
    obtain ⟨inside, same⟩ := Option.ite_none_right_eq_some.mp stores
    obtain rfl := Option.some.inj same
    have known := (List.getElem?_eq_some_iff.mp there).1
    intro q block' a there' here
    by_cases own : q.block = p.block
    · rw [own, List.getElem?_set_self known] at there'
      obtain rfl := Option.some.inj there'
      rw [splice_get inside] at here
      by_cases written : p.offset ≤ q.offset ∧ q.offset < p.offset + values.length
      · rw [if_pos written] at here
        rw [RegionMemory.poke, if_pos ⟨own, written⟩, List.getD_eq_getElem?_getD, here, Option.getD_some]
      · rw [if_neg written] at here
        rw [RegionMemory.poke, if_neg fun holds => written holds.2]
        exact covers q block a (own ▸ there) here
    · rw [List.getElem?_set_ne (Ne.symm own)] at there'
      rw [RegionMemory.poke, if_neg fun holds => own holds.1]
      exact covers q block' a there' here

end

end RegionMemory
