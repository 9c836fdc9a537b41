import Mathlib.Algebra.Order.BigOperators.Group.List
import Mathlib.Algebra.Order.Group.Nat

/-! Sequential aligned layout: items placed one after another, each at the next
multiple of its alignment, the whole padded to the largest alignment. Nothing
here knows which program computes the layout; `roundUp_bits` is the bit trick
by which machine code rounds, and says when it does not overflow. -/
namespace AlignedLayout

/-- The least multiple of `a` that is at least `n`. -/
def roundUp (n a : Nat) : Nat := (n + (a - 1)) / a * a

@[simp] theorem roundUp_zero (a : Nat) : roundUp 0 a = 0 := by
  by_cases positive : 0 < a
  · simp [roundUp, Nat.div_eq_of_lt (show a - 1 < a by omega)]
  · simp [roundUp, show a = 0 by omega]

theorem roundUp_mono {n k : Nat} (a : Nat) (below : n ≤ k) : roundUp n a ≤ roundUp k a :=
  Nat.mul_le_mul_right a (Nat.div_le_div_right (Nat.add_le_add_right below _))

theorem le_roundUp {a : Nat} (n : Nat) (positive : 0 < a) : n ≤ roundUp n a := by
  have remainder := Nat.mod_lt (n + (a - 1)) positive
  have division := Nat.div_add_mod (n + (a - 1)) a
  have commuted : a * ((n + (a - 1)) / a) = roundUp n a := Nat.mul_comm _ _
  omega

/-- Filling the low `e` bits and adding one reaches the next multiple of `2 ^ e`. -/
theorem or_low_bits (n e : Nat) : n ||| (2 ^ e - 1) = n / 2 ^ e * 2 ^ e + (2 ^ e - 1) := by
  have positive : 0 < 2 ^ e := Nat.two_pow_pos e
  have low : n % 2 ^ e < 2 ^ e := Nat.mod_lt _ positive
  have ones : n % 2 ^ e ||| (2 ^ e - 1) = 2 ^ e - 1 := by
    apply Nat.eq_of_testBit_eq
    intro i
    by_cases inside : i < e <;> simp [Nat.testBit_or, Nat.testBit_two_pow_sub_one, inside]
  calc n ||| (2 ^ e - 1)
      = (2 ^ e * (n / 2 ^ e) + n % 2 ^ e) ||| (2 ^ e - 1) := by rw [Nat.div_add_mod]
    _ = 2 ^ e * (n / 2 ^ e) ||| (n % 2 ^ e ||| (2 ^ e - 1)) := by
        rw [Nat.two_pow_add_eq_or_of_lt low, Nat.or_assoc]
    _ = 2 ^ e * (n / 2 ^ e) + (2 ^ e - 1) := by
        rw [ones, ← Nat.two_pow_add_eq_or_of_lt (by omega)]
    _ = n / 2 ^ e * 2 ^ e + (2 ^ e - 1) := by rw [Nat.mul_comm]

/-- The rounding of C macros: `((v - 1) | (a - 1)) + 1` on machine words. -/
def roundUpBits {w : Nat} (v a : BitVec w) : BitVec w := ((v - 1) ||| (a - 1)) + 1

/-- On a power of two the bit trick is exact as long as the rounded value fits. -/
theorem roundUp_bits {w e : Nat} (v : BitVec w) (small : e < w)
    (fits : roundUp v.toNat (2 ^ e) < 2 ^ w) :
    (roundUpBits v (BitVec.ofNat w (2 ^ e))).toNat = roundUp v.toNat (2 ^ e) := by
  have positive : 0 < 2 ^ e := Nat.two_pow_pos e
  have below : 2 ^ e < 2 ^ w := Nat.pow_lt_pow_right (by omega) small
  have one : (1 : BitVec w).toNat = 1 := BitVec.toNat_one (by omega)
  have power : (BitVec.ofNat w (2 ^ e)).toNat = 2 ^ e := by
    rw [BitVec.toNat_ofNat, Nat.mod_eq_of_lt below]
  have mask : (BitVec.ofNat w (2 ^ e) - 1).toNat = 2 ^ e - 1 := by
    rw [BitVec.toNat_sub_of_le (by rw [BitVec.le_def, one, power]; omega), one, power]
  by_cases zero : v.toNat = 0
  · have nothing : v = 0 := BitVec.eq_of_toNat_eq (by rw [zero]; rfl)
    have ones : (0 : BitVec w) - 1 = BitVec.allOnes w :=
      (BitVec.zero_sub 1).trans BitVec.neg_one_eq_allOnes
    have carry : BitVec.allOnes w + 1 = 0 := by
      rw [← BitVec.neg_one_eq_allOnes]
      exact BitVec.add_left_neg 1
    rw [nothing, roundUpBits, ones, BitVec.allOnes_or, carry]
    exact (roundUp_zero _).symm
  · have previous : (v - 1).toNat = v.toNat - 1 := by
      rw [BitVec.toNat_sub_of_le (by rw [BitVec.le_def, one]; omega), one]
    have next : (v.toNat + (2 ^ e - 1)) / 2 ^ e = (v.toNat - 1) / 2 ^ e + 1 := by
      rw [← Nat.add_div_right _ positive]
      congr 1
      omega
    have value : roundUp v.toNat (2 ^ e) = ((v.toNat - 1) ||| (2 ^ e - 1)) + 1 := by
      rw [or_low_bits, roundUp, next, Nat.add_mul]
      omega
    rw [roundUpBits, BitVec.toNat_add, BitVec.toNat_or, previous, mask, one, ← value,
      Nat.mod_eq_of_lt fits]

/-! ## Placing items -/

/-- An indivisible part of an item, at its offset from the item's start. -/
structure Leaf where
  offset : Nat
  size : Nat
  alignment : Nat
  deriving DecidableEq, Repr

/-- What a leaf is, wherever it sits. -/
def Leaf.extent (leaf : Leaf) : Nat × Nat := (leaf.size, leaf.alignment)

/-- The leaf of an item that starts `distance` bytes further on. -/
def Leaf.shift (distance : Nat) (leaf : Leaf) : Leaf :=
  { leaf with offset := distance + leaf.offset }

/-- What a layout needs to know of an item, and what it says of the whole. -/
structure Shape where
  size : Nat
  alignment : Nat
  leaves : List Leaf
  deriving DecidableEq, Repr

namespace Shape

/-- Nothing placed yet. -/
def empty : Shape := ⟨0, 0, []⟩

/-- A single leaf. -/
def atom (size alignment : Nat) : Shape := ⟨size, alignment, [⟨0, size, alignment⟩]⟩

/-- Put an item after what is already placed. -/
def place (placed item : Shape) : Shape where
  size := roundUp placed.size item.alignment + item.size
  alignment := max placed.alignment item.alignment
  leaves := placed.leaves ++ item.leaves.map (Leaf.shift (roundUp placed.size item.alignment))

/-- Pad what is placed to its own alignment. -/
def finish (placed : Shape) : Shape := { placed with size := roundUp placed.size placed.alignment }

/-- The natural layout of items in order. -/
def sequence (items : List Shape) : Shape := (items.foldl place empty).finish

/-- `count` copies of an item, one every `item.size` bytes. -/
def repeated (count : Nat) (item : Shape) : Shape where
  size := count * item.size
  alignment := item.alignment
  leaves := (List.range count).flatMap fun i => item.leaves.map (Leaf.shift (i * item.size))

/-- The leaves of a shape without their offsets. -/
def extents (shape : Shape) : List (Nat × Nat) := shape.leaves.map Leaf.extent

@[simp] theorem extents_atom (size alignment : Nat) :
    (atom size alignment).extents = [(size, alignment)] := rfl

private theorem shifted_extents (distance : Nat) (leaves : List Leaf) :
    (leaves.map (Leaf.shift distance)).map Leaf.extent = leaves.map Leaf.extent := by
  simp [Leaf.shift, Leaf.extent]

@[simp] theorem extents_place (placed item : Shape) :
    (placed.place item).extents = placed.extents ++ item.extents := by
  simp only [extents, place, List.map_append, shifted_extents]

theorem extents_foldl_place (items : List Shape) (placed : Shape) :
    (items.foldl place placed).extents = placed.extents ++ items.flatMap extents := by
  induction items generalizing placed with
  | nil => simp
  | cons item rest ih => simp [ih]

/-- Layout moves leaves but neither drops, adds nor reorders them. -/
theorem extents_sequence (items : List Shape) :
    (sequence items).extents = items.flatMap extents := by
  exact extents_foldl_place items empty

theorem extents_repeated (count : Nat) (item : Shape) :
    (repeated count item).extents = (List.replicate count item).flatMap extents := by
  have copies : (repeated count item).extents = (List.range count).flatMap fun _ => item.extents := by
    simp only [extents, repeated, List.map_flatMap, shifted_extents]
  rw [copies]
  clear copies
  induction count with
  | zero => rfl
  | succ count ih => simp [List.range_succ, List.replicate_succ', ih]

/-- Placing more items never shrinks what is placed. -/
theorem size_le_foldl_place (items : List Shape) (placed : Shape)
    (aligned : ∀ item ∈ items, 0 < item.alignment) :
    placed.size ≤ (items.foldl place placed).size := by
  induction items generalizing placed with
  | nil => exact Nat.le_refl _
  | cons item rest ih =>
    have one : placed.size ≤ (placed.place item).size :=
      Nat.le_trans (le_roundUp _ (aligned item (by simp))) (Nat.le_add_right _ _)
    exact Nat.le_trans one (ih _ fun other member => aligned other (List.mem_cons_of_mem _ member))

/-- A property of alignments that every placed item has is one of the whole. -/
theorem foldl_place_alignment {P : Nat → Prop} (items : List Shape) (placed : Shape)
    (start : P placed.alignment) (each : ∀ item ∈ items, P item.alignment) :
    P (items.foldl place placed).alignment := by
  induction items generalizing placed with
  | nil => exact start
  | cons item rest ih =>
    refine ih _ ?_ fun other member => each other (List.mem_cons_of_mem _ member)
    rcases Nat.le_total placed.alignment item.alignment with less | more
    · simpa [place, Nat.max_eq_right less] using each item (by simp)
    · simpa [place, Nat.max_eq_left more] using start

/-- The alignment of a nonempty layout is the alignment of one of its items. -/
theorem sequence_alignment {P : Nat → Prop} {items : List Shape} (nonempty : items ≠ [])
    (each : ∀ item ∈ items, P item.alignment) : P (sequence items).alignment := by
  obtain ⟨first, rest, rfl⟩ := List.exists_cons_of_ne_nil nonempty
  refine foldl_place_alignment rest (empty.place first) ?_ fun item member =>
    each item (List.mem_cons_of_mem _ member)
  simpa [place, empty] using each first (by simp)

/-- No item is larger than the layout it is part of. -/
theorem size_le_sequence {items : List Shape} {item : Shape}
    (aligned : ∀ item ∈ items, 0 < item.alignment) (member : item ∈ items) :
    item.size ≤ (sequence items).size := by
  obtain ⟨before, after, rfl⟩ := List.append_of_mem member
  have nonzero : 0 < (sequence (before ++ item :: after)).alignment :=
    sequence_alignment (by simp) aligned
  have placed : item.size ≤ ((before.foldl place empty).place item).size := Nat.le_add_left _ _
  have rest : ((before.foldl place empty).place item).size ≤
      ((before ++ item :: after).foldl place empty).size := by
    rw [List.foldl_append, List.foldl_cons]
    exact size_le_foldl_place after _ fun other inside =>
      aligned other (List.mem_append_right _ (List.mem_cons_of_mem _ inside))
  exact (placed.trans rest).trans (le_roundUp _ nonzero)

theorem roundUp_of_dvd {n a : Nat} (positive : 0 < a) (multiple : a ∣ n) : roundUp n a = n := by
  obtain ⟨k, rfl⟩ := multiple
  rw [roundUp, Nat.mul_add_div positive, Nat.div_eq_of_lt (by omega), Nat.add_zero, Nat.mul_comm]

/-- A struct of one leaf is that leaf. -/
theorem sequence_atom {size alignment : Nat} (positive : 0 < alignment)
    (multiple : alignment ∣ size) : sequence [atom size alignment] = atom size alignment := by
  simp [sequence, finish, place, empty, atom, Leaf.shift, roundUp_of_dvd positive multiple]

/-- No larger, and aligned alike. -/
structure Within (small large : Shape) : Prop where
  size : small.size ≤ large.size
  alignment : small.alignment = large.alignment

theorem Within.refl (shape : Shape) : Within shape shape := ⟨Nat.le_refl _, rfl⟩

theorem Within.place {placed placed' item item' : Shape} (before : Within placed placed')
    (next : Within item item') : Within (placed.place item) (placed'.place item') where
  size := by
    change roundUp _ _ + _ ≤ roundUp _ _ + _
    rw [next.alignment]
    exact Nat.add_le_add (roundUp_mono _ before.size) next.size
  alignment := congrArg₂ max before.alignment next.alignment

/-- Smaller items of the same alignments take no more room. -/
theorem sequence_within {items items' : List Shape} (each : List.Forall₂ Within items items') :
    Within (sequence items) (sequence items') := by
  have placed : ∀ start start', Within start start' →
      Within (items.foldl Shape.place start) (items'.foldl Shape.place start') := by
    induction each with
    | nil => exact fun _ _ before => before
    | cons first rest ih => exact fun _ _ before => ih _ _ (before.place first)
  obtain ⟨size, alignment⟩ := placed empty empty (.refl empty)
  refine ⟨?_, alignment⟩
  change roundUp _ _ ≤ roundUp _ _
  rw [alignment]
  exact roundUp_mono _ size

theorem repeated_within {item item' : Shape} (each : Within item item') (count : Nat) :
    Within (repeated count item) (repeated count item') :=
  ⟨Nat.mul_le_mul_left count each.size, each.alignment⟩

/-- An array of one item is that item. -/
theorem repeated_one (item : Shape) : repeated 1 item = item := by
  have same : Leaf.shift 0 = id := by
    funext leaf
    simp [Leaf.shift]
  simp [repeated, same]

end Shape

/-! ## Packed layouts -/

/-- Every leaf sits inside the shape at a multiple of its own alignment, and one starts at
each multiple of `a`. -/
structure Shape.PackedAt (a : Nat) (shape : Shape) : Prop where
  aligned : ∀ leaf ∈ shape.leaves, leaf.alignment ∣ leaf.offset ∧ leaf.alignment ∣ a
  inside : ∀ leaf ∈ shape.leaves, leaf.offset + leaf.size ≤ shape.size
  dense : ∀ start, a ∣ start → start < shape.size →
    ∃ leaf ∈ shape.leaves, leaf.offset = start

/-- Packed at its own alignment. -/
def Shape.Packed (shape : Shape) : Prop := shape.PackedAt shape.alignment

theorem roundUp_le {n a k : Nat} (positive : 0 < a) (above : n ≤ k) (multiple : a ∣ k) :
    roundUp n a ≤ k := by
  obtain ⟨q, rfl⟩ := multiple
  have quotient : (n + (a - 1)) / a ≤ q := by
    apply Nat.le_of_lt_succ
    rw [Nat.div_lt_iff_lt_mul positive, Nat.succ_mul, Nat.mul_comm q a]
    omega
  rw [roundUp, Nat.mul_comm]
  exact Nat.mul_le_mul_left a quotient

theorem dvd_roundUp (n a : Nat) : a ∣ roundUp n a := Nat.dvd_mul_left a _

/-- Rounding commutes with moving by a multiple. -/
theorem roundUp_add {n a k : Nat} (positive : 0 < a) (multiple : a ∣ k) :
    roundUp (k + n) a = k + roundUp n a := by
  obtain ⟨q, rfl⟩ := multiple
  rw [roundUp, roundUp, Nat.add_assoc, Nat.mul_add_div positive, Nat.add_mul, Nat.mul_comm q a]

namespace Shape

theorem packed_atom {size alignment : Nat} (small : size ≤ alignment) :
    (atom size alignment).Packed := by
  refine ⟨?_, ?_, ?_⟩
  · simp [atom]
  · simp [atom]
  · intro start multiple below
    obtain rfl : start = 0 := Nat.eq_zero_of_dvd_of_lt multiple (Nat.lt_of_lt_of_le below small)
    exact ⟨⟨0, size, alignment⟩, by simp [atom], rfl⟩

theorem packedAt_empty (a : Nat) : empty.PackedAt a := ⟨by simp [empty], by simp [empty], by simp [empty]⟩

theorem PackedAt.place {a : Nat} {placed item : Shape} (before : placed.PackedAt a) (packed : item.Packed)
    (positive : 0 < item.alignment) (divides : item.alignment ∣ a) : (placed.place item).PackedAt a := by
  have grows : placed.size ≤ roundUp placed.size item.alignment := le_roundUp _ positive
  have multiple : item.alignment ∣ roundUp placed.size item.alignment := dvd_roundUp _ _
  refine ⟨?_, ?_, ?_⟩
  · intro leaf member
    rcases List.mem_append.mp member with old | new
    · exact before.aligned leaf old
    · obtain ⟨inner, inside, rfl⟩ := List.mem_map.mp new
      obtain ⟨offset, whole⟩ := packed.aligned inner inside
      exact ⟨Nat.dvd_add (whole.trans multiple) offset, whole.trans divides⟩
  · intro leaf member
    rcases List.mem_append.mp member with old | new
    · have inside := before.inside leaf old
      simp only [Shape.place]
      omega
    · obtain ⟨inner, inside, rfl⟩ := List.mem_map.mp new
      have within := packed.inside inner inside
      simp only [Shape.place, Leaf.shift]
      omega
  · intro start unitStart below
    rcases Nat.lt_or_ge start placed.size with early | late
    · obtain ⟨leaf, member, at_⟩ := before.dense start unitStart early
      exact ⟨leaf, List.mem_append_left _ member, at_⟩
    · -- the padding before the item holds no multiple of its alignment
      have reached := roundUp_le positive late (divides.trans unitStart)
      obtain ⟨leaf, member, at_⟩ := packed.dense (start - roundUp placed.size item.alignment)
        (Nat.dvd_sub (divides.trans unitStart) multiple) (by simp only [Shape.place] at below; omega)
      refine ⟨leaf.shift (roundUp placed.size item.alignment),
        List.mem_append_right _ (List.mem_map_of_mem member), ?_⟩
      simp only [Leaf.shift]
      omega

theorem PackedAt.foldl_place {a : Nat} {items : List Shape} {placed : Shape} (before : placed.PackedAt a)
    (each : ∀ item ∈ items, item.Packed ∧ 0 < item.alignment ∧ item.alignment ∣ a) :
    (items.foldl Shape.place placed).PackedAt a := by
  induction items generalizing placed with
  | nil => exact before
  | cons item rest ih =>
    obtain ⟨packed, positive, divides⟩ := each item (by simp)
    exact ih (before.place packed positive divides) fun other member =>
      each other (List.mem_cons_of_mem _ member)

/-- Packed items in order are packed, if their alignments divide that of the whole. -/
theorem packed_sequence {items : List Shape} (nonempty : items ≠ [])
    (each : ∀ item ∈ items, item.Packed ∧ 0 < item.alignment ∧ item.alignment ∣ (sequence items).alignment) :
    (sequence items).Packed := by
  have unit : 0 < (sequence items).alignment :=
    sequence_alignment nonempty fun item member => (each item member).2.1
  have placed := (packedAt_empty (sequence items).alignment).foldl_place each
  refine ⟨placed.aligned, ?_, ?_⟩
  · intro leaf member
    exact (placed.inside leaf member).trans (le_roundUp _ unit)
  · intro start multiple below
    refine placed.dense start multiple ?_
    by_contra past
    have reached : (sequence items).size ≤ start := roundUp_le unit (Nat.le_of_not_lt past) multiple
    omega

end Shape

/-! ## Comparing layouts item by item -/

/-- Two concatenations are equal only piece by piece when no piece of the one is
longer than its counterpart in the other. -/
theorem flatMap_eq_pointwise {α β : Type*} {f g : α → List β} {l : List α}
    (shorter : ∀ x ∈ l, (f x).length ≤ (g x).length) (same : l.flatMap f = l.flatMap g) :
    ∀ x ∈ l, f x = g x := by
  induction l with
  | nil => simp
  | cons head rest ih =>
    have restShorter : ∀ x ∈ rest, (f x).length ≤ (g x).length := fun x member =>
      shorter x (List.mem_cons_of_mem _ member)
    have restLength : (rest.flatMap f).length ≤ (rest.flatMap g).length := by
      rw [List.length_flatMap, List.length_flatMap]
      exact List.sum_le_sum restShorter
    have headShorter := shorter head (by simp)
    simp only [List.flatMap_cons] at same
    have total := congrArg List.length same
    simp only [List.length_append] at total
    obtain ⟨headSame, restSame⟩ := List.append_inj same (by omega)
    exact List.forall_mem_cons.mpr ⟨headSame, ih restShorter restSame⟩

/-- Nonempty pieces that concatenate to one element are one piece. -/
theorem eq_singleton_of_flatMap {α β : Type*} {f : α → List β} {l : List α} {b : β}
    (nonempty : ∀ x ∈ l, f x ≠ []) (single : l.flatMap f = [b]) : ∃ x, l = [x] ∧ f x = [b] := by
  cases l with
  | nil => simp at single
  | cons head rest =>
    rw [List.flatMap_cons] at single
    rcases List.append_eq_singleton_iff.mp single with ⟨none, _⟩ | ⟨first, none⟩
    · exact absurd none (nonempty head (by simp))
    · cases rest with
      | nil => exact ⟨head, rfl, first⟩
      | cons next rest => simp [nonempty next (by simp)] at none

end AlignedLayout
