import NodeFfi.Concatenation
import Mathlib.Algebra.Group.Int.Defs

/-! The ids by which `foreign_function_var.js` tells types apart: how a number
becomes an id, and when ids written one after another can be told apart again. The
id of number zero is `"0"`, every other id ends in four zeros, so a zero type after
a small enough number reads like the sixteenfold number. -/
namespace NodeFfi.Variadic

/-- `(counter*0x10000)|0`: the product as a signed 32-bit integer. -/
def idNumber (counter : Nat) : Int := (BitVec.ofNat 32 (counter * 0x10000)).toInt

/-- `Number.prototype.toString(16)` of an integer. -/
def toString16 (n : Int) : List Char :=
  if n < 0 then '-' :: Nat.toDigits 16 n.natAbs else Nat.toDigits 16 n.natAbs

/-- The id that `getId` gives to the type it numbers `counter`. -/
def idString (counter : Nat) : List Char := toString16 (idNumber counter)

/-- Followed by the type numbered zero, the id reads like that of another number. -/
def Extendable (counter : Nat) : Prop :=
  (0 < counter ∧ counter < 0x800) ∨ (0xF800 ≤ counter ∧ counter < 0x10000)

instance (counter : Nat) : Decidable (Extendable counter) :=
  inferInstanceAs (Decidable (_ ∨ _))

/-- The type numbered zero nowhere comes right after an extendable number. -/
def Separated (counters : List Nat) : Prop :=
  counters.IsChain fun before after => after = 0 → ¬ Extendable before

instance (counters : List Nat) : Decidable (Separated counters) :=
  inferInstanceAs (Decidable (List.IsChain _ _))

/-! ## What an id looks like -/

/-- The sign of an id other than `"0"`. -/
def sign (counter : Nat) : List Char := if counter < 0x8000 then [] else ['-']

/-- The number whose numeral an id other than `"0"` begins with. -/
def magnitude (counter : Nat) : Nat :=
  if counter < 0x8000 then counter else 0x10000 - counter

theorem idNumber_eq {counter : Nat} (bounded : counter < 0x10000) :
    idNumber counter =
      if counter < 0x8000 then (counter * 0x10000 : Int) else counter * 0x10000 - 2 ^ 32 := by
  rw [idNumber, BitVec.toInt_eq_toNat_cond, BitVec.toNat_ofNat, Nat.mod_eq_of_lt (by omega)]
  split <;> split <;> omega

theorem magnitude_pos {counter : Nat} (positive : 0 < counter) (bounded : counter < 0x10000) :
    0 < magnitude counter := by
  unfold magnitude
  split <;> omega

theorem magnitude_lt {counter : Nat} : magnitude counter < 16 ^ 4 := by
  unfold magnitude
  split <;> omega

theorem idString_zero : idString 0 = ['0'] := by decide

theorem idString_pos {counter : Nat} (positive : 0 < counter) (bounded : counter < 0x10000) :
    idString counter =
      sign counter ++ (Nat.toDigits 16 (magnitude counter) ++ List.replicate 4 '0') := by
  rw [Concatenation.toDigits_append_zeros (by decide) (magnitude_pos positive bounded), idString,
    toString16, idNumber_eq bounded, sign, magnitude]
  by_cases low : counter < 0x8000
  · have natural : ((counter * 0x10000 : Int)).natAbs = counter * 16 ^ 4 := by omega
    rw [if_pos low, if_pos low, if_pos low, if_neg (by omega), List.nil_append, natural]
  · have natural : ((counter * 0x10000 - 2 ^ 32 : Int)).natAbs = (0x10000 - counter) * 16 ^ 4 := by
      omega
    rw [if_neg low, if_neg low, if_neg low, if_pos (by omega), List.singleton_append, natural]

theorem idString_ne_nil (counter : Nat) : idString counter ≠ [] := by
  unfold idString toString16
  split <;> simp

/-! ## Reading ids back -/

/-- Ids written one after another, as `key.join('')` does. -/
def joined (counters : List Nat) : List Char := counters.flatMap idString

/-- Only the type numbered zero has an id that starts with a zero. -/
theorem zero_of_head {counter : Nat} (bounded : counter < 0x10000) {rest tail : List Char}
    (starts : idString counter ++ rest = '0' :: tail) : counter = 0 := by
  by_contra other
  have positive : 0 < counter := by omega
  obtain ⟨digit, digits, numeral, nonzero, _⟩ :=
    Concatenation.toDigits_head (b := 16) (by decide) (by decide) (magnitude_pos positive bounded)
  rw [idString_pos positive bounded, numeral, sign] at starts
  split at starts
  · cases starts
    exact nonzero rfl
  · cases starts

theorem head_of_joined {counters : List Nat} (bounded : ∀ c ∈ counters, c < 0x10000)
    {tail : List Char} (starts : joined counters = '0' :: tail) :
    ∃ rest, counters = 0 :: rest := by
  cases counters with
  | nil => cases starts
  | cons first rest =>
    obtain rfl := zero_of_head (bounded first (List.mem_cons_self ..)) starts
    exact ⟨rest, rfl⟩

/-- A numeral with four zeros that continues another one is extendable, and what
follows the shorter one starts with a zero. -/
theorem extends_of_longer {m n : Nat} {excess left right : List Char} (positive : 0 < m)
    (small : n < 16 ^ 4) (longer : Nat.toDigits 16 n = Nat.toDigits 16 m ++ excess)
    (more : excess ≠ [])
    (same : List.replicate 4 '0' ++ left = excess ++ (List.replicate 4 '0' ++ right)) :
    16 * m ≤ n ∧ ∃ tail, left = '0' :: tail := by
  have short : excess.length ≤ 3 := by
    have digits_n : (Nat.toDigits 16 n).length ≤ 4 :=
      (Nat.length_toDigits_le_iff (by decide) (by decide)).mpr small
    have digits_m := @Nat.length_toDigits_pos 16 m
    rw [longer, List.length_append] at digits_n
    omega
  obtain ⟨d, length⟩ : ∃ d, excess.length = d + 1 :=
    Nat.exists_eq_succ_of_ne_zero (by simpa using more)
  have zeros : excess = List.replicate (d + 1) '0' := by
    have front : excess <+: List.replicate 4 '0' :=
      List.prefix_of_prefix_length_le (same ▸ List.prefix_append _ _) (List.prefix_append _ left)
        (by rw [List.length_replicate]; omega)
    rw [(List.prefix_replicate_iff.mp front).2, length]
  have multiple : n = m * 16 ^ (d + 1) := by
    rw [zeros, Concatenation.toDigits_append_zeros (by decide) positive] at longer
    exact Concatenation.toDigits_inj (by decide) (by decide) longer
  constructor
  · rw [multiple, Nat.pow_succ, Nat.mul_comm 16, ← Nat.mul_assoc]
    exact Nat.mul_le_mul_right 16 (Nat.le_mul_of_pos_right m (Nat.pow_pos (by decide)))
  · rw [zeros, ← List.append_assoc, List.replicate_append_replicate, Nat.add_comm,
      ← List.replicate_append_replicate, List.append_assoc] at same
    exact ⟨_, List.append_cancel_left same⟩

theorem extendable_of_magnitude {c d : Nat} (positive : 0 < c) (bounded_c : c < 0x10000)
    (bounded_d : d < 0x10000) (same : sign c = sign d)
    (multiple : 16 * magnitude c ≤ magnitude d) : Extendable c := by
  unfold sign magnitude at *
  unfold Extendable
  by_cases low_c : c < 0x8000 <;> by_cases low_d : d < 0x8000
  · rw [if_pos low_c, if_pos low_d] at multiple
    omega
  · rw [if_pos low_c, if_neg low_d] at same
    cases same
  · rw [if_neg low_c, if_pos low_d] at same
    cases same
  · rw [if_neg low_c, if_neg low_d] at multiple
    omega

theorem no_excess {c d : Nat} {rest others : List Nat} {excess : List Char}
    (bounded : ∀ n ∈ c :: rest, n < 0x10000) (bounded_d : d < 0x10000) (positive : 0 < c)
    (separated : Separated (c :: rest)) (signs : sign c = sign d)
    (longer : Nat.toDigits 16 (magnitude d) = Nat.toDigits 16 (magnitude c) ++ excess)
    (same : List.replicate 4 '0' ++ joined rest =
      excess ++ (List.replicate 4 '0' ++ joined others)) : excess = [] := by
  have bounded_c := bounded c (List.mem_cons_self ..)
  by_contra more
  obtain ⟨multiple, tail, starts⟩ := extends_of_longer (magnitude_pos positive bounded_c)
    magnitude_lt longer more same
  obtain ⟨onward, rfl⟩ :=
    head_of_joined (fun n inside => bounded n (List.mem_cons_of_mem _ inside)) starts
  exact (List.isChain_cons_cons.mp separated).1 rfl
    (extendable_of_magnitude positive bounded_c bounded_d signs multiple)

theorem sign_eq_of_same {c d : Nat} {left right : List Char} (positive_c : 0 < magnitude c)
    (positive_d : 0 < magnitude d)
    (same : sign c ++ (Nat.toDigits 16 (magnitude c) ++ left) =
      sign d ++ (Nat.toDigits 16 (magnitude d) ++ right)) : sign c = sign d := by
  obtain ⟨x, xs, numeral_c, _, digit_c⟩ :=
    Concatenation.toDigits_head (b := 16) (by decide) (by decide) positive_c
  obtain ⟨y, ys, numeral_d, _, digit_d⟩ :=
    Concatenation.toDigits_head (b := 16) (by decide) (by decide) positive_d
  rw [numeral_c, numeral_d] at same
  unfold sign at *
  by_cases low_c : c < 0x8000 <;> by_cases low_d : d < 0x8000
  · rw [if_pos low_c, if_pos low_d]
  · rw [if_pos low_c, if_neg low_d] at same
    exact absurd (List.cons.inj same).1 digit_c
  · rw [if_neg low_c, if_pos low_d] at same
    exact absurd (List.cons.inj same).1.symm digit_d
  · rw [if_neg low_c, if_neg low_d]

theorem eq_of_magnitude {c d : Nat} (signs : sign c = sign d) (same : magnitude c = magnitude d)
    (bounded_c : c < 0x10000) (bounded_d : d < 0x10000) : c = d := by
  unfold sign magnitude at *
  by_cases low_c : c < 0x8000 <;> by_cases low_d : d < 0x8000
  · rwa [if_pos low_c, if_pos low_d] at same
  · rw [if_pos low_c, if_neg low_d] at signs
    cases signs
  · rw [if_neg low_c, if_pos low_d] at signs
    cases signs
  · rw [if_neg low_c, if_neg low_d] at same
    omega

/-- The first of two id sequences that read the same are equal, when neither has
the zero type after an extendable number. -/
theorem heads_eq {c d : Nat} {rest others : List Nat}
    (bounded : ∀ n ∈ c :: rest, n < 0x10000) (bounded' : ∀ n ∈ d :: others, n < 0x10000)
    (separated : Separated (c :: rest)) (separated' : Separated (d :: others))
    (same : joined (c :: rest) = joined (d :: others)) : c = d := by
  have bounded_c := bounded c (List.mem_cons_self ..)
  have bounded_d := bounded' d (List.mem_cons_self ..)
  rw [joined, joined, List.flatMap_cons, List.flatMap_cons] at same
  by_cases zero_c : c = 0
  · subst c
    rw [idString_zero] at same
    exact (zero_of_head bounded_d same.symm).symm
  by_cases zero_d : d = 0
  · subst d
    rw [idString_zero] at same
    exact zero_of_head bounded_c same
  have positive_c := magnitude_pos (Nat.pos_of_ne_zero zero_c) bounded_c
  have positive_d := magnitude_pos (Nat.pos_of_ne_zero zero_d) bounded_d
  rw [idString_pos (by omega) bounded_c, idString_pos (by omega) bounded_d] at same
  simp only [List.append_assoc] at same
  have signs := sign_eq_of_same positive_c positive_d same
  rw [signs] at same
  have numerals := List.append_cancel_left same
  obtain ⟨excess, longer, left⟩ | ⟨excess, longer, right⟩ := List.append_eq_append_iff.mp numerals
  · have none := no_excess bounded bounded_d (by omega) separated signs longer left
    rw [none, List.append_nil] at longer
    exact eq_of_magnitude signs
      (Concatenation.toDigits_inj (by decide) (by decide) longer).symm bounded_c bounded_d
  · have none := no_excess bounded' bounded_c (by omega) separated' signs.symm longer right
    rw [none, List.append_nil] at longer
    exact eq_of_magnitude signs
      (Concatenation.toDigits_inj (by decide) (by decide) longer) bounded_c bounded_d

/-- **Ids can be read back** as long as there are no more than 2^16 of them and the
type numbered zero nowhere follows an extendable number. -/
theorem joined_inj {l k : List Nat} (bounded : ∀ n ∈ l, n < 0x10000)
    (bounded' : ∀ n ∈ k, n < 0x10000) (separated : Separated l) (separated' : Separated k)
    (same : joined l = joined k) : l = k := by
  refine Concatenation.flatMap_injOn (fun l => (∀ n ∈ l, n < 0x10000) ∧ Separated l) ?_
    idString_ne_nil ?_ ⟨bounded, separated⟩ ⟨bounded', separated'⟩ same
  · rintro c rest ⟨bounded, separated⟩
    exact ⟨fun n inside => bounded n (List.mem_cons_of_mem _ inside), List.IsChain.of_cons separated⟩
  · rintro c d rest others ⟨bounded, separated⟩ ⟨bounded', separated'⟩
    exact heads_eq bounded bounded' separated separated'

/-- **The condition is needed**: after an extendable number, the type numbered zero
makes the two read like a single type. -/
theorem joined_of_extendable {c : Nat} (extendable : Extendable c) :
    ∃ d < 0x10000, joined [c, 0] = joined [d] := by
  have tenfold : ∀ {m : Nat}, 0 < m → Nat.toDigits 16 m ++ List.replicate 4 '0' ++ ['0'] =
      Nat.toDigits 16 (16 * m) ++ List.replicate 4 '0' := by
    intro m positive
    have product : m * 16 ^ 5 = 16 * m * 16 ^ 4 := by omega
    rw [List.append_assoc, ← List.replicate_succ',
      Concatenation.toDigits_append_zeros (by decide) positive,
      Concatenation.toDigits_append_zeros (by decide) (by omega), product]
  have positive : 0 < c := by unfold Extendable at extendable; omega
  have bounded : c < 0x10000 := by unfold Extendable at extendable; omega
  obtain ⟨d, positive_d, bounded_d, signs, magnitudes⟩ :
      ∃ d, 0 < d ∧ d < 0x10000 ∧ sign d = sign c ∧ magnitude d = 16 * magnitude c := by
    unfold sign magnitude
    rcases extendable with low | high
    · refine ⟨16 * c, by omega, by omega, ?_, ?_⟩
      · rw [if_pos (by omega), if_pos (by omega)]
      · rw [if_pos (by omega), if_pos (by omega)]
    · refine ⟨0x10000 - 16 * (0x10000 - c), by omega, by omega, ?_, ?_⟩
      · rw [if_neg (by omega), if_neg (by omega)]
      · rw [if_neg (by omega), if_neg (by omega)]
        omega
  refine ⟨d, bounded_d, ?_⟩
  simp only [joined, List.flatMap_cons, List.flatMap_nil, List.append_nil, idString_zero]
  rw [idString_pos positive bounded, idString_pos positive_d bounded_d, signs, magnitudes,
    List.append_assoc, tenfold (magnitude_pos positive bounded)]

end NodeFfi.Variadic
