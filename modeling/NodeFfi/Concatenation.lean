import Mathlib.Algebra.Order.Group.Nat
import Mathlib.Data.List.Basic
import Mathlib.Data.List.Chain

/-! Codewords written one after another without a delimiter, and numerals as
codewords: when the written text can be read back, and what appending zeros to a
numeral does to the number. -/
namespace Concatenation

variable {α β : Type*}

/-- **Reading back.** Lists of a kind that is closed under tails are determined by
their concatenated codewords, if in any two that agree the first letters do. -/
theorem flatMap_injOn {encode : α → List β} (good : List α → Prop)
    (tails : ∀ a rest, good (a :: rest) → good rest) (nonempty : ∀ a, encode a ≠ [])
    (heads : ∀ a b rest others, good (a :: rest) → good (b :: others) →
      (a :: rest).flatMap encode = (b :: others).flatMap encode → a = b)
    {l k : List α} (good_l : good l) (good_k : good k)
    (same : l.flatMap encode = k.flatMap encode) : l = k := by
  induction l generalizing k with
  | nil =>
    cases k with
    | nil => rfl
    | cons b others => simp [nonempty] at same
  | cons a rest further =>
    cases k with
    | nil => simp [nonempty] at same
    | cons b others =>
      obtain rfl := heads a b rest others good_l good_k same
      rw [List.flatMap_cons, List.flatMap_cons] at same
      have onward := further (tails a rest good_l) (tails a others good_k)
        (List.append_cancel_left same)
      rw [onward]

/-! ## Numerals -/

variable {b : Nat}

theorem digitChar_inj {m n : Nat} (small_m : m < 16) (small_n : n < 16)
    (same : m.digitChar = n.digitChar) : m = n := by
  have table : ∀ i < 16, ∀ j < 16, i.digitChar = j.digitChar → i = j := by decide
  exact table m small_m n small_n same

theorem digitChar_ne_zero {n : Nat} (small : n < 16) (positive : 0 < n) : n.digitChar ≠ '0' := by
  intro same
  exact absurd (digitChar_inj small (n := 0) (by omega) same) (by omega)

theorem digitChar_ne_minus {n : Nat} (small : n < 16) : n.digitChar ≠ '-' := by
  have table : ∀ i < 16, i.digitChar ≠ '-' := by decide
  exact table n small

/-- A numeral determines its number. -/
theorem toDigits_inj (base : 1 < b) (known : b ≤ 16) {m n : Nat}
    (same : Nat.toDigits b m = Nat.toDigits b n) : m = n := by
  induction m using Nat.strongRecOn generalizing n with
  | ind m smaller =>
    rw [Nat.toDigits_eq_if base, Nat.toDigits_eq_if (n := n) base] at same
    by_cases few_m : m < b <;> by_cases few_n : n < b
    · rw [if_pos few_m, if_pos few_n, List.singleton_inj] at same
      exact digitChar_inj (by omega) (by omega) same
    · rw [if_pos few_m, if_neg few_n] at same
      have longer := congrArg List.length same
      have positive := @Nat.length_toDigits_pos b (n / b)
      simp only [List.length_append, List.length_singleton] at longer
      omega
    · rw [if_neg few_m, if_pos few_n] at same
      have longer := congrArg List.length same
      have positive := @Nat.length_toDigits_pos b (m / b)
      simp only [List.length_append, List.length_singleton] at longer
      omega
    · rw [if_neg few_m, if_neg few_n] at same
      obtain ⟨front, last⟩ := List.append_inj' same rfl
      have quotient := smaller (m / b) (Nat.div_lt_self (by omega) base) front
      have bound_m := Nat.mod_lt m (show 0 < b by omega)
      have bound_n := Nat.mod_lt n (show 0 < b by omega)
      have remainder := digitChar_inj (by omega) (by omega) (List.singleton_inj.mp last)
      rw [← Nat.div_add_mod m b, quotient, remainder, Nat.div_add_mod]

/-- Zeros appended to a numeral multiply its number. -/
theorem toDigits_append_zeros (base : 1 < b) {n : Nat} (positive : 0 < n) (d : Nat) :
    Nat.toDigits b n ++ List.replicate d '0' = Nat.toDigits b (n * b ^ d) := by
  induction d with
  | zero => simp
  | succ d longer =>
    have product : 0 < n * b ^ d := Nat.mul_pos positive (Nat.pow_pos (by omega))
    rw [List.replicate_succ', ← List.append_assoc, longer, ← Nat.toDigits_zero b,
      Nat.toDigits_append_toDigits base product (by omega)]
    congr 1
    rw [Nat.add_zero, Nat.pow_succ, Nat.mul_left_comm, Nat.mul_comm b]

/-- A numeral starts with a digit, and with a zero only if it is zero. -/
theorem toDigits_head (base : 1 < b) (known : b ≤ 16) {n : Nat} (positive : 0 < n) :
    ∃ digit rest, Nat.toDigits b n = digit :: rest ∧ digit ≠ '0' ∧ digit ≠ '-' := by
  induction n using Nat.strongRecOn with
  | ind n smaller =>
    rw [Nat.toDigits_eq_if base]
    by_cases few : n < b
    · rw [if_pos few]
      exact ⟨_, [], rfl, digitChar_ne_zero (by omega) positive, digitChar_ne_minus (by omega)⟩
    · rw [if_neg few]
      obtain ⟨digit, rest, front, facts⟩ := smaller (n / b) (Nat.div_lt_self positive base)
        (Nat.div_pos (by omega) (by omega))
      exact ⟨digit, rest ++ [(n % b).digitChar], by rw [front, List.cons_append], facts⟩

end Concatenation
