import Mathlib.Data.Finite.Prod
import Mathlib.Data.Fintype.Card
import Mathlib.Logic.Relation
import Mathlib.Order.WellFounded

/-! Following a partial function from an element on: whether it comes to an end, and
that it meets nothing twice if it does. -/
namespace PartialOrbits

open Relation

variable {α : Type*} (f : α → Option α)

/-- The element that comes next. -/
def Leads (a b : α) : Prop := f a = some b

/-- Everything from `a` on, in order, if there are at most `n` elements. -/
def orbit : Nat → α → Option (List α)
  | 0, _ => none
  | n + 1, a =>
    match f a with
    | none => some [a]
    | some b => (orbit n b).map (a :: ·)

/-- Following `f` from `a` comes to an end. -/
def Ends (a : α) : Prop := ∃ n l, orbit f n a = some l

variable {f} {a b c : α} {n m : Nat} {l k : List α}

theorem orbit_last (last : f a = none) : orbit f (n + 1) a = some [a] := by
  rw [orbit, last]

theorem orbit_next (next : Leads f a b) : orbit f (n + 1) a = (orbit f n b).map (a :: ·) := by
  rw [orbit, next]

/-- What an orbit looks like. -/
theorem orbit_cases (found : orbit f n a = some l) :
    (f a = none ∧ l = [a]) ∨
      ∃ b k, Leads f a b ∧ orbit f (n - 1) b = some k ∧ l = a :: k := by
  cases n with
  | zero => cases found
  | succ m =>
    cases next : f a with
    | none =>
      rw [orbit_last next] at found
      exact .inl ⟨rfl, (Option.some.inj found).symm⟩
    | some b =>
      rw [orbit_next next] at found
      obtain ⟨k, rest, rfl⟩ := Option.map_eq_some_iff.mp found
      exact .inr ⟨b, k, next, rest, rfl⟩

/-- There is one orbit. -/
theorem orbit_unique (first : orbit f n a = some l) (second : orbit f m a = some k) : l = k := by
  induction n generalizing a l m k with
  | zero => cases first
  | succ n further =>
    obtain ⟨last, rfl⟩ | ⟨b, l', next, rest, rfl⟩ := orbit_cases first <;>
      obtain ⟨last', rfl⟩ | ⟨c, k', next', rest', rfl⟩ := orbit_cases second
    · rfl
    · cases last.symm.trans next'
    · cases last'.symm.trans next
    · obtain rfl : b = c := Option.some.inj (next.symm.trans next')
      rw [further rest rest']

/-- From each element of an orbit on, the orbit is the rest of it. -/
theorem orbit_of_mem (found : orbit f n a = some l) (inside : b ∈ l) :
    ∃ m k, orbit f m b = some k ∧ k.length ≤ l.length := by
  induction n generalizing a l with
  | zero => cases found
  | succ n further =>
    have whole := found
    obtain ⟨_, rfl⟩ | ⟨_, l', _, rest, rfl⟩ := orbit_cases found
    · obtain rfl := List.mem_singleton.mp inside
      exact ⟨_, _, whole, Nat.le_refl _⟩
    · rcases List.mem_cons.mp inside with rfl | later
      · exact ⟨_, _, whole, Nat.le_refl _⟩
      · obtain ⟨m, k, here, shorter⟩ := further rest later
        exact ⟨m, k, here, Nat.le_succ_of_le shorter⟩

theorem not_mem_rest (next : Leads f a b) (found : orbit f n b = some l) : a ∉ l := by
  intro again
  obtain ⟨m, k, here, shorter⟩ := orbit_of_mem found again
  have whole : orbit f (n + 1) a = some (a :: l) := by rw [orbit_next next, found]; rfl
  rw [orbit_unique here whole, List.length_cons] at shorter
  exact Nat.not_succ_le_self _ shorter

/-- **An orbit that ends meets nothing twice.** -/
theorem orbit_nodup (found : orbit f n a = some l) : l.Nodup := by
  induction n generalizing a l with
  | zero => cases found
  | succ n further =>
    obtain ⟨_, rfl⟩ | ⟨b, l', next, rest, rfl⟩ := orbit_cases found
    · exact List.nodup_singleton a
    · exact List.nodup_cons.mpr ⟨not_mem_rest next rest, further rest⟩

theorem Ends.of_next (next : Leads f a b) (ends : Ends f b) : Ends f a := by
  obtain ⟨n, l, found⟩ := ends
  exact ⟨n + 1, a :: l, by rw [orbit_next next, found]; rfl⟩

theorem Ends.next (ends : Ends f a) (next : Leads f a b) : Ends f b := by
  obtain ⟨n, l, found⟩ := ends
  obtain ⟨last, _⟩ | ⟨c, k, next', rest, _⟩ := orbit_cases found
  · cases last.symm.trans next
  · obtain rfl : b = c := Option.some.inj (next.symm.trans next')
    exact ⟨n - 1, k, rest⟩

theorem Ends.later (ends : Ends f a) (reached : ReflTransGen (Leads f) a b) : Ends f b := by
  induction reached with
  | refl => exact ends
  | tail _ next before => exact before.next next

/-- What comes after the first element is in the orbit. -/
theorem mem_of_reached (found : orbit f n a = some l) (reached : ReflTransGen (Leads f) a b) :
    b ∈ l := by
  induction reached using ReflTransGen.head_induction_on generalizing n l with
  | refl =>
    obtain ⟨_, rfl⟩ | ⟨_, _, _, _, rfl⟩ := orbit_cases found <;> exact List.mem_cons_self ..
  | head next _ further =>
    obtain ⟨last, _⟩ | ⟨c, _, next', rest, rfl⟩ := orbit_cases found
    · cases last.symm.trans next
    · obtain rfl := Option.some.inj (next.symm.trans next')
      exact List.mem_cons_of_mem _ (further rest)

theorem Ends.no_return (ends : Ends f a) : ¬ TransGen (Leads f) a a := by
  intro returns
  obtain ⟨b, next, back⟩ := TransGen.head'_iff.mp returns
  obtain ⟨n, l, found⟩ := ends.next next
  exact not_mem_rest next found (mem_of_reached found back)

/-- An orbit that ends has a last element. -/
theorem Ends.last (ends : Ends f a) : ∃ b, ReflTransGen (Leads f) a b ∧ f b = none := by
  obtain ⟨n, l, found⟩ := ends
  induction n generalizing a l with
  | zero => cases found
  | succ n further =>
    obtain ⟨last, _⟩ | ⟨c, k, next, rest, _⟩ := orbit_cases found
    · exact ⟨a, .refl, last⟩
    · obtain ⟨b, reached, last⟩ := further k rest
      exact ⟨b, reached.head next, last⟩

/-- What is reached without an end is reached one way only, so an end comes after it. -/
theorem last_of_reached (reached : ReflTransGen (Leads f) a b) (ends : ReflTransGen (Leads f) a c)
    (last : f c = none) : ReflTransGen (Leads f) b c := by
  induction reached using ReflTransGen.head_induction_on with
  | refl => exact ends
  | head next _ further =>
    rcases ends.cases_head with rfl | ⟨d, next', onward⟩
    · cases last.symm.trans next
    · obtain rfl := Option.some.inj (next.symm.trans next')
      exact further onward

/-- There is one end. -/
theorem last_unique (reached : ReflTransGen (Leads f) a b) (last : f b = none)
    (reached' : ReflTransGen (Leads f) a c) (last' : f c = none) : b = c := by
  rcases (last_of_reached reached reached' last').cases_head with same | ⟨_, next, _⟩
  · exact same
  · cases last.symm.trans next

/-- **Where finitely many elements can be reached, following a partial function comes to an
end if none of them leads back to itself.** -/
theorem ends_of_acyclic (finite : {b | ReflTransGen (Leads f) a b}.Finite)
    (acyclic : ∀ b, ReflTransGen (Leads f) a b → ¬ TransGen (Leads f) b b) : Ends f a := by
  let Onward := {b // ReflTransGen (Leads f) a b}
  have few : Finite Onward := finite
  let before : Onward → Onward → Prop := fun x y => TransGen (Leads f) y.1 x.1
  have trans : IsTrans Onward before := ⟨fun _ _ _ first second => second.trans first⟩
  have irrefl : Std.Irrefl before := ⟨fun x => acyclic x.1 x.2⟩
  have founded : WellFounded before := Finite.wellFounded_of_trans_of_irrefl before
  have all : ∀ x : Onward, Ends f x.1 := by
    intro x
    induction x using founded.induction with
    | _ x further =>
      cases next : f x.1 with
      | none => exact ⟨1, [x.1], orbit_last next⟩
      | some b =>
        exact .of_next next (further ⟨b, x.2.tail next⟩ (.single next))
  exact all ⟨a, .refl⟩

/-- Among finitely many elements it does exactly then. -/
theorem ends_iff [Finite α] :
    Ends f a ↔ ∀ b, ReflTransGen (Leads f) a b → ¬ TransGen (Leads f) b b := by
  constructor
  · intro ends b reached
    exact (ends.later reached).no_return
  · exact ends_of_acyclic (Set.toFinite _)

end PartialOrbits
