import Mathlib.Logic.Function.Basic

/-! Objects with prototypes and one property that they may own: reading it along the
chain, which object a reader takes it from, and what assignments to it change for whom.
A property that is assigned no value is owned all the same and hides what is behind it. -/
namespace PrototypeChains

variable {α β : Type*}

/-- Objects whose prototype chains end. -/
structure Chains (α : Type*) where
  proto : α → Option α
  chain : α → List α
  chain_eq : ∀ o, chain o = o :: ((proto o).map chain).getD []

/-- The property as one object has it. -/
inductive Property (β : Type*)
  | absent
  | undefined
  | value (v : β)

namespace Property

def Own (property : Property β) : Prop := property ≠ absent

instance : DecidablePred (@Own β)
  | absent => isFalse fun own => own rfl
  | undefined => isTrue nofun
  | value _ => isTrue nofun

/-- What an assignment leaves; `none` assigns no value. -/
def assign : Option β → Property β
  | none => undefined
  | some v => value v

theorem own_assign (v : Option β) : (assign v).Own := by
  cases v <;> exact nofun

theorem assign_value {v : Option β} {w : β} (same : assign v = value w) : v = some w := by
  cases v with
  | none => cases same
  | some v => cases same; rfl

end Property

/-- The property read along a chain. -/
def lookup (slots : α → Property β) : List α → Option β
  | [] => none
  | o :: rest =>
    match slots o with
    | .absent => lookup slots rest
    | .undefined => none
    | .value v => some v

namespace Chains

variable (C : Chains α) {slots : α → Property β} {own own' : α → Prop} {o u x y : α}

def read (slots : α → Property β) (o : α) : Option β := lookup slots (C.chain o)

/-- A chain begins again at every object on it. -/
theorem chain_suffix {before after : List α} (split : C.chain o = before ++ x :: after) :
    C.chain x = x :: after := by
  induction before generalizing o with
  | nil =>
    have first := C.chain_eq o
    rw [split] at first
    cases (List.cons.inj first).1
    exact split
  | cons b rest further =>
    rw [C.chain_eq, List.cons_append] at split
    have tail := (List.cons.inj split).2
    cases next : C.proto o with
    | none =>
      rw [next] at tail
      cases rest <;> cases tail
    | some p =>
      rw [next] at tail
      exact further tail

/-- Nothing on the chain of `u` before `x` owns the property. -/
def Takes (own : α → Prop) (u x : α) : Prop :=
  ∃ before, C.chain u = before ++ C.chain x ∧ ∀ b ∈ before, ¬ own b

variable {C}

theorem Takes.refl (own : α → Prop) (x : α) : C.Takes own x x := ⟨[], rfl, nofun⟩

theorem Takes.trans (first : C.Takes own u x) (second : C.Takes own x y) : C.Takes own u y := by
  obtain ⟨before, split, free⟩ := first
  obtain ⟨between, split', free'⟩ := second
  refine ⟨before ++ between, by rw [split, split', List.append_assoc], ?_⟩
  exact List.forall_mem_append.mpr ⟨free, free'⟩

theorem Takes.anti (takes : C.Takes own' u x) (more : ∀ z, own z → own' z) : C.Takes own u x := by
  obtain ⟨before, split, free⟩ := takes
  exact ⟨before, split, fun b inside owned => free b inside (more b owned)⟩

/-- From what is passed on the way, the same is taken. -/
theorem takes_of_passed {before : List α} (split : C.chain u = before ++ C.chain x)
    (free : ∀ b ∈ before, ¬ own b) (inside : y ∈ before) : C.Takes own y x := by
  obtain ⟨first, last, rfl⟩ := List.append_of_mem inside
  rw [List.append_assoc] at split
  refine ⟨y :: last, C.chain_suffix split, ?_⟩
  exact fun b there => free b (List.mem_append_right _ there)

/-- The first that owns the property. -/
theorem takes_of_find [DecidablePred own] (found : (C.chain u).find? (fun z => decide (own z)) = some x) :
    C.Takes own u x ∧ own x := by
  obtain ⟨owned, before, after, split, free⟩ := List.find?_eq_some_iff_append.mp found
  refine ⟨⟨before, by rw [C.chain_suffix split, split], ?_⟩, of_decide_eq_true owned⟩
  exact fun b inside => by simpa using free b inside

/-- The property is taken from the first that owns it, if any does. -/
theorem exists_takes (own : α → Prop) [DecidablePred own] (u : α) :
    (∃ x, C.Takes own u x ∧ own x) ∨ ∀ x ∈ C.chain u, ¬ own x := by
  cases found : (C.chain u).find? fun z => decide (own z) with
  | none => exact .inr fun x inside => by simpa using List.find?_eq_none.mp found x inside
  | some x => exact .inl ⟨x, takes_of_find found⟩

/-! ## Reading -/

theorem lookup_append {before rest : List α} (free : ∀ b ∈ before, ¬ (slots b).Own) :
    lookup slots (before ++ rest) = lookup slots rest := by
  induction before with
  | nil => rfl
  | cons b before further =>
    rw [List.forall_mem_cons] at free
    have absent : slots b = .absent := not_not.mp free.1
    rw [List.cons_append, lookup, absent]
    exact further free.2

/-- What is passed is not read. -/
theorem Takes.read (takes : C.Takes (fun z => (slots z).Own) u x) : C.read slots u = C.read slots x := by
  obtain ⟨before, split, free⟩ := takes
  rw [Chains.read, split, lookup_append free]
  rfl

theorem read_own {v : Option β} (owned : slots x = .assign v) : C.read slots x = v := by
  rw [Chains.read, C.chain_eq x, lookup, owned]
  cases v <;> rfl

/-- What an object owns is read there, whatever there is elsewhere. -/
theorem read_congr {slots' : α → Property β} (owned : (slots x).Own) (same : slots' x = slots x) :
    C.read slots' x = C.read slots x := by
  rw [Chains.read, Chains.read, C.chain_eq x, lookup, lookup, same]
  cases slot : slots x with
  | absent => exact absurd slot owned
  | undefined | value => rfl

theorem read_none (free : ∀ x ∈ C.chain u, ¬ (slots x).Own) : C.read slots u = none := by
  have whole : lookup slots (C.chain u ++ []) = lookup slots [] := lookup_append free
  rw [List.append_nil] at whole
  exact whole

end Chains

/-! ## Assigning -/

section
variable [DecidableEq α] {slots : α → Property β} {x : α}

/-- Assignments, in order. -/
def overwrite : List (α × Option β) → (α → Property β) → α → Property β
  | [], slots => slots
  | (x, v) :: rest, slots => overwrite rest (Function.update slots x (.assign v))

theorem overwrite_of_notMem {writes : List (α × Option β)} (apart : x ∉ writes.map Prod.fst) :
    overwrite writes slots x = slots x := by
  induction writes generalizing slots with
  | nil => rfl
  | cons w rest further =>
    rw [List.map_cons, List.mem_cons, not_or] at apart
    rw [overwrite, further apart.2, Function.update_of_ne apart.1]

/-- What is assigned once, or the same each time, is what is left. -/
theorem overwrite_of_mem {writes : List (α × Option β)} {v : Option β} (inside : (x, v) ∈ writes)
    (same : ∀ w, (x, w) ∈ writes → w = v) : overwrite writes slots x = .assign v := by
  induction writes generalizing slots with
  | nil => cases inside
  | cons w rest further =>
    obtain ⟨y, assigned⟩ := w
    rw [overwrite]
    by_cases again : x ∈ rest.map Prod.fst
    · obtain ⟨⟨z, later⟩, member, here⟩ := List.mem_map.mp again
      obtain rfl : z = x := here
      have last := same later (List.mem_cons_of_mem _ member)
      subst last
      exact further member fun w there => same w (List.mem_cons_of_mem _ there)
    · rw [overwrite_of_notMem again]
      rcases List.mem_cons.mp inside with first | later
      · cases first
        exact Function.update_self ..
      · exact absurd (List.mem_map_of_mem later) again

end

end PrototypeChains
