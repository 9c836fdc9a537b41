import NodeFfi.TrampolineLists

/-! What becomes of trampoline tables in long runs: when a table without closures stays
allocated, and when a deallocated one is written to. -/
namespace NodeFfi.TrampolineTables
open TransitionSystem LinkedNodes

variable {p : Pages} {s s' : State} {a b c : Address} {t : Table}

/-! ## Tables without closures -/

/-- Every table but the first one has a closure. -/
def Used (s : State) : Prop :=
  ∀ a t, s.tables a = some t → s.first ≠ some a → ∃ c closure, s.closures c = some closure ∧ closure.trampolineTable = a

/-- The step bumps a table over one that has no closures. -/
def Strands (p : Pages) (s : State) (event : Event) : Prop :=
  Bumps p s event ∧ ∃ a, s.first = some a ∧ s.counts a = some p.trampolineCount

/-- A table counts all its trampolines as free exactly if it has no closure. -/
theorem Kept.counts_full (kept : Kept p s) (here : s.tables a = some t) :
    t.freeCount = p.trampolineCount ↔ ∀ c closure, s.closures c = some closure → closure.trampolineTable ≠ a := by
  obtain ⟨free, shelf⟩ := kept.sound.shelves a t here
  rw [shelf.full_iff]
  constructor
  · rintro unclaimed c closure live rfl
    obtain ⟨u, i, placed⟩ := kept.sound.placed c closure live
    exact unclaimed i placed.bound c closure live placed.entry
  · intro none_ i _ c closure live is
    obtain ⟨u, j, placed⟩ := kept.sound.placed c closure live
    exact none_ c closure live (congrArg EntryRef.table (placed.entry.symm.trans is))

theorem used_iff_counts (kept : Kept p s) :
    Used s ↔ ∀ a, s.first ≠ some a → s.counts a ≠ some p.trampolineCount := by
  constructor
  · intro used a apart full
    obtain ⟨t, here, count⟩ := table_of_counts full
    obtain ⟨c, closure, live, own⟩ := used a t here apart
    exact (kept.counts_full here).mp count c closure live own
  · intro counts a t here apart
    by_contra none_
    refine counts a apart ?_
    rw [counts_of_table here, (kept.counts_full here).mpr fun c closure live own => none_ ⟨c, closure, live, own⟩]

theorem used_of_moves {event : Event} (used : ∀ a, s.first ≠ some a → s.counts a ≠ some p.trampolineCount)
    (moves : Moves p s event s') (calm : ¬ Strands p s event) :
    ∀ a, s'.first ≠ some a → s'.counts a ≠ some p.trampolineCount := by
  intro b apart
  have some_ := trampolineCount_pos p
  cases moves with
  | idle _ first counts => exact counts ▸ used b (first ▸ apart)
  | takes top _ first counts =>
    have other : b ≠ _ := fun is => apart (first.trans (congrArg some is.symm))
    rw [counts, Function.update_of_ne other]
    exact used b (top.trans first.symm ▸ apart)
  | grows exhausted _ first counts =>
    have other : b ≠ _ := fun is => apart (first.trans (congrArg some is.symm))
    rw [counts, Function.update_of_ne other]
    by_cases old : s.first = some b
    · rw [exhausted b old, ne_eq, Option.some.injEq]
      omega
    · exact used b old
  | stays _ top _ first counts =>
    have other : b ≠ _ := fun is => apart (first.trans (top.trans (congrArg some is.symm)))
    rw [counts, Function.update_of_ne other]
    exact used b (first ▸ apart)
  | @leaves _ closure _ _ _ _ _ _ first counts =>
    rw [counts]
    by_cases is : b = closure.trampolineTable
    · simp [is]
    · rw [Function.update_of_ne is]
      exact used b (first ▸ apart)
  | bumps live old counted more first counts =>
    have other : b ≠ _ := fun is => apart (first.trans (congrArg some is.symm))
    rw [counts, Function.update_of_ne other]
    by_cases top : s.first = some b
    · refine fun full => calm ⟨⟨_, live, old, fun is => more ?_⟩, b, top, full⟩
      rw [counted, Option.some.injEq] at is
      omega
    · exact used b top

theorem not_used_of_strands {event : Event} (moves : Moves p s event s') (strands : Strands p s event) :
    ∃ a, s'.first ≠ some a ∧ s'.counts a = some p.trampolineCount := by
  obtain ⟨bumps, b, top, full⟩ := strands
  obtain ⟨table, k, apart, _, first, counts, _⟩ := moves.bumped bumps
  have other : b ≠ table := fun is => apart (top.trans (congrArg some is))
  exact ⟨b, fun is => other (Option.some.inj (is.symm.trans first)), by rw [counts, Function.update_of_ne other, full]⟩

/-- **Tables that are lost.** Along a run every table but the first one has a closure exactly as
long as no table is bumped over one that has none. -/
theorem used_iff_unstranded (p : Pages) (events : List Event) :
    Along (guarded (step p) (Allowed p)) Used .initial events ↔
      EachStep (guarded (step p) (Allowed p)) (fun s event => ¬ Strands p s event) .initial events := by
  have initially : Used .initial := fun _ _ none_ => by cases none_
  have sound : ∀ s, Kept p s ∧ Used s → Used s := fun _ both => both.2
  refine along_iff_eachStep sound (fun s event s' both calm next => ?_) (fun s event s' both strands next => ?_)
    ⟨kept_initial p, initially⟩ events
  · obtain ⟨kept, moved⟩ := moves_of_guarded both.1 next
    exact ⟨kept, (used_iff_counts kept).mpr (used_of_moves ((used_iff_counts both.1).mp both.2) moved calm)⟩
  · obtain ⟨kept, moved⟩ := moves_of_guarded both.1 next
    obtain ⟨a, apart, full⟩ := not_used_of_strands moved (not_not.mp strands)
    exact fun used => (used_iff_counts kept).mp used a apart full

theorem stranded_of_moves (kept : Kept p s) {event : Event} (moves : Moves p s event s') (apart : s.first ≠ some a)
    (full : s.counts a = some p.trampolineCount) : s'.first ≠ some a ∧ s'.counts a = some p.trampolineCount := by
  cases moves with
  | idle _ first counts => exact ⟨first ▸ apart, counts ▸ full⟩
  | takes top _ first counts =>
    have other : a ≠ _ := fun is => apart (top.trans (congrArg some is.symm))
    exact ⟨first.trans top.symm ▸ apart, by rw [counts, Function.update_of_ne other, full]⟩
  | @grows _ _ b _ vacant first counts =>
    have other : a ≠ b := by
      rintro rfl
      obtain ⟨t, here, _⟩ := table_of_counts full
      cases (links_of_table here).symm.trans vacant
    exact ⟨fun is => other (Option.some.inj (is.symm.trans first)), by rw [counts, Function.update_of_ne other, full]⟩
  | stays _ top _ first counts =>
    have other : a ≠ _ := fun is => apart (top.trans (congrArg some is.symm))
    exact ⟨first ▸ apart, by rw [counts, Function.update_of_ne other, full]⟩
  | @leaves _ closure _ _ _ _ counted last first counts =>
    have other : a ≠ closure.trampolineTable := by
      rintro rfl
      have same := Option.some.inj (counted.symm.trans full)
      omega
    exact ⟨first ▸ apart, by rw [counts, Function.update_of_ne other, full]⟩
  | @bumps c closure _ _ live _ counted _ first counts =>
    have other : a ≠ closure.trampolineTable := by
      rintro rfl
      obtain ⟨t, here, count⟩ := table_of_counts full
      exact (kept.counts_full here).mp count c closure live rfl
    exact ⟨fun is => other (Option.some.inj (is.symm.trans first)), by rw [counts, Function.update_of_ne other, full]⟩

/-- **Lost for good.** Once a table without closures is not the first one, no run that follows
uses or deallocates it. -/
theorem stranded_forever (reached : Reaches (step p) (Allowed p) .initial s) (apart : s.first ≠ some a)
    (full : s.counts a = some p.trampolineCount) (later : Reaches (step p) (Allowed p) s s') :
    s'.first ≠ some a ∧ s'.counts a = some p.trampolineCount := by
  have initially : Kept p s ∧ s.first ≠ some a ∧ s.counts a = some p.trampolineCount :=
    ⟨kept_of_reaches reached, apart, full⟩
  refine (later.invariant (fun s => Kept p s ∧ s.first ≠ some a ∧ s.counts a = some p.trampolineCount) initially
    fun u event v all allowed next => ?_).2
  obtain ⟨kept, apart, full⟩ := all
  exact ⟨kept_step kept allowed next, stranded_of_moves kept (moves_of_step kept allowed next) apart full⟩

/-- Closures are allocated and freed, and a third table is allocated. -/
def laterEvents : List Event :=
  [.alloc ⟨some 13, none⟩, .alloc ⟨some 14, some (300, 16384)⟩, .prep 14 exampleHandler, .free 14]

/-- The table of the third closure is empty when the one of the first two is bumped over it,
and stays so. -/
theorem example_stranded : ∃ s s', Reaches (step smallPages) (Allowed smallPages) .initial s ∧
    Reaches (step smallPages) (Allowed smallPages) s s' ∧ s.first = some 100 ∧ s'.first = some 300 ∧
      s'.first ≠ some 200 ∧ s'.counts 200 = some smallPages.trampolineCount := by
  obtain ⟨s, reached, found⟩ := exists_reaches (step smallPages) (Allowed smallPages) .initial
    [.alloc ⟨some 10, some (100, 4096)⟩, .alloc ⟨some 11, none⟩, .alloc ⟨some 12, some (200, 8192)⟩, .free 12, .free 10]
    (fun s => decide (s.first = some 100 ∧ s.counts 200 = some smallPages.trampolineCount) &&
      (execute (guarded (step smallPages) (Allowed smallPages)) s laterEvents).any fun s' => s'.first = some 300) (by decide)
  obtain ⟨stranded, goes⟩ := Bool.and_eq_true_iff.mp found
  obtain ⟨first, full⟩ := of_decide_eq_true stranded
  obtain ⟨s', onward, last⟩ := exists_reaches (step smallPages) (Allowed smallPages) s laterEvents _ goes
  have apart : s.first ≠ some 200 := by
    rw [first]
    decide
  exact ⟨s, s', reached, onward, first, of_decide_eq_true last, stranded_forever reached apart full onward⟩

/-! ## Writing to a deallocated table -/

/-- A state that a run reaches, with what the list of tables depends on. -/
structure Shown (p : Pages) (s : State) (first : Option Address) (counts : Address → Option Nat)
    (links : Address → Option (Links Address)) : Prop where
  reached : Reaches (step p) (Allowed p) .initial s
  first : s.first = first
  counts : s.counts = counts
  links : s.links = links
  few : ∃ n : Nat, ∀ c : Nat, n ≤ c → s.closures c = none

theorem shown_initial (p : Pages) : Shown p .initial none (fun _ => none) (fun _ => none) :=
  ⟨.start, rfl, rfl, rfl, 0, fun _ _ => rfl⟩

namespace Shown

variable {first : Option Address} {counts : Address → Option Nat} {links links' : Address → Option (Links Address)} {k m : Nat}

theorem kept (shown : Shown p s first counts links) : Kept p s := kept_of_reaches shown.reached

theorem table (shown : Shown p s first counts links) (counted : counts a = some k) :
    ∃ t, s.tables a = some t ∧ t.freeCount = k := table_of_counts (shown.counts ▸ counted)

theorem after {event : Event} {first' : Option Address} {count : Option Nat} {closure : Option Closure}
    (shown : Shown p s first counts links) (allowed : Allowed p s event) (next : step p s event = some s')
    (leaves : Leaves s s' first' a count c closure) (linked : s'.links = links') :
    Shown p s' first' (Function.update counts a count) links' := by
  obtain ⟨n, few⟩ := shown.few
  refine ⟨shown.reached.step allowed next, leaves.first, by rw [leaves.counts, shown.counts], linked, max n (c + 1),
    fun d bound => ?_⟩
  have other : d ≠ c := by
    rintro rfl
    exact Nat.not_succ_le_self d (Nat.le_trans (Nat.le_max_right n (d + 1)) bound)
  rw [leaves.closures, Function.update_of_ne other]
  exact few d (Nat.le_trans (Nat.le_max_left n (c + 1)) bound)

/-- A table in use has a closure to free. -/
theorem live (shown : Shown p s first counts links) (counted : counts a = some k) (less : k < p.trampolineCount) :
    ∃ c closure, s.closures c = some closure ∧ closure.trampolineTable = a := by
  obtain ⟨t, here, count⟩ := shown.table counted
  by_contra none_
  have full := (shown.kept.counts_full here).mpr fun c closure live own => none_ ⟨c, closure, live, own⟩
  omega

theorem grows (shown : Shown p s first counts links) (exhausted : ∀ b, first = some b → counts b = some 0)
    (vacant : counts a = none) (pushed : pushFront links first a = some links') :
    ∃ s', Shown p s' (some a) (Function.update counts a (some (p.trampolineCount - 1))) links' := by
  obtain ⟨n, few⟩ := shown.few
  obtain ⟨page, apart⟩ : ∃ m, ∀ page ∈ s.pages, page + 2 * p.pageMaxSize ≤ m := by
    generalize s.pages = pages
    induction pages with
    | nil => exact ⟨0, by simp⟩
    | cons page rest ih =>
      obtain ⟨m, bound⟩ := ih
      refine ⟨max m (page + 2 * p.pageMaxSize), fun other member => ?_⟩
      rcases List.mem_cons.mp member with rfl | inside
      · omega
      · have := bound other inside
        omega
  have empty : s.tables a = none := by
    cases here : s.tables a with
    | none => rfl
    | some t => cases (counts_of_table here).symm.trans (shown.counts ▸ vacant)
  obtain ⟨s', closure, did, leaves, _, linked, _⟩ := shown.kept.grows (by rw [shown.first, shown.counts]; exact exhausted)
    empty (fun other member => .inl (apart other member)) (few n (Nat.le_refl n))
  rw [shown.links, shown.first, pushed] at linked
  have allowed : Allowed p s (.alloc ⟨some n, some (a, page)⟩) :=
    ⟨fun c is => Option.some.inj is ▸ few n (Nat.le_refl n),
      fun given is => Option.some.inj is ▸ ⟨empty, fun other member => .inl (apart other member)⟩⟩
  exact ⟨s', shown.after allowed did leaves (Option.some.inj linked).symm⟩

/-- Allocating until the first table has no free trampoline. -/
theorem fills (shown : Shown p s (some a) counts links) (counted : counts a = some k) :
    ∃ s', Shown p s' (some a) (Function.update counts a (some 0)) links := by
  induction k generalizing s counts with
  | zero => exact ⟨s, by rwa [Function.update_eq_self_iff.mpr counted.symm]⟩
  | succ k ih =>
    obtain ⟨n, few⟩ := shown.few
    obtain ⟨s', closure, did, leaves, _, linked, _⟩ :=
      shown.kept.takes shown.first (shown.counts ▸ counted) (few n (Nat.le_refl n)) none
    have allowed : Allowed p s (.alloc ⟨some n, none⟩) :=
      ⟨fun c is => Option.some.inj is ▸ few n (Nat.le_refl n), fun _ none_ => by cases none_⟩
    obtain ⟨s'', shown''⟩ := ih (shown.after allowed did leaves (linked.trans shown.links)) (Function.update_self ..)
    exact ⟨s'', by rwa [Function.update_idem] at shown''⟩

/-- Freeing closures of the first table until `m` trampolines are free. -/
theorem drains (shown : Shown p s (some a) counts links) (counted : counts a = some k) (le : k ≤ m)
    (bound : m ≤ p.trampolineCount) : ∃ s', Shown p s' (some a) (Function.update counts a (some m)) links := by
  obtain ⟨n, rfl⟩ := Nat.exists_eq_add_of_le le
  induction n generalizing s counts k with
  | zero => exact ⟨s, by rwa [Function.update_eq_self_iff.mpr counted.symm]⟩
  | succ n ih =>
    obtain ⟨c, closure, live, rfl⟩ := shown.live counted (by omega)
    obtain ⟨s₁, t, returned⟩ := shown.kept.returns live (shown.counts ▸ counted)
    obtain ⟨s', did, leaves, linked, _⟩ := returned.stays shown.first
    have allowed : Allowed p s (.free c) := by simp [Allowed, live]
    obtain ⟨s'', shown''⟩ := ih (shown.after allowed did leaves (linked.trans shown.links)) (Function.update_self ..)
      (by omega) (by omega)
    refine ⟨s'', ?_⟩
    rw [Function.update_idem] at shown''
    rwa [show k + 1 + n = k + (n + 1) by omega] at shown''

theorem bumps (shown : Shown p s first counts links) (apart : first ≠ some a) (counted : counts a = some k)
    (less : k + 1 < p.trampolineCount) (bumped : bumpLinks links first a = some links') :
    ∃ s', Shown p s' (some a) (Function.update counts a (some (k + 1))) links' := by
  obtain ⟨c, closure, live, rfl⟩ := shown.live counted (by omega)
  obtain ⟨s₁, t, returned⟩ := shown.kept.returns live (shown.counts ▸ counted)
  obtain ⟨s', did, leaves, linked, _⟩ := returned.bumps (shown.first ▸ apart) (by omega)
  rw [shown.links, shown.first, bumped] at linked
  exact ⟨s', shown.after (by simp [Allowed, live]) did leaves (Option.some.inj linked).symm⟩

theorem leaves (shown : Shown p s first counts links) (apart : first ≠ some a) (counted : counts a = some k)
    (last : k + 1 = p.trampolineCount) (taken : unlink links a = some links') :
    ∃ s', Shown p s' first (Function.update counts a none) links' := by
  obtain ⟨c, closure, live, rfl⟩ := shown.live counted (by omega)
  obtain ⟨s₁, t, returned⟩ := shown.kept.returns live (shown.counts ▸ counted)
  obtain ⟨linked, after⟩ := returned.leaves (shown.first ▸ apart) last
  rw [shown.links, taken] at linked
  obtain ⟨s', did, same⟩ := Option.map_eq_some_iff.mp linked
  have leaves := after s' did
  rw [shown.first] at leaves
  exact ⟨s', shown.after (by simp [Allowed, live]) did leaves same⟩

/-- The last closure of a table whose neighbour is gone. -/
theorem stuck (shown : Shown p s first counts links) (apart : first ≠ some a) (counted : counts a = some k)
    (last : k + 1 = p.trampolineCount) (gone : unlink links a = none) :
    ∃ c, Allowed p s (.free c) ∧ step p s (.free c) = none := by
  obtain ⟨c, closure, live, rfl⟩ := shown.live counted (by omega)
  obtain ⟨s₁, t, returned⟩ := shown.kept.returns live (shown.counts ▸ counted)
  have linked := (returned.leaves (shown.first ▸ apart) last).1
  rw [shown.links, gone] at linked
  exact ⟨c, by simp [Allowed, live], Option.map_eq_none_iff.mp linked⟩

end Shown

/-- With two trampolines in a table there is a run after which freeing a closure writes to a
deallocated table. Two tables that have one closure each are followed by a third in the list,
the second of them is deallocated, and the first still leads to it. -/
theorem exists_undefined (two : 2 ≤ p.trampolineCount) :
    ∃ s c, Reaches (step p) (Allowed p) .initial s ∧ Allowed p s (.free c) ∧ step p s (.free c) = none := by
  obtain ⟨s, shown⟩ := (shown_initial p).grows (a := 1) (by simp) rfl rfl
  obtain ⟨s, shown⟩ := shown.fills (Function.update_self ..)
  obtain ⟨s, shown⟩ := shown.grows (a := 2) (by simp) (by simp) rfl
  obtain ⟨s, shown⟩ := shown.fills (Function.update_self ..)
  obtain ⟨s, shown⟩ := shown.grows (a := 3) (by simp) (by simp) rfl
  obtain ⟨s, shown⟩ := shown.fills (Function.update_self ..)
  obtain ⟨s, shown⟩ := shown.bumps (a := 2) (k := 0) (by decide) (by simp) two rfl
  obtain ⟨s, shown⟩ := shown.drains (m := p.trampolineCount - 1) (Function.update_self ..) (by omega) (by omega)
  obtain ⟨s, shown⟩ := shown.bumps (a := 3) (k := 0) (by decide) (by simp) two rfl
  obtain ⟨s, shown⟩ := shown.drains (m := p.trampolineCount - 1) (Function.update_self ..) (by omega) (by omega)
  obtain ⟨s, shown⟩ := shown.bumps (a := 1) (k := 0) (by decide) (by simp) two rfl
  obtain ⟨s, shown⟩ := shown.leaves (a := 3) (k := p.trampolineCount - 1) (by decide) (by simp) (by omega) rfl
  obtain ⟨c, allowed, undefined⟩ :=
    shown.stuck (a := 2) (k := p.trampolineCount - 1) (by decide) (by simp) (by omega) rfl
  exact ⟨s, c, shown.reached, allowed, undefined⟩

/-- With one trampoline in a table no table is bumped: the only closure of it leaves it empty. -/
theorem not_bumps_of_one (one : p.trampolineCount = 1) (kept : Kept p s) (event : Event) : ¬ Bumps p s event := by
  intro bumps
  cases event with
  | free c =>
    obtain ⟨closure, live, _, more⟩ := bumps
    obtain ⟨t, i, placed⟩ := kept.sound.placed c closure live
    have le := (kept.free_count placed.table).1
    have used : t.freeCount ≠ p.trampolineCount := fun full => (kept.counts_full placed.table).mp full c closure live rfl
    refine more ?_
    rw [counts_of_table placed.table, Option.some.injEq]
    omega
  | _ => exact bumps

/-- **Use after free.** Every call that a program may make is defined in every run exactly if a
table has one trampoline; with more a run leads to where freeing a live closure is not. -/
theorem always_defined_iff (p : Pages) :
    ((∀ s, Reaches (step p) (Allowed p) .initial s → ∀ event, Allowed p s event → ∃ s', step p s event = some s') ↔
      p.trampolineCount = 1) ∧
    (p.trampolineCount ≠ 1 → ∃ s c, Reaches (step p) (Allowed p) .initial s ∧ s.closures c ≠ none ∧
      step p s (.free c) = none) := by
  have undefined : p.trampolineCount ≠ 1 → ∃ s c, Reaches (step p) (Allowed p) .initial s ∧
      s.closures c ≠ none ∧ step p s (.free c) = none := by
    intro several
    have some_ := trampolineCount_pos p
    exact exists_undefined (by omega)
  refine ⟨⟨?_, ?_⟩, undefined⟩
  · intro defined
    by_contra several
    obtain ⟨s, c, reached, live, stuck⟩ := undefined several
    obtain ⟨s', did⟩ := defined s reached (.free c) live
    cases stuck.symm.trans did
  · intro one s reached event allowed
    have initially : Kept p .initial ∧ Listed .initial := ⟨kept_initial p, listed_initial⟩
    obtain ⟨kept, listed⟩ := reached.invariant (fun s => Kept p s ∧ Listed s) initially
      fun u event v both allowed next => ⟨kept_step both.1 allowed next,
        listed_of_moves both.2 (moves_of_step both.1 allowed next) (not_bumps_of_one one both.1 event)⟩
    exact defined_of_listed kept listed allowed

end NodeFfi.TrampolineTables
