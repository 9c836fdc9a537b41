import NodeFfi.TrampolineEntries

/-! The list of trampoline tables along runs. A table that is bumped to the top is not taken
out of where it was, so the list is one exactly as long as no table is bumped, and later
deallocations follow pointers to tables that are gone. -/
namespace NodeFfi.TrampolineTables
open TransitionSystem LinkedNodes

variable {p : Pages} {s s' : State} {a c : Address} {t : Table}

/-! ## What the steps do to the list -/

def Table.links (t : Table) : Links Address := ⟨t.prev, t.next⟩

/-- The links of the tables. -/
def State.links (s : State) (a : Address) : Option (Links Address) := (s.tables a).map Table.links

/-- How many trampolines of each table are free. -/
def State.counts (s : State) (a : Address) : Option Nat := (s.tables a).map Table.freeCount

theorem links_of_table (here : s.tables a = some t) : s.links a = some t.links := by
  rw [State.links, here, Option.map_some]

theorem counts_of_table (here : s.tables a = some t) : s.counts a = some t.freeCount := by
  rw [State.counts, here, Option.map_some]

theorem table_of_counts {k : Nat} (counted : s.counts a = some k) :
    ∃ t, s.tables a = some t ∧ t.freeCount = k :=
  Option.map_eq_some_iff.mp counted

theorem writeTable_links (s : State) (a : Address) (t : Option Table) :
    (s.writeTable a t).links = Function.update s.links a (t.map Table.links) := by
  funext b
  by_cases is : b = a
  · subst is
    simp [State.links]
  · simp [State.links, State.writeTable_other s is, is]

theorem writeTable_counts (s : State) (a : Address) (t : Option Table) :
    (s.writeTable a t).counts = Function.update s.counts a (t.map Table.freeCount) := by
  funext b
  by_cases is : b = a
  · subst is
    simp [State.counts]
  · simp [State.counts, State.writeTable_other s is, is]

/-- Writing the links of a table. -/
theorem changeTable_links {f : Table → Table} {g : Links Address → Links Address}
    (acts : ∀ t, (f t).links = g t.links) (a : Address) :
    (s.changeTable a f).map State.links = change s.links g (some a) := by
  cases here : s.tables a with
  | none => simp [State.changeTable, change, State.links, here]
  | some t =>
    rw [State.changeTable, here, change, links_of_table here, Option.map_some, Option.map_some, Option.map_some,
      writeTable_links, Option.map_some, acts]

theorem changePointed_links {f : Table → Table} {g : Links Address → Links Address}
    (acts : ∀ t, (f t).links = g t.links) (pointer : Option Address) :
    (s.changePointed f pointer).map State.links = change s.links g pointer := by
  cases pointer with
  | none => rfl
  | some a => exact changeTable_links acts a

/-- The links of another state tell nothing of how many trampolines are free. -/
theorem Relinked.counts (relinked : Relinked s s') : s'.counts = s.counts := by
  funext a
  have same := congrArg (Option.map Table.freeCount) (relinked.tables a)
  rwa [Option.map_map, Option.map_map] at same

theorem bind_links {x : Option State} {y : Option (Address → Option (Links Address))} {f : State → Option State}
    {g : (Address → Option (Links Address)) → Option (Address → Option (Links Address))}
    (same : x.map State.links = y) (both : ∀ s, (f s).map State.links = g s.links) :
    (x.bind f).map State.links = y.bind g := by
  subst same
  cases x with
  | none => rfl
  | some s => exact both s

/-- `ffi_trampoline_table_free` takes the table out of the list. -/
theorem ffiTrampolineTableFree_links (s : State) (a : Address) :
    (ffiTrampolineTableFree s a).map State.links = unlink s.links a := by
  cases here : s.tables a with
  | none => simp [ffiTrampolineTableFree, unlink, State.links, here]
  | some t =>
    simp only [ffiTrampolineTableFree, unlink, here, links_of_table here, Option.bind_eq_bind, Option.bind_some]
    refine bind_links (changePointed_links (fun _ => rfl) t.prev) fun s₁ => ?_
    cases there : s₁.tables a with
    | none => simp [State.links, there]
    | some t' =>
      simp only [links_of_table there, Option.bind_some]
      refine bind_links (changePointed_links (fun _ => rfl) t'.next) fun s₂ => ?_
      exact congrArg some (writeTable_links s₂ a none)

/-- What bumping a table does to the links. -/
def bumpLinks (links : Address → Option (Links Address)) (first : Option Address) (a : Address) :
    Option (Address → Option (Links Address)) := do
  let links ← change links (fun _ => ⟨none, first⟩) (some a)
  change links (fun y => { y with prev := some a }) first

theorem bump_links (s : State) (a : Address) : (s.bump a).map State.links = bumpLinks s.links s.first a := by
  simp only [State.bump, bumpLinks, Option.bind_eq_bind]
  refine bind_links (changeTable_links (fun _ => rfl) a) fun s₁ => ?_
  have rest := changePointed_links (s := s₁) (f := fun u => { u with prev := some a })
    (g := fun y => { y with prev := some a }) (fun _ => rfl) s.first
  rw [← rest]
  cases s₁.changePointed (fun u => { u with prev := some a }) s.first <;> rfl

theorem bumpLinks_defined {links : Address → Option (Links Address)} {x : Links Address} (here : links a = some x)
    (first : Option Address) (allocated : ∀ b, first = some b → ∃ y, links b = some y) :
    ∃ l, bumpLinks links first a = some l := by
  cases first with
  | none => exact ⟨_, by simp only [bumpLinks, change, here]; rfl⟩
  | some b =>
    obtain ⟨y, there⟩ : ∃ y, Function.update links a (some ⟨none, some b⟩) b = some y := by
      by_cases is : b = a
      · exact ⟨_, by rw [is, Function.update_self]⟩
      · obtain ⟨y, there⟩ := allocated b rfl
        exact ⟨y, by rw [Function.update_of_ne is, there]⟩
    have did : bumpLinks links (some b) a = (Function.update links a (some ⟨none, some b⟩) b).map fun y =>
        Function.update (Function.update links a (some ⟨none, some b⟩)) b (some { y with prev := some a }) := by
      simp only [bumpLinks, change, here]
      rfl
    exact ⟨_, by rw [did, there]; rfl⟩

/-! ## Each step -/

/-- How a step leaves the rest, where it gives out or takes back the closure at `c`. -/
structure Leaves (s s' : State) (first : Option Address) (a : Address) (count : Option Nat) (c : Address)
    (closure : Option Closure) : Prop where
  first : s'.first = first
  counts : s'.counts = Function.update s.counts a count
  closures : s'.closures = Function.update s.closures c closure

theorem Kept.free_count (kept : Kept p s) (here : s.tables a = some t) :
    t.freeCount ≤ p.trampolineCount ∧ (t.freeList = none ↔ t.freeCount = 0) := by
  obtain ⟨free, shelf⟩ := kept.sound.shelves a t here
  refine ⟨shelf.count_le, ?_⟩
  rw [shelf.count]
  have chain := shelf.chain
  generalize t.freeList = start at chain ⊢
  cases chain with
  | nil => simp
  | cons found onward => simp

/-- The claim of an entry of the first table. -/
theorem Kept.claims (kept : Kept p s) (first : s.first = some a) {k : Nat} (counted : s.counts a = some (k + 1))
    (fresh : s.closures c = none) :
    ∃ s' closure, s.claim c = some s' ∧ Leaves s s' (some a) a (some k) c (some closure) ∧
      closure.trampolineTable = a ∧ s'.links = s.links ∧ s'.pages = s.pages := by
  obtain ⟨t, here, count⟩ := table_of_counts counted
  obtain ⟨le, empty⟩ := kept.free_count here
  cases free : t.freeList with
  | none => exact absurd (empty.mp free) (by omega)
  | some ref =>
    obtain ⟨e, did, _⟩ := kept.claim first here free fresh
    have few := p.few
    have counts : decrement t.freeCount = k := by
      unfold decrement
      unfold Pages.trampolineCount at le
      omega
    refine ⟨_, _, did, ⟨first, ?_, rfl⟩, rfl, ?_, rfl⟩
    · show (s.writeTable a (some (t.claimed ref e))).counts = _
      rw [writeTable_counts, Option.map_some]
      exact congrArg (Function.update s.counts a <| some ·) counts
    · show (s.writeTable a (some (t.claimed ref e))).links = _
      rw [writeTable_links, Option.map_some]
      exact Function.update_eq_self_iff.mpr (links_of_table here).symm

/-- `ffi_closure_alloc` with a free trampoline in the first table. -/
theorem Kept.takes (kept : Kept p s) (first : s.first = some a) {k : Nat} (counted : s.counts a = some (k + 1))
    (fresh : s.closures c = none) (table : Option (Address × Nat)) :
    ∃ s' closure, step p s (.alloc ⟨some c, table⟩) = some s' ∧ Leaves s s' (some a) a (some k) c (some closure) ∧
      closure.trampolineTable = a ∧ s'.links = s.links ∧ s'.pages = s.pages := by
  obtain ⟨s', closure, did, rest⟩ := kept.claims first counted fresh
  obtain ⟨t, here, count⟩ := table_of_counts counted
  have more : t.freeList.isNone = false := by
    rw [Option.isNone_eq_false_iff, Option.isSome_iff_ne_none]
    exact fun none_ => absurd ((kept.free_count here).2.mp none_) (by omega)
  have ready : s.exhausted = some false := by
    simp [State.exhausted, first, here, more]
  exact ⟨s', closure, by simp [step, ffiClosureAlloc, ready, did], rest⟩

/-- `ffi_closure_alloc` with a new table. -/
theorem Kept.grows (kept : Kept p s) (exhausted : ∀ b, s.first = some b → s.counts b = some 0)
    (vacant : s.tables a = none) {configPage : Nat} (apart : ∀ page ∈ s.pages, PagesApart p page configPage)
    (fresh : s.closures c = none) :
    ∃ s' closure, step p s (.alloc ⟨some c, some (a, configPage)⟩) = some s' ∧
      Leaves s s' (some a) a (some (p.trampolineCount - 1)) c (some closure) ∧ closure.trampolineTable = a ∧
      pushFront s.links s.first a = some s'.links ∧ s'.pages = configPage :: s.pages := by
  have full : s.exhausted = some true := by
    rw [State.exhausted]
    cases first : s.first with
    | none => rfl
    | some b =>
      obtain ⟨t, here, count⟩ := table_of_counts (exhausted b first)
      simp [here, (kept.free_count here).2.mpr count]
  obtain ⟨s₁, t, inserted, kept₁, first₁, closures₁, here₁, _⟩ := kept.insertTable vacant apart
  have added : (s.addTable p a configPage).links = Function.update s.links a (some ⟨none, s.first⟩) ∧
      (s.addTable p a configPage).counts = Function.update s.counts a (some p.trampolineCount) :=
    ⟨writeTable_links s a _, writeTable_counts s a _⟩
  have linked := changePointed_links (s := s.addTable p a configPage) (f := fun u => { u with prev := some a })
    (g := fun y => { y with prev := some a }) (fun _ => rfl) s.first
  obtain ⟨relinked, _, pages⟩ := changePointed_relinked (s := s.addTable p a configPage) inserted fun _ => rfl
  rw [show (s.addTable p a configPage).changePointed _ s.first = some s₁ from inserted, added.1] at linked
  have counted : s₁.counts = Function.update s.counts a (some p.trampolineCount) := relinked.counts.trans added.2
  have some_ := trampolineCount_pos p
  have first_count : s₁.counts a = some (p.trampolineCount - 1 + 1) := by
    rw [counted, Function.update_self, Nat.sub_add_cancel some_]
  obtain ⟨s', closure, did, ⟨first, counts, closures⟩, table, links, pages'⟩ :=
    kept₁.claims first₁ first_count (closures₁ ▸ fresh)
  refine ⟨s', closure, by simp [step, ffiClosureAlloc, full, inserted, did], ⟨first, ?_, ?_⟩, table, ?_, ?_⟩
  · rw [counts, counted, Function.update_idem]
  · rw [closures, closures₁]
  · rw [links]
    exact linked.symm
  · rw [pages', pages]
    rfl

/-- Before its table is settled, `ffi_closure_free` has counted the trampoline as free. -/
structure Returned (p : Pages) (s : State) (c table : Address) (k : Nat) (s₁ : State) (t : Table) : Prop where
  run : step p s (.free c) = (s₁.settle p table t).map (·.forget c)
  here : s₁.tables table = some t
  count : t.freeCount = k + 1
  first : s₁.first = s.first
  links : s₁.links = s.links
  counts : s₁.counts = Function.update s.counts table (some (k + 1))
  closures : s₁.closures = s.closures
  pages : s₁.pages = s.pages
  kept : Kept p (s₁.forget c)

theorem Kept.returns (kept : Kept p s) {closure : Closure} (live : s.closures c = some closure) {k : Nat}
    (counted : s.counts closure.trampolineTable = some k) : ∃ s₁ t, Returned p s c closure.trampolineTable k s₁ t := by
  obtain ⟨t, e, here, did, more, kept₁⟩ := kept.released live
  obtain rfl := Option.some.inj ((counts_of_table here).symm.trans counted)
  refine ⟨_, _, ?_, State.writeTable_self .., more, rfl, ?_, ?_, rfl, rfl, kept₁⟩
  · simp only [step, ffiClosureFree, live, did, State.writeTable_self, Option.bind_eq_bind, Option.bind_some]
    cases State.settle _ p closure.trampolineTable _ <;> rfl
  · rw [writeTable_links, Option.map_some]
    exact Function.update_eq_self_iff.mpr (links_of_table here).symm
  · rw [writeTable_counts, Option.map_some, more]

section
variable {table : Address} {k : Nat} {s₁ : State}

/-- A closure of the first table. -/
theorem Returned.stays (returned : Returned p s c table k s₁ t) (first : s.first = some table) :
    ∃ s', step p s (.free c) = some s' ∧ Leaves s s' (some table) table (some (k + 1)) c none ∧ s'.links = s.links ∧
      s'.pages = s.pages := by
  have settled : s₁.settle p table t = some s₁ := by simp [State.settle, returned.first, first]
  refine ⟨s₁.forget c, by rw [returned.run, settled]; rfl, ⟨returned.first.trans first, returned.counts, ?_⟩,
    returned.links, returned.pages⟩
  rw [State.forget, returned.closures]

/-- The last closure of another table, which is taken out of the list. -/
theorem Returned.leaves (returned : Returned p s c table k s₁ t) (first : s.first ≠ some table)
    (last : k + 1 = p.trampolineCount) :
    (step p s (.free c)).map State.links = unlink s.links table ∧
      ∀ s', step p s (.free c) = some s' → Leaves s s' s.first table none c none := by
  have settled : s₁.settle p table t = ffiTrampolineTableFree s₁ table := by
    rw [State.settle, if_pos ⟨returned.count.trans last, returned.first ▸ first⟩]
  constructor
  · rw [returned.run, settled, Option.map_map, ← returned.links, ← ffiTrampolineTableFree_links]
    rfl
  · intro s' did
    rw [returned.run, settled] at did
    obtain ⟨s₂, freed, rfl⟩ := Option.map_eq_some_iff.mp did
    obtain ⟨s₃, t', relinked, first', _, _, rfl⟩ := ffiTrampolineTableFree_eq freed
    refine ⟨first'.trans returned.first, ?_, ?_⟩
    · show (s₃.writeTable table none).counts = _
      rw [writeTable_counts, relinked.counts, returned.counts, Function.update_idem]
      rfl
    · show Function.update s₃.closures c none = _
      rw [relinked.closures, returned.closures]

/-- Any other closure, whose table is bumped to the top. -/
theorem Returned.bumps (returned : Returned p s c table k s₁ t) (first : s.first ≠ some table)
    (more : k + 1 ≠ p.trampolineCount) :
    ∃ s', step p s (.free c) = some s' ∧ Leaves s s' (some table) table (some (k + 1)) c none ∧
      bumpLinks s.links s.first table = some s'.links ∧ s'.pages = s.pages := by
  have settled : s₁.settle p table t = s₁.bump table := by
    rw [State.settle, if_neg fun both => more (returned.count.symm.trans both.1), if_pos (returned.first ▸ first)]
  obtain ⟨l, defined⟩ := bumpLinks_defined (links_of_table returned.here) s₁.first fun b top => by
    obtain ⟨u, there⟩ := returned.kept.first b top
    exact ⟨u.links, links_of_table there⟩
  rw [← bump_links] at defined
  obtain ⟨s', did, _⟩ := Option.map_eq_some_iff.mp defined
  obtain ⟨relinked, first', pages⟩ := bump_eq did
  have links := bump_links s₁ table
  rw [did, returned.links, returned.first, Option.map_some] at links
  refine ⟨s'.forget c, by rw [returned.run, settled, did]; rfl, ⟨first', ?_, ?_⟩, links.symm, pages.trans returned.pages⟩
  · exact relinked.counts.trans returned.counts
  · rw [State.forget, relinked.closures, returned.closures]

end

/-- What a defined step does to the first table, the counts and the links. -/
inductive Moves (p : Pages) (s : State) : Event → State → Prop
  | idle {event : Event} {s' : State} (notFree : ∀ c, event ≠ .free c) (first : s'.first = s.first)
      (counts : s'.counts = s.counts) (links : s'.links = s.links) : Moves p s event s'
  | takes {supply : Supply} {s' : State} {a : Address} {k : Nat} (top : s.first = some a)
      (counted : s.counts a = some (k + 1)) (first : s'.first = some a)
      (counts : s'.counts = Function.update s.counts a (some k)) (links : s'.links = s.links) :
      Moves p s (.alloc supply) s'
  | grows {supply : Supply} {s' : State} {a : Address} (exhausted : ∀ b, s.first = some b → s.counts b = some 0)
      (vacant : s.links a = none) (first : s'.first = some a)
      (counts : s'.counts = Function.update s.counts a (some (p.trampolineCount - 1)))
      (links : pushFront s.links s.first a = some s'.links) : Moves p s (.alloc supply) s'
  | stays {c : Address} {closure : Closure} {s' : State} {k : Nat} (live : s.closures c = some closure)
      (top : s.first = some closure.trampolineTable) (counted : s.counts closure.trampolineTable = some k)
      (first : s'.first = s.first)
      (counts : s'.counts = Function.update s.counts closure.trampolineTable (some (k + 1)))
      (links : s'.links = s.links) : Moves p s (.free c) s'
  | leaves {c : Address} {closure : Closure} {s' : State} {k : Nat} (live : s.closures c = some closure)
      (apart : s.first ≠ some closure.trampolineTable) (counted : s.counts closure.trampolineTable = some k)
      (last : k + 1 = p.trampolineCount) (first : s'.first = s.first)
      (counts : s'.counts = Function.update s.counts closure.trampolineTable none)
      (links : unlink s.links closure.trampolineTable = some s'.links) : Moves p s (.free c) s'
  | bumps {c : Address} {closure : Closure} {s' : State} {k : Nat} (live : s.closures c = some closure)
      (apart : s.first ≠ some closure.trampolineTable) (counted : s.counts closure.trampolineTable = some k)
      (more : k + 1 ≠ p.trampolineCount) (first : s'.first = some closure.trampolineTable)
      (counts : s'.counts = Function.update s.counts closure.trampolineTable (some (k + 1)))
      (links : bumpLinks s.links s.first closure.trampolineTable = some s'.links) : Moves p s (.free c) s'

theorem moves_of_alloc (kept : Kept p s) {supply : Supply} (allowed : Allowed p s (.alloc supply))
    (next : step p s (.alloc supply) = some s') : Moves p s (.alloc supply) s' := by
  obtain ⟨memory, table⟩ := supply
  obtain ⟨fresh, new⟩ := allowed
  have idle : s = s' → Moves p s (.alloc ⟨memory, table⟩) s' := by
    rintro rfl
    exact .idle (by simp) rfl rfl rfl
  cases memory with
  | none => exact idle (Option.some.inj next)
  | some c =>
    have unused := fresh c rfl
    obtain ⟨full, exhausted⟩ := kept.exhausted
    cases full with
    | false =>
      obtain ⟨a, t, ref, first, here, free⟩ := exhausted_eq_false exhausted
      have some_ : t.freeCount ≠ 0 := fun empty => by cases free.symm.trans ((kept.free_count here).2.mpr empty)
      obtain ⟨k, count⟩ := Nat.exists_eq_succ_of_ne_zero some_
      obtain ⟨_, closure, did, after, _, links, _⟩ :=
        kept.takes first ((counts_of_table here).trans (congrArg some count)) unused table
      obtain rfl := Option.some.inj (did.symm.trans next)
      exact .takes first ((counts_of_table here).trans (congrArg some count)) after.first after.counts links
    | true =>
      cases table with
      | none => exact idle (by simpa [step, ffiClosureAlloc, exhausted] using next)
      | some given =>
        obtain ⟨a, configPage⟩ := given
        obtain ⟨vacant, apart⟩ := new _ rfl
        have empty : ∀ b, s.first = some b → s.counts b = some 0 := by
          intro b first
          obtain none_ | ⟨b', t, first', here, free⟩ := exhausted_eq_true exhausted
          · cases none_.symm.trans first
          · obtain rfl : b' = b := Option.some.inj (first'.symm.trans first)
            rw [counts_of_table here, (kept.free_count here).2.mp free]
        obtain ⟨_, closure, did, after, _, links, _⟩ := kept.grows empty vacant apart unused
        obtain rfl := Option.some.inj (did.symm.trans next)
        exact .grows empty (by simp [State.links, vacant]) after.first after.counts links

theorem moves_of_free (kept : Kept p s) (next : step p s (.free c) = some s') : Moves p s (.free c) s' := by
  obtain ⟨closure, live, _⟩ := Option.bind_eq_some_iff.mp next
  obtain ⟨t, i, placed⟩ := kept.sound.placed c closure live
  have counted := counts_of_table placed.table
  obtain ⟨s₁, t₁, returned⟩ := kept.returns live counted
  by_cases top : s.first = some closure.trampolineTable
  · obtain ⟨_, did, after, links, _⟩ := returned.stays top
    obtain rfl := Option.some.inj (did.symm.trans next)
    exact .stays live top counted (after.first.trans top.symm) after.counts links
  by_cases last : t.freeCount + 1 = p.trampolineCount
  · obtain ⟨links, after⟩ := returned.leaves top last
    have after := after s' next
    rw [next, Option.map_some] at links
    exact .leaves live top counted last after.first after.counts links.symm
  · obtain ⟨_, did, after, links, _⟩ := returned.bumps top last
    obtain rfl := Option.some.inj (did.symm.trans next)
    exact .bumps live top counted last after.first after.counts links

theorem moves_of_step (kept : Kept p s) {event : Event} (allowed : Allowed p s event)
    (next : step p s event = some s') : Moves p s event s' := by
  cases event with
  | alloc supply => exact moves_of_alloc kept allowed next
  | prep c handler =>
    obtain ⟨closure, live, did⟩ := Option.bind_eq_some_iff.mp next
    have same : s'.tables = s.tables ∧ s'.first = s.first := by
      unfold ffiPrepClosureLoc at did
      split at did
      · obtain rfl := Option.some.inj did
        exact ⟨rfl, rfl⟩
      · obtain ⟨_, _, written⟩ := Option.bind_eq_some_iff.mp did
        dsimp only at written
        split at written
        · obtain rfl := Option.some.inj written
          exact ⟨rfl, rfl⟩
        · cases written
    refine .idle (by simp) same.2 ?_ ?_
    · funext a
      rw [State.counts, State.counts, same.1]
    · funext a
      rw [State.links, State.links, same.1]
  | free c => exact moves_of_free kept next

/-! ## The list along a run -/

/-- The step bumps a table to the top. -/
def Bumps (p : Pages) (s : State) : Event → Prop
  | .free c => ∃ closure, s.closures c = some closure ∧ s.first ≠ some closure.trampolineTable ∧
      s.counts closure.trampolineTable ≠ some (p.trampolineCount - 1)
  | _ => False

instance (p : Pages) (s : State) : DecidablePred (Bumps p s)
  | .free c => decidable_of_iff (∃ closure ∈ s.closures c, s.first ≠ some closure.trampolineTable ∧
      s.counts closure.trampolineTable ≠ some (p.trampolineCount - 1)) Iff.rfl
  | .alloc _ | .prep _ _ => isFalse id

/-- The tables are a list that starts with the first one. -/
def Listed (s : State) : Prop := ∃ l, Threads s.links l ∧ s.first = l.head?

theorem listed_initial : Listed .initial :=
  ⟨[], ⟨trivial, List.nodup_nil, fun _ allocated => absurd rfl allocated⟩, rfl⟩

/-- What bumping a table leaves of the links. -/
theorem bumpLinks_spec {links links' : Address → Option (Links Address)} {first : Option Address}
    (did : bumpLinks links first a = some links') (apart : first ≠ some a) :
    links' a = some ⟨none, first⟩ ∧ ∀ b ≠ a, ∀ x, links b = some x → ∃ prev, links' b = some ⟨prev, x.next⟩ := by
  simp only [bumpLinks, change, Option.bind_eq_bind, Option.bind_eq_some_iff, Option.map_eq_some_iff] at did
  obtain ⟨m, ⟨y, _, rfl⟩, rest⟩ := did
  cases first with
  | none =>
    obtain rfl := Option.some.inj rest
    exact ⟨Function.update_self .., fun b other x here => ⟨x.prev, by rw [Function.update_of_ne other, here]⟩⟩
  | some top =>
    obtain ⟨z, there, rfl⟩ := Option.map_eq_some_iff.mp rest
    have distinct : top ≠ a := fun is => apart (congrArg some is)
    rw [Function.update_of_ne distinct] at there
    refine ⟨by rw [Function.update_of_ne distinct.symm, Function.update_self], fun b other x here => ?_⟩
    by_cases is : b = top
    · obtain rfl : x = z := Option.some.inj (here.symm.trans (is ▸ there))
      exact ⟨some a, by rw [is, Function.update_self]⟩
    · exact ⟨x.prev, by rw [Function.update_of_ne is, Function.update_of_ne other, here]⟩

/-- Without bumping the tables stay a list. -/
theorem listed_of_moves {event : Event} (listed : Listed s) (moves : Moves p s event s') (calm : ¬ Bumps p s event) :
    Listed s' := by
  obtain ⟨l, threads, head⟩ := listed
  cases moves with
  | idle _ first counts links => exact ⟨l, links ▸ threads, first ▸ head⟩
  | takes top _ first _ links => exact ⟨l, links ▸ threads, first.trans (top.symm.trans head)⟩
  | stays _ _ _ first _ links => exact ⟨l, links ▸ threads, first.trans head⟩
  | @grows _ _ a _ vacant first _ links =>
    obtain ⟨links', pushed, threads'⟩ := threads.pushFront vacant
    rw [← head, links] at pushed
    obtain rfl := Option.some.inj pushed
    exact ⟨a :: l, threads', first⟩
  | @leaves _ closure _ _ _ apart counted _ first _ links =>
    obtain ⟨t, here, _⟩ := table_of_counts counted
    have member := threads.all closure.trampolineTable (by simp [links_of_table here])
    obtain ⟨links', taken, threads'⟩ := threads.unlink member
    obtain rfl := Option.some.inj (taken.symm.trans links)
    refine ⟨_, threads', first.trans (head.trans ?_)⟩
    cases l with
    | nil => rfl
    | cons b rest =>
      have other : b ≠ closure.trampolineTable := fun is => apart (head.trans (congrArg some is))
      rw [List.erase_cons_tail (by simpa using other), List.head?_cons, List.head?_cons]
  | bumps live apart counted more =>
    have some_ := trampolineCount_pos p
    exact absurd ⟨_, live, apart, fun is => more (by rw [counted, Option.some.injEq] at is; omega)⟩ calm

/-- A step that bumps does what bumping does. -/
theorem Moves.bumped {event : Event} (moves : Moves p s event s') (bumps : Bumps p s event) :
    ∃ a k, s.first ≠ some a ∧ s.counts a = some k ∧ s'.first = some a ∧
      s'.counts = Function.update s.counts a (some (k + 1)) ∧ bumpLinks s.links s.first a = some s'.links := by
  cases moves with
  | idle notFree =>
    cases event with
    | free c => exact absurd rfl (notFree c)
    | _ => exact bumps.elim
  | takes => exact bumps.elim
  | grows => exact bumps.elim
  | stays live top =>
    obtain ⟨closure, live', apart, _⟩ := bumps
    obtain rfl := Option.some.inj (live.symm.trans live')
    exact absurd top apart
  | leaves live _ counted last =>
    obtain ⟨closure, live', _, more⟩ := bumps
    obtain rfl := Option.some.inj (live.symm.trans live')
    exact absurd (counted.trans (congrArg some (by omega))) more
  | bumps _ apart counted _ first counts links => exact ⟨_, _, apart, counted, first, counts, links⟩

/-- Bumping a table ruins the list at once: the table before it still leads to it. -/
theorem not_listed_of_bumps {event : Event} (listed : Listed s) (moves : Moves p s event s') (bumps : Bumps p s event) :
    ¬ Listed s' := by
  rintro ⟨l', threads', _⟩
  obtain ⟨l, threads, head⟩ := listed
  obtain ⟨a, k, apart, counted, _, _, links⟩ := moves.bumped bumps
  obtain ⟨t, here, _⟩ := table_of_counts counted
  obtain ⟨b, x, other, leads⟩ := threads.exists_prev (threads.all a (by simp [links_of_table here])) (head ▸ apart)
  obtain ⟨own, others⟩ := bumpLinks_spec links apart
  obtain ⟨prev, still⟩ := others b other _ leads
  obtain ⟨y, back⟩ := threads'.prev_next still
  cases own.symm.trans back

theorem moves_of_guarded {event : Event} (kept : Kept p s) (next : guarded (step p) (Allowed p) s event = some s') :
    Kept p s' ∧ Moves p s event s' := by
  by_cases allowed : Allowed p s event
  · rw [guarded, if_pos allowed] at next
    exact ⟨kept_step kept allowed next, moves_of_step kept allowed next⟩
  · rw [guarded, if_neg allowed] at next
    cases next

/-- **The list of tables.** Along a run the tables are a doubly linked list that starts with the
first one exactly as long as no table is bumped to the top. -/
theorem listed_iff_unbumped (p : Pages) (events : List Event) :
    Along (guarded (step p) (Allowed p)) Listed .initial events ↔
      EachStep (guarded (step p) (Allowed p)) (fun s event => ¬ Bumps p s event) .initial events := by
  have sound : ∀ s, Kept p s ∧ Listed s → Listed s := fun _ both => both.2
  refine along_iff_eachStep sound (fun s event s' both calm next => ?_) (fun s event s' both bumps next => ?_)
    ⟨kept_initial p, listed_initial⟩ events
  · obtain ⟨kept, moved⟩ := moves_of_guarded both.1 next
    exact ⟨kept, listed_of_moves both.2 moved calm⟩
  · obtain ⟨_, moved⟩ := moves_of_guarded both.1 next
    exact not_listed_of_bumps both.2 moved (not_not.mp bumps)

/-- While the tables are a list, every call is defined. -/
theorem defined_of_listed (kept : Kept p s) (listed : Listed s) {event : Event} (allowed : Allowed p s event) :
    ∃ s', step p s event = some s' := by
  cases event with
  | alloc supply =>
    obtain ⟨s', did, _⟩ := kept.alloc allowed
    exact ⟨s', did⟩
  | prep c handler =>
    obtain ⟨closure, live⟩ := Option.ne_none_iff_exists'.mp allowed
    obtain ⟨s', did, _⟩ := kept.prep live handler
    exact ⟨s', by simp [step, live, did]⟩
  | free c =>
    obtain ⟨closure, live⟩ := Option.ne_none_iff_exists'.mp allowed
    obtain ⟨t, i, placed⟩ := kept.sound.placed c closure live
    obtain ⟨s₁, t₁, returned⟩ := kept.returns live (counts_of_table placed.table)
    by_cases top : s.first = some closure.trampolineTable
    · obtain ⟨s', did, _⟩ := returned.stays top
      exact ⟨s', did⟩
    by_cases last : t.freeCount + 1 = p.trampolineCount
    · obtain ⟨l, threads, _⟩ := listed
      have member := threads.all closure.trampolineTable (by simp [links_of_table placed.table])
      obtain ⟨links', taken, _⟩ := threads.unlink member
      have links := (returned.leaves top last).1
      rw [taken] at links
      obtain ⟨s', did, _⟩ := Option.map_eq_some_iff.mp links
      exact ⟨s', did⟩
    · obtain ⟨s', did, _⟩ := returned.bumps top last
      exact ⟨s', did⟩

/-- **No use after free without bumping.** After a run in which no table was bumped, every call
that a program may make is defined. -/
theorem unbumped_defined (reached : Reaches (step p) (fun s event => Allowed p s event ∧ ¬ Bumps p s event) .initial s)
    {event : Event} (allowed : Allowed p s event) : ∃ s', step p s event = some s' := by
  obtain ⟨kept, listed⟩ := reached.invariant (fun s => Kept p s ∧ Listed s) ⟨kept_initial p, listed_initial⟩
    fun _ _ _ both permitted next => ⟨kept_step both.1 permitted.1 next,
      listed_of_moves both.2 (moves_of_step both.1 permitted.1 next) permitted.2⟩
  exact defined_of_listed kept listed allowed

/-- Of three tables the one in the middle is deallocated. -/
theorem example_defined : ∃ s,
    Reaches (step singlePages) (fun s event => Allowed singlePages s event ∧ ¬ Bumps singlePages s event) .initial s ∧
      s.tables 100 ≠ none ∧ s.tables 200 = none ∧ s.tables 300 ≠ none ∧
        ∃ s', step singlePages s (.free 10) = some s' := by
  obtain ⟨s, reached, found⟩ := exists_reaches (step singlePages)
    (fun s event => Allowed singlePages s event ∧ ¬ Bumps singlePages s event) .initial
    [.alloc ⟨some 10, some (100, 4096)⟩, .alloc ⟨some 11, some (200, 8192)⟩, .alloc ⟨some 12, some (300, 16384)⟩,
      .free 11]
    (fun s => s.tables 100 ≠ none ∧ s.tables 200 = none ∧ s.tables 300 ≠ none ∧ s.closures 10 ≠ none) (by decide)
  obtain ⟨before, gone, after, live⟩ := of_decide_eq_true found
  exact ⟨s, reached, before, gone, after, unbumped_defined reached live⟩

end NodeFfi.TrampolineTables
