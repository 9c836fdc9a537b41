import NodeFfi.TrampolineTables
import Mathlib.Data.List.Pairwise
import Mathlib.Data.List.Perm.Subperm

/-! Whatever closures a program allocates and frees, and however the list of tables ends up, no
two live closures share a trampoline, and a trampoline leads to its own closure. -/
namespace NodeFfi.TrampolineTables
open TransitionSystem LinkedNodes

variable {p : Pages}

theorem trampolineCount_pos (p : Pages) : 0 < p.trampolineCount :=
  Nat.div_pos p.trampoline_fits (by have := p.pointer_pos; have := p.config_fits; omega)

/-- A trampoline of a table ends before its page does. -/
theorem trampoline_inside {i : Nat} (bound : i < p.trampolineCount) :
    i * p.trampolineSize + p.trampolineSize ≤ p.pageMaxSize := by
  have whole : p.trampolineCount * p.trampolineSize ≤ p.pageMaxSize := Nat.div_mul_le_self ..
  have next := Nat.mul_le_mul_right p.trampolineSize bound
  rw [Nat.succ_mul] at next
  omega

theorem update_eq_some {α β : Type*} [DecidableEq α] {f : α → Option β} {a b : α} {v : Option β} {x : β} :
    Function.update f a v b = some x ↔ b = a ∧ v = some x ∨ b ≠ a ∧ f b = some x := by
  by_cases is : b = a
  · simp [is]
  · simp [is]

/-! ## Tables -/

abbrev Tables := Address → Option Table
abbrev Closures := Address → Option Closure

/-- The link of an entry in the pool of the table at `a`. -/
def Table.nextIn (a : Address) (t : Table) (ref : EntryRef) : Option (Option EntryRef) :=
  if ref.table = a then t.freeListPool[ref.index]?.map Entry.next else none

/-- No closure has the entry. -/
def Unclaimed (closures : Closures) (ref : EntryRef) : Prop :=
  ∀ c closure, closures c = some closure → closure.trampolineTableEntry ≠ ref

/-- The free list of the table at `a` leads through `free`, the entries that no closure has. -/
structure Shelf (p : Pages) (closures : Closures) (a : Address) (t : Table) (free : List EntryRef) : Prop where
  page : t.trampolinePage = t.configPage + p.pageMaxSize
  size : t.freeListPool.length = p.trampolineCount
  trampolines : ∀ (i : Nat) e, t.freeListPool[i]? = some e → e.trampoline = t.trampolinePage + i * p.trampolineSize
  chain : Chain (t.nextIn a) t.freeList free
  count : t.freeCount = free.length
  complement : ∀ i < p.trampolineCount, (⟨a, i⟩ ∈ free ↔ Unclaimed closures ⟨a, i⟩)

section
variable {closures closures' : Closures} {a : Address} {t : Table} {free : List EntryRef} {ref : EntryRef}

theorem Shelf.entry (shelf : Shelf p closures a t free) (member : ref ∈ free) :
    ref.table = a ∧ ref.index < p.trampolineCount := by
  obtain ⟨after, found⟩ := shelf.chain.mem_allocated member
  rw [Table.nextIn] at found
  split at found
  · next own =>
    obtain ⟨e, read, _⟩ := Option.map_eq_some_iff.mp found
    exact ⟨own, shelf.size ▸ (List.getElem?_eq_some_iff.mp read).1⟩
  · cases found

theorem Shelf.indices_nodup (shelf : Shelf p closures a t free) : (free.map EntryRef.index).Nodup :=
  shelf.chain.nodup.map_on fun x first y second same => by
    have one := (shelf.entry first).1
    have two := (shelf.entry second).1
    cases x
    cases y
    simp_all

theorem Shelf.indices_subperm (shelf : Shelf p closures a t free) :
    List.Subperm (free.map EntryRef.index) (List.range p.trampolineCount) :=
  List.subperm_of_subset shelf.indices_nodup fun i member => by
    obtain ⟨ref, inside, rfl⟩ := List.mem_map.mp member
    exact List.mem_range.mpr (shelf.entry inside).2

theorem Shelf.count_le (shelf : Shelf p closures a t free) : t.freeCount ≤ p.trampolineCount := by
  have le := shelf.indices_subperm.length_le
  rwa [List.length_map, List.length_range, ← shelf.count] at le

/-- A table counts all its entries as free exactly if no closure has one of them. -/
theorem Shelf.full_iff (shelf : Shelf p closures a t free) :
    t.freeCount = p.trampolineCount ↔ ∀ i < p.trampolineCount, Unclaimed closures ⟨a, i⟩ := by
  have index : ∀ i, i ∈ free.map EntryRef.index ↔ ⟨a, i⟩ ∈ free := by
    intro i
    rw [List.mem_map]
    constructor
    · rintro ⟨ref, inside, rfl⟩
      rwa [← (shelf.entry inside).1]
    · exact fun inside => ⟨_, inside, rfl⟩
  constructor
  · intro full i bound
    have perm := shelf.indices_subperm.perm_of_length_le (by
      rw [List.length_range, List.length_map, ← shelf.count]
      exact Nat.le_of_eq full.symm)
    exact (shelf.complement i bound).mp ((index i).mp (perm.mem_iff.mpr (List.mem_range.mpr bound)))
  · intro unclaimed
    have covers : List.range p.trampolineCount ⊆ free.map EntryRef.index := fun i member =>
      (index i).mpr ((shelf.complement i (List.mem_range.mp member)).mpr (unclaimed i (List.mem_range.mp member)))
    have le := (List.subperm_of_subset List.nodup_range covers).length_le
    rw [List.length_range, List.length_map, ← shelf.count] at le
    exact Nat.le_antisymm shelf.count_le le

theorem Shelf.congr (shelf : Shelf p closures a t free)
    (same : ∀ i < p.trampolineCount, Unclaimed closures' ⟨a, i⟩ ↔ Unclaimed closures ⟨a, i⟩) :
    Shelf p closures' a t free :=
  { shelf with complement := fun i bound => (shelf.complement i bound).trans (same i bound).symm }

end

/-! ## Claiming and returning an entry -/

/-- A table whose first free entry is claimed. -/
def Table.claimed (t : Table) (ref : EntryRef) (e : Entry) : Table :=
  { t with
    freeList := e.next
    freeCount := decrement t.freeCount
    freeListPool := t.freeListPool.set ref.index { e with next := none } }

/-- A table that an entry is returned to. -/
def Table.released (t : Table) (ref : EntryRef) (e : Entry) : Table :=
  { t with
    freeList := some ref
    freeCount := increment t.freeCount
    freeListPool := t.freeListPool.set ref.index { e with next := t.freeList } }

section
variable {closures closures' : Closures} {a : Address} {t t' : Table} {free : List EntryRef} {ref : EntryRef}
  {e e' : Entry} {i : Nat}

theorem nextIn_set (pool : t'.freeListPool = t.freeListPool.set i e') (inside : i < t.freeListPool.length)
    (ref : EntryRef) : t'.nextIn a ref = if ref = ⟨a, i⟩ then some e'.next else t.nextIn a ref := by
  obtain ⟨b, j⟩ := ref
  simp only [Table.nextIn, pool, EntryRef.mk.injEq]
  by_cases own : b = a
  · by_cases same : j = i
    · simp [own, same, inside]
    · simp [own, same, List.getElem?_set_ne (Ne.symm same)]
  · simp [own]

theorem trampolines_set (shelf : Shelf p closures a t free) (read : t.freeListPool[i]? = some e) (next : Option EntryRef)
    {j : Nat} {e' : Entry} (found : (t.freeListPool.set i { e with next })[j]? = some e') :
    e'.trampoline = t.trampolinePage + j * p.trampolineSize := by
  by_cases same : i = j
  · subst same
    rw [List.getElem?_set_self (List.getElem?_eq_some_iff.mp read).1, Option.some.injEq] at found
    rw [← found]
    exact shelf.trampolines i e read
  · rw [List.getElem?_set_ne same] at found
    exact shelf.trampolines j e' found

theorem Shelf.claim (shelf : Shelf p closures a t free) (first : t.freeList = some ref)
    (claimed : ∀ r, Unclaimed closures' r ↔ Unclaimed closures r ∧ r ≠ ref) :
    ref.table = a ∧ ref.index < p.trampolineCount ∧ 0 < t.freeCount ∧
      ∃ e rest, t.freeListPool[ref.index]? = some e ∧ Shelf p closures' a (t.claimed ref e) rest := by
  have chain := shelf.chain
  rw [first] at chain
  cases chain with
  | @cons _ after rest found onward =>
    obtain ⟨own, bound⟩ := shelf.entry (List.mem_cons_self (a := ref))
    have inside : ref.index < t.freeListPool.length := shelf.size ▸ bound
    have same : (⟨a, ref.index⟩ : EntryRef) = ref := by rw [← own]
    have read : t.freeListPool[ref.index]? = some t.freeListPool[ref.index] := List.getElem?_eq_getElem inside
    have out : ref ∉ rest := (List.nodup_cons.mp shelf.chain.nodup).1
    rw [Table.nextIn, if_pos own, read, Option.map_some, Option.some.injEq] at found
    have count := shelf.count
    have few := p.few
    have le := shelf.count_le
    rw [List.length_cons] at count
    refine ⟨own, bound, by omega, _, rest, read, ?_⟩
    refine ⟨shelf.page, by simp [Table.claimed, shelf.size], fun j e' found' =>
      trampolines_set shelf read none found', ?_, ?_, fun j below => ?_⟩
    · rw [Table.claimed, found]
      refine onward.congr fun r member => ?_
      rw [nextIn_set rfl inside, same, if_neg (ne_of_mem_of_not_mem member out)]
    · simp only [Table.claimed, decrement]
      unfold Pages.trampolineCount at le
      omega
    · rw [claimed, ← shelf.complement j below, List.mem_cons]
      constructor
      · exact fun member => ⟨.inr member, ne_of_mem_of_not_mem member out⟩
      · rintro ⟨is | member, other⟩
        · exact absurd is other
        · exact member

theorem Shelf.release (shelf : Shelf p closures a t free) (bound : i < p.trampolineCount)
    (held : ¬ Unclaimed closures ⟨a, i⟩)
    (released : ∀ r, Unclaimed closures' r ↔ Unclaimed closures r ∨ r = ⟨a, i⟩) :
    ∃ e, t.freeListPool[i]? = some e ∧ Shelf p closures' a (t.released ⟨a, i⟩ e) (⟨a, i⟩ :: free) ∧
      (t.released ⟨a, i⟩ e).freeCount = t.freeCount + 1 := by
  have inside : i < t.freeListPool.length := shelf.size ▸ bound
  have read : t.freeListPool[i]? = some t.freeListPool[i] := List.getElem?_eq_getElem inside
  have out : ⟨a, i⟩ ∉ free := fun member => held ((shelf.complement i bound).mp member)
  have room : t.freeCount ≠ p.trampolineCount := fun full => held (shelf.full_iff.mp full i bound)
  have few := p.few
  have le := shelf.count_le
  have counted : increment t.freeCount = t.freeCount + 1 := by
    unfold Pages.trampolineCount at le room
    unfold increment
    omega
  refine ⟨_, read, ⟨shelf.page, by simp [Table.released, shelf.size], fun j e' found =>
    trampolines_set shelf read t.freeList found, ?_, ?_, fun j below => ?_⟩, counted⟩
  · refine .cons (by rw [nextIn_set rfl inside, if_pos rfl]) ?_
    refine shelf.chain.congr fun r member => ?_
    rw [nextIn_set rfl inside, if_neg (ne_of_mem_of_not_mem member out)]
  · rw [List.length_cons, ← shelf.count]
    exact counted
  · rw [released, ← shelf.complement j below, List.mem_cons, or_comm]

end

/-! ## All tables and closures -/

/-- The closure has entry `i` of the table `t`, whose trampoline is its code. -/
structure Placed (p : Pages) (tables : Tables) (closure : Closure) (t : Table) (i : Nat) : Prop where
  table : tables closure.trampolineTable = some t
  entry : closure.trampolineTableEntry = ⟨closure.trampolineTable, i⟩
  bound : i < p.trampolineCount
  code : closure.code = t.trampolinePage + i * p.trampolineSize

/-- Two pairs of pages do not overlap. -/
def PagesApart (p : Pages) (x y : Nat) : Prop :=
  x + 2 * p.pageMaxSize ≤ y ∨ y + 2 * p.pageMaxSize ≤ x

structure Sound (p : Pages) (tables : Tables) (closures : Closures) (pages : List Nat) : Prop where
  shelves : ∀ a t, tables a = some t → ∃ free, Shelf p closures a t free
  placed : ∀ c closure, closures c = some closure → ∃ t i, Placed p tables closure t i
  distinct : ∀ c d x y, closures c = some x → closures d = some y →
    x.trampolineTableEntry = y.trampolineTableEntry → c = d
  mapped : ∀ a t, tables a = some t → t.configPage ∈ pages
  own : ∀ a b t u, tables a = some t → tables b = some u → t.configPage = u.configPage → a = b
  pages : pages.Pairwise (PagesApart p)

section
variable {tables tables' : Tables} {closures : Closures} {pages : List Nat} {a c : Address} {t : Table}

instance : Std.Symm (PagesApart p) := ⟨fun _ _ => Or.symm⟩

/-- What is left of a table without its place in the list. -/
def Table.unlinked (t : Table) : Table := { t with prev := none, next := none }

theorem Shelf.relink {t' : Table} {free : List EntryRef} (shelf : Shelf p closures a t free)
    (same : t'.unlinked = t.unlinked) : Shelf p closures a t' free := by
  obtain ⟨_, _, _, _, _, _, _⟩ := t
  obtain ⟨_, _, _, _, _, _, _⟩ := t'
  simp only [Table.unlinked, Table.mk.injEq, and_true] at same
  obtain ⟨rfl, rfl, rfl, rfl, rfl⟩ := same
  exact { shelf with chain := shelf.chain }

/-- The list of tables does not matter. -/
theorem Sound.relink (sound : Sound p tables closures pages)
    (same : ∀ a, (tables' a).map Table.unlinked = (tables a).map Table.unlinked) :
    Sound p tables' closures pages := by
  have old : ∀ a t', tables' a = some t' → ∃ t, tables a = some t ∧ t'.unlinked = t.unlinked := by
    intro a t' found
    have both := same a
    rw [found, Option.map_some] at both
    obtain ⟨t, there, is⟩ := Option.map_eq_some_iff.mp both.symm
    exact ⟨t, there, is.symm⟩
  have page : ∀ {t t' : Table}, t'.unlinked = t.unlinked → t'.configPage = t.configPage := fun is =>
    (Table.mk.inj is).1
  refine ⟨fun a t' found => ?_, fun c closure live => ?_, sound.distinct, fun a t' found => ?_,
    fun a b t' u' one two is => ?_, sound.pages⟩
  · obtain ⟨t, there, is⟩ := old a t' found
    obtain ⟨free, shelf⟩ := sound.shelves a t there
    exact ⟨free, shelf.relink is⟩
  · obtain ⟨t, i, placed⟩ := sound.placed c closure live
    have both := same closure.trampolineTable
    rw [placed.table, Option.map_some] at both
    obtain ⟨t', there, is⟩ := Option.map_eq_some_iff.mp both
    exact ⟨t', i, there, placed.entry, placed.bound, by rw [placed.code, (Table.mk.inj is).2.1]⟩
  · obtain ⟨t, there, is⟩ := old a t' found
    exact page is ▸ sound.mapped a t there
  · obtain ⟨t, first, same₁⟩ := old a t' one
    obtain ⟨u, second, same₂⟩ := old b u' two
    exact sound.own a b t u first second (by rw [← page same₁, ← page same₂, is])

/-- The links of a new pool lead through all its entries. -/
theorem newPool_chain (p : Pages) (a : Address) (configPage : Nat) {k : Nat} (inside : k < p.trampolineCount) :
    Chain ((ffiTrampolineTableAlloc p a configPage).nextIn a) (some ⟨a, k⟩)
      ((List.range' k (p.trampolineCount - k)).map (EntryRef.mk a)) := by
  obtain ⟨n, left⟩ := Nat.exists_eq_add_of_lt inside
  have here : ∀ j < p.trampolineCount, (ffiTrampolineTableAlloc p a configPage).nextIn a ⟨a, j⟩ =
      some (if j < p.trampolineCount - 1 then some ⟨a, j + 1⟩ else none) := fun j below => by
    simp [Table.nextIn, ffiTrampolineTableAlloc, List.getElem?_map, List.getElem?_range below]
  induction n generalizing k with
  | zero =>
    have last : p.trampolineCount - k = 1 := by omega
    rw [last]
    refine .cons (here k inside) ?_
    rw [if_neg (by omega)]
    exact .nil
  | succ n ih =>
    have more : p.trampolineCount - k = (p.trampolineCount - (k + 1)) + 1 := by omega
    rw [more, List.range'_succ, List.map_cons]
    refine .cons (here k inside) ?_
    rw [if_pos (by omega)]
    exact ih (by omega) (by omega)

theorem newTable_shelf (p : Pages) (configPage : Nat) (unclaimed : ∀ i, Unclaimed closures ⟨a, i⟩) :
    ∃ free, Shelf p closures a (ffiTrampolineTableAlloc p a configPage) free := by
  refine ⟨_, rfl, by simp [ffiTrampolineTableAlloc], fun i e read => ?_,
    newPool_chain p a configPage (trampolineCount_pos p), by simp [ffiTrampolineTableAlloc], fun i bound => ?_⟩
  · have bound : i < p.trampolineCount := by
      simpa [ffiTrampolineTableAlloc] using (List.getElem?_eq_some_iff.mp read).1
    simp only [ffiTrampolineTableAlloc, List.getElem?_map, List.getElem?_range bound, Option.map_some,
      Option.some.injEq] at read
    rw [← read]
    rfl
  · simp [unclaimed i, bound]

/-- A new table. -/
theorem Sound.insert (sound : Sound p tables closures pages) (fresh : tables a = none) {configPage : Nat}
    (apart : ∀ page ∈ pages, PagesApart p page configPage) (next : Option Address) :
    Sound p (Function.update tables a (some { ffiTrampolineTableAlloc p a configPage with next })) closures
      (configPage :: pages) := by
  have unclaimed : ∀ i, Unclaimed closures ⟨a, i⟩ := fun i c closure live is => by
    obtain ⟨t, j, placed⟩ := sound.placed c closure live
    have table : closure.trampolineTable = a := congrArg EntryRef.table (placed.entry.symm.trans is)
    cases (table ▸ fresh).symm.trans placed.table
  have size : 0 < p.pageMaxSize := by
    have := p.pointer_pos
    have := p.config_fits
    have := p.trampoline_fits
    omega
  have foreign : ∀ b u, tables b = some u → u.configPage ≠ configPage := fun b u found is => by
    have both := apart _ (sound.mapped b u found)
    rw [is] at both
    rcases both with low | high <;> omega
  refine ⟨fun b u found => ?_, fun c closure live => ?_, sound.distinct, fun b u found => ?_,
    fun b d u v one two is => ?_, List.pairwise_cons.mpr ⟨fun page member => Or.symm (apart page member), sound.pages⟩⟩
  · obtain ⟨rfl, new⟩ | ⟨_, found⟩ := update_eq_some.mp found
    · obtain ⟨free, shelf⟩ := newTable_shelf p configPage unclaimed
      exact ⟨free, shelf.relink (Option.some.inj new ▸ rfl)⟩
    · exact sound.shelves b u found
  · obtain ⟨t, i, placed⟩ := sound.placed c closure live
    have other : closure.trampolineTable ≠ a := fun is => by cases (is ▸ fresh).symm.trans placed.table
    exact ⟨t, i, { placed with table := (Function.update_of_ne other ..).trans placed.table }⟩
  · obtain ⟨_, new⟩ | ⟨_, found⟩ := update_eq_some.mp found
    · exact Option.some.inj new ▸ List.mem_cons_self
    · exact List.mem_cons_of_mem _ (sound.mapped b u found)
  · obtain ⟨rfl, new⟩ | ⟨_, one⟩ := update_eq_some.mp one <;> obtain ⟨same, new'⟩ | ⟨_, two⟩ := update_eq_some.mp two
    · exact same.symm
    · exact absurd (is.symm.trans (Option.some.inj new ▸ rfl)) (foreign d v two)
    · exact absurd (is.trans (Option.some.inj new' ▸ rfl)) (foreign b u one)
    · exact sound.own b d u v one two is

/-- Another state of a table, with the same pages. -/
theorem Sound.replace {closures' : Closures} {t' : Table} (sound : Sound p tables closures pages)
    (here : tables a = some t)
    (config : t'.configPage = t.configPage) (trampolines : t'.trampolinePage = t.trampolinePage)
    (shelf : ∃ free, Shelf p closures' a t' free)
    (elsewhere : ∀ ref : EntryRef, ref.table ≠ a → (Unclaimed closures' ref ↔ Unclaimed closures ref))
    (placed : ∀ c closure, closures' c = some closure → ∃ t i, Placed p tables closure t i)
    (distinct : ∀ c d x y, closures' c = some x → closures' d = some y →
      x.trampolineTableEntry = y.trampolineTableEntry → c = d) :
    Sound p (Function.update tables a (some t')) closures' pages := by
  have old : ∀ b u, Function.update tables a (some t') b = some u →
      ∃ v, tables b = some v ∧ u.configPage = v.configPage := by
    intro b u found
    obtain ⟨rfl, new⟩ | ⟨_, found⟩ := update_eq_some.mp found
    · exact ⟨t, here, Option.some.inj new ▸ config⟩
    · exact ⟨u, found, rfl⟩
  refine ⟨fun b u found => ?_, fun c closure live => ?_, distinct, fun b u found => ?_,
    fun b d u v one two is => ?_, sound.pages⟩
  · obtain ⟨rfl, new⟩ | ⟨apart, found⟩ := update_eq_some.mp found
    · exact Option.some.inj new ▸ shelf
    · obtain ⟨free, other⟩ := sound.shelves b u found
      exact ⟨free, other.congr fun i _ => elsewhere ⟨b, i⟩ apart⟩
  · obtain ⟨u, i, at_⟩ := placed c closure live
    by_cases is : closure.trampolineTable = a
    · obtain rfl : t = u := Option.some.inj (here.symm.trans (is ▸ at_.table))
      exact ⟨t', i, by rw [is, Function.update_self], at_.entry, at_.bound, by rw [trampolines, at_.code]⟩
    · exact ⟨u, i, { at_ with table := (Function.update_of_ne is ..).trans at_.table }⟩
  · obtain ⟨v, there, same⟩ := old b u found
    exact same ▸ sound.mapped b v there
  · obtain ⟨u', first, same⟩ := old b u one
    obtain ⟨v', second, same'⟩ := old d v two
    exact sound.own b d u' v' first second (by rw [← same, ← same', is])

theorem Sound.claim {ref : EntryRef} (sound : Sound p tables closures pages) (here : tables a = some t)
    (first : t.freeList = some ref) (fresh : closures c = none) :
    ref.table = a ∧ 0 < t.freeCount ∧ ∃ e, t.freeListPool[ref.index]? = some e ∧
      Sound p (Function.update tables a (some (t.claimed ref e)))
        (Function.update closures c (some ⟨a, ref, e.trampoline, none⟩)) pages := by
  obtain ⟨free, shelf⟩ := sound.shelves a t here
  have unclaimed : Unclaimed closures ref := by
    have chain := shelf.chain
    rw [first] at chain
    cases chain with
    | cons found onward =>
      obtain ⟨own, bound⟩ := shelf.entry (List.mem_cons_self (a := ref))
      have member := (shelf.complement ref.index bound).mp (by rw [← own]; simp)
      rwa [← own] at member
  have claimed : ∀ (code : Nat) (r : EntryRef),
      Unclaimed (Function.update closures c (some ⟨a, ref, code, none⟩)) r ↔ Unclaimed closures r ∧ r ≠ ref := by
    intro code r
    constructor
    · refine fun all => ⟨fun d x live => ?_, fun is => all c _ (Function.update_self ..) is.symm⟩
      have other : d ≠ c := fun is => by cases (is ▸ fresh).symm.trans live
      exact all d x (update_eq_some.mpr (.inr ⟨other, live⟩))
    · rintro ⟨all, other⟩ d x live
      obtain ⟨_, new⟩ | ⟨_, live⟩ := update_eq_some.mp live
      · exact Option.some.inj new ▸ other.symm
      · exact all d x live
  obtain ⟨own, bound, some_, e, rest, read, shelf'⟩ := shelf.claim first
    (claimed (t.freeListPool[ref.index]?.map Entry.trampoline |>.getD 0))
  rw [read, Option.map_some, Option.getD_some] at shelf'
  refine ⟨own, some_, e, read, sound.replace here rfl rfl ⟨rest, shelf'⟩
    (fun r elsewhere => ?_) (fun d x live => ?_) (fun d d' x y one two is => ?_)⟩
  · rw [claimed, and_iff_left fun same : r = ref => elsewhere (same ▸ own)]
  · obtain ⟨_, new⟩ | ⟨_, live⟩ := update_eq_some.mp live
    · obtain rfl := Option.some.inj new
      exact ⟨t, ref.index, here, by rw [← own], bound, shelf.trampolines _ e read⟩
    · exact sound.placed d x live
  · obtain ⟨rfl, new⟩ | ⟨_, one⟩ := update_eq_some.mp one <;> obtain ⟨same, new'⟩ | ⟨_, two⟩ := update_eq_some.mp two
    · exact same.symm
    · exact absurd (is.symm.trans (Option.some.inj new ▸ rfl)) (unclaimed d' y two)
    · exact absurd (is.trans (Option.some.inj new' ▸ rfl)) (unclaimed d x one)
    · exact sound.distinct d d' x y one two is

theorem Sound.release {closure : Closure} (sound : Sound p tables closures pages) (live : closures c = some closure) :
    ∃ t e i, tables closure.trampolineTable = some t ∧ closure.trampolineTableEntry = ⟨closure.trampolineTable, i⟩ ∧
      t.freeListPool[i]? = some e ∧ (t.released closure.trampolineTableEntry e).freeCount = t.freeCount + 1 ∧
      Sound p (Function.update tables closure.trampolineTable (some (t.released closure.trampolineTableEntry e)))
        (Function.update closures c none) pages := by
  obtain ⟨t, i, placed⟩ := sound.placed c closure live
  obtain ⟨free, shelf⟩ := sound.shelves _ t placed.table
  have released : ∀ r, Unclaimed (Function.update closures c none) r ↔
      Unclaimed closures r ∨ r = closure.trampolineTableEntry := by
    intro r
    constructor
    · intro all
      by_cases is : r = closure.trampolineTableEntry
      · exact .inr is
      refine .inl fun d x other => ?_
      by_cases same : d = c
      · obtain rfl : closure = x := Option.some.inj (live.symm.trans (same ▸ other))
        exact Ne.symm is
      · exact all d x (update_eq_some.mpr (.inr ⟨same, other⟩))
    · intro either d x other
      obtain ⟨_, none_⟩ | ⟨apart, other⟩ := update_eq_some.mp other
      · cases none_
      · rcases either with all | rfl
        · exact all d x other
        · exact fun is => apart (sound.distinct d c x closure other live is)
  rw [placed.entry] at released
  have held : ¬ Unclaimed closures ⟨closure.trampolineTable, i⟩ := fun all => all c closure live placed.entry
  obtain ⟨e, read, shelf', count⟩ := shelf.release placed.bound held released
  rw [← placed.entry] at shelf' count
  refine ⟨t, e, i, placed.table, placed.entry, read, count, sound.replace placed.table rfl rfl ⟨_, shelf'⟩
    (fun r elsewhere => ?_) (fun d x other => ?_) (fun d d' x y one two is => ?_)⟩
  · rw [released, or_iff_left fun same : r = _ => elsewhere (same ▸ rfl)]
  · obtain ⟨_, none_⟩ | ⟨_, other⟩ := update_eq_some.mp other
    · cases none_
    · exact sound.placed d x other
  · obtain ⟨_, none_⟩ | ⟨_, one⟩ := update_eq_some.mp one
    · cases none_
    obtain ⟨_, none_⟩ | ⟨_, two⟩ := update_eq_some.mp two
    · cases none_
    exact sound.distinct d d' x y one two is

/-- A table that is not used any more, with its pages. -/
theorem Sound.remove (sound : Sound p tables closures pages) (here : tables a = some t)
    (full : t.freeCount = p.trampolineCount) :
    Sound p (Function.update tables a none) closures (pages.erase t.configPage) := by
  obtain ⟨free, shelf⟩ := sound.shelves a t here
  have kept : ∀ b u, Function.update tables a none b = some u → b ≠ a ∧ tables b = some u := fun b u found => by
    obtain ⟨_, none_⟩ | left := update_eq_some.mp found
    · cases none_
    · exact left
  refine ⟨fun b u found => sound.shelves b u (kept b u found).2, fun c closure live => ?_, sound.distinct,
    fun b u found => ?_, fun b d u v one two is => sound.own b d u v (kept b u one).2 (kept d v two).2 is,
    sound.pages.sublist List.erase_sublist⟩
  · obtain ⟨u, i, placed⟩ := sound.placed c closure live
    have other : closure.trampolineTable ≠ a := fun is =>
      shelf.full_iff.mp full i placed.bound c closure live (is ▸ placed.entry)
    exact ⟨u, i, { placed with table := (Function.update_of_ne other ..).trans placed.table }⟩
  · obtain ⟨apart, there⟩ := kept b u found
    have page : u.configPage ≠ t.configPage := fun is => apart (sound.own b a u t there here is)
    exact (List.mem_erase_of_ne page).mpr (sound.mapped b u there)

/-- A closure that is prepared stays where it is. -/
theorem Sound.prepare {closure : Closure} (sound : Sound p tables closures pages) (live : closures c = some closure)
    (handler : Option Handler) :
    Sound p tables (Function.update closures c (some { closure with handler })) pages := by
  have old : ∀ d x, Function.update closures c (some { closure with handler }) d = some x → ∃ y, closures d = some y ∧
      x.trampolineTable = y.trampolineTable ∧ x.trampolineTableEntry = y.trampolineTableEntry ∧ x.code = y.code := by
    intro d x found
    obtain ⟨rfl, new⟩ | ⟨_, found⟩ := update_eq_some.mp found
    · exact Option.some.inj new ▸ ⟨closure, live, rfl, rfl, rfl⟩
    · exact ⟨x, found, rfl, rfl, rfl⟩
  have unclaimed : ∀ ref, Unclaimed (Function.update closures c (some { closure with handler })) ref ↔
      Unclaimed closures ref := by
    intro ref
    constructor
    · intro all d x found
      by_cases is : d = c
      · obtain rfl : closure = x := Option.some.inj (live.symm.trans (is ▸ found))
        exact all c { closure with handler } (Function.update_self ..)
      · exact all d x (update_eq_some.mpr (.inr ⟨is, found⟩))
    · intro all d x found
      obtain ⟨y, there, _, entry, _⟩ := old d x found
      exact entry ▸ all d y there
  refine ⟨fun a t found => ?_, fun d x found => ?_, fun d d' x x' one two is => ?_, sound.mapped, sound.own, sound.pages⟩
  · obtain ⟨free, shelf⟩ := sound.shelves a t found
    exact ⟨free, shelf.congr fun i _ => unclaimed ⟨a, i⟩⟩
  · obtain ⟨y, there, table, entry, code⟩ := old d x found
    obtain ⟨t, i, placed⟩ := sound.placed d y there
    exact ⟨t, i, table ▸ placed.table, by rw [entry, placed.entry, table], placed.bound, code ▸ placed.code⟩
  · obtain ⟨y, first, _, entry, _⟩ := old d x one
    obtain ⟨y', second, _, entry', _⟩ := old d' x' two
    exact sound.distinct d d' y y' first second (by rw [← entry, ← entry', is])

/-- The code of a closure is inside the page of trampolines of its table. -/
theorem Placed.inside {closure : Closure} {t : Table} {i : Nat} (sound : Sound p tables closures pages)
    (placed : Placed p tables closure t i) :
    t.configPage + p.pageMaxSize ≤ closure.code ∧
      closure.code + p.trampolineSize ≤ t.configPage + 2 * p.pageMaxSize := by
  obtain ⟨free, shelf⟩ := sound.shelves _ t placed.table
  have room := trampoline_inside placed.bound
  rw [placed.code, shelf.page]
  omega

/-- The trampolines of two closures do not overlap. -/
theorem Sound.codes_apart (sound : Sound p tables closures pages) {d : Address} {x y : Closure}
    (one : closures c = some x) (two : closures d = some y) (other : c ≠ d) :
    x.code + p.trampolineSize ≤ y.code ∨ y.code + p.trampolineSize ≤ x.code := by
  obtain ⟨t, i, first⟩ := sound.placed c x one
  obtain ⟨u, j, second⟩ := sound.placed d y two
  have inside := first.inside sound
  have inside' := second.inside sound
  by_cases same : x.trampolineTable = y.trampolineTable
  · obtain rfl : t = u := Option.some.inj (first.table.symm.trans (same ▸ second.table))
    have index : i ≠ j := fun is => other
      (sound.distinct c d x y one two (by rw [first.entry, second.entry, same, is]))
    rw [first.code, second.code]
    rcases Nat.lt_or_gt_of_ne index with less | more
    · have next := Nat.mul_le_mul_right p.trampolineSize less
      rw [Nat.succ_mul] at next
      omega
    · have next := Nat.mul_le_mul_right p.trampolineSize more
      rw [Nat.succ_mul] at next
      omega
  · have pages' : t.configPage ≠ u.configPage := fun is => same (sound.own _ _ t u first.table second.table is)
    have apart := sound.pages.forall (sound.mapped _ t first.table) (sound.mapped _ u second.table) pages'
    unfold PagesApart at apart
    omega

end

/-! ## The steps -/

section
variable {s s' : State} {a c : Address} {t : Table}

/-- At most the list of tables is another. -/
structure Relinked (s s' : State) : Prop where
  tables : ∀ a, (s'.tables a).map Table.unlinked = (s.tables a).map Table.unlinked
  closures : s'.closures = s.closures
  words : s'.words = s.words

theorem Relinked.trans {s'' : State} (one : Relinked s s') (two : Relinked s' s'') : Relinked s s'' :=
  ⟨fun a => (two.tables a).trans (one.tables a), two.closures.trans one.closures, two.words.trans one.words⟩

theorem Relinked.forget (relinked : Relinked s s') (c : Address) : Relinked (s.forget c) (s'.forget c) :=
  ⟨relinked.tables, by simp only [State.forget, relinked.closures], relinked.words⟩

theorem Relinked.allocated (relinked : Relinked s s') (here : s.tables a = some t) : ∃ t', s'.tables a = some t' := by
  have same := relinked.tables a
  rw [here, Option.map_some] at same
  obtain ⟨t', there, _⟩ := Option.map_eq_some_iff.mp same
  exact ⟨t', there⟩

theorem writeTable_relinked {t' : Table} (here : s.tables a = some t) (same : t'.unlinked = t.unlinked) :
    Relinked s (s.writeTable a (some t')) := by
  refine ⟨fun b => ?_, rfl, rfl⟩
  by_cases is : b = a
  · subst is
    simp [State.writeTable, here, same]
  · simp [State.writeTable, is]

theorem changeTable_relinked {f : Table → Table} (did : s.changeTable a f = some s')
    (same : ∀ t, (f t).unlinked = t.unlinked) : Relinked s s' ∧ s'.first = s.first ∧ s'.pages = s.pages := by
  obtain ⟨t, here, rfl⟩ := Option.map_eq_some_iff.mp did
  exact ⟨writeTable_relinked here (same t), rfl, rfl⟩

theorem changePointed_relinked {f : Table → Table} {pointer : Option Address}
    (did : s.changePointed f pointer = some s') (same : ∀ t, (f t).unlinked = t.unlinked) :
    Relinked s s' ∧ s'.first = s.first ∧ s'.pages = s.pages := by
  cases pointer with
  | none =>
    obtain rfl : s = s' := Option.some.inj did
    exact ⟨⟨fun _ => rfl, rfl, rfl⟩, rfl, rfl⟩
  | some a => exact changeTable_relinked did same

theorem release_eq {i : Nat} {e : Entry} (here : s.tables a = some t) (read : t.freeListPool[i]? = some e) :
    s.release a ⟨a, i⟩ = some (s.writeTable a (some (t.released ⟨a, i⟩ e))) := by
  simp [State.release, here, State.setNext, State.entry, read, State.changeTable, State.writeTable, Table.released]

theorem claim_eq {ref : EntryRef} {e : Entry} (first : s.first = some a) (here : s.tables a = some t)
    (free : t.freeList = some ref) (own : ref.table = a) (read : t.freeListPool[ref.index]? = some e) :
    s.claim c = some { s.writeTable a (some (t.claimed ref e)) with
      closures := Function.update s.closures c (some ⟨a, ref, e.trampoline, none⟩) } := by
  simp [State.claim, first, here, free, State.setNext, State.entry, own, read, State.changeTable, State.writeTable,
    Table.claimed]

/-- What every state keeps. -/
structure Kept (p : Pages) (s : State) : Prop where
  sound : Sound p s.tables s.closures s.pages
  first : ∀ a, s.first = some a → ∃ t, s.tables a = some t
  configured : ∀ c closure handler, s.closures c = some closure → closure.handler = some handler →
    s.words (closure.code - p.pageMaxSize) = some (.closure c) ∧
      s.words (closure.code - p.pageMaxSize + p.pointerSize) = some (.start handler.cif.start)

theorem kept_initial (p : Pages) : Kept p State.initial where
  sound :=
    { shelves := fun _ _ none_ => by cases none_
      placed := fun _ _ none_ => by cases none_
      distinct := fun _ _ _ _ none_ => by cases none_
      mapped := fun _ _ none_ => by cases none_
      own := fun _ _ _ _ none_ => by cases none_
      pages := .nil }
  first := fun _ none_ => by cases none_
  configured := fun _ _ _ none_ => by cases none_

theorem Kept.relink (kept : Kept p s) (relinked : Relinked s s') (pages : s'.pages = s.pages)
    (first : ∀ a, s'.first = some a → ∃ t, s'.tables a = some t) : Kept p s' := by
  refine ⟨?_, first, ?_⟩
  · rw [relinked.closures, pages]
    exact kept.sound.relink relinked.tables
  · rw [relinked.closures, relinked.words]
    exact kept.configured

theorem Kept.addTable (kept : Kept p s) (fresh : s.tables a = none) {configPage : Nat}
    (apart : ∀ page ∈ s.pages, PagesApart p page configPage) : Kept p (s.addTable p a configPage) := by
  refine ⟨kept.sound.insert fresh apart s.first, fun d is => ?_, fun c closure handler live prepared => ?_⟩
  · obtain rfl : a = d := Option.some.inj is
    exact ⟨_, Function.update_self ..⟩
  · obtain ⟨t, i, placed⟩ := kept.sound.placed c closure live
    have inside := placed.inside kept.sound
    have away := apart _ (kept.sound.mapped _ t placed.table)
    have pointer := p.pointer_pos
    have fits := p.config_fits
    unfold PagesApart at away
    simp only [State.addTable]
    rw [if_neg (by omega), if_neg (by omega)]
    exact kept.configured c closure handler live prepared

theorem Kept.insertTable (kept : Kept p s) (fresh : s.tables a = none) {configPage : Nat}
    (apart : ∀ page ∈ s.pages, PagesApart p page configPage) :
    ∃ s' t, s.insertTable p a configPage = some s' ∧ Kept p s' ∧ s'.first = some a ∧ s'.closures = s.closures ∧
      s'.tables a = some t ∧ t.freeList = some ⟨a, 0⟩ := by
  have added := kept.addTable fresh apart
  have new : (s.addTable p a configPage).tables a =
      some { ffiTrampolineTableAlloc p a configPage with next := s.first } := Function.update_self ..
  cases first : s.first with
  | none => exact ⟨_, _, by rw [State.insertTable, first]; rfl, added, rfl, rfl, new, rfl⟩
  | some b =>
    obtain ⟨u, there⟩ := kept.first b first
    have other : b ≠ a := fun is => by cases (is ▸ fresh).symm.trans there
    have read : (s.addTable p a configPage).tables b = some u := (Function.update_of_ne other ..).trans there
    have did : s.insertTable p a configPage =
        some ((s.addTable p a configPage).writeTable b (some { u with prev := some a })) := by
      rw [State.insertTable, first, State.changePointed, State.changeTable, read]
      rfl
    have still := (Function.update_of_ne other.symm (some { u with prev := some a }) _).trans new
    refine ⟨_, _, did, added.relink (writeTable_relinked read rfl) rfl fun d is => ?_, rfl, rfl, still, rfl⟩
    obtain rfl : a = d := Option.some.inj is
    exact ⟨_, still⟩

theorem Kept.claim {ref : EntryRef} (kept : Kept p s) (first : s.first = some a) (here : s.tables a = some t)
    (free : t.freeList = some ref) (fresh : s.closures c = none) :
    ∃ e, s.claim c = some { s.writeTable a (some (t.claimed ref e)) with
      closures := Function.update s.closures c (some ⟨a, ref, e.trampoline, none⟩) } ∧
      Kept p { s.writeTable a (some (t.claimed ref e)) with
        closures := Function.update s.closures c (some ⟨a, ref, e.trampoline, none⟩) } := by
  obtain ⟨own, _, e, read, sound⟩ := kept.sound.claim here free fresh
  refine ⟨e, claim_eq first here free own read, sound, fun b is => ?_, fun d closure handler live prepared => ?_⟩
  · by_cases same : b = a
    · exact ⟨_, by rw [same]; exact Function.update_self ..⟩
    · obtain ⟨u, there⟩ := kept.first b is
      exact ⟨u, (Function.update_of_ne same ..).trans there⟩
  · obtain ⟨_, new⟩ | ⟨_, live⟩ := update_eq_some.mp live
    · obtain rfl := Option.some.inj new
      cases prepared
    · exact kept.configured d closure handler live prepared

theorem exhausted_eq_true (gone : s.exhausted = some true) :
    s.first = none ∨ ∃ a t, s.first = some a ∧ s.tables a = some t ∧ t.freeList = none := by
  unfold State.exhausted at gone
  split at gone
  · next none_ => exact .inl none_
  · next a first =>
    obtain ⟨t, here, empty⟩ := Option.map_eq_some_iff.mp gone
    exact .inr ⟨a, t, first, here, Option.isNone_iff_eq_none.mp empty⟩

theorem exhausted_eq_false (ready : s.exhausted = some false) :
    ∃ a t ref, s.first = some a ∧ s.tables a = some t ∧ t.freeList = some ref := by
  unfold State.exhausted at ready
  split at ready
  · cases ready
  · next a first =>
    obtain ⟨t, here, some_⟩ := Option.map_eq_some_iff.mp ready
    obtain ⟨ref, free⟩ := Option.isSome_iff_exists.mp (by simpa using some_)
    exact ⟨a, t, ref, first, here, free⟩

theorem Kept.exhausted (kept : Kept p s) : ∃ b, s.exhausted = some b := by
  unfold State.exhausted
  split
  · exact ⟨true, rfl⟩
  · next a first =>
    obtain ⟨t, here⟩ := kept.first a first
    exact ⟨_, by rw [here]; rfl⟩

/-- `ffi_closure_alloc` is never undefined. -/
theorem Kept.alloc {supply : Supply} (kept : Kept p s) (allowed : Allowed p s (.alloc supply)) :
    ∃ s', ffiClosureAlloc p supply s = some s' ∧ Kept p s' := by
  obtain ⟨memory, table⟩ := supply
  obtain ⟨fresh, new⟩ := allowed
  cases memory with
  | none => exact ⟨s, rfl, kept⟩
  | some c =>
    have unused := fresh c rfl
    obtain ⟨full, exhausted⟩ := kept.exhausted
    cases full with
    | false =>
      obtain ⟨a, t, ref, first, here, free⟩ := exhausted_eq_false exhausted
      obtain ⟨e, did, after⟩ := kept.claim first here free unused
      exact ⟨_, by simp [ffiClosureAlloc, exhausted, did], after⟩
    | true =>
      cases table with
      | none => exact ⟨s, by simp [ffiClosureAlloc, exhausted], kept⟩
      | some given =>
        obtain ⟨a, configPage⟩ := given
        obtain ⟨vacant, apart⟩ := new _ rfl
        obtain ⟨s₁, t, inserted, kept₁, first, closures, here, free⟩ := kept.insertTable vacant apart
        obtain ⟨e, did, after⟩ := kept₁.claim first here free (closures ▸ unused)
        exact ⟨_, by simp [ffiClosureAlloc, exhausted, inserted, did], after⟩

/-- Nor is `ffi_prep_closure_loc` of a closure at its code. -/
theorem Kept.prep {closure : Closure} (kept : Kept p s) (live : s.closures c = some closure) (handler : Handler) :
    ∃ s', ffiPrepClosureLoc p c handler closure.code s = some s' ∧ Kept p s' := by
  by_cases refused : handler.cif.sysv = false
  · exact ⟨s, by simp [ffiPrepClosureLoc, refused], kept⟩
  obtain ⟨t, i, placed⟩ := kept.sound.placed c closure live
  have inside := placed.inside kept.sound
  have page := kept.sound.mapped _ t placed.table
  have pointer := p.pointer_pos
  have fits := p.config_fits
  have low : s.Writable p (closure.code - p.pageMaxSize) := ⟨_, page, by omega, by omega⟩
  have high : s.Writable p (closure.code - p.pageMaxSize + p.pointerSize) := ⟨_, page, by omega, by omega⟩
  have big : p.pageMaxSize ≤ closure.code := by omega
  have did : ffiPrepClosureLoc p c handler closure.code s = some { s with
      words := Function.update (Function.update s.words (closure.code - p.pageMaxSize) (some (.closure c)))
        (closure.code - p.pageMaxSize + p.pointerSize) (some (.start handler.cif.start))
      closures := Function.update s.closures c (some { closure with handler := some handler }) } := by
    simp [ffiPrepClosureLoc, refused, live, big, low, high]
  refine ⟨_, did, ?_, kept.first, ?_⟩
  · exact kept.sound.prepare live (some handler)
  · intro d x handler' found prepared
    obtain ⟨rfl, new⟩ | ⟨apart, found⟩ := update_eq_some.mp found
    · obtain rfl := Option.some.inj new
      obtain rfl := Option.some.inj prepared
      have other : closure.code - p.pageMaxSize ≠ closure.code - p.pageMaxSize + p.pointerSize := by omega
      exact ⟨(Function.update_of_ne other ..).trans (Function.update_self ..), Function.update_self ..⟩
    · have away := kept.sound.codes_apart live found apart.symm
      obtain ⟨u, j, at_⟩ := kept.sound.placed d x found
      have inside' := at_.inside kept.sound
      have elsewhere : ∀ word, word = x.code - p.pageMaxSize ∨ word = x.code - p.pageMaxSize + p.pointerSize →
          word ≠ closure.code - p.pageMaxSize + p.pointerSize ∧ word ≠ closure.code - p.pageMaxSize := by
        rintro word (rfl | rfl) <;> omega
      obtain ⟨closure', start⟩ := kept.configured d x handler' found prepared
      obtain ⟨apart₁, apart₂⟩ := elsewhere _ (.inl rfl)
      obtain ⟨apart₃, apart₄⟩ := elsewhere _ (.inr rfl)
      exact ⟨(Function.update_of_ne apart₁ ..).trans ((Function.update_of_ne apart₂ ..).trans closure'),
        (Function.update_of_ne apart₃ ..).trans ((Function.update_of_ne apart₄ ..).trans start)⟩

/-- What taking a table out does besides writing to other tables' links. -/
theorem ffiTrampolineTableFree_eq (did : ffiTrampolineTableFree s a = some s') :
    ∃ s₂ t, Relinked s s₂ ∧ s₂.first = s.first ∧ s₂.pages = s.pages ∧ s₂.tables a = some t ∧
      s' = { s₂.writeTable a none with pages := s₂.pages.erase t.configPage } := by
  simp only [ffiTrampolineTableFree, Option.bind_eq_bind, Option.bind_eq_some_iff] at did
  obtain ⟨t, _, s₁, before, t', here, s₂, after, done⟩ := did
  obtain ⟨one, first₁, pages₁⟩ := changePointed_relinked before fun _ => rfl
  obtain ⟨two, first₂, pages₂⟩ := changePointed_relinked after fun _ => rfl
  obtain ⟨t'', still⟩ := two.allocated here
  have page : t''.configPage = t'.configPage := by
    have same := two.tables a
    rw [still, here, Option.map_some, Option.map_some, Option.some.injEq] at same
    exact (Table.mk.inj same).1
  exact ⟨s₂, t'', one.trans two, first₂.trans first₁, pages₂.trans pages₁, still,
    by rw [page]; exact (Option.some.inj done).symm⟩

theorem bump_eq (did : s.bump a = some s') : Relinked s s' ∧ s'.first = some a ∧ s'.pages = s.pages := by
  simp only [State.bump, Option.bind_eq_bind, Option.bind_eq_some_iff] at did
  obtain ⟨s₁, own, s₂, after, done⟩ := did
  obtain rfl := Option.some.inj done
  obtain ⟨one, _, pages₁⟩ := changeTable_relinked own fun _ => rfl
  obtain ⟨two, _, pages₂⟩ := changePointed_relinked after fun _ => rfl
  exact ⟨one.trans ⟨two.tables, two.closures, two.words⟩, rfl, pages₂.trans pages₁⟩

theorem Kept.released {closure : Closure} (kept : Kept p s) (live : s.closures c = some closure) :
    ∃ t e, s.tables closure.trampolineTable = some t ∧
      s.release closure.trampolineTable closure.trampolineTableEntry =
        some (s.writeTable closure.trampolineTable (some (t.released closure.trampolineTableEntry e))) ∧
      (t.released closure.trampolineTableEntry e).freeCount = t.freeCount + 1 ∧
      Kept p ((s.writeTable closure.trampolineTable (some (t.released closure.trampolineTableEntry e))).forget c) := by
  obtain ⟨t, e, i, here, entry, read, count, sound⟩ := kept.sound.release live
  refine ⟨t, e, here, by rw [entry]; exact release_eq here read, count, sound, fun b is => ?_,
    fun d x handler found prepared => ?_⟩
  · by_cases same : b = closure.trampolineTable
    · exact ⟨_, by rw [same]; exact Function.update_self ..⟩
    · obtain ⟨u, there⟩ := kept.first b is
      exact ⟨u, (Function.update_of_ne same ..).trans there⟩
  · obtain ⟨_, none_⟩ | ⟨_, found⟩ := update_eq_some.mp found
    · cases none_
    · exact kept.configured d x handler found prepared

/-- What `ffi_closure_free` does, once the entry is in the free list. -/
theorem Kept.free (kept : Kept p s) (did : ffiClosureFree p c s = some s') : Kept p s' := by
  simp only [ffiClosureFree, Option.bind_eq_bind, Option.bind_eq_some_iff] at did
  obtain ⟨closure, live, s₁, returned, t₁, read, s₂, moved, done⟩ := did
  obtain ⟨t, e, here, did, _, kept₁⟩ := kept.released live
  obtain rfl := Option.some.inj (did.symm.trans returned)
  obtain rfl : t.released closure.trampolineTableEntry e = t₁ :=
    Option.some.inj ((State.writeTable_self ..).symm.trans read)
  obtain rfl := Option.some.inj done
  unfold State.settle at moved
  split at moved
  · next gone =>
    obtain ⟨s₃, t', relinked, first, pages, there, rfl⟩ := ffiTrampolineTableFree_eq moved
    have kept₃ : Kept p (s₃.forget c) := by
      refine kept₁.relink (relinked.forget c) pages fun b is => ?_
      obtain ⟨u, old⟩ := kept₁.first b (first ▸ is)
      exact relinked.allocated old
    have full : t'.freeCount = p.trampolineCount := by
      have same := relinked.tables closure.trampolineTable
      rw [there, read, Option.map_some, Option.map_some, Option.some.injEq] at same
      exact (Table.mk.inj same).2.2.1.trans gone.1
    refine ⟨kept₃.sound.remove there full, fun b is => ?_, kept₃.configured⟩
    · have other : b ≠ closure.trampolineTable := fun same => gone.2 (first ▸ same ▸ is)
      obtain ⟨u, old⟩ := kept₃.first b is
      exact ⟨u, (Function.update_of_ne other ..).trans old⟩
  · split at moved
    · obtain ⟨relinked, first, pages⟩ := bump_eq moved
      refine kept₁.relink (relinked.forget c) pages fun b is => ?_
      obtain rfl : closure.trampolineTable = b := Option.some.inj (first.symm.trans is)
      exact relinked.allocated read
    · obtain rfl := Option.some.inj moved
      exact kept₁

end

/-! ## Runs -/

theorem kept_step {s s' : State} {event : Event} (kept : Kept p s) (allowed : Allowed p s event)
    (next : step p s event = some s') : Kept p s' := by
  cases event with
  | alloc supply =>
    obtain ⟨_, did, after⟩ := kept.alloc allowed
    obtain rfl := Option.some.inj (did.symm.trans next)
    exact after
  | prep c handler =>
    obtain ⟨closure, live, prepared⟩ := Option.bind_eq_some_iff.mp next
    obtain ⟨_, did, after⟩ := kept.prep live handler
    obtain rfl := Option.some.inj (did.symm.trans prepared)
    exact after
  | free c => exact kept.free next

theorem kept_of_reaches {s : State} (reached : Reaches (step p) (Allowed p) .initial s) : Kept p s :=
  reached.invariant (Kept p) (kept_initial p) fun _ _ _ kept allowed next => kept_step kept allowed next

/-- **Each trampoline leads to its own closure.** Wherever a run leads, the code of a live
closure is in a page of trampolines, a call of it goes to what the closure was last prepared
for, and no other live closure has that code. -/
theorem dispatches {s : State} (reached : Reaches (step p) (Allowed p) .initial s) {c : Address} {closure : Closure}
    (live : s.closures c = some closure) :
    s.Executable p closure.code ∧
      (∀ handler, closure.handler = some handler → s.call p closure.code = some (handler.cif.start, handler)) ∧
      ∀ d other, s.closures d = some other → other.code = closure.code → d = c := by
  have kept := kept_of_reaches reached
  obtain ⟨t, i, placed⟩ := kept.sound.placed c closure live
  have inside := placed.inside kept.sound
  have pointer := p.pointer_pos
  have fits := p.config_fits
  have executable : s.Executable p closure.code := ⟨_, kept.sound.mapped _ t placed.table, by omega, by omega⟩
  refine ⟨executable, fun handler prepared => ?_, fun d other found same => ?_⟩
  · obtain ⟨own, start⟩ := kept.configured c closure handler live prepared
    simp [State.call, executable, own, start, live, prepared]
  · by_contra apart
    have away := kept.sound.codes_apart found live apart
    omega

/-- Two trampolines in a page. -/
def smallPages : Pages := ⟨32, 16, 8, by decide, by decide, by decide, by decide⟩

/-- One trampoline in a page. -/
def singlePages : Pages := ⟨16, 16, 8, by decide, by decide, by decide, by decide⟩

def exampleHandler : Handler := ⟨⟨true, false⟩, 1, 2⟩

/-- Of two closures the second one is prepared. -/
def exampleEvents : List Event :=
  [.alloc ⟨some 10, some (100, 4096)⟩, .alloc ⟨some 11, none⟩, .prep 11 exampleHandler]

theorem example_dispatches : ∃ s, Reaches (step smallPages) (Allowed smallPages) .initial s ∧
    s.call smallPages 4144 = some (.closureSysv, exampleHandler) := by
  obtain ⟨s, reached, found⟩ := exists_reaches (step smallPages) (Allowed smallPages) .initial exampleEvents
    (fun s => decide (s.closures 11 = some ⟨100, ⟨100, 1⟩, 4144, some exampleHandler⟩)) (by decide)
  exact ⟨s, reached, (dispatches reached (of_decide_eq_true found)).2.1 _ rfl⟩

/-- **No entry is lost or given out twice.** Wherever a run leads, the free list of each table
ends, has `free_count` entries, and consists of those that no closure has. -/
theorem free_lists {s : State} (reached : Reaches (step p) (Allowed p) .initial s) {a : Address} {t : Table}
    (here : s.tables a = some t) :
    ∃ free, Chain (t.nextIn a) t.freeList free ∧ t.freeCount = free.length ∧ free.Nodup ∧
      ∀ i < p.trampolineCount, (⟨a, i⟩ ∈ free ↔ Unclaimed s.closures ⟨a, i⟩) := by
  obtain ⟨free, shelf⟩ := (kept_of_reaches reached).sound.shelves a t here
  exact ⟨free, shelf.chain, shelf.count, shelf.chain.nodup, shelf.complement⟩

/-- The first of the two closures is freed. -/
theorem example_free_list : ∃ s t, Reaches (step smallPages) (Allowed smallPages) .initial s ∧
    s.tables 100 = some t ∧ t.freeList = some ⟨100, 0⟩ ∧
      ∃ free, Chain (t.nextIn 100) t.freeList free ∧ t.freeCount = free.length ∧ free.Nodup ∧
        ∀ i < smallPages.trampolineCount, (⟨100, i⟩ ∈ free ↔ Unclaimed s.closures ⟨100, i⟩) := by
  obtain ⟨s, reached, found⟩ := exists_reaches (step smallPages) (Allowed smallPages) .initial
    (exampleEvents ++ [.free 10]) (fun s => (s.tables 100).map Table.freeList = some (some ⟨100, 0⟩)) (by decide)
  obtain ⟨t, here, first⟩ := Option.map_eq_some_iff.mp (of_decide_eq_true found)
  exact ⟨s, t, reached, here, first, free_lists reached here⟩

end NodeFfi.TrampolineTables
