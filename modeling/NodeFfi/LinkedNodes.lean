import Mathlib.Data.List.Nodup
import Mathlib.Logic.Function.Basic

/-! Nodes in memory that pointers make into lists: chains, which a free list is, and doubly
linked lists, from which a node can be taken out. The null pointer is `none`, and reading
what is not allocated gives nothing. -/
namespace LinkedNodes

variable {α : Type*}

/-! ## Chains -/

/-- From `start` on `next` leads through `l` to the null pointer. -/
inductive Chain (next : α → Option (Option α)) : Option α → List α → Prop
  | nil : Chain next none []
  | cons {a : α} {after : Option α} {rest : List α} (found : next a = some after)
      (onward : Chain next after rest) : Chain next (some a) (a :: rest)

section
variable {next next' : α → Option (Option α)} {start : Option α} {l k : List α} {a : α}

/-- There is one chain. -/
theorem Chain.unique (first : Chain next start l) (second : Chain next start k) : l = k := by
  induction first generalizing k with
  | nil =>
    cases second
    rfl
  | cons found _ ih =>
    cases second with
    | cons found' onward =>
      obtain rfl := Option.some.inj (found.symm.trans found')
      rw [ih onward]

theorem Chain.mem_allocated (chain : Chain next start l) (member : a ∈ l) : ∃ after, next a = some after := by
  induction chain with
  | nil => cases member
  | cons found _ ih =>
    rcases List.mem_cons.mp member with rfl | later
    · exact ⟨_, found⟩
    · exact ih later

/-- From each node of a chain on, the chain is the rest of it. -/
theorem Chain.of_mem (chain : Chain next start l) (member : a ∈ l) :
    ∃ k, Chain next (some a) k ∧ k.length ≤ l.length := by
  induction chain with
  | nil => cases member
  | cons found onward ih =>
    rcases List.mem_cons.mp member with rfl | later
    · exact ⟨_, .cons found onward, Nat.le_refl _⟩
    · obtain ⟨k, here, shorter⟩ := ih later
      exact ⟨k, here, Nat.le_succ_of_le shorter⟩

/-- A chain meets nothing twice. -/
theorem Chain.nodup (chain : Chain next start l) : l.Nodup := by
  induction chain with
  | nil => exact List.nodup_nil
  | @cons a after rest found onward ih =>
    refine List.nodup_cons.mpr ⟨fun again => ?_, ih⟩
    obtain ⟨k, here, shorter⟩ := onward.of_mem again
    rw [here.unique (.cons found onward), List.length_cons] at shorter
    exact Nat.not_succ_le_self _ shorter

theorem Chain.congr (chain : Chain next start l) (same : ∀ a ∈ l, next' a = next a) : Chain next' start l := by
  induction chain with
  | nil => exact .nil
  | cons found _ ih =>
    exact .cons ((same _ (by simp)).trans found) (ih fun a member => same a (List.mem_cons_of_mem _ member))

end

/-! ## Doubly linked lists -/

structure Links (α : Type*) where
  prev : Option α
  next : Option α

/-- The nodes of `l` in order, between the nodes `before` and `after`. -/
def Segment (links : α → Option (Links α)) (before : Option α) : List α → Option α → Prop
  | [], _ => True
  | a :: rest, after => links a = some ⟨before, rest.head?.or after⟩ ∧ Segment links (some a) rest after

/-- What is allocated is linked into `l`. -/
structure Threads (links : α → Option (Links α)) (l : List α) : Prop where
  segment : Segment links none l none
  nodup : l.Nodup
  all : ∀ a, links a ≠ none → a ∈ l

section
variable {links links' : α → Option (Links α)} {before before' after after' : Option α} {l xs ys : List α} {a : α}

theorem segment_append : Segment links before (xs ++ ys) after ↔
    Segment links before xs (ys.head?.or after) ∧ Segment links (xs.getLast?.or before) ys after := by
  induction xs generalizing before with
  | nil => simp [Segment]
  | cons x rest ih =>
    rw [List.cons_append, Segment, Segment, ih, and_assoc]
    cases rest <;> simp [List.getLast?_cons]

theorem Segment.congr (segment : Segment links before l after) (same : ∀ a ∈ l, links' a = links a) :
    Segment links' before l after := by
  induction l generalizing before with
  | nil => trivial
  | cons a rest ih =>
    exact ⟨(same a (by simp)).trans segment.1, ih segment.2 fun b member => same b (List.mem_cons_of_mem _ member)⟩

theorem Segment.mem_allocated (segment : Segment links before l after) (member : a ∈ l) : ∃ x, links a = some x := by
  induction l generalizing before with
  | nil => cases member
  | cons b rest ih =>
    rcases List.mem_cons.mp member with rfl | later
    · exact ⟨_, segment.1⟩
    · exact ih segment.2 later

/-- Another node before a segment. -/
theorem Segment.precede (segment : Segment links before (a :: xs) after) (distinct : (a :: xs).Nodup)
    (written : links' a = some ⟨before', xs.head?.or after⟩) (same : ∀ b ≠ a, links' b = links b) :
    Segment links' before' (a :: xs) after :=
  ⟨written, segment.2.congr fun b member => same b fun is => (List.nodup_cons.mp distinct).1 (is ▸ member)⟩

/-- Another node after a segment. -/
theorem Segment.follow (segment : Segment links before (xs ++ [a]) after) (distinct : (xs ++ [a]).Nodup)
    (written : links' a = some ⟨xs.getLast?.or before, after'⟩) (same : ∀ b ≠ a, links' b = links b) :
    Segment links' before (xs ++ [a]) after' := by
  obtain ⟨front, _⟩ := segment_append.mp segment
  refine segment_append.mpr ⟨front.congr fun b member => same b fun is => ?_, ?_⟩
  · have apart := (List.nodup_append.mp distinct).2.2
    exact apart b member a (by simp) is
  · exact ⟨by simpa using written, trivial⟩

end

section
variable {links : α → Option (Links α)} {l : List α} {a b : α} {x : Option α}

/-- Every node but the first is the next one of another. -/
theorem Threads.exists_prev (threads : Threads links l) (member : a ∈ l) (later : l.head? ≠ some a) :
    ∃ b x, b ≠ a ∧ links b = some ⟨x, some a⟩ := by
  obtain ⟨before, after, rfl⟩ := List.append_of_mem member
  rcases List.eq_nil_or_concat before with rfl | ⟨front, b, rfl⟩
  · exact absurd rfl later
  · rw [List.concat_eq_append] at threads
    have apart := (List.nodup_append.mp threads.nodup).2.2 b (by simp) a (by simp)
    exact ⟨b, _, apart, ((segment_append.mp (segment_append.mp threads.segment).1).2).1⟩

/-- The next node of a node has it as the one before. -/
theorem Threads.prev_next (threads : Threads links l) (here : links b = some ⟨x, some a⟩) :
    ∃ y, links a = some ⟨some b, y⟩ := by
  obtain ⟨before, after, rfl⟩ := List.append_of_mem (threads.all b (by simp [here]))
  obtain ⟨_, own, rest⟩ := segment_append.mp threads.segment
  rw [here, Option.some.injEq, Links.mk.injEq, Option.or_none] at own
  cases after with
  | nil => simp at own
  | cons c others =>
    obtain rfl : a = c := Option.some.inj own.2
    exact ⟨_, rest.1⟩

end

variable [DecidableEq α]

/-- Write to a node, unless the pointer is null. -/
def change (links : α → Option (Links α)) (f : Links α → Links α) : Option α → Option (α → Option (Links α))
  | none => some links
  | some a => (links a).map fun x => Function.update links a (some (f x))

/-- Take a node out. -/
def unlink (links : α → Option (Links α)) (a : α) : Option (α → Option (Links α)) := do
  let x ← links a
  let links ← change links (fun y => { y with next := x.next }) x.prev
  let x ← links a
  let links ← change links (fun y => { y with prev := x.prev }) x.next
  return Function.update links a none

/-- Put a node before the first one. -/
def pushFront (links : α → Option (Links α)) (first : Option α) (a : α) : Option (α → Option (Links α)) :=
  change (Function.update links a (some ⟨none, first⟩)) (fun y => { y with prev := some a }) first

section
variable {links links' : α → Option (Links α)} {before after after' : Option α} {l xs ys : List α} {a b : α}

theorem Threads.pushFront (threads : Threads links l) (fresh : links a = none) :
    ∃ links', pushFront links l.head? a = some links' ∧ Threads links' (a :: l) := by
  have out : a ∉ l := fun member => by
    obtain ⟨x, allocated⟩ := threads.segment.mem_allocated member
    cases fresh.symm.trans allocated
  cases l with
  | nil =>
    refine ⟨_, rfl, ⟨Function.update_self .., trivial⟩, List.nodup_singleton a, fun b allocated => ?_⟩
    rcases eq_or_ne b a with rfl | other
    · exact List.mem_singleton_self _
    · rw [Function.update_of_ne other] at allocated
      exact absurd (threads.all b allocated) List.not_mem_nil
  | cons first rest =>
    have other : first ≠ a := fun is => out (is ▸ List.mem_cons_self)
    have read : Function.update links a (some ⟨none, some first⟩) first = some ⟨none, rest.head?.or none⟩ := by
      rw [Function.update_of_ne other]
      exact threads.segment.1
    refine ⟨_, by simp only [LinkedNodes.pushFront, List.head?_cons, change, read, Option.map_some]; rfl,
      ⟨?_, ?_⟩, List.nodup_cons.mpr ⟨out, threads.nodup⟩, fun b allocated => ?_⟩
    · rw [Function.update_of_ne other.symm, Function.update_self]
      rfl
    · have old : Segment (Function.update links a (some ⟨none, some first⟩)) none (first :: rest) none :=
        threads.segment.congr fun b member => Function.update_of_ne (ne_of_mem_of_not_mem member out) ..
      exact old.precede threads.nodup (Function.update_self ..) fun b apart => Function.update_of_ne apart ..
    · rcases eq_or_ne b a with rfl | apart
      · exact List.mem_cons_self
      · rcases eq_or_ne b first with rfl | later
        · simp
        · rw [Function.update_of_ne later, Function.update_of_ne apart] at allocated
          exact List.mem_cons_of_mem _ (threads.all b allocated)

/-- The last node of a segment is made to lead elsewhere. -/
theorem Segment.change_next (segment : Segment links before xs after) (distinct : xs.Nodup) (pointer : Option α) :
    ∃ links', change links (fun y => { y with next := pointer }) xs.getLast? = some links' ∧
      Segment links' before xs pointer ∧ ∀ b ∉ xs, links' b = links b := by
  rcases List.eq_nil_or_concat xs with rfl | ⟨front, last, rfl⟩
  · exact ⟨links, rfl, trivial, fun _ _ => rfl⟩
  · rw [List.concat_eq_append] at *
    have read := (segment_append.mp segment).2.1
    refine ⟨_, by simp only [List.getLast?_append, List.getLast?_singleton, Option.some_or, change, read]; rfl,
      segment.follow distinct (by simp) fun b apart => Function.update_of_ne apart .., fun b out => ?_⟩
    exact Function.update_of_ne (fun is => out (by simp [is])) ..

/-- The first node of a segment is made to come after another one. -/
theorem Segment.change_prev (segment : Segment links before xs after) (distinct : xs.Nodup) (pointer : Option α) :
    ∃ links', change links (fun y => { y with prev := pointer }) xs.head? = some links' ∧
      Segment links' pointer xs after ∧ ∀ b ∉ xs, links' b = links b := by
  cases xs with
  | nil => exact ⟨links, rfl, trivial, fun _ _ => rfl⟩
  | cons first rest =>
    have read := segment.1
    refine ⟨_, by simp only [List.head?_cons, change, read]; rfl,
      segment.precede distinct (by simp) fun b apart => Function.update_of_ne apart .., fun b out => ?_⟩
    exact Function.update_of_ne (fun is => out (by simp [is])) ..

/-- Taking out a node of a list leaves the list of the others. -/
theorem Threads.unlink (threads : Threads links l) (member : a ∈ l) :
    ∃ links', unlink links a = some links' ∧ Threads links' (l.erase a) := by
  obtain ⟨before, after, rfl⟩ := List.append_of_mem member
  obtain ⟨distinctBefore, distinctRest, apart⟩ := List.nodup_append.mp threads.nodup
  obtain ⟨outAfter, distinctAfter⟩ := List.nodup_cons.mp distinctRest
  have outBefore : a ∉ before := fun inside => apart a inside a (by simp) rfl
  have disjoint : ∀ b ∈ before, b ∉ after := fun b inside late => apart b inside b (by simp [late]) rfl
  obtain ⟨front, here, back⟩ := segment_append.mp threads.segment
  rw [Option.or_none, Option.or_none] at here
  obtain ⟨m, first, front', sameFront⟩ := front.change_next distinctBefore after.head?
  have back' : Segment m (some a) after none :=
    back.congr fun b inside => sameFront b fun early => disjoint b early inside
  obtain ⟨m', second, back'', sameBack⟩ := back'.change_prev distinctAfter before.getLast?
  have kept : m a = some ⟨before.getLast?, after.head?⟩ := (sameFront a outBefore).trans here
  have did : LinkedNodes.unlink links a = some (Function.update m' a none) := by
    simp only [LinkedNodes.unlink, here, Option.bind_eq_bind, Option.bind_some, first, kept, second]
    rfl
  have erased : (before ++ a :: after).erase a = before ++ after := by
    rw [List.erase_append_right _ outBefore, List.erase_cons_head]
  refine ⟨_, did, ?_⟩
  rw [erased]
  refine ⟨segment_append.mpr ⟨?_, ?_⟩, List.nodup_append.mpr ⟨distinctBefore, distinctAfter, fun b early c late is =>
    disjoint b early (is ▸ late)⟩, fun b allocated => ?_⟩
  · rw [Option.or_none]
    refine front'.congr fun b inside => ?_
    rw [Function.update_of_ne (ne_of_mem_of_not_mem inside outBefore), sameBack b (disjoint b inside)]
  · rw [Option.or_none]
    exact back''.congr fun b inside => Function.update_of_ne (ne_of_mem_of_not_mem inside outAfter) ..
  · rcases eq_or_ne b a with rfl | other
    · exact absurd (Function.update_self ..) allocated
    · rw [Function.update_of_ne other] at allocated
      by_cases late : b ∈ after
      · exact List.mem_append_right _ late
      by_cases early : b ∈ before
      · exact List.mem_append_left _ early
      rw [sameBack b late, sameFront b early] at allocated
      have inside := threads.all b allocated
      simp only [List.mem_append, List.mem_cons] at inside
      tauto

end

end LinkedNodes
