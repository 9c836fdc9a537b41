import NodeFfi.VariadicSoundness
import Mathlib.Data.List.Dedup
import Mathlib.Data.List.Perm.Lattice

/-! Runs of `getId` over types that are created, some of them from others, as it is
called. The ids it reports identify their types until the 65536th type is numbered
and the counter, truncated to 32 bits, starts over. -/
namespace NodeFfi.Variadic

open TransitionSystem

/-- The counter is cut to 32 bits: 2^16 types later, the same id comes again. -/
theorem idString_wraps (counter : Nat) : idString (counter + 0x10000) = idString counter := by
  have product : (counter + 0x10000) * 0x10000 = counter * 0x10000 + 2 ^ 32 := by omega
  have same : BitVec.ofNat 32 ((counter + 0x10000) * 0x10000) = BitVec.ofNat 32 (counter * 0x10000) := by
    apply BitVec.eq_of_toNat_eq
    rw [BitVec.toNat_ofNat, BitVec.toNat_ofNat, product, Nat.add_mod_right]
  rw [idString, idString, idNumber, idNumber, same]

theorem idString_inj {c d : Nat} (bounded_c : c < 0x10000) (bounded_d : d < 0x10000)
    (same : idString c = idString d) : c = d := by
  have lists : [c] = [d] := by
    apply joined_inj (by simpa using bounded_c) (by simpa using bounded_d)
    · exact List.isChain_singleton c
    · exact List.isChain_singleton d
    · simpa [joined] using same
  exact List.head_eq_of_cons_eq lists

/-- No two types have the same id of their own. -/
def Types.Distinct (types : Types) : Prop :=
  ∀ t u id, types.ffiId t = some id → types.ffiId u = some id → t = u

section
variable {types : Types}

theorem Types.Numbered.known (numbered : types.Numbered) {t : TypeRef} {id : List Char}
    (own : types.ffiId t = some id) :
    t ∈ types.numbered ∧ id = idString (types.numbered.idxOf t) := by
  rw [numbered.ids] at own
  obtain ⟨known, own⟩ := Option.ite_none_right_eq_some.mp own
  exact ⟨known, (Option.some.inj own).symm⟩

theorem Types.Numbered.nth (numbered : types.Numbered) {n : Nat} (inside : n < types.numbered.length) :
    types.ffiId types.numbered[n] = some (idString n) := by
  rw [numbered.ids, if_pos (List.getElem_mem inside), numbered.nodup.idxOf_getElem]

/-- **Own ids tell types apart exactly as long as no more than 2^16 are numbered.** -/
theorem Types.Numbered.distinct_iff (numbered : types.Numbered) :
    types.Distinct ↔ types.numbered.length ≤ 0x10000 := by
  constructor
  · intro distinct
    by_contra few
    have many : 0x10000 < types.numbered.length := Nat.lt_of_not_le few
    have first := numbered.nth (Nat.zero_lt_of_lt many)
    have later := (numbered.nth many).trans (congrArg some (idString_wraps 0))
    have same := (numbered.nodup.getElem_inj_iff).mp (distinct _ _ _ first later)
    cases same
  · intro few t u id own_t own_u
    obtain ⟨known_t, id_t⟩ := numbered.known own_t
    obtain ⟨known_u, id_u⟩ := numbered.known own_u
    have bounded : ∀ {v : TypeRef}, v ∈ types.numbered → types.numbered.idxOf v < 0x10000 :=
      fun known => Nat.lt_of_lt_of_le (List.idxOf_lt_length_of_mem known) few
    apply (List.idxOf_inj known_t).mp
    apply idString_inj (bounded known_t) (bounded known_u)
    rw [← id_t, ← id_u]

end

/-- The generators' types have distinct ids until they have numbered 2^16 of them. -/
theorem distinct_of_reaches {names : String → Option Naming} {existing : Nat} {s : State}
    (reached : Reaches (Variadic.step names) (fun _ _ => True) (Variadic.initial existing) s) :
    s.types.Distinct ↔ s.types.counter ≤ 0x10000 := by
  have numbered := (sound_of_reaches reached).numbered
  rw [numbered.counter]
  exact numbered.distinct_iff

/-- An id that `getId` returned for a type. -/
structure Report where
  type : TypeRef
  id : List Char
  deriving DecidableEq, Repr

/-- The types that exist, and what `getId` has returned so far. -/
structure Identities where
  types : Types
  reports : List Report

/-- `Object.create(proto)`, or a new object with no type for a prototype; or a call
of `getId`. -/
inductive Inquiry
  | create (proto : Option TypeRef)
  | getId (type : TypeRef)
  deriving DecidableEq, Repr

namespace Identities

/-- `existing` types, none of them numbered. -/
def initial (existing : Nat) : Identities := ⟨(Variadic.initial existing).types, []⟩

/-- Only objects that exist have types derived from them or are given to `getId`. -/
def step (s : Identities) : Inquiry → Option Identities
  | .create proto =>
    if ∀ parent ∈ proto, parent < s.types.allocated then
      some { s with types := s.types.create proto }
    else none
  | .getId type =>
    if type < s.types.allocated then
      let (id, types) := Variadic.getId s.types type
      some ⟨types, s.reports ++ [⟨type, id⟩]⟩
    else none

/-- The types that were given to `getId`, each of them once. -/
def asked (s : Identities) : List TypeRef := (s.reports.map Report.type).dedup

/-- **What an id is good for.** Different types have been given different ids, every
id is still what its type has, and no type was given what its prototype, or one
further up, goes by. -/
structure Identifying (s : Identities) : Prop where
  distinct : ∀ a ∈ s.reports, ∀ b ∈ s.reports, a.type ≠ b.type → a.id ≠ b.id
  stable : ∀ a ∈ s.reports, s.types.ffiId a.type = some a.id
  underived : ∀ a ∈ s.reports, ∀ parent, s.types.proto a.type = some parent →
    ∀ depth, s.types.readId depth parent ≠ some a.id

/-- Every report is of a numbered type and of its number, every numbered type was
reported, and types are derived from older ones only. -/
structure Kept (s : Identities) : Prop where
  numbered : s.types.Numbered
  reported : ∀ a ∈ s.reports,
    a.type ∈ s.types.numbered ∧ a.id = idString (s.types.numbered.idxOf a.type)
  given : ∀ t ∈ s.types.numbered, ∃ a ∈ s.reports, a.type = t
  older : ∀ t parent, s.types.proto t = some parent → parent < t

theorem kept_initial (existing : Nat) : Kept (initial existing) where
  numbered := ⟨rfl, List.nodup_nil, by simp [initial, Variadic.initial]⟩
  reported := by simp [initial]
  given := by simp [initial, Variadic.initial]
  older := by simp [initial, Variadic.initial]

theorem proto_of_getId (types : Types) (t : TypeRef) : (getId types t).2.proto = types.proto := by
  unfold getId
  dsimp only
  split <;> rfl

theorem allocated_of_getId (types : Types) (t : TypeRef) :
    (getId types t).2.allocated = types.allocated := by
  unfold getId
  dsimp only
  split <;> rfl

variable {s t : Identities}

theorem Kept.create (kept : Kept s) {proto : Option TypeRef}
    (created : ∀ parent ∈ proto, parent < s.types.allocated) :
    Kept { s with types := s.types.create proto } where
  numbered := ⟨kept.numbered.counter, kept.numbered.nodup, kept.numbered.ids⟩
  reported := kept.reported
  given := kept.given
  older := by
    intro u parent derived
    by_cases new : u = s.types.allocated
    · subst u
      exact created parent (by simpa [Types.create] using derived)
    · exact kept.older u parent (by simpa [Types.create, Function.update_of_ne new] using derived)

/-- What `getId` does to the list of numbered types: nothing, or one is added. -/
theorem numbered_of_getId {types : Types} (numbered : types.Numbered) (t : TypeRef) :
    (getId types t).2.numbered =
      if t ∈ types.numbered then types.numbered else types.numbered ++ [t] := by
  by_cases known : t ∈ types.numbered
  · rw [getId_of_numbered numbered known, if_pos known]
  · rw [getId_of_fresh numbered known,
      getId_of_numbered (number_numbered numbered known) (by simp [Types.number]), if_neg known]
    rfl

theorem Kept.getId (kept : Kept s) (t : TypeRef) :
    Kept ⟨(getId s.types t).2, s.reports ++ [⟨t, (getId s.types t).1⟩]⟩ := by
  have named := getId_named kept.numbered t
  refine ⟨named.numbered, ?_, ?_, ?_⟩
  · intro a inside
    rcases List.mem_append.mp inside with before | new
    · obtain ⟨known, id⟩ := kept.reported a before
      obtain ⟨more, grows⟩ := named.grows
      exact ⟨named.grows.subset known, by rw [id, ← grows, List.idxOf_append_of_mem known]⟩
    · rw [List.mem_singleton.mp new]
      exact ⟨named.known t (List.mem_singleton_self t),
        by simpa [keyOf, joined] using named.text⟩
  · intro u listed
    rw [numbered_of_getId kept.numbered] at listed
    split at listed
    · obtain ⟨a, before, same⟩ := kept.given u listed
      exact ⟨a, List.mem_append_left _ before, same⟩
    · rcases List.mem_append.mp listed with old | new
      · obtain ⟨a, before, same⟩ := kept.given u old
        exact ⟨a, List.mem_append_left _ before, same⟩
      · rw [List.mem_singleton.mp new]
        exact ⟨_, List.mem_append_right _ (List.mem_singleton_self _), rfl⟩
  · intro u parent derived
    rw [proto_of_getId] at derived
    exact kept.older u parent derived

/-- **One step keeps the invariant.** -/
theorem kept_step {inquiry : Inquiry} (kept : Kept s) (next : step s inquiry = some t) :
    Kept t := by
  cases inquiry with
  | create proto =>
    obtain ⟨created, next⟩ := Option.ite_none_right_eq_some.mp next
    cases next
    exact kept.create created
  | getId type =>
    obtain ⟨_, next⟩ := Option.ite_none_right_eq_some.mp next
    cases next
    exact kept.getId type

theorem kept_of_reaches {existing : Nat}
    (reached : Reaches step (fun _ _ => True) (initial existing) s) : Kept s :=
  reached.invariant Kept (kept_initial existing) fun _ _ _ kept _ next => kept_step kept next

/-! ## When the ids identify -/

/-- A type's id, read through its prototypes, is the own id of a type that is not
younger. -/
theorem Kept.owner (kept : Kept s) {depth : Nat} {u : TypeRef} {id : List Char}
    (read : s.types.readId depth u = some id) : ∃ owner ≤ u, s.types.ffiId owner = some id := by
  induction depth generalizing u with
  | zero => cases read
  | succ depth further =>
    rcases Option.or_eq_some_iff.mp read with own | ⟨_, inherited⟩
    · exact ⟨u, Nat.le_refl u, own⟩
    · obtain ⟨parent, derived, read⟩ := Option.bind_eq_some_iff.mp inherited
      obtain ⟨owner, lower, own⟩ := further read
      exact ⟨owner, Nat.le_trans lower (Nat.le_of_lt (kept.older u parent derived)), own⟩

theorem Kept.own (kept : Kept s) {a : Report} (inside : a ∈ s.reports) :
    s.types.ffiId a.type = some a.id := by
  obtain ⟨known, id⟩ := kept.reported a inside
  rw [kept.numbered.ids, if_pos known, id]

/-- A type that has an id was given it by a report. -/
theorem Kept.source (kept : Kept s) {t : TypeRef} {id : List Char}
    (own : s.types.ffiId t = some id) : ∃ a ∈ s.reports, a.type = t ∧ a.id = id := by
  have known : t ∈ s.types.numbered := by
    by_contra fresh
    rw [kept.numbered.ids, if_neg fresh] at own
    cases own
  obtain ⟨a, inside, rfl⟩ := kept.given t known
  exact ⟨a, inside, rfl, Option.some.inj ((kept.own inside).symm.trans own)⟩

/-- Each numbered type was asked for, and no other. -/
theorem Kept.length_asked (kept : Kept s) : s.asked.length = s.types.numbered.length := by
  apply List.Perm.length_eq
  apply (List.perm_ext_iff_of_nodup (List.nodup_dedup _) kept.numbered.nodup).mpr
  intro t
  rw [List.mem_dedup, List.mem_map]
  constructor
  · rintro ⟨a, inside, rfl⟩
    exact (kept.reported a inside).1
  · intro listed
    exact kept.given t listed

theorem Kept.identifying (kept : Kept s) (apart : s.types.Distinct) : Identifying s where
  distinct := by
    intro a inside_a b inside_b different same
    apply different
    exact apart _ _ _ (kept.own inside_a) (same ▸ kept.own inside_b)
  stable := fun a inside => kept.own inside
  underived := by
    intro a inside parent derived depth read
    obtain ⟨owner, lower, own⟩ := kept.owner read
    have older : owner < a.type := Nat.lt_of_le_of_lt lower (kept.older a.type parent derived)
    exact Nat.ne_of_lt older (apart _ _ _ own (kept.own inside))

theorem Kept.distinct (kept : Kept s) (identifying : Identifying s) : s.types.Distinct := by
  intro t u id own_t own_u
  obtain ⟨a, inside_a, rfl, id_a⟩ := kept.source own_t
  obtain ⟨b, inside_b, rfl, id_b⟩ := kept.source own_u
  by_contra different
  exact identifying.distinct a inside_a b inside_b different (id_a.trans id_b.symm)

/-- **Ids are unique and stable exactly as long as no more than 2^16 types were ever
given to `getId`.** -/
theorem identifying_iff {existing : Nat}
    (reached : Reaches step (fun _ _ => True) (initial existing) s) :
    Identifying s ↔ s.asked.length ≤ 0x10000 := by
  have kept := kept_of_reaches reached
  rw [kept.length_asked, ← kept.numbered.distinct_iff]
  exact ⟨kept.distinct, kept.identifying⟩

theorem step_getId {t : TypeRef} (allocated : t < s.types.allocated) :
    step s (.getId t) =
      some ⟨(Variadic.getId s.types t).2, s.reports ++ [⟨t, (Variadic.getId s.types t).1⟩]⟩ :=
  if_pos allocated

/-- What a run of `getId` over the first `n` types reports. -/
theorem reaches_all (existing n : Nat) (enough : n ≤ existing) :
    ∃ s, Reaches step (fun _ _ => True) (initial existing) s ∧ s.types.allocated = existing ∧
      s.types.numbered = List.range n ∧
      s.reports = (List.range n).map fun t => ⟨t, idString t⟩ := by
  induction n with
  | zero => exact ⟨_, .start, rfl, rfl, rfl⟩
  | succ n before =>
    obtain ⟨s, reached, allocated, numbered, reports⟩ := before (by omega)
    have kept := kept_of_reaches reached
    have fresh : n ∉ s.types.numbered := by simp [numbered]
    have listed : (Variadic.getId s.types n).2.numbered = List.range (n + 1) := by
      rw [numbered_of_getId kept.numbered, if_neg fresh, numbered, List.range_succ]
    have index : (List.range (n + 1)).idxOf n = n := by
      rw [List.range_succ, List.idxOf_append_of_notMem (by simp), List.length_range,
        List.idxOf_cons_self, Nat.add_zero]
    have id : (Variadic.getId s.types n).1 = idString n := by
      have given := ((kept.getId n).reported ⟨n, _⟩ (List.mem_append_right _ (List.mem_singleton_self _))).2
      rwa [listed, index] at given
    have present : n < s.types.allocated := by rw [allocated]; exact enough
    refine ⟨_, reached.step trivial (step_getId present), ?_, ?_, ?_⟩
    · exact (allocated_of_getId s.types n).trans allocated
    · exact listed
    · simp only [reports, List.range_succ, List.map_append, id, List.map_cons, List.map_nil]

/-- One type is derived from another that has an id, and both go by their own. -/
theorem identifying_derived :
    ∃ s, Reaches step (fun _ _ => True) (initial 1) s ∧
      s.reports = [⟨0, ['0']⟩, ⟨1, "10000".toList⟩] ∧ Identifying s := by
  obtain ⟨s, reached, found⟩ := exists_reaches step (fun _ _ => True) (initial 1)
    [.getId 0, .create (some 0), .getId 1]
    (fun s => s.reports = [⟨0, ['0']⟩, ⟨1, "10000".toList⟩]) (by decide)
  have reports := of_decide_eq_true found
  refine ⟨s, reached, reports, (identifying_iff reached).mpr ?_⟩
  rw [asked, reports]
  decide

/-- The 65537th type is given the id of the first. -/
theorem id_comes_again :
    ∃ s, Reaches step (fun _ _ => True) (initial 0x10001) s ∧
      ⟨0, ['0']⟩ ∈ s.reports ∧ ⟨0x10000, ['0']⟩ ∈ s.reports ∧ ¬ Identifying s := by
  obtain ⟨s, reached, _, _, reports⟩ := reaches_all 0x10001 0x10001 (Nat.le_refl _)
  have again : idString 0x10000 = ['0'] := (idString_wraps 0).trans idString_zero
  have first : ⟨0, ['0']⟩ ∈ s.reports := by
    rw [reports]
    exact List.mem_map.mpr ⟨0, List.mem_range.mpr (by decide), rfl⟩
  have last : ⟨0x10000, ['0']⟩ ∈ s.reports := by
    rw [reports]
    exact List.mem_map.mpr ⟨0x10000, List.mem_range.mpr (by decide), by rw [again]⟩
  refine ⟨s, reached, first, last, ?_⟩
  intro identifying
  exact identifying.distinct _ first _ last (by decide) rfl

end Identities
end NodeFfi.Variadic
