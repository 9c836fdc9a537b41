import NodeFfi.TypeResolution

/-! Whether resolving one type changes what others stand for. `Type` assigns to the type
itself, from which others inherit, or to a whole prototype chain; the heaps on which no
call does harm, now or after any other calls. -/
namespace NodeFfi.TypeResolution.Types

open TransitionSystem PrototypeChains PrototypeChains.Chains

variable {T : Types} {slots slots' : Slots} {D D' : Id → Option Value} {o p u x y : Id}

/-- None of the objects that the type's own fallback would hide caches a descriptor. -/
def CleanPath (T : Types) (D : Id → Option Value) (u : Id) : Prop :=
  ∀ y, (y, none) ∈ T.writes D u → ∀ v, ¬ T.Caches D y v

/-- An object has an `ffi_type` of its own, or is given one by these assignments. -/
def Marked (writes : List (Id × Option Value)) (slots : Slots) (z : Id) : Prop :=
  z ∈ writes.map Prod.fst ∨ (slots z).Own

/-- Assignments that change nothing for any type: no value is replaced by undefined; a type
that is going to read an assigned value stands for it already; and one from which undefined
is going to hide what it reads stands for its shape all the same. -/
structure Spares (T : Types) (D : Id → Option Value) (slots : Slots)
    (writes : List (Id × Option Value)) : Prop where
  kept : ∀ x, (x, none) ∈ writes → ∀ v, slots x ≠ .value v
  given : ∀ x v, (x, some v) ∈ writes → ∀ u, (T.object u).indirection = 1 →
    T.Takes (Marked writes slots) u x → D u = some v
  hidden : ∀ x, (x, none) ∈ writes → ∀ u, (T.object u).indirection = 1 →
    T.Takes (Marked writes slots) u x → D u = T.shape D u

/-- Moreover a type from which undefined is going to hide what it reads will hide no cached
value when it is resolved itself. -/
structure Harmless (T : Types) (D : Id → Option Value) (slots : Slots)
    (writes : List (Id × Option Value)) : Prop extends T.Spares D slots writes where
  clean : ∀ x, (x, none) ∈ writes → ∀ u, (T.object u).indirection = 1 →
    T.Takes (Marked writes slots) u x → T.CleanPath D u

/-- **No type interferes with another** on this heap: whatever `Type` has to assign for a
type that reads no `ffi_type` does no harm. -/
def Peaceful (T : Types) (slots : Slots) : Prop :=
  ∀ o, (T.object o).indirection = 1 → T.read slots o = none →
    T.Harmless (T.meaning slots) slots (T.writes (T.meaning slots) o)

/-- On this heap types stand for what `D` says, and none interferes with another. -/
structure Safe (T : Types) (D : Id → Option Value) (slots : Slots) : Prop where
  fits : T.Fits D slots
  harmless : ∀ o, (T.object o).indirection = 1 → T.read slots o = none →
    T.Harmless D slots (T.writes D o)

/-- What calls of `Type` do to a heap on which none interferes with another. -/
structure Quiet (T : Types) (D : Id → Option Value) (slots slots' : Slots) : Prop where
  safe : T.Safe D slots'
  own : ∀ x, (slots x).Own → (slots' x).Own
  kept : ∀ x v, slots x = .value v → ∃ w, slots' x = .value w

theorem Quiet.refl (safe : T.Safe D slots) : T.Quiet D slots slots :=
  ⟨safe, fun _ => id, fun _ v there => ⟨v, there⟩⟩

theorem Quiet.trans {slots'' : Slots} (first : T.Quiet D slots slots')
    (second : T.Quiet D slots' slots'') : T.Quiet D slots slots'' where
  safe := second.safe
  own := fun x owned => second.own x (first.own x owned)
  kept := by
    intro x v there
    obtain ⟨w, between⟩ := first.kept x v there
    exact second.kept x w between

/-- What does no harm does none later. -/
theorem Takes.later {writes : List (Id × Option Value)} (takes : T.Takes (Marked writes slots') u x)
    (own : ∀ x, (slots x).Own → (slots' x).Own) : T.Takes (Marked writes slots) u x :=
  Chains.Takes.anti takes fun z => Or.imp_right (own z)

/-- A lone value does no harm to those who stand for it. -/
theorem harmless_value {v : Value} (given : ∀ u, (T.object u).indirection = 1 →
    T.Takes (Marked [(o, some v)] slots) u o → D u = some v) :
    T.Harmless D slots [(o, some v)] := by
  have only : ∀ x s, (x, s) ∈ [(o, some v)] → x = o ∧ s = some v := by
    intro x s inside
    cases List.mem_singleton.mp inside
    exact ⟨rfl, rfl⟩
  refine ⟨⟨?_, ?_, ?_⟩, ?_⟩
  · exact fun x inside => by cases (only x none inside).2
  · intro x w inside u single takes
    obtain ⟨rfl, same⟩ := only x (some w) inside
    cases same
    exact given u single takes
  · exact fun x inside => by cases (only x none inside).2
  · exact fun x inside => by cases (only x none inside).2

/-! ## The assignments of one type -/

section
variable (spares : T.Spares D slots (T.writes D o))

theorem written {s : Option Value} (inside : (x, s) ∈ T.writes D o) :
    overwrite (T.writes D o) slots x = .assign s :=
  overwrite_of_mem inside fun _ there => writes_same inside there

theorem own_overwrite (z : Id) :
    (overwrite (T.writes D o) slots z).Own ↔ Marked (T.writes D o) slots z := by
  by_cases inside : z ∈ (T.writes D o).map Prod.fst
  · obtain ⟨⟨z, s⟩, member, rfl⟩ := List.mem_map.mp inside
    rw [written member]
    constructor
    · intro _
      exact .inl inside
    · intro _
      exact Property.own_assign s
  · rw [overwrite_of_notMem inside]
    exact ⟨.inr, fun marked => marked.resolve_left inside⟩

theorem own_of_marked {z : Id} (owned : (slots z).Own) : (overwrite (T.writes D o) slots z).Own :=
  (own_overwrite z).mpr (.inr owned)

/-- Where a reader of the heap after the assignments takes its `ffi_type` from. -/
theorem takes_marked (takes : T.Takes (fun z => (overwrite (T.writes D o) slots z).Own) u x) :
    T.Takes (Marked (T.writes D o) slots) u x :=
  takes.anti fun z marked => (own_overwrite z).mpr marked

include spares in
theorem kept_overwrite {v : Value} (there : slots x = .value v) :
    ∃ w, overwrite (T.writes D o) slots x = .value w := by
  by_cases inside : x ∈ (T.writes D o).map Prod.fst
  · obtain ⟨⟨x, s⟩, member, rfl⟩ := List.mem_map.mp inside
    rw [written member]
    cases s with
    | none => exact absurd there (spares.kept x member v)
    | some w => exact ⟨w, rfl⟩
  · rw [overwrite_of_notMem inside]
    exact ⟨v, there⟩

include spares in
/-- Types stand for the same after the assignments. -/
theorem fits_overwrite (fits : T.Fits D slots) : T.Fits D (overwrite (T.writes D o) slots) := by
  intro u
  rw [direct]
  split
  · next small => rw [fits u, direct, if_pos small]
  · next large =>
    split
    · next single =>
      have before := fits u
      rw [direct, if_neg large, if_pos single] at before
      rcases T.exists_takes (fun z => (overwrite (T.writes D o) slots z).Own) u with
        ⟨x, takes, owned⟩ | free
      · by_cases inside : x ∈ (T.writes D o).map Prod.fst
        · obtain ⟨⟨x, s⟩, member, rfl⟩ := List.mem_map.mp inside
          rw [takes.read, read_own (written member)]
          cases s with
          | none => 
            rw [Option.none_or]
            exact spares.hidden x member u single (takes_marked takes)
          | some v => exact spares.given x v member u single (takes_marked takes)
        · have same : overwrite (T.writes D o) slots x = slots x := overwrite_of_notMem inside
          have earlier : T.Takes (fun z => (slots z).Own) u x := takes.anti fun z => own_of_marked
          rw [takes.read, read_congr (same ▸ owned) same, ← earlier.read]
          exact before
      · rw [read_none free]
        rw [read_none fun z inside owned => free z inside (own_of_marked owned)] at before
        exact before
    · next more => rw [fits u, direct, if_neg large, if_neg more]

end

theorem cleanPath_of_harmless (single : (T.object p).indirection = 1)
    (harmless : T.Harmless D slots (T.writes D p)) : T.CleanPath D p := by
  intro y inside
  rcases writes_cases T D p with nothing | ⟨v, _, one⟩ | ⟨_, loop⟩
  · rw [nothing] at inside
    cases inside
  · rw [one] at inside
    cases List.mem_singleton.mp inside
  · have first : (p, none) ∈ T.writes D p := by
      rw [loop] at inside ⊢
      exact visit_first inside
    exact harmless.clean p first p single (.refl _ _) y inside

/-- A type that had to be resolved before. -/
theorem harmless_still (safe : T.Safe D slots) (single : (T.object p).indirection = 1) (nothing : T.read slots p = none) :
    T.Harmless D (overwrite (T.writes D o) slots) (T.writes D p) := by
  have before := safe.harmless p single nothing
  refine ⟨⟨?_, ?_, ?_⟩, ?_⟩
  · intro x inside v there
    by_cases assigned : x ∈ (T.writes D o).map Prod.fst
    · obtain ⟨⟨x, s⟩, member, rfl⟩ := List.mem_map.mp assigned
      have some_v := Property.assign_value ((written member).symm.trans there)
      subst some_v
      rcases writes_cases T D o with none_assigned | ⟨w, caches, one⟩ | ⟨_, loop⟩
      · rw [none_assigned] at member
        cases member
      · rw [one] at member
        cases List.mem_singleton.mp member
        exact cleanPath_of_harmless single before o inside v caches
      · rw [loop] at member
        rcases writes_cases T D p with none_assigned | ⟨_, _, one⟩ | ⟨_, loop'⟩
        · rw [none_assigned] at inside
          cases inside
        · rw [one] at inside
          cases List.mem_singleton.mp inside
        · rw [loop'] at inside
          cases (entry_of_visit inside).1.symm.trans (entry_of_visit member).1
    · rw [overwrite_of_notMem assigned] at there
      exact before.kept x inside v there
  · exact fun x v inside u alone takes =>
      before.given x v inside u alone (Takes.later takes fun _ => own_of_marked)
  · exact fun x inside u alone takes =>
      before.hidden x inside u alone (Takes.later takes fun _ => own_of_marked)
  · exact fun x inside u alone takes =>
      before.clean x inside u alone (Takes.later takes fun _ => own_of_marked)

/-- Where undefined hides what a type has read: on the chain of a fallback loop, which has
passed the object and assigns to all that the type's own loop would beyond it. -/
theorem hidden_at (before : (T.read slots p).isSome)
    (nothing : T.read (overwrite (T.writes D o) slots) p = none) :
    ∃ x, T.Takes (fun z => (overwrite (T.writes D o) slots z).Own) p x ∧ (x, none) ∈ T.writes D o ∧
      ∀ w ∈ T.visit (T.chain x), w ∈ T.writes D o := by
  rcases T.exists_takes (fun z => (overwrite (T.writes D o) slots z).Own) p with
    ⟨x, takes, owned⟩ | free
  · rw [takes.read] at nothing
    by_cases assigned : x ∈ (T.writes D o).map Prod.fst
    · obtain ⟨⟨x, s⟩, member, rfl⟩ := List.mem_map.mp assigned
      rw [read_own (written member)] at nothing
      subst nothing
      refine ⟨x, takes, member, ?_⟩
      rcases writes_cases T D o with none_assigned | ⟨_, _, one⟩ | ⟨_, loop⟩
      · rw [none_assigned] at member
        cases member
      · rw [one] at member
        cases List.mem_singleton.mp member
      · rw [loop] at member ⊢
        exact visit_chain member
    · have same : overwrite (T.writes D o) slots x = slots x := overwrite_of_notMem assigned
      have earlier : T.Takes (fun z => (slots z).Own) p x := takes.anti fun z => own_of_marked
      rw [read_congr (same ▸ owned) same, ← earlier.read] at nothing
      rw [nothing] at before
      cases before
  · rw [read_none fun z inside owned => free z inside (own_of_marked owned)] at before
    cases before

/-- A type from which the assignments have hidden what it read. -/
theorem harmless_hidden (safe : T.Safe D slots) (harmless : T.Harmless D slots (T.writes D o))
    (single : (T.object p).indirection = 1) {w : Value} (before : T.read slots p = some w)
    (nothing : T.read (overwrite (T.writes D o) slots) p = none) :
    T.Harmless D (overwrite (T.writes D o) slots) (T.writes D p) := by
  obtain ⟨x, takes, member, beyond⟩ := hidden_at (by rw [before]; rfl) nothing
  have stands := harmless.hidden x member p single (takes_marked takes)
  rw [safe.fits.read single before] at stands
  have passed := takes
  obtain ⟨ahead, split, free⟩ := passed
  have earlier : T.Takes (fun z => (slots z).Own) p x := takes.anti fun z => own_of_marked
  -- A reader that gets as far as `x` read there before what `p` read.
  have reads : ∀ u, (T.object u).indirection = 1 →
      T.Takes (fun z => (overwrite (T.writes D o) slots z).Own) u x → D u = some w := by
    intro u alone reader
    apply safe.fits.read alone
    have same : T.Takes (fun z => (slots z).Own) u x := reader.anti fun z => own_of_marked
    rw [same.read, ← earlier.read, before]
  have past : ∀ {z u}, T.Takes (Marked (T.writes D p) (overwrite (T.writes D o) slots)) u z →
      T.Takes (fun z => (overwrite (T.writes D o) slots z).Own) u z :=
    fun reader => reader.anti fun _ => .inr
  rcases writes_cases T D p with none_assigned | ⟨v, caches, one⟩ | ⟨falls, loop⟩
  · rw [none_assigned]
    exact ⟨⟨nofun, nofun, nofun⟩, nofun⟩
  · rw [caches.stands] at stands
    cases stands
    rw [one] at past ⊢
    exact harmless_value fun u alone reader => reads u alone ((past reader).trans takes)
  · have parts : ∀ {y s}, (y, s) ∈ T.writes D p →
        T.Takes (fun z => (overwrite (T.writes D o) slots z).Own) y x ∧
          ¬ (overwrite (T.writes D o) slots y).Own ∨ (y, s) ∈ T.writes D o := by
      intro y s inside
      rw [loop, split] at inside
      rcases visit_append inside with early | late
      · exact .inl ⟨takes_of_passed split free early, free y early⟩
      · exact .inr (beyond _ late)
    refine ⟨⟨?_, ?_, ?_⟩, ?_⟩
    · intro y inside v there
      rcases parts inside with ⟨_, unowned⟩ | assigned
      · rw [there] at unowned
        exact unowned nofun
      · rw [written assigned] at there
        cases there
    · intro y v inside u alone reader
      rcases parts inside with ⟨onward, _⟩ | assigned
      · rw [loop] at inside
        rw [falls.shape, found_of_visit inside] at stands
        cases stands
        exact reads u alone ((past reader).trans onward)
      · exact harmless.given y v assigned u alone (takes_marked (past reader))
    · intro y inside u alone reader
      rcases parts inside with ⟨onward, _⟩ | assigned
      · exact harmless.hidden x member u alone (takes_marked ((past reader).trans onward))
      · exact harmless.hidden y assigned u alone (takes_marked (past reader))
    · intro y inside u alone reader
      rcases parts inside with ⟨onward, _⟩ | assigned
      · exact harmless.clean x member u alone (takes_marked ((past reader).trans onward))
      · exact harmless.clean y assigned u alone (takes_marked (past reader))

/-- **Assignments that do no harm** leave a heap on which none will. -/
theorem quiet_overwrite (safe : T.Safe D slots) (harmless : T.Harmless D slots (T.writes D o)) :
    T.Quiet D slots (overwrite (T.writes D o) slots) where
  safe :=
    { fits := fits_overwrite harmless.toSpares safe.fits
      harmless := by
        intro p single nothing
        cases before : T.read slots p with
        | none => exact harmless_still safe single before
        | some w => exact harmless_hidden safe harmless single before nothing }
  own := fun _ => own_of_marked
  kept := fun _ _ => kept_overwrite harmless.toSpares

/-! ## A call of `Type` -/

/-- What is assigned with a value only does no harm after other assignments either. -/
theorem Caches.harmless {v : Value} (caches : T.Caches D o v) (before : T.Harmless D slots (T.writes D o))
    (own : ∀ x, (slots x).Own → (slots' x).Own) : T.Harmless D slots' (T.writes D o) := by
  rw [caches.writes] at before ⊢
  apply harmless_value
  intro u single takes
  exact before.given o v List.mem_cons_self u single (Takes.later takes own)

/-- Fields resolve to what they stand for. -/
theorem elements_quiet {resolve : Id → Slots → Option Value × Slots} {fields : List Id}
    (resolves : ∀ field ∈ fields, ∀ slots, T.Safe D slots →
      (resolve (element T.object field).1 slots).1 = D (element T.object field).1 ∧
        T.Quiet D slots (resolve (element T.object field).1 slots).2)
    (safe : T.Safe D slots) :
    (T.elements resolve fields slots).1 = T.shapeAll D fields ∧
      T.Quiet D slots (T.elements resolve fields slots).2 := by
  induction fields generalizing slots with
  | nil => exact ⟨rfl, .refl safe⟩
  | cons field rest further =>
    rw [List.forall_mem_cons] at resolves
    obtain ⟨stands, quiet⟩ := resolves.1 slots safe
    rw [elements, shapeAll, ← stands]
    rcases result : resolve (element T.object field).1 slots with ⟨v, after⟩
    rw [result] at quiet
    cases v with
    | none => exact ⟨rfl, quiet⟩
    | some v =>
      obtain ⟨onward, quiet'⟩ := further resolves.2 quiet.safe
      simp only [Option.bind_some, ← onward]
      rcases rest_result : T.elements resolve rest after with ⟨vs, last⟩
      rw [rest_result] at quiet'
      cases vs with
      | none => exact ⟨rfl, quiet.trans quiet'⟩
      | some vs => exact ⟨rfl, quiet.trans quiet'⟩

/-- **A type resolves to what it stands for**, and leaves a heap on which all types stand
for the same as before. The induction is on how deep structs are nested. -/
theorem typeAt_quiet {depth : Nat} (deep : T.rank o < depth) (safe : T.Safe D slots) :
    (T.typeAt depth o slots).1 = D o ∧ T.Quiet D slots (T.typeAt depth o slots).2 := by
  induction depth generalizing o slots with
  | zero => cases deep
  | succ depth further =>
    by_cases single : (T.object o).indirection = 1
    · cases read : T.read slots o with
      | some ret =>
        rw [typeAt_of_read single read, safe.fits.read single read]
        exact ⟨rfl, .refl safe⟩
      | none =>
        have harmless := safe.harmless o single read
        have stands := safe.fits.shape single read
        by_cases bare : (T.object o).array.isSome ∨ (T.object o).fields = none
        · rw [typeAt_bare (D := D) single read bare, stands]
          exact ⟨rfl, quiet_overwrite safe harmless⟩
        · obtain ⟨plain, structured⟩ := not_or.mp bare
          rw [Option.not_isSome_iff_eq_none] at plain
          obtain ⟨fields, structured⟩ := Option.ne_none_iff_exists'.mp structured
          have nested : ∀ field ∈ fields, T.rank (element T.object field).1 < depth := by
            intro field inside
            have lower := T.rank_lt o fields structured field inside
            omega
          obtain ⟨stand, quiet⟩ := elements_quiet
            (fun field inside slots safe => further (nested field inside) safe) safe
          have whole := shape_of_fields (D := D) plain structured
          rw [← stand] at whole
          rw [typeAt_of_fields single read plain structured]
          rcases result : T.elements (T.typeAt depth) fields slots with ⟨vs, after⟩
          rw [result] at whole quiet
          cases vs with
          | none => exact ⟨by rw [stands, whole]; rfl, quiet⟩
          | some vs =>
            have caches : T.Caches D o (.aggregate vs) :=
              ⟨single, plain, .inl (Option.isSome_of_eq_some structured), whole⟩
            have cached := quiet_overwrite quiet.safe (caches.harmless harmless quiet.own)
            rw [caches.writes] at cached
            exact ⟨by rw [stands, whole]; rfl, quiet.trans cached⟩
    · rw [typeAt_of_plural safe.fits single]
      exact ⟨rfl, .refl safe⟩

theorem type_quiet (o : Id) (safe : T.Safe D slots) :
    (T.type o slots).1 = D o ∧ T.Quiet D slots (T.type o slots).2 :=
  typeAt_quiet (Nat.lt_succ_self _) safe

theorem Peaceful.safe (peaceful : T.Peaceful slots) : T.Safe (T.meaning slots) slots :=
  ⟨fits_meaning T slots, peaceful⟩

end NodeFfi.TypeResolution.Types
