import NodeFfi.TypeInterference

/-! Calls of `Type` one after another: when none of them changes what a later one gives, or
takes a cached descriptor away. `Object.create(ref.types.Object)` without an `ffi_type` does
both. -/
namespace NodeFfi.TypeResolution.Types

open TransitionSystem PrototypeChains PrototypeChains.Chains

variable {T : Types} {slots slots' : Slots} {D D' : Id → Option Value} {o t u x y : Id}

/-- The heap that a call of `Type` leaves. -/
def call (T : Types) (slots : Slots) (t : Id) : Option Slots := some (T.type t slots).2

/-- A call of `Type` on `t` changes no type: all give afterwards what they would have given
before, `t` too, and no `ffi_type` on the prototype chain is replaced by undefined. -/
structure Undisturbed (T : Types) (slots : Slots) (t : Id) : Prop where
  same : ∀ u, (T.type u (T.type t slots).2).1 = (T.type u slots).1
  kept : ∀ x ∈ T.chain t, ∀ v, slots x = .value v → ∃ w, (T.type t slots).2 x = .value w

/-- No call of `Type` on this heap changes a type, nor does one after any other calls. -/
def Stable (T : Types) (slots : Slots) : Prop :=
  ∀ slots', Reaches T.call (fun _ _ => True) slots slots' → ∀ t, T.Undisturbed slots' t

/-- Whatever `Type` has to assign for the type does no harm. -/
def Considerate (T : Types) (slots : Slots) (t : Id) : Prop :=
  (T.object t).indirection = 1 → T.read slots t = none →
    T.Spares (T.meaning slots) slots (T.writes (T.meaning slots) t)

theorem Safe.undisturbed (safe : T.Safe D slots) (t : Id) : T.Undisturbed slots t where
  same := by
    intro u
    rw [(type_quiet u (type_quiet t safe).2.safe).1, (type_quiet u safe).1]
  kept := fun x _ => (type_quiet t safe).2.kept x

/-- Where no type interferes with another, none will. -/
theorem Peaceful.stable (peaceful : T.Peaceful slots) : T.Stable slots := by
  intro slots' reached t
  refine Safe.undisturbed (D := T.meaning slots) ?_ t
  apply reached.invariant (T.Safe (T.meaning slots)) peaceful.safe
  intro before t after safe _ next
  cases next
  exact (type_quiet t safe).2.safe

/-! ## Types whose fields are resolved -/

/-- `Type` has nothing to assign for the type. -/
def Resolved (T : Types) (slots : Slots) (p : Id) : Prop :=
  (T.object p).indirection ≠ 1 ∨ (T.object p).array.isSome ∨ (T.read slots p).isSome

/-- Nor for any of its fields. -/
def FieldsResolved (T : Types) (slots : Slots) (o : Id) : Prop :=
  ∀ fields ∈ (T.object o).fields, ∀ field ∈ fields, T.Resolved slots (element T.object field).1

theorem fieldsResolved_of_bare (unstructured : (T.object o).fields = none) : T.FieldsResolved slots o := by
  rintro fields structured
  rw [unstructured] at structured
  cases structured

theorem type_of_resolved (fits : T.Fits D slots) (resolved : T.Resolved slots p) {depth : Nat} :
    T.typeAt (depth + 1) p slots = (D p, slots) := by
  by_cases single : (T.object p).indirection = 1
  · cases read : T.read slots p with
    | some v => rw [fits.read single read, typeAt_of_read single read]
    | none =>
      rcases resolved with plural | array | found
      · exact absurd single plural
      · rw [typeAt_of_array single read array, fits.shape single read, shape_of_array array]
      · rw [read] at found
        cases found
  · exact typeAt_of_plural fits single

theorem elements_resolved {resolve : Id → Slots → Option Value × Slots} {fields : List Id}
    (resolves : ∀ field ∈ fields,
      resolve (element T.object field).1 slots = (D (element T.object field).1, slots)) :
    T.elements resolve fields slots = (T.shapeAll D fields, slots) := by
  induction fields with
  | nil => rfl
  | cons field rest further =>
    rw [List.forall_mem_cons] at resolves
    rw [elements, shapeAll, resolves.1]
    cases D (element T.object field).1 with
    | none => rfl
    | some v =>
      simp only [further resolves.2, Option.bind_some]
      cases T.shapeAll D rest <;> rfl

/-- Such a type is resolved by its own assignments alone. -/
theorem type_open (fits : T.Fits D slots) (single : (T.object o).indirection = 1)
    (nothing : T.read slots o = none) (settled : T.FieldsResolved slots o) :
    T.type o slots = (T.shape D o, overwrite (T.writes D o) slots) := by
  by_cases bare : (T.object o).array.isSome ∨ (T.object o).fields = none
  · exact typeAt_bare single nothing bare
  · obtain ⟨plain, structured⟩ := not_or.mp bare
    rw [Option.not_isSome_iff_eq_none] at plain
    obtain ⟨fields, structured⟩ := Option.ne_none_iff_exists'.mp structured
    have shaped := shape_of_fields (D := D) plain structured
    have resolves : T.elements (T.typeAt (T.rank o)) fields slots = (T.shapeAll D fields, slots) := by
      apply elements_resolved
      intro field inside
      obtain ⟨depth, deep⟩ := Nat.exists_eq_succ_of_ne_zero
        (Nat.ne_zero_of_lt (T.rank_lt o fields structured field inside))
      rw [deep]
      exact type_of_resolved fits (settled fields structured field inside)
    rw [type, typeAt_of_fields single nothing plain structured, resolves]
    cases stand : T.shapeAll D fields with
    | none =>
      rw [stand] at shaped
      simp [shaped, writes, single, plain, structured, overwrite]
    | some vs =>
      rw [stand] at shaped
      have caches : T.Caches D o (.aggregate vs) :=
        ⟨single, plain, .inl (Option.isSome_of_eq_some structured), shaped⟩
      rw [caches.writes, shaped]
      rfl

theorem type_assigns (fits : T.Fits D slots) (single : (T.object o).indirection = 1)
    (nothing : T.read slots o = none) (settled : T.FieldsResolved slots o) :
    (T.type o slots).2 = overwrite (T.writes D o) slots := by
  rw [type_open fits single nothing settled]

/-- A call that keeps what all types stand for, and takes no descriptor away, does so with
each of its assignments. -/
theorem spares_of_fits (fits : T.Fits D slots) (single : (T.object o).indirection = 1)
    (nothing : T.read slots o = none) (settled : T.FieldsResolved slots o)
    (after : T.Fits D (T.type o slots).2) (undisturbed : T.Undisturbed slots o) :
    T.Spares D slots (T.writes D o) := by
  have kept := undisturbed.kept
  rw [type_assigns fits single nothing settled] at after kept
  have taken : ∀ {u x}, T.Takes (Marked (T.writes D o) slots) u x →
      T.Takes (fun z => (overwrite (T.writes D o) slots z).Own) u x :=
    fun takes => takes.anti fun z => (own_overwrite z).mp
  refine ⟨?_, ?_, ?_⟩
  · intro x inside v there
    obtain ⟨w, found⟩ := kept x (falls_of_hidden inside).2.2 v there
    rw [written inside] at found
    cases found
  · intro x v inside u alone takes
    apply after.read alone
    rw [(taken takes).read, read_own (written inside)]
  · intro x inside u alone takes
    apply after.shape alone
    rw [(taken takes).read, read_own (written inside)]

/-! ## What types resolve to in the runs of a stable heap -/

/-- The heaps that calls of `Type` lead to. -/
abbrev Leads (T : Types) : Slots → Slots → Prop := Reaches T.call fun _ _ => True

theorem Leads.called (reached : T.Leads slots slots') (t : Id) : T.Leads slots (T.type t slots').2 :=
  reached.step trivial rfl

theorem elements_stand {fields : List Id} (reached : T.Leads slots slots')
    (stand : ∀ field ∈ fields, ∀ s, T.Leads slots s →
      (T.type (element T.object field).1 s).1 = D (element T.object field).1) :
    (T.elements T.type fields slots').1 = T.shapeAll D fields := by
  induction fields generalizing slots' with
  | nil => rfl
  | cons field rest further =>
    rw [List.forall_mem_cons] at stand
    have resolved := Leads.called reached (element T.object field).1
    rw [elements, shapeAll, ← stand.1 slots' reached]
    rcases result : T.type (element T.object field).1 slots' with ⟨v, after⟩
    rw [result] at resolved
    cases v with
    | none => rfl
    | some v =>
      have onward := further resolved stand.2
      simp only [Option.bind_some, ← onward]
      cases T.elements T.type rest after with
      | mk vs last => cases vs <;> rfl

/-- A type that reads no `ffi_type` resolves to its shape if its fields do to theirs. -/
theorem type_shape (single : (T.object o).indirection = 1) (nothing : T.read slots o = none)
    (nested : ∀ fields ∈ (T.object o).fields, (T.elements T.type fields slots).1 = T.shapeAll D fields) :
    (T.type o slots).1 = T.shape D o := by
  cases structured : (T.object o).fields with
  | none =>
    have open_type := type_open (fits_meaning T slots) single nothing (fieldsResolved_of_bare structured)
    rw [open_type, shape, shape, structured]
  | some fields =>
    cases array : (T.object o).array with
    | some _ =>
      have array := Option.isSome_of_eq_some array
      rw [type, typeAt_of_array single nothing array, shape_of_array array]
    | none =>
      have stand := nested fields structured
      rw [type_of_fields single nothing array structured, shape_of_fields array structured, ← stand]
      rcases T.elements T.type fields slots with ⟨vs, after⟩
      cases vs <;> rfl

section
variable (stable : T.Stable slots)
include stable

theorem Stable.constant (reached : T.Leads slots slots') (u : Id) :
    (T.type u slots').1 = (T.type u slots).1 := by
  induction reached with
  | start => rfl
  | step before _ next same =>
    cases next
    rw [← same]
    exact (stable _ before _).same u

/-- Wherever calls lead, a type resolves to what it stands for. -/
theorem Stable.resolves (reached : T.Leads slots slots') : (T.type u slots').1 = T.meaning slots u := by
  induction ranked : T.rank u using Nat.strongRecOn generalizing u slots' with
  | ind rank lower =>
    have fits := fits_meaning T slots
    rw [stable.constant reached]
    by_cases single : (T.object u).indirection = 1
    · cases read : T.read slots u with
      | some v => rw [type, typeAt_of_read single read, fits.read single read]
      | none =>
        rw [fits.shape single read]
        apply type_shape single read
        intro fields structured
        apply elements_stand .start
        intro field inside s led
        exact lower _ (ranked ▸ T.rank_lt u fields structured field inside) led rfl
    · rw [type, typeAt_of_plural fits single]

theorem Stable.nested (reached : T.Leads slots slots') (fields : List Id) :
    (T.elements T.type fields slots').1 = T.shapeAll (T.meaning slots) fields :=
  elements_stand reached fun _ _ _ led => stable.resolves led

/-- And all types stand for what they did. -/
theorem Stable.fits (reached : T.Leads slots slots') : T.Fits (T.meaning slots) slots' := by
  intro u
  have resolves := stable.resolves (u := u) reached
  by_cases single : (T.object u).indirection = 1
  · rw [direct, if_neg (by omega), if_pos single, ← resolves]
    cases read : T.read slots' u with
    | some v =>
      rw [type, typeAt_of_read single read]
      rfl
    | none =>
      rw [Option.none_or]
      exact type_shape single read fun fields _ => stable.nested reached fields
  · rw [fits_meaning T slots u, direct, direct, if_neg single, if_neg single]

theorem Stable.spares (single : (T.object o).indirection = 1) (nothing : T.read slots o = none)
    (settled : T.FieldsResolved slots o) :
    T.Spares (T.meaning slots) slots (T.writes (T.meaning slots) o) :=
  spares_of_fits (fits_meaning T slots) single nothing settled
    (stable.fits (Leads.called .start o)) (stable slots .start o)

/-- A descriptor is cached whatever the fields have left. -/
theorem Stable.cached {v : Value} (reached : T.Leads slots slots') (caches : T.Caches (T.meaning slots) y v)
    (nothing : T.read slots' y = none) : (T.type y slots').2 y = .value v := by
  have stands := caches.stands
  cases structured : (T.object y).fields with
  | some fields =>
    have nested := stable.nested reached fields
    rw [shape_of_fields caches.plain structured, ← nested] at stands
    rw [type_of_fields caches.single nothing caches.plain structured]
    rcases result : T.elements T.type fields slots' with ⟨vs, after⟩
    rw [result] at stands
    cases vs with
    | none => cases stands
    | some vs =>
      cases stands
      exact Function.update_self ..
  | none =>
    rw [type_assigns (stable.fits reached) caches.single nothing (fieldsResolved_of_bare structured)]
    rw [written (s := some v) (by rw [caches.writes]; exact List.mem_cons_self)]
    rfl

end

/-! ## What a fallback hides -/

theorem elements_undefined {resolve : Id → Slots → Option Value × Slots} {fields : List Id}
    (still : ∀ field ∈ fields, ∀ slots, slots u = .undefined →
      (resolve (element T.object field).1 slots).2 u = .undefined)
    (there : slots u = .undefined) : (T.elements resolve fields slots).2 u = .undefined := by
  induction fields generalizing slots with
  | nil => exact there
  | cons field rest further =>
    rw [List.forall_mem_cons] at still
    have resolved := still.1 slots there
    rw [elements]
    rcases result : resolve (element T.object field).1 slots with ⟨v, after⟩
    rw [result] at resolved
    cases v with
    | none => exact resolved
    | some v =>
      have onward := further still.2 resolved
      dsimp only
      rcases rest_result : T.elements resolve rest after with ⟨vs, last⟩
      rw [rest_result] at onward
      cases vs <;> exact onward

section
variable (falls : T.Falls u) (missing : T.entry u = none)
include falls missing

theorem assigned_undefined {s : Option Value} (inside : (u, s) ∈ T.writes D o) : s = none := by
  rcases writes_cases T D o with nothing | ⟨v, caches, single⟩ | ⟨_, loop⟩
  · rw [nothing] at inside
    cases inside
  · rw [single] at inside
    cases List.mem_singleton.mp inside
    exact absurd caches falls.not_caches
  · rw [loop] at inside
    rw [← (entry_of_visit inside).1, missing]

/-- A type of the fallback loop for whose name there is no entry is never given a value. -/
theorem undefined_still {depth : Nat} (deep : T.rank o < depth) (there : slots u = .undefined) :
    (T.typeAt depth o slots).2 u = .undefined := by
  induction depth generalizing o slots with
  | zero => cases deep
  | succ depth further =>
    by_cases settled : T.Resolved slots o
    · rw [type_of_resolved (fits_meaning T slots) settled]
      exact there
    · obtain ⟨plural, array, read⟩ := not_or.mp settled |>.imp_right not_or.mp
      rw [not_not] at plural
      rw [Option.not_isSome_iff_eq_none] at array read
      cases structured : (T.object o).fields with
      | some fields =>
        have resolved : (T.elements (T.typeAt depth) fields slots).2 u = .undefined := by
          refine elements_undefined (fun field inside slots there => ?_) there
          have lower := T.rank_lt o fields structured field inside
          exact further (by omega) there
        have apart : u ≠ o := by
          rintro rfl
          rw [falls.unstructured] at structured
          cases structured
        rw [typeAt_of_fields plural read array structured]
        rcases result : T.elements (T.typeAt depth) fields slots with ⟨vs, after⟩
        rw [result] at resolved
        cases vs with
        | none => exact resolved
        | some vs =>
          dsimp only
          rw [Function.update_of_ne apart]
          exact resolved
      | none =>
        have assigns := type_assigns (fits_meaning T slots) plural read (fieldsResolved_of_bare structured)
        rw [typeAt_deep deep (Nat.lt_succ_self _), ← type, assigns]
        by_cases inside : u ∈ (T.writes (T.meaning slots) o).map Prod.fst
        · obtain ⟨⟨u, s⟩, member, rfl⟩ := List.mem_map.mp inside
          rw [written member, assigned_undefined falls missing member]
          rfl
        · rw [overwrite_of_notMem inside]
          exact there

end

/-- Were a type to hide a cached value, it would do so once the value is cached again: the
type's own undefined keeps it from reading anything. -/
theorem Stable.clean (stable : T.Stable slots) (single : (T.object o).indirection = 1)
    (nothing : T.read slots o = none) (settled : T.FieldsResolved slots o)
    (inside : (x, none) ∈ T.writes (T.meaning slots) o) (alone : (T.object u).indirection = 1)
    (takes : T.Takes (Marked (T.writes (T.meaning slots) o) slots) u x) :
    T.CleanPath (T.meaning slots) u := by
  intro y hides v caches
  obtain ⟨falls, loop, passed⟩ := falls_of_hidden hides
  have unstructured : ∀ {s}, T.FieldsResolved s u := fieldsResolved_of_bare falls.unstructured
  have first : (u, none) ∈ T.writes (T.meaning slots) u := by
    rw [loop] at hides ⊢
    exact visit_first hides
  have missing : T.entry u = none := by
    rw [loop] at first
    exact (entry_of_visit first).1
  -- `o` hides from `u` what it reads, so `u` hides what `y` has; `y` caches it again.
  have led₁ : T.Leads slots (T.type o slots).2 := Leads.called .start o
  have assigns₁ := type_assigns (fits_meaning T slots) single nothing settled
  have read₁ : T.read (T.type o slots).2 u = none := by
    have taken : T.Takes (fun z => (overwrite (T.writes (T.meaning slots) o) slots z).Own) u x :=
      takes.anti fun z => (own_overwrite z).mp
    rw [assigns₁, taken.read, read_own (written inside)]
  generalize (T.type o slots).2 = s₁ at led₁ read₁
  have led₂ := Leads.called led₁ u
  have assigns₂ := type_assigns (stable.fits led₁) alone read₁ unstructured
  have here₂ : (T.type u s₁).2 u = .undefined := by rw [assigns₂, written first]; rfl
  have read₂ : T.read (T.type u s₁).2 y = none := by rw [assigns₂, read_own (written hides)]
  generalize (T.type u s₁).2 = s₂ at led₂ here₂ read₂
  have led₃ := Leads.called led₂ y
  have cached := stable.cached led₂ caches read₂
  have here₃ : (T.type y s₂).2 u = .undefined :=
    undefined_still falls missing (Nat.lt_succ_self _) here₂
  generalize (T.type y s₂).2 = s₃ at led₃ cached here₃
  obtain ⟨w, kept⟩ := (stable s₃ led₃ u).kept y passed v cached
  rw [type_assigns (stable.fits led₃) alone (read_own (v := none) here₃) unstructured, written hides] at kept
  cases kept

/-- On a stable heap a type whose fields are resolved does no harm. -/
theorem Stable.harmless (stable : T.Stable slots) (single : (T.object o).indirection = 1)
    (nothing : T.read slots o = none) (settled : T.FieldsResolved slots o) :
    T.Harmless (T.meaning slots) slots (T.writes (T.meaning slots) o) :=
  { stable.spares single nothing settled with
    clean := fun _ inside _ alone takes => stable.clean single nothing settled inside alone takes }

/-! ## One call -/

section
variable (bare : ∀ o, (T.object o).fields = none)
include bare

theorem type_meaning (o : Id) (slots : Slots) : (T.type o slots).1 = T.meaning slots o := by
  have fits := fits_meaning T slots
  by_cases settled : T.Resolved slots o
  · rw [type, type_of_resolved fits settled]
  · obtain ⟨plural, _, read⟩ := not_or.mp settled |>.imp_right not_or.mp
    rw [not_not] at plural
    rw [Option.not_isSome_iff_eq_none] at read
    rw [type_open fits plural read (fieldsResolved_of_bare (bare o)), fits.shape plural read]

theorem Undisturbed.considerate (undisturbed : T.Undisturbed slots t) : T.Considerate slots t := by
  intro single nothing
  have still : T.meaning slots = T.meaning (T.type t slots).2 := by
    funext u
    rw [← type_meaning bare, ← type_meaning bare, undisturbed.same u]
  refine spares_of_fits (fits_meaning T slots) single nothing (fieldsResolved_of_bare (bare t)) ?_ undisturbed
  rw [still]
  exact fits_meaning T _

theorem Considerate.undisturbed (considerate : T.Considerate slots t) : T.Undisturbed slots t := by
  have fits := fits_meaning T slots
  by_cases settled : T.Resolved slots t
  · have quiet : (T.type t slots).2 = slots := by rw [type, type_of_resolved fits settled]
    exact ⟨fun u => by rw [quiet], fun x _ v there => ⟨v, by rw [quiet, there]⟩⟩
  · obtain ⟨plural, _, read⟩ := not_or.mp settled |>.imp_right not_or.mp
    rw [not_not] at plural
    rw [Option.not_isSome_iff_eq_none] at read
    have spares := considerate plural read
    have still := (fits_overwrite spares fits).unique (fits_meaning T _)
    have after := type_assigns fits plural read (fieldsResolved_of_bare (bare t))
    constructor
    · intro u
      rw [after, type_meaning bare, type_meaning bare, ← still]
    · intro x _ v there
      rw [after]
      exact kept_overwrite spares there

end

/-- **Where no type interferes with another, none ever will.** That is needed of every type
whose fields are resolved; and of a single call among types without fields it is exactly
that what is assigned spares all types. -/
theorem stable_of_peaceful (T : Types) (slots : Slots) :
    (T.Peaceful slots → T.Stable slots) ∧
      (T.Stable slots → ∀ o, (T.object o).indirection = 1 → T.read slots o = none →
        T.FieldsResolved slots o → T.Harmless (T.meaning slots) slots (T.writes (T.meaning slots) o)) ∧
      ((∀ o, (T.object o).fields = none) → ∀ t, T.Undisturbed slots t ↔ T.Considerate slots t) := by
  refine ⟨?_, ?_, ?_⟩
  · exact fun peaceful => peaceful.stable
  · exact fun stable o single nothing settled => stable.harmless single nothing settled
  · exact fun bare t => ⟨Undisturbed.considerate bare, Considerate.undisturbed bare⟩

/-- The names that `FFI_TYPES` has entries for. -/
def ftmap : List Name :=
  ["void", "uint8", "int8", "uint16", "int16", "uint32", "int32", "uint64", "int64", "uchar", "char",
    "ushort", "short", "uint", "int", "float", "double", "pointer", "ulonglong", "longlong"]

/-- The third object is made by `Object.create` from a built-in type of this name; the
first is `Object.prototype`. -/
def created (name : Name) : Types where
  proto
    | 1 => some 0
    | 2 => some 1
    | _ => none
  chain
    | 1 => [1, 0]
    | 2 => [2, 1, 0]
    | o => [o]
  chain_eq
    | 0 | 1 | 2 | _ + 3 => rfl
  object
    | 1 | 2 => ⟨1, some name, none, none⟩
    | _ => ⟨0, none, none, none⟩
  rank _ := 0
  rank_lt
    | 0 | 1 | 2 | _ + 3 => nofun
  FFI_TYPES := fun name => ftmap.idxOf? name
  pointer := 17

/-- The built-in type's `ffi_type`; that of the other is set to undefined, as in the tests. -/
def uncached (ffi_type : Nat) : Slots
  | 1 => .value (.given ffi_type)
  | 2 => .undefined
  | _ => .absent

/-- Made from `Object`, it loses `Object` its `ffi_type`. -/
theorem object_lost : ¬ (created "Object").Undisturbed (uncached 17) 2 := by
  intro undisturbed
  obtain ⟨w, kept⟩ := undisturbed.kept 1 (by decide) (.given 17) rfl
  have lost : ((created "Object").type 2 (uncached 17)).2 1 = .undefined := by rfl
  rw [lost] at kept
  cases kept

/-- Made from `void`, it disturbs nothing. -/
theorem void_stable : (created "void").Stable (uncached 0) := by
  apply (stable_of_peaceful _ _).1
  intro o single nothing
  match o with
  | 2 =>
    apply harmless_value (v := .given 0)
    intro u alone takes
    match u with
    | 1 => rfl
    | 2 => rfl
  | 1 => cases nothing

end NodeFfi.TypeResolution.Types
