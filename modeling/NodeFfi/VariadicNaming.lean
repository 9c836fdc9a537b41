import NodeFfi.Variadic
import Mathlib.Data.List.Nodup

/-! Keys of lists of types, and what the functions that coerce and number types do to
the types that exist: they number more of them, and the ids they return join to the
key of the types they were asked for. -/
namespace NodeFfi.Variadic

/-- The key that `types` have once they are numbered. -/
def keyOf (numbered types : List TypeRef) : List Char := joined (types.map numbered.idxOf)

theorem keyOf_append (numbered types others : List TypeRef) :
    keyOf numbered (types ++ others) = keyOf numbered types ++ keyOf numbered others := by
  simp [keyOf, joined]

/-- Types that are numbered keep their numbers, and lists of them their keys. -/
theorem keyOf_grows {numbered later types : List TypeRef} (grows : numbered <+: later)
    (known : ∀ t ∈ types, t ∈ numbered) : keyOf later types = keyOf numbered types := by
  obtain ⟨more, rfl⟩ := grows
  unfold keyOf
  congr 1
  apply List.map_congr_left
  intro t inside
  exact List.idxOf_append_of_mem (known t inside)

/-- Every numbered type has its id, no other type has one, and none is numbered twice. -/
structure Types.Numbered (types : Types) : Prop where
  counter : types.counter = types.numbered.length
  nodup : types.numbered.Nodup
  ids : ∀ t, types.ffiId t =
    if t ∈ types.numbered then some (idString (types.numbered.idxOf t)) else none

/-- From `before` to `after`, ids were looked up that join to `text`: those of `types`. -/
structure Named (before after : Types) (types : List TypeRef) (text : List Char) : Prop where
  numbered : after.Numbered
  grows : before.numbered <+: after.numbered
  known : ∀ t ∈ types, t ∈ after.numbered
  text : text = keyOf after.numbered types

section
variable {names : String → Option Naming} {types before middle after : Types}
  {argTypes others : List TypeRef} {text more : List Char}

theorem Named.refl (numbered : types.Numbered) : Named types types [] [] :=
  ⟨numbered, List.prefix_rfl, by simp, rfl⟩

theorem Named.append (first : Named before middle argTypes text)
    (second : Named middle after others more) :
    Named before after (argTypes ++ others) (text ++ more) where
  numbered := second.numbered
  grows := first.grows.trans second.grows
  known := by
    intro t inside
    rcases List.mem_append.mp inside with left | right
    · exact second.grows.subset (first.known t left)
    · exact second.known t right
  text := by
    rw [keyOf_append, keyOf_grows second.grows first.known, ← first.text, ← second.text]

variable (names) in
/-- Creating a type, by whatever means, numbers none. -/
theorem coerceType_named (numbered : types.Numbered) (arg : TypeArg) :
    Named types (coerceType names types arg).2 [] [] := by
  unfold coerceType
  split
  · exact .refl numbered
  · split
    · exact .refl numbered
    · exact .refl numbered
    · exact ⟨⟨numbered.counter, numbered.nodup, numbered.ids⟩, List.prefix_rfl, by simp, rfl⟩

theorem number_numbered (numbered : types.Numbered) {t : TypeRef} (fresh : t ∉ types.numbered) :
    (types.number t).Numbered where
  counter := by simp [Types.number, numbered.counter]
  nodup := numbered.nodup.append (List.nodup_singleton t) (by simpa using fresh)
  ids := by
    intro u
    by_cases same : u = t
    · subst u
      simp [Types.number, List.idxOf_append, fresh, numbered.counter]
    · have stays : u ∈ types.numbered ++ [t] ↔ u ∈ types.numbered := by simp [same]
      simp only [Types.number, Function.update_of_ne same, numbered.ids u, stays]
      split
      · next old => rw [List.idxOf_append_of_mem old]
      · rfl

theorem getId_of_numbered (numbered : types.Numbered) {t : TypeRef} (known : t ∈ types.numbered) :
    getId types t = (idString (types.numbered.idxOf t), types) := by
  have own : types.ffiId t = some (idString (types.numbered.idxOf t)) := by
    rw [numbered.ids, if_pos known]
  simp [getId, own, Types.readId]

theorem getId_of_fresh (numbered : types.Numbered) {t : TypeRef} (fresh : t ∉ types.numbered) :
    getId types t = getId (types.number t) t := by
  have without : types.ffiId t = none := by rw [numbered.ids, if_neg fresh]
  simp [getId, without, Types.number]

/-- **getId** numbers the type if need be and returns the id of its number. -/
theorem getId_named (numbered : types.Numbered) (t : TypeRef) :
    Named types (getId types t).2 [t] (getId types t).1 := by
  by_cases known : t ∈ types.numbered
  · rw [getId_of_numbered numbered known]
    exact ⟨numbered, List.prefix_rfl, by simpa using known, by simp [keyOf, joined]⟩
  · have later := number_numbered numbered known
    rw [getId_of_fresh numbered known, getId_of_numbered later (by simp [Types.number])]
    exact ⟨later, List.prefix_append .., by simp [Types.number], by simp [keyOf, joined]⟩

theorem getIds_named (numbered : types.Numbered) (argTypes : List TypeRef) :
    Named types (getIds types argTypes).2 argTypes (getIds types argTypes).1.flatten := by
  induction argTypes generalizing types with
  | nil => exact .refl numbered
  | cons t rest further =>
    have first := getId_named numbered t
    exact first.append (further first.numbered)

variable (names) in
theorem coerceTypes_named (numbered : types.Numbered) (args : List TypeArg) :
    Named types (coerceTypes names types args).2 [] [] := by
  induction args generalizing types with
  | nil => exact .refl numbered
  | cons arg rest further =>
    have first := coerceType_named names numbered arg
    unfold coerceTypes
    split
    · next after thrown => rwa [thrown] at first
    · next t middle coerced =>
      rw [coerced] at first
      have second := further first.numbered
      split
      · next after thrown =>
        rw [thrown] at second
        exact first.append second
      · next ts after returned =>
        rw [returned] at second
        exact first.append second

variable (names) in
/-- The loop over the variadic types looks up their ids in order; when it throws,
some types have been numbered and some have not. -/
theorem collect_named (numbered : types.Numbered) (typed : Nat) (args : List TypeArg) :
    match collect names types typed args with
    | (none, after) => after.Numbered ∧ types.numbered <+: after.numbered
    | (some (argTypes, key), after) => Named types after argTypes key.flatten := by
  induction args generalizing types typed with
  | nil =>
    unfold collect
    exact .refl numbered
  | cons arg rest further =>
    have first := coerceType_named names numbered arg
    cases typed with
    | zero => exact ⟨first.numbered, first.grows⟩
    | succ typed =>
      unfold collect
      rcases coerced : coerceType names types arg with ⟨_ | t, middle⟩ <;> rw [coerced] at first
      · exact ⟨first.numbered, first.grows⟩
      · have second := first.append (getId_named first.numbered t)
        have third := further second.numbered typed
        rcases collected : collect names (getId middle t).2 typed rest with
          ⟨_ | ⟨argTypes, key⟩, after⟩ <;> rw [collected] at third
        · simp only [collected]
          exact ⟨third.1, second.grows.trans third.2⟩
        · simp only [collected]
          exact second.append third

end

end NodeFfi.Variadic
