import NodeFfi.PrototypeChains
import NodeFfi.TransitionSystem

/-! `Type` on the types as objects: it reads `ffi_type` along the prototype chain, caches
what it makes on the type itself, and when all else fails walks the chain and assigns
`FFI_TYPES[cur.name]` to every object that it passes. -/
namespace NodeFfi.TypeResolution

open PrototypeChains PrototypeChains.Chains

abbrev Id := Nat
abbrev Name := String

/-- What a descriptor describes: the C type of an entry of `FFI_TYPES` or of another
descriptor that a type came with, or a struct made by `Type`. -/
inductive Value
  | given (descriptor : Nat)
  | aggregate (elements : List Value)

/-- What the properties of a type read as; `Type` changes none of these. -/
structure Object where
  indirection : Nat
  name : Option Name
  /-- The `type` and the `fixedLength` of a `ref-array` type. -/
  array : Option (Id × Nat)
  /-- The `type` of each of a `ref-struct` type's fields. -/
  fields : Option (List Id)
  deriving DecidableEq

/-- What `Type` resolves for a field, and how many elements that makes. -/
def element (object : Id → Object) (field : Id) : Id × Nat :=
  match (object field).array with
  | some (type, fixedLength) => if fixedLength > 0 then (type, fixedLength) else (field, 1)
  | none => (field, 1)

/-- A heap of types, but for their `ffi_type` properties: struct types are nested
finitely. `FFI_TYPES` is the bindings' table, and `pointer` its entry of that name. -/
structure Types extends Chains Id where
  object : Id → Object
  rank : Id → Nat
  rank_lt : ∀ o, ∀ fields ∈ (object o).fields, ∀ field ∈ fields,
    rank (element object field).1 < rank o
  FFI_TYPES : Name → Option Nat
  pointer : Nat

/-- The `ffi_type` properties. -/
abbrev Slots := Id → Property Value

namespace Types

variable (T : Types)

/-- `FFI_TYPES[cur.name]`. -/
def entry (cur : Id) : Option Value := ((T.object cur).name.bind T.FFI_TYPES).map .given

def pointerValue : Value := .given T.pointer

/-- The fallback loop of `Type`, along a prototype chain. -/
def fallback : List Id → Slots → Option Value × Slots
  | [], slots => (none, slots)
  | cur :: rest, slots =>
    match T.entry cur with
    | some v => (some v, Function.update slots cur (.value v))
    | none => fallback rest (Function.update slots cur .undefined)

/-- The loop over a struct's fields, with `resolve` for `Type`. -/
def elements (resolve : Id → Slots → Option Value × Slots) : List Id → Slots → Option (List Value) × Slots
  | [], slots => (some [], slots)
  | field :: rest, slots =>
    match resolve (element T.object field).1 slots with
    | (none, slots) => (none, slots)
    | (some v, slots) =>
      match elements resolve rest slots with
      | (none, slots) => (none, slots)
      | (some vs, slots) => (some (List.replicate (element T.object field).2 v ++ vs), slots)

/-- `lib/type.js`, `Type`, on structs nested less than `depth` deep; `none` is a failed
assertion. -/
def typeAt : Nat → Id → Slots → Option Value × Slots
  | 0, _, slots => (none, slots)
  | depth + 1, o, slots =>
    if (T.object o).indirection < 1 then (none, slots)
    else
      match (if (T.object o).indirection = 1 then T.read slots o else some T.pointerValue) with
      | some ret => (some ret, slots)
      | none =>
        if (T.object o).array.isSome then (some T.pointerValue, slots)
        else
          match (T.object o).fields with
          | some fields =>
            match T.elements (typeAt depth) fields slots with
            | (none, slots) => (none, slots)
            | (some vs, slots) =>
              (some (.aggregate vs), Function.update slots o (.value (.aggregate vs)))
          | none =>
            match (T.object o).name with
            | none => (none, slots)
            | some name =>
              if name = "CString" then
                (some T.pointerValue, Function.update slots o (.value T.pointerValue))
              else T.fallback (T.chain o) slots

/-- A call of `Type`. -/
def type (o : Id) (slots : Slots) : Option Value × Slots := T.typeAt (T.rank o + 1) o slots

/-! ## What a type stands for -/

/-- What the fields of a struct stand for, when types stand for what `D` says. -/
def shapeAll (D : Id → Option Value) : List Id → Option (List Value)
  | [] => some []
  | field :: rest =>
    (D (element T.object field).1).bind fun v =>
      (shapeAll D rest).map fun vs => List.replicate (element T.object field).2 v ++ vs

/-- What a type without an `ffi_type` gives, by its array, its fields or its names. -/
def shape (D : Id → Option Value) (o : Id) : Option Value :=
  if (T.object o).array.isSome then some T.pointerValue
  else
    match (T.object o).fields with
    | some fields => (T.shapeAll D fields).map .aggregate
    | none =>
      match (T.object o).name with
      | none => none
      | some name =>
        if name = "CString" then some T.pointerValue else (T.chain o).findSome? T.entry

/-- What a type stands for: what its `ffi_type` reads as, and otherwise its shape. -/
def direct (slots : Slots) (D : Id → Option Value) (o : Id) : Option Value :=
  if (T.object o).indirection < 1 then none
  else if (T.object o).indirection = 1 then (T.read slots o).or (T.shape D o)
  else some T.pointerValue

def meaningAt (slots : Slots) : Nat → Id → Option Value
  | 0, _ => none
  | depth + 1, o => T.direct slots (meaningAt slots depth) o

def meaning (slots : Slots) (o : Id) : Option Value := T.meaningAt slots (T.rank o + 1) o

/-- `D` says what the types stand for. -/
def Fits (D : Id → Option Value) (slots : Slots) : Prop := ∀ o, D o = T.direct slots D o

variable {T} {slots slots' : Slots} {D D' : Id → Option Value} {o u x : Id}

theorem shapeAll_congr {fields : List Id}
    (same : ∀ field ∈ fields, D (element T.object field).1 = D' (element T.object field).1) :
    T.shapeAll D fields = T.shapeAll D' fields := by
  induction fields with
  | nil => rfl
  | cons field rest further =>
    rw [List.forall_mem_cons] at same
    rw [shapeAll, shapeAll, same.1, further same.2]

/-- A shape depends on types of lower rank only. -/
theorem shape_congr (same : ∀ p, T.rank p < T.rank o → D p = D' p) : T.shape D o = T.shape D' o := by
  rw [shape, shape]
  split
  · rfl
  · cases found : (T.object o).fields with
    | none => rfl
    | some fields =>
      have all := shapeAll_congr (T := T) fun field inside => same _ (T.rank_lt o fields found field inside)
      simp only [all]

theorem direct_congr (same : ∀ p, T.rank p < T.rank o → D p = D' p) :
    T.direct slots D o = T.direct slots D' o := by
  rw [direct, direct, shape_congr same]

theorem meaningAt_deep {depth depth' : Nat} (deep : T.rank o < depth) (deep' : T.rank o < depth') :
    T.meaningAt slots depth o = T.meaningAt slots depth' o := by
  induction depth generalizing depth' o with
  | zero => cases deep
  | succ depth further =>
    cases depth' with
    | zero => cases deep'
    | succ depth' => exact direct_congr fun p lower => further (by omega) (by omega)

theorem fits_meaning (T : Types) (slots : Slots) : T.Fits (T.meaning slots) slots :=
  fun _ => direct_congr fun _ lower => meaningAt_deep lower (by omega)

/-- A heap says in one way only what its types stand for. -/
theorem Fits.unique (fits : T.Fits D slots) (fits' : T.Fits D' slots) : D = D' := by
  funext o
  induction ranked : T.rank o using Nat.strongRecOn generalizing o with
  | ind rank lower =>
    rw [fits o, fits' o]
    exact direct_congr fun p less => lower (T.rank p) (ranked ▸ less) p rfl

theorem Fits.read (fits : T.Fits D slots) (single : (T.object o).indirection = 1) {v : Value}
    (found : T.read slots o = some v) : D o = some v := by
  rw [fits o, direct, if_neg (by omega), if_pos single, found]
  rfl

theorem Fits.shape (fits : T.Fits D slots) (single : (T.object o).indirection = 1)
    (nothing : T.read slots o = none) : D o = T.shape D o := by
  rw [fits o, direct, if_neg (by omega), if_pos single, nothing, Option.none_or]

/-! ## What `Type` assigns -/

/-- The assignments of the fallback loop. -/
def visit (T : Types) : List Id → List (Id × Option Value)
  | [] => []
  | cur :: rest =>
    match T.entry cur with
    | some v => [(cur, some v)]
    | none => (cur, none) :: visit T rest

/-- The assignments of `Type`, on a type whose `ffi_type` reads as nothing and when all types
stand for what `D` says, but for those on account of its fields. -/
def writes (T : Types) (D : Id → Option Value) (o : Id) : List (Id × Option Value) :=
  if (T.object o).indirection ≠ 1 ∨ (T.object o).array.isSome then []
  else if (T.object o).fields.isSome ∨ (T.object o).name = some "CString" then
    (T.shape D o).toList.map fun v => (o, some v)
  else if (T.object o).name = none then [] else T.visit (T.chain o)

/-- `Type` caches a descriptor on the type itself. -/
structure Caches (T : Types) (D : Id → Option Value) (o : Id) (v : Value) : Prop where
  single : (T.object o).indirection = 1
  plain : (T.object o).array = none
  own : (T.object o).fields.isSome ∨ (T.object o).name = some "CString"
  stands : T.shape D o = some v

/-- `Type` goes through the fallback loop for the type. -/
structure Falls (T : Types) (o : Id) : Prop where
  single : (T.object o).indirection = 1
  plain : (T.object o).array = none
  unstructured : (T.object o).fields = none
  named : ∃ name ≠ "CString", (T.object o).name = some name

theorem writes_cases (T : Types) (D : Id → Option Value) (o : Id) : T.writes D o = [] ∨
    (∃ v, T.Caches D o v ∧ T.writes D o = [(o, some v)]) ∨
      (T.Falls o ∧ T.writes D o = T.visit (T.chain o)) := by
  rw [writes]
  split
  · exact .inl rfl
  · next single =>
    obtain ⟨single, plain⟩ := not_or.mp single
    rw [not_not] at single
    rw [Option.not_isSome_iff_eq_none] at plain
    split
    · next own =>
      cases stands : T.shape D o with
      | none => exact .inl rfl
      | some v => exact .inr (.inl ⟨v, ⟨single, plain, own, stands⟩, rfl⟩)
    · next own =>
      obtain ⟨unstructured, other⟩ := not_or.mp own
      rw [Option.not_isSome_iff_eq_none] at unstructured
      split
      · exact .inl rfl
      · next named =>
        obtain ⟨name, same⟩ := Option.ne_none_iff_exists'.mp named
        refine .inr (.inr ⟨⟨single, plain, unstructured, name, ?_, same⟩, rfl⟩)
        rintro rfl
        exact other same

theorem Caches.writes {v : Value} (caches : T.Caches D o v) : T.writes D o = [(o, some v)] := by
  rw [Types.writes, if_neg (by simp [caches.single, caches.plain]), if_pos caches.own, caches.stands]
  rfl

theorem Falls.writes (falls : T.Falls o) : T.writes D o = T.visit (T.chain o) := by
  obtain ⟨name, other, same⟩ := falls.named
  rw [Types.writes, if_neg (by simp [falls.single, falls.plain]),
    if_neg (by simp [falls.unstructured, same, other]), if_neg (by simp [same])]

/-- The loop is for types that cache nothing on themselves. -/
theorem Falls.not_caches {v : Value} (falls : T.Falls o) : ¬ T.Caches D o v := by
  intro caches
  obtain ⟨name, other, same⟩ := falls.named
  rcases caches.own with structured | cstring
  · rw [falls.unstructured] at structured
    cases structured
  · rw [same] at cstring
    exact other (Option.some.inj cstring)

theorem shape_of_array (array : (T.object o).array.isSome) : T.shape D o = some T.pointerValue := by
  rw [shape, if_pos array]

theorem shape_of_fields {fields : List Id} (plain : (T.object o).array = none)
    (structured : (T.object o).fields = some fields) :
    T.shape D o = (T.shapeAll D fields).map .aggregate := by
  simp [shape, plain, structured]

theorem shape_of_cstring (plain : (T.object o).array = none) (unstructured : (T.object o).fields = none)
    (named : (T.object o).name = some "CString") : T.shape D o = some T.pointerValue := by
  simp [shape, plain, unstructured, named]

theorem shape_of_nameless (plain : (T.object o).array = none) (unstructured : (T.object o).fields = none)
    (nameless : (T.object o).name = none) : T.shape D o = none := by
  simp [shape, plain, unstructured, nameless]

theorem Falls.shape (falls : T.Falls o) : T.shape D o = (T.chain o).findSome? T.entry := by
  obtain ⟨name, other, same⟩ := falls.named
  simp [Types.shape, falls.plain, falls.unstructured, same, other]

/-- What the loop assigns to an object is what `FFI_TYPES` has for its name. -/
theorem entry_of_visit {chain : List Id} {s : Option Value} (inside : (x, s) ∈ T.visit chain) :
    T.entry x = s ∧ x ∈ chain := by
  induction chain with
  | nil => cases inside
  | cons cur rest further =>
    rw [visit] at inside
    cases found : T.entry cur with
    | none =>
      rw [found] at inside
      rcases List.mem_cons.mp inside with first | later
      · cases first
        exact ⟨found, List.mem_cons_self⟩
      · exact ⟨(further later).1, List.mem_cons_of_mem _ (further later).2⟩
    | some v =>
      rw [found] at inside
      cases List.mem_singleton.mp inside
      exact ⟨found, List.mem_cons_self⟩

/-- Only the loop assigns undefined, and only along the prototype chain. -/
theorem falls_of_hidden (inside : (x, none) ∈ T.writes D o) :
    T.Falls o ∧ T.writes D o = T.visit (T.chain o) ∧ x ∈ T.chain o := by
  rcases writes_cases T D o with nothing | ⟨v, _, single⟩ | ⟨falls, loop⟩
  · rw [nothing] at inside
    cases inside
  · rw [single] at inside
    cases List.mem_singleton.mp inside
  · rw [loop] at inside
    exact ⟨falls, loop, (entry_of_visit inside).2⟩

/-- Where the loop ends, it has what it returns. -/
theorem found_of_visit {chain : List Id} {v : Value} (inside : (x, some v) ∈ T.visit chain) :
    chain.findSome? T.entry = some v := by
  induction chain with
  | nil => cases inside
  | cons cur rest further =>
    rw [visit] at inside
    rw [List.findSome?_cons]
    cases found : T.entry cur with
    | none =>
      rw [found] at inside
      rcases List.mem_cons.mp inside with first | later
      · cases first
      · exact further later
    | some w =>
      rw [found] at inside
      cases List.mem_singleton.mp inside
      rfl

theorem visit_append {before rest : List Id} {s : Option Value}
    (inside : (x, s) ∈ T.visit (before ++ rest)) : x ∈ before ∨ (x, s) ∈ T.visit rest := by
  induction before with
  | nil => exact .inr inside
  | cons cur before further =>
    rw [List.cons_append, visit] at inside
    cases found : T.entry cur with
    | none =>
      rw [found] at inside
      rcases List.mem_cons.mp inside with first | later
      · cases first
        exact .inl List.mem_cons_self
      · exact (further later).imp_left (List.mem_cons_of_mem _)
    | some v =>
      rw [found] at inside
      cases List.mem_singleton.mp inside
      exact .inl List.mem_cons_self

/-- From every object that it visits on, the loop visits the same as one that begins there. -/
theorem visit_suffix {chain : List Id} {s : Option Value} (inside : (x, s) ∈ T.visit chain) :
    ∃ before after, chain = before ++ x :: after ∧
      ∀ w ∈ T.visit (x :: after), w ∈ T.visit chain := by
  induction chain with
  | nil => cases inside
  | cons cur rest further =>
    cases found : T.entry cur with
    | none =>
      rw [visit, found] at inside
      rcases List.mem_cons.mp inside with first | later
      · cases first
        exact ⟨[], rest, rfl, fun _ => id⟩
      · obtain ⟨before, after, split, all⟩ := further later
        refine ⟨cur :: before, after, by rw [split]; rfl, ?_⟩
        intro w there
        rw [visit, found]
        exact List.mem_cons_of_mem _ (all w there)
    | some v =>
      rw [visit, found] at inside
      cases List.mem_singleton.mp inside
      exact ⟨[], rest, rfl, fun _ => id⟩

/-- The loop begins at the type itself, and ends there if it has an entry. -/
theorem visit_first (inside : (x, none) ∈ T.visit (T.chain o)) : (o, none) ∈ T.visit (T.chain o) := by
  rw [T.chain_eq o, visit] at inside ⊢
  cases found : T.entry o with
  | none => exact List.mem_cons_self
  | some v =>
    rw [found] at inside
    cases List.mem_singleton.mp inside

theorem visit_chain {s : Option Value} (inside : (x, s) ∈ T.visit (T.chain o)) :
    ∀ w ∈ T.visit (T.chain x), w ∈ T.visit (T.chain o) := by
  obtain ⟨before, after, split, all⟩ := visit_suffix inside
  rwa [T.chain_suffix split]

/-- The loop is the search along the names, and assigns what it visits. -/
theorem fallback_eq (chain : List Id) (slots : Slots) :
    T.fallback chain slots = (chain.findSome? T.entry, overwrite (T.visit chain) slots) := by
  induction chain generalizing slots with
  | nil => rfl
  | cons cur rest further =>
    rw [fallback, visit, List.findSome?_cons]
    cases T.entry cur with
    | none => rw [further]; rfl
    | some v => rfl

/-- No object is assigned two things. -/
theorem writes_same {s s' : Option Value} (inside : (x, s) ∈ T.writes D o)
    (inside' : (x, s') ∈ T.writes D o) : s' = s := by
  rcases writes_cases T D o with nothing | ⟨v, _, single⟩ | ⟨_, loop⟩
  · rw [nothing] at inside
    cases inside
  · rw [single] at inside inside'
    cases List.mem_singleton.mp inside
    cases List.mem_singleton.mp inside'
    rfl
  · rw [loop] at inside inside'
    rw [← (entry_of_visit inside).1, ← (entry_of_visit inside').1]

/-! ## The cases of `Type` -/

theorem typeAt_of_plural {depth : Nat} (fits : T.Fits D slots) (plural : (T.object o).indirection ≠ 1) :
    T.typeAt (depth + 1) o slots = (D o, slots) := by
  rw [fits o, direct, typeAt, if_neg plural, if_neg plural]
  split <;> rfl

theorem typeAt_of_read {depth : Nat} {v : Value} (single : (T.object o).indirection = 1)
    (read : T.read slots o = some v) : T.typeAt (depth + 1) o slots = (some v, slots) := by
  simp [typeAt, single, read]

section
variable {depth : Nat} (single : (T.object o).indirection = 1) (nothing : T.read slots o = none)
include single nothing

theorem typeAt_of_array (array : (T.object o).array.isSome) :
    T.typeAt (depth + 1) o slots = (some T.pointerValue, slots) := by
  simp [typeAt, single, nothing, array]

theorem typeAt_of_fields {fields : List Id} (plain : (T.object o).array = none)
    (structured : (T.object o).fields = some fields) :
    T.typeAt (depth + 1) o slots =
      match T.elements (T.typeAt depth) fields slots with
      | (none, slots) => (none, slots)
      | (some vs, slots) =>
        (some (.aggregate vs), Function.update slots o (.value (.aggregate vs))) := by
  simp [typeAt, single, nothing, plain, structured]

theorem typeAt_of_cstring (plain : (T.object o).array = none) (unstructured : (T.object o).fields = none)
    (named : (T.object o).name = some "CString") : T.typeAt (depth + 1) o slots =
      (some T.pointerValue, Function.update slots o (.value T.pointerValue)) := by
  simp [typeAt, single, nothing, plain, unstructured, named]

theorem typeAt_of_nameless (plain : (T.object o).array = none) (unstructured : (T.object o).fields = none)
    (nameless : (T.object o).name = none) : T.typeAt (depth + 1) o slots = (none, slots) := by
  simp [typeAt, single, nothing, plain, unstructured, nameless]

end

theorem elements_congr {resolve resolve' : Id → Slots → Option Value × Slots} {fields : List Id}
    (same : ∀ field ∈ fields, ∀ slots,
      resolve (element T.object field).1 slots = resolve' (element T.object field).1 slots) :
    T.elements resolve fields slots = T.elements resolve' fields slots := by
  induction fields generalizing slots with
  | nil => rfl
  | cons field rest further =>
    rw [List.forall_mem_cons] at same
    rw [elements, elements, same.1]
    split
    · rfl
    · rw [further same.2]

/-- How deep structs may be nested does not matter beyond how deep they are. -/
theorem typeAt_deep {depth depth' : Nat} (deep : T.rank o < depth) (deep' : T.rank o < depth') :
    T.typeAt depth o slots = T.typeAt depth' o slots := by
  induction depth generalizing depth' o slots with
  | zero => cases deep
  | succ depth further =>
    cases depth' with
    | zero => cases deep'
    | succ depth' =>
      cases structured : (T.object o).fields with
      | none => simp only [typeAt, structured]
      | some fields =>
        have same : T.elements (T.typeAt depth) fields slots = T.elements (T.typeAt depth') fields slots := by
          apply elements_congr
          intro field inside _
          have lower := T.rank_lt o fields structured field inside
          exact further (by omega) (by omega)
        simp only [typeAt, structured, same]

theorem type_of_fields {fields : List Id} (single : (T.object o).indirection = 1)
    (nothing : T.read slots o = none) (plain : (T.object o).array = none)
    (structured : (T.object o).fields = some fields) :
    T.type o slots =
      match T.elements T.type fields slots with
      | (none, slots) => (none, slots)
      | (some vs, slots) =>
        (some (.aggregate vs), Function.update slots o (.value (.aggregate vs))) := by
  have same : T.elements (T.typeAt (T.rank o)) fields slots = T.elements T.type fields slots :=
    elements_congr fun field inside _ =>
      typeAt_deep (T.rank_lt o fields structured field inside) (Nat.lt_succ_self _)
  rw [type, typeAt_of_fields single nothing plain structured, same]

theorem Falls.typeAt {depth : Nat} (falls : T.Falls o) (nothing : T.read slots o = none) :
    T.typeAt (depth + 1) o slots =
      ((T.chain o).findSome? T.entry, overwrite (T.visit (T.chain o)) slots) := by
  obtain ⟨name, other, named⟩ := falls.named
  simp [Types.typeAt, falls.single, nothing, falls.plain, falls.unstructured, named, other, fallback_eq]

/-- A type that is not a struct, or an array, is resolved by its own assignments alone. -/
theorem typeAt_bare {depth : Nat} (single : (T.object o).indirection = 1) (nothing : T.read slots o = none)
    (bare : (T.object o).array.isSome ∨ (T.object o).fields = none) :
    T.typeAt (depth + 1) o slots = (T.shape D o, overwrite (T.writes D o) slots) := by
  cases array : (T.object o).array with
  | some _ =>
    have array := Option.isSome_of_eq_some array
    rw [typeAt_of_array single nothing array, shape_of_array array, writes, if_pos (.inr array)]
    rfl
  | none =>
    have unstructured := bare.resolve_left (by simp [array])
    cases named : (T.object o).name with
    | none =>
      rw [typeAt_of_nameless single nothing array unstructured named,
        shape_of_nameless array unstructured named]
      simp [writes, unstructured, named, overwrite]
    | some name =>
      by_cases cstring : name = "CString"
      · subst cstring
        have shaped := shape_of_cstring (D := D) array unstructured named
        have caches : T.Caches D o T.pointerValue := ⟨single, array, .inr named, shaped⟩
        rw [typeAt_of_cstring single nothing array unstructured named, shaped, caches.writes]
        rfl
      · have falls : T.Falls o := ⟨single, array, unstructured, name, cstring, named⟩
        rw [falls.typeAt nothing, falls.shape, falls.writes]

end Types

end NodeFfi.TypeResolution
