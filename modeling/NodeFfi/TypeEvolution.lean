import NodeFfi.VariadicCalls
import Mathlib.Logic.Relation

/-! What the types go through while a generator is created or called, or anything else
happens: one change after another, each of them a new type or a new id. -/
namespace NodeFfi.Variadic

open Relation

/-- A type is created, or one is numbered. -/
inductive Changes (types : Types) : Types → Prop
  | create (proto : Option TypeRef) : Changes types (types.create proto)
  | number (type : TypeRef) : Changes types (types.number type)

def Evolves : Types → Types → Prop := ReflTransGen Changes

section
variable (names : String → Option Naming) {types middle after : Types}

theorem coerceType_evolves (types : Types) (arg : TypeArg) :
    Evolves types (coerceType names types arg).2 := by
  unfold coerceType
  split
  · exact .refl
  · split
    · exact .refl
    · exact .refl
    · exact .single (.create _)

theorem getId_evolves (types : Types) (t : TypeRef) : Evolves types (getId types t).2 := by
  unfold getId
  dsimp only
  split
  · exact .single (.number t)
  · exact .refl

theorem getIds_evolves (types : Types) (argTypes : List TypeRef) :
    Evolves types (getIds types argTypes).2 := by
  induction argTypes generalizing types with
  | nil => exact .refl
  | cons t rest further => exact (getId_evolves types t).trans (further _)

theorem coerceTypes_evolves (types : Types) (args : List TypeArg) :
    Evolves types (coerceTypes names types args).2 := by
  induction args generalizing types with
  | nil => exact .refl
  | cons arg rest further =>
    have first := coerceType_evolves names types arg
    unfold coerceTypes
    split
    · next thrown => rwa [thrown] at first
    · next t middle coerced =>
      rw [coerced] at first
      have second := further middle
      split
      · next thrown =>
        rw [thrown] at second
        exact first.trans second
      · next returned =>
        rw [returned] at second
        exact first.trans second

theorem collect_evolves (types : Types) (typed : Nat) (args : List TypeArg) :
    Evolves types (collect names types typed args).2 := by
  induction args generalizing types typed with
  | nil =>
    unfold collect
    exact .refl
  | cons arg rest further =>
    have first := coerceType_evolves names types arg
    cases typed with
    | zero => exact first
    | succ typed =>
      unfold collect
      rcases coerced : coerceType names types arg with ⟨_ | t, middle⟩ <;> rw [coerced] at first
      · exact first
      · have third := first.trans ((getId_evolves middle t).trans (further _ typed))
        rcases collected : collect names (getId middle t).2 typed rest with
          ⟨_ | ⟨argTypes, key⟩, after⟩ <;> rw [collected] at third <;> simp only [collected] <;>
          exact third

variable {names} in
/-- Where the return type of a call comes from: it is coerced after the variadic types. -/
theorem ask_returned {generator : Generator} {args : List TypeArg} {typed : Nat} {asked : Asked}
    (returned : ask names types generator args typed = (some asked, after)) :
    ∃ middle, Evolves types middle ∧
      (coerceType names middle generator.returnType).1 = some asked.rtnType ∧
      Evolves (coerceType names middle generator.returnType).2 after := by
  have first := collect_evolves names types typed args
  unfold ask at returned
  split at returned
  · cases returned
  · next argTypes key middle collected =>
    rw [collected] at first
    split at returned
    · cases returned
    · next rtnType later coerced =>
      obtain ⟨same, rfl⟩ := Prod.mk.inj returned
      obtain rfl := Option.some.inj same
      refine ⟨middle, first, ?_, ?_⟩
      · rw [coerced]
      · rw [coerced]
        exact getId_evolves later rtnType

theorem ask_evolves (types : Types) (generator : Generator) (args : List TypeArg) (typed : Nat) :
    Evolves types (ask names types generator args typed).2 := by
  rcases returned : ask names types generator args typed with ⟨_ | asked, after⟩
  · have first := collect_evolves names types typed args
    unfold ask at returned
    split at returned
    · next thrown =>
      rw [thrown] at first
      exact (Prod.mk.inj returned).2 ▸ first
    · next argTypes key middle collected =>
      rw [collected] at first
      have second := coerceType_evolves names middle generator.returnType
      split at returned
      · next thrown =>
        rw [thrown] at second
        exact (Prod.mk.inj returned).2 ▸ first.trans second
      · cases returned
  · obtain ⟨middle, first, _, last⟩ := ask_returned returned
    exact first.trans ((coerceType_evolves names middle generator.returnType).trans last)

/-- Older types stay as they are but for their ids. -/
structure Extends (before after : Types) : Prop where
  allocated : before.allocated ≤ after.allocated
  proto : ∀ t < before.allocated, after.proto t = before.proto t

theorem Evolves.extends (evolves : Evolves types after) : Extends types after := by
  induction evolves with
  | refl => exact ⟨Nat.le_refl _, fun _ _ => rfl⟩
  | tail _ change before =>
    cases change with
    | create proto =>
      refine ⟨Nat.le_succ_of_le before.allocated, ?_⟩
      intro t old
      have other : t ≠ _ := Nat.ne_of_lt (Nat.lt_of_lt_of_le old before.allocated)
      exact (Function.update_of_ne other ..).trans (before.proto t old)
    | number t => exact ⟨before.allocated, before.proto⟩

theorem Evolves.numbered (evolves : Evolves types after) : types.numbered <+: after.numbered := by
  induction evolves with
  | refl => exact List.prefix_rfl
  | tail _ change before =>
    cases change with
    | create proto => exact before
    | number t => exact before.trans (List.prefix_append ..)

theorem lookUp_types (s : State) (g : Nat) (generator : Generator) (asked : Asked) (prepared : Bool) :
    (lookUp s g generator asked prepared).types = s.types := by
  unfold lookUp build State.answer
  split
  · rfl
  · split <;> rfl

variable {names} in
/-- Whatever happens, the types evolve. -/
theorem step_evolves {s t : State} {label : Label} (next : step names s label = some t) :
    Evolves s.types t.types := by
  cases label with
  | newType proto =>
    cases next
    exact .single (.create proto)
  | create returnType fixedArgTypes =>
    cases next
    have first := coerceTypes_evolves names s.types fixedArgTypes
    unfold create
    split
    · next thrown => rwa [thrown] at first
    · next argTypes middle returned =>
      rw [returned] at first
      exact first.trans (getIds_evolves middle argTypes)
  | setReturnType g returnType =>
    obtain ⟨generator, _, rfl⟩ := Option.map_eq_some_iff.mp next
    exact .refl
  | call g args typed prepared =>
    obtain ⟨generator, _, rfl⟩ := Option.map_eq_some_iff.mp next
    have asking := ask_evolves names s.types generator args typed
    rw [call_eq]
    split
    · next thrown => rwa [thrown] at asking
    · next returned =>
      rw [lookUp_types]
      rwa [returned] at asking

end

end NodeFfi.Variadic
