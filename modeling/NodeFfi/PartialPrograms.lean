import Mathlib.Logic.Basic

/-! Running programs over a state that may be undefined (`none`) and, in an outer
layer, throw. The rules carry a known run of the first part of a sequence into a run
of the whole, and take a run of a sequence apart. -/
namespace PartialPrograms

variable {σ ε δ α β : Type}

/-- A run of a program that cannot throw. -/
def exec (x : StateT σ Option α) (s : σ) : Option (α × σ) := x s

/-- A run of a program that can throw. -/
def eval (x : ExceptT ε (StateT σ Option) α) (s : σ) : Option (Except ε α × σ) := x s

section
variable {x : StateT σ Option α} {f : α → StateT σ Option β} {s s' : σ} {a : α}

theorem exec_pure : exec (pure a : StateT σ Option α) s = some (a, s) := rfl

theorem exec_bind (first : exec x s = some (a, s')) : exec (x >>= f) s = exec (f a) s' := by
  change (x s).bind _ = _
  rw [show x s = _ from first]
  rfl

theorem exec_bind_none (undefined : exec x s = none) : exec (x >>= f) s = none := by
  change (x s).bind _ = _
  rw [show x s = _ from undefined]
  rfl

/-- What goes on to nothing is nothing. -/
theorem exec_bind_dead (dead : ∀ a s', exec (f a) s' = none) : exec (x >>= f) s = none := by
  cases first : exec x s with
  | none => exact exec_bind_none first
  | some result => rw [exec_bind first, dead]

/-- Programs that go on alike from wherever the first part leads are alike. -/
theorem exec_bind_congr {g : α → StateT σ Option β}
    (alike : ∀ a s', exec x s = some (a, s') → exec (f a) s' = exec (g a) s') :
    exec (x >>= f) s = exec (x >>= g) s := by
  cases first : exec x s with
  | none => rw [exec_bind_none first, exec_bind_none first]
  | some result => rw [exec_bind first, exec_bind first, alike _ _ first]

/-- A first part that leaves the state as it is. -/
theorem exec_bind_reads {found : Option α} (reads : exec x s = found.map fun a => (a, s)) :
    exec (x >>= f) s = found.bind fun a => exec (f a) s := by
  cases found with
  | none => exact exec_bind_none reads
  | some a => exact exec_bind reads

theorem exec_bind_some {b : β} {final : σ} : exec (x >>= f) s = some (b, final) ↔
    ∃ a s', exec x s = some (a, s') ∧ exec (f a) s' = some (b, final) := by
  constructor
  · intro whole
    change (x s).bind _ = _ at whole
    obtain ⟨⟨a, s'⟩, first, rest⟩ := Option.bind_eq_some_iff.mp whole
    exact ⟨a, s', first, rest⟩
  · rintro ⟨a, s', first, rest⟩
    rw [exec_bind first, rest]

end

section
variable {x : ExceptT ε (StateT σ Option) α} {f : α → ExceptT ε (StateT σ Option) β} {s s' : σ}
  {a : α} {e : ε}

theorem eval_pure : eval (pure a : ExceptT ε (StateT σ Option) α) s = some (.ok a, s) := rfl

theorem eval_throw : eval (throw e : ExceptT ε (StateT σ Option) α) s = some (.error e, s) := rfl

theorem eval_ok (first : eval x s = some (.ok a, s')) : eval (x >>= f) s = eval (f a) s' := by
  change (x s).bind _ = _
  rw [show x s = _ from first]
  rfl

theorem eval_error (first : eval x s = some (.error e, s')) :
    eval (x >>= f) s = some (.error e, s') := by
  change (x s).bind _ = _
  rw [show x s = _ from first]
  rfl

theorem eval_none (undefined : eval x s = none) : eval (x >>= f) s = none := by
  change (x s).bind _ = _
  rw [show x s = _ from undefined]
  rfl

/-- A sequence either throws in its first part or goes on to the second. -/
theorem eval_bind_some {outcome : Except ε β} {final : σ}
    (whole : eval (x >>= f) s = some (outcome, final)) :
    (∃ e, eval x s = some (.error e, final) ∧ outcome = .error e) ∨
      ∃ a s', eval x s = some (.ok a, s') ∧ eval (f a) s' = some (outcome, final) := by
  change (x s).bind _ = _ at whole
  obtain ⟨⟨first, s'⟩, did, rest⟩ := Option.bind_eq_some_iff.mp whole
  cases first with
  | error e =>
    obtain ⟨rfl, rfl⟩ := Prod.mk.inj (Option.some.inj rest)
    exact .inl ⟨e, did, rfl⟩
  | ok a => exact .inr ⟨a, s', did, rest⟩

/-- A sequence that returns has returned from both parts. -/
theorem eval_bind_ok {b : β} {final : σ} (whole : eval (x >>= f) s = some (.ok b, final)) :
    ∃ a s', eval x s = some (.ok a, s') ∧ eval (f a) s' = some (.ok b, final) := by
  rcases eval_bind_some whole with ⟨e, _, impossible⟩ | onward
  · cases impossible
  · exact onward

theorem eval_lift (y : StateT σ Option α) :
    eval (ExceptT.lift y : ExceptT ε (StateT σ Option) α) s =
      (exec y s).map fun r => (.ok r.1, r.2) := by
  change (y s).bind _ = _
  unfold exec
  cases y s <;> rfl

theorem eval_adapt_ok {g : ε → δ} (did : eval x s = some (.ok a, s')) :
    eval (ExceptT.adapt g x) s = some (.ok a, s') := by
  change (x s).bind _ = _
  rw [show x s = _ from did]
  rfl

theorem eval_adapt_error {g : ε → δ} (did : eval x s = some (.error e, s')) :
    eval (ExceptT.adapt g x) s = some (.error (g e), s') := by
  change (x s).bind _ = _
  rw [show x s = _ from did]
  rfl

variable {handler : ε → ExceptT ε (StateT σ Option) α}

theorem eval_tryCatch_ok (did : eval x s = some (.ok a, s')) :
    eval (tryCatch x handler) s = some (.ok a, s') := by
  change (x s).bind _ = _
  rw [show x s = _ from did]
  rfl

theorem eval_tryCatch_none (undefined : eval x s = none) : eval (tryCatch x handler) s = none := by
  change (x s).bind _ = _
  rw [show x s = _ from undefined]
  rfl

theorem eval_tryCatch_error (did : eval x s = some (.error e, s')) :
    eval (tryCatch x handler) s = eval (handler e) s' := by
  change (x s).bind _ = _
  rw [show x s = _ from did]
  rfl

end

end PartialPrograms
