import NodeFfi.AsyncPhases

/-! The asynchronous proxy against the synchronous one: when it answers its callback with
what the other returns or throws, and the two ways in which it never does. -/
namespace NodeFfi
open BlockMemory PartialPrograms TransitionSystem JsVal

variable {m : DataModel} {host : Host} {s : Signature m} {fn : List (List Cell) → List Cell}
  {w w' : World m} {l t : Loop m} {values : List JsVal} {callback : JsVal} {outcome : Except JsVal JsVal}

/-! ## Agreement -/

/-- The arguments of a callback that hears of this outcome: `(null, r)`, or an error
alone, for which its `if (err)` is taken. -/
def Answers : Except JsVal JsVal → List JsVal → Prop
  | .ok r, arguments => arguments = [.null, r]
  | .error _, arguments => ∃ e, arguments = [e] ∧ e.truthy = true

/-- From here on, as long as nothing else ends the process, the callback of the call is
called exactly once, with the outcome: not yet, never a second time whatever happens, and
by the time nothing is left to do; and the loop can always get there. -/
structure CalledBack (host : Host) (call : Nat) (callback : JsVal) (outcome : Except JsVal JsVal)
    (l : Loop m) : Prop where
  later : l.answersTo call = []
  once : ∀ t, Reaches (Loop.step host) (Undisturbed host call) l t → t.answersTo call = [] ∨
    ∃ arguments, Answers outcome arguments ∧ t.answersTo call = [⟨call, callback, arguments⟩]
  idle : ∀ t, Reaches (Loop.step host) (Undisturbed host call) l t → t.world.ticks = [] → t.world.requests = [] →
    t.answersTo call ≠ []
  served : ∀ t, Reaches (Loop.step host) (Undisturbed host call) l t →
    ∃ u, Reaches (Loop.step host) (Serves call) t u ∧ u.answersTo call ≠ []

/-- The asynchronous call returns without throwing, and its callback is called exactly
once, later, with the outcome of the synchronous one. -/
def AsyncAgrees (host : Host) (s : Signature m) (fn : List (List Cell) → List Cell) (values : List JsVal)
    (callback : JsVal) (l : Loop m) (outcome : Except JsVal JsVal) : Prop :=
  ∃ world, eval (async host s fn (values ++ [callback])) l.world = some (.ok (), world) ∧
    CalledBack host l.world.asyncCalls callback outcome { l with world }

/-- A thrown value whose message can be prepended to, or that ignores the attempt. -/
def Amendable : JsVal → Prop
  | .object _ _ .writable => True
  | .object _ _ .ignored => True
  | _ => False

/-- What the call's arguments leave in their storage. -/
def argumentBlocks (host : Host) (s : Signature m) (values : List JsVal) : List (List Cell) :=
  (s.argTypes.zip values).map fun argument => (stored m host argument.1 argument.2).1

/-- What an argument's type throws is amendable, and the return type's `get` does not
throw on what the native function returns. -/
structure Answerable (host : Host) (s : Signature m) (fn : List (List Cell) → List Cell)
    (values : List JsVal) : Prop where
  refusal : ∀ i e, FirstRefused m host (s.argTypes.zip values) i e → Amendable e
  result : ∀ arguments, (∀ argument ∈ s.argTypes.zip values, Accepts m host argument.1 argument.2) →
    fetch s.cif.atypes (argumentBlocks host s values) = some arguments →
    ∃ r, decodedResult host s fn arguments = .ok r

theorem prependMessage_amendable (lead : String) {e : JsVal} (amendable : Amendable e) :
    ∃ amended, prependMessage lead e = .ok amended ∧ amended.truthy = true := by
  match e, amendable with
  | .object kind message .writable, _ => exact ⟨_, rfl, rfl⟩
  | .object kind message .ignored, _ => exact ⟨_, rfl, rfl⟩

theorem prependMessage_raises (lead : String) {e : JsVal} (rigid : ¬ Amendable e) :
    ∃ raised, prependMessage lead e = .error raised := by
  cases e with
  | object kind message slot =>
    cases slot with
    | readOnly => exact ⟨_, rfl⟩
    | writable => exact absurd trivial rigid
    | ignored => exact absurd trivial rigid
  | _ => exact ⟨_, rfl⟩

/-! ## The call -/

theorem async_accepted (fn : List (List Cell) → List Cell) (arity : values.length = s.argTypes.length)
    (function : callback.isFunction)
    (accepted : ∀ argument ∈ s.argTypes.zip values, Accepts m host argument.1 argument.2) :
    eval (async host s fn (values ++ [callback])) w =
      some (.ok (), queued s fn callback (argumentBlocks host s values) w) := by
  have zipped := zip_callback callback arity
  rw [async_checked arity function]
  refine eval_startAsync_ok ?_ ?_
  · rw [zipped, List.length_zip, arity, Nat.min_self]
  · rw [zipped]
    exact storedBlocks_ok accepted

theorem async_refused (fn : List (List Cell) → List Cell) {i : Nat} {e : JsVal}
    (arity : values.length = s.argTypes.length)
    (function : callback.isFunction) (refused : FirstRefused m host (s.argTypes.zip values) i e) :
    ∃ more, eval (async host s fn (values ++ [callback])) w =
      some (match prependMessage (settingArgument i) e with
        | .error raised => (.error raised, numbered more w)
        | .ok e => (.ok (), { numbered more w with
            ticks := w.ticks ++ [.notify w.asyncCalls callback e] })) := by
  have zipped := zip_callback callback arity
  rw [async_checked arity function]
  refine eval_startAsync_error fn callback ?_ ?_
  · rw [zipped, List.length_zip, arity, Nat.min_self]
  · have blocks := storedBlocks_error 0 refused
    rw [Nat.zero_add] at blocks
    rw [zipped]
    exact blocks

/-- On an LP64 target the synchronous call is defined where the sizes agree. -/
theorem proxy_defined (fn : List (List Cell) → List Cell) (target : IsLP64 m) (agree : SizesAgree s)
    (quiet : w.pending = none) (arity : values.length = s.argTypes.length)
    (accepted : ∀ argument ∈ s.argTypes.zip values, Accepts m host argument.1 argument.2)
    (long : (fn (argumentBlocks host s values)).length = derefReads m s.returnType) :
    ∃ w', eval (proxy host s (ofFunction fn) values) w =
      some (host.get s.returnType (fn (argumentBlocks host s values)), w') := by
  have calls : exec ((ofFunction fn : Native m) (argumentBlocks host s values))
      (w.setMemory (marshalled s w.memory (argumentBlocks host s values))) = some (_, _) := rfl
  obtain ⟨memory, proxied⟩ := eval_proxy_returns target agree arity (storedBlocks_ok accepted)
    (sized_blocks host arity) calls (Grows.refl _) quiet long
  exact ⟨_, proxied⟩

/-- The synchronous call throws for the first value that is refused, and otherwise
decodes what the native function computes. -/
theorem sync_outcome (quiet : w.pending = none) (arity : values.length = s.argTypes.length)
    (sync : eval (proxy host s (ofFunction fn) values) w = some (outcome, w')) :
    (∃ i e raised, FirstRefused m host (s.argTypes.zip values) i e ∧ outcome = .error raised) ∨
      (∀ argument ∈ s.argTypes.zip values, Accepts m host argument.1 argument.2) ∧
        ∃ arguments, Computes s fn (argumentBlocks host s values) arguments ∧
          outcome = decodedResult host s fn arguments := by
  rcases accepted_or_refused m host (s.argTypes.zip values) with accepted | ⟨i, e, refused⟩
  · exact .inr ⟨accepted, computes_of_sync quiet arity (storedBlocks_ok accepted) sync⟩
  · have blocks := storedBlocks_error 0 refused
    rw [Nat.zero_add] at blocks
    obtain ⟨more, throws⟩ := eval_proxy_error (w := w) (ofFunction fn) arity blocks
    obtain ⟨rfl, _⟩ := Prod.mk.inj (Option.some.inj (sync.symm.trans throws))
    exact .inl ⟨i, e, _, refused, rfl⟩

/-! ## What a phase says about the callback -/

theorem calledBack_of_onward {arguments : List JsVal}
    (onward : Onward host s fn callback w [⟨w.asyncCalls, callback, arguments⟩] l)
    (later : l.answersTo w.asyncCalls = []) (answers : Answers outcome arguments) :
    CalledBack host w.asyncCalls callback outcome l := by
  refine ⟨later, fun t reached => ?_, fun t reached ticks requests => ?_, fun t reached => ?_⟩
  · rcases phase_answers (onward_reaches onward reached).phase with given | ⟨waiting, _⟩
    · exact .inr ⟨arguments, answers, given⟩
    · exact .inl waiting
  · rcases phase_answers (onward_reaches onward reached).phase with given | ⟨_, busy⟩
    · rw [given]
      exact List.cons_ne_nil _ _
    · exact absurd ⟨ticks, requests⟩ busy
  · obtain ⟨u, served, given⟩ := phase_settles (onward_reaches onward reached)
    refine ⟨u, served, ?_⟩
    rw [given]
    exact List.cons_ne_nil _ _

theorem not_calledBack_of_onward (onward : Onward host s fn callback w [] l) :
    ¬ CalledBack host w.asyncCalls callback outcome l := by
  intro called
  obtain ⟨u, served, given⟩ := called.served l .start
  rcases phase_answers (onward_reaches onward (served.mono serves_undisturbed)).phase with none' | ⟨none', _⟩
  · exact given none'
  · exact given none'

theorem onward_of_phase {world : World m} {final : List Delivery} (alive : l.ended = false)
    (phase : Phase host s fn callback w final { l with world }) (numbered : w.asyncCalls < world.asyncCalls) :
    Onward host s fn callback w final { l with world } := by
  refine ⟨phase, numbered, fun ended => ?_⟩
  cases alive.symm.trans ended

/-! ## The two ways not to answer -/

theorem not_agrees_of_rigid {i : Nat} {e : JsVal} (arity : values.length = s.argTypes.length)
    (function : callback.isFunction) (refused : FirstRefused m host (s.argTypes.zip values) i e)
    (rigid : ¬ Amendable e) : ¬ AsyncAgrees host s fn values callback l outcome := by
  rintro ⟨world, returns, _⟩
  obtain ⟨more, ends⟩ := async_refused fn (w := l.world) arity function refused
  obtain ⟨raised, raises⟩ := prependMessage_raises (settingArgument i) rigid
  rw [raises] at ends
  cases (Prod.mk.inj (Option.some.inj (returns.symm.trans ends))).1

theorem not_agrees_of_undecodable {arguments : List (List Cell)} {e : JsVal} (tidy : Tidy l) (alive : l.ended = false)
    (arity : values.length = s.argTypes.length) (function : callback.isFunction)
    (accepted : ∀ argument ∈ s.argTypes.zip values, Accepts m host argument.1 argument.2)
    (computes : Computes s fn (argumentBlocks host s values) arguments)
    (throws : decodedResult host s fn arguments = .error e) :
    ¬ AsyncAgrees host s fn values callback l outcome := by
  rintro ⟨world, returns, called⟩
  have queues := async_accepted fn (w := l.world) arity function accepted
  obtain ⟨_, rfl⟩ := Prod.mk.inj (Option.some.inj (queues.symm.trans returns))
  have phase : Phase host s fn callback l.world _ _ :=
    .waiting _ _ computes (waiting_queued callback tidy computes)
  rw [throws] at phase
  exact not_calledBack_of_onward (onward_of_phase alive phase (Nat.lt_succ_self _)) called

/-! ## When it answers -/

theorem agrees_of_amendable {i : Nat} {e raised : JsVal} (tidy : Tidy l) (alive : l.ended = false)
    (arity : values.length = s.argTypes.length) (function : callback.isFunction)
    (refused : FirstRefused m host (s.argTypes.zip values) i e) (amendable : Amendable e) :
    AsyncAgrees host s fn values callback l (.error raised) := by
  obtain ⟨more, ends⟩ := async_refused fn (w := l.world) arity function refused
  obtain ⟨amended, prepends, truthy⟩ := prependMessage_amendable (settingArgument i) amendable
  rw [prepends] at ends
  have told := notified_numbered callback amended more tidy
  have phase : Phase host s fn callback l.world _ _ := .notified amended told
  exact ⟨_, ends, calledBack_of_onward (onward_of_phase alive phase (Nat.lt_succ_self _)) told.answers
    ⟨amended, rfl, truthy⟩⟩

theorem agrees_of_decodable {arguments : List (List Cell)} {r : JsVal} (tidy : Tidy l) (alive : l.ended = false)
    (arity : values.length = s.argTypes.length) (function : callback.isFunction)
    (accepted : ∀ argument ∈ s.argTypes.zip values, Accepts m host argument.1 argument.2)
    (computes : Computes s fn (argumentBlocks host s values) arguments)
    (decodes : decodedResult host s fn arguments = .ok r) :
    AsyncAgrees host s fn values callback l (.ok r) := by
  have waits := waiting_queued callback tidy computes
  have phase : Phase host s fn callback l.world _ _ := .waiting _ _ computes waits
  rw [decodes] at phase
  exact ⟨_, async_accepted fn arity function accepted,
    calledBack_of_onward (onward_of_phase alive phase (Nat.lt_succ_self _)) waits.answers rfl⟩

def userCallback : JsVal := .object (.function 0) none .writable

/-- Gives back its first argument. -/
def firstArgument (arguments : List (List Cell)) : List Cell := arguments.headD []

/-- The host with a `bool` that reads back only what it stores. -/
def strictHost : Host := { exampleHost with
  get := fun type cells =>
    match type, cells with
    | .scalar (.named .bool), [.byte 0] => .ok (.bool false)
    | .scalar (.named .bool), [.byte 1] => .ok (.bool true)
    | .scalar (.named .bool), _ => .error (error "RangeError" "The byte is not a boolean")
    | type, cells => exampleHost.get type cells }

theorem flag_declarable : Declarable lp64 (.scalar (.named .bool)) [] :=
  ⟨.inr ⟨by simp [Plain], by decide⟩, by simp⟩

/-- `bool ()`. -/
def flag : Signature lp64 := flag_declarable.signature lp64_target

end NodeFfi
