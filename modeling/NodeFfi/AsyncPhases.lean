import NodeFfi.AsyncInvariant

/-! The phases an asynchronous call goes through: from the queue, through the thread pool
or a tick, to its callback. -/
namespace NodeFfi
open BlockMemory PartialPrograms TransitionSystem JsVal

variable {m : DataModel} {host : Host} {s : Signature m} {fn : List (List Cell) → List Cell}
  {w : World m} {l t u : Loop m} {callback e : JsVal} {blocks arguments : List (List Cell)}
  {final : List Delivery}

/-! ## The phases -/

/-- The request of the call made in `w` is on the thread pool, its arguments in place. -/
structure Waiting (s : Signature m) (fn : List (List Cell) → List Cell) (callback : JsVal) (w : World m)
    (blocks : List (List Cell)) (l : Loop m) : Prop where
  kept : Kept s w (marshalled s w.memory blocks) l
  ticks : l.ticksFor w.asyncCalls = []
  request : l.requestsOf w.asyncCalls = [issued s fn callback w]
  answers : l.answersTo w.asyncCalls = []

/-- The native function has run, and its result is in place. -/
structure Performed (s : Signature m) (fn : List (List Cell) → List Cell) (callback : JsVal) (w : World m)
    (blocks arguments : List (List Cell)) (l : Loop m) : Prop where
  kept : Kept s w ((marshalled s w.memory blocks).set w.memory.length (resultBlock s fn arguments)) l
  ticks : l.ticksFor w.asyncCalls = []
  request : l.requestsOf w.asyncCalls = [{ issued s fn callback w with performed := true }]
  answers : l.answersTo w.asyncCalls = []

/-- The failure of an argument waits in a tick. -/
structure Notified (callback e : JsVal) (w : World m) (l : Loop m) : Prop where
  ticks : l.ticksFor w.asyncCalls = [.notify w.asyncCalls callback e]
  request : l.requestsOf w.asyncCalls = []
  answers : l.answersTo w.asyncCalls = []

/-- Nothing is left to do for the call. -/
structure Settled (w : World m) (final : List Delivery) (l : Loop m) : Prop where
  ticks : l.ticksFor w.asyncCalls = []
  request : l.requestsOf w.asyncCalls = []
  answers : l.answersTo w.asyncCalls = final

/-- Where the call made in `w` is, and what will have been delivered for it in the end. -/
inductive Phase (host : Host) (s : Signature m) (fn : List (List Cell) → List Cell) (callback : JsVal)
    (w : World m) : List Delivery → Loop m → Prop
  | waiting {l : Loop m} (blocks arguments : List (List Cell)) (computes : Computes s fn blocks arguments)
    (waits : Waiting s fn callback w blocks l) : Phase host s fn callback w
      (completionDeliveries w.asyncCalls callback (decodedResult host s fn arguments)) l
  | performed {l : Loop m} (blocks arguments : List (List Cell)) (computes : Computes s fn blocks arguments)
    (done : Performed s fn callback w blocks arguments l) : Phase host s fn callback w
      (completionDeliveries w.asyncCalls callback (decodedResult host s fn arguments)) l
  | notified {l : Loop m} (e : JsVal) (told : Notified callback e w l) :
    Phase host s fn callback w [⟨w.asyncCalls, callback, [e]⟩] l
  | settled {l : Loop m} {final : List Delivery} (idle : Settled w final l) :
    Phase host s fn callback w final l

theorem Waiting.member (waits : Waiting s fn callback w blocks l) :
    issued s fn callback w ∈ l.world.requests :=
  (List.mem_filter.mp (waits.request ▸ List.mem_singleton_self _ : _ ∈ l.requestsOf w.asyncCalls)).1

theorem Performed.member (done : Performed s fn callback w blocks arguments l) :
    { issued s fn callback w with performed := true } ∈ l.world.requests :=
  (List.mem_filter.mp (done.request ▸ List.mem_singleton_self _ : _ ∈ l.requestsOf w.asyncCalls)).1

/-! ## Moving on -/

/-- An event about other calls leaves a call in its phase. -/
theorem phase_elsewhere {event : Event m} (phase : Phase host s fn callback w final l)
    (numbered : w.asyncCalls < l.world.asyncCalls) (permitted : Permitted l event)
    (elsewhere : ¬ Concerns l w.asyncCalls event) (next : l.step host event = some t) :
    Phase host s fn callback w final t := by
  obtain ⟨ticks, request, answers⟩ := step_elsewhere numbered elsewhere next
  have notPerformed : event ≠ .perform w.asyncCalls := by
    rintro rfl
    exact elsewhere rfl
  cases phase with
  | waiting blocks arguments computes waits =>
    have kept := kept_step waits.kept waits.member rfl rfl permitted next notPerformed
    exact .waiting blocks arguments computes
      ⟨kept, ticks.trans waits.ticks, request.trans waits.request, answers.trans waits.answers⟩
  | performed blocks arguments computes done =>
    have kept := kept_step done.kept done.member rfl rfl permitted next notPerformed
    exact .performed blocks arguments computes
      ⟨kept, ticks.trans done.ticks, request.trans done.request, answers.trans done.answers⟩
  | notified e told =>
    exact .notified e ⟨ticks.trans told.ticks, request.trans told.request, answers.trans told.answers⟩
  | settled idle =>
    exact .settled ⟨ticks.trans idle.ticks, request.trans idle.request, answers.trans idle.answers⟩

theorem Notified.tick {raised : Option JsVal} {handled : Bool} (told : Notified callback e w l)
    (concerns : Concerns l w.asyncCalls (.tick raised handled))
    (next : l.step host (.tick raised handled) = some t) : Settled w [⟨w.asyncCalls, callback, [e]⟩] t := by
  obtain ⟨tick, rest, head, mine⟩ := concerns
  obtain ⟨tick', rest', ticks', world, delivered, _⟩ := step_tick next
  obtain ⟨rfl, rfl⟩ := List.cons.inj (head.symm.trans ticks')
  have first : l.ticksFor w.asyncCalls = tick :: rest.filter (Tick.isFor w.asyncCalls) := by
    rw [Loop.ticksFor, head, List.filter_cons_of_pos mine]
  obtain ⟨rfl, others⟩ := List.cons.inj (first.symm.trans told.ticks)
  have answers := told.answers
  rw [Loop.answersTo] at answers
  refine ⟨?_, ?_, ?_⟩
  · rw [Loop.ticksFor, world]
    exact others
  · rw [Loop.requestsOf, world]
    exact told.request
  · rw [Loop.answersTo, delivered, List.filter_append, answers]
    simp [Tick.deliveries]

/-- The arguments are still what they were when they were stored. -/
theorem Waiting.loads (waits : Waiting s fn callback w blocks l) (computes : Computes s fn blocks arguments) :
    exec (loadArguments ⟨w.memory.length + 1, 0⟩ 0 s.cif.atypes) l.world = some (arguments, l.world) := by
  have array := argumentArray_kept computes.count waits.kept
  have same : s.cif.atypes.length = (pointersFrom (w.memory.length + 2) s.argTypes.length).length := by
    rw [pointersFrom_length, readyArgs]
  have fetches := exec_loadArguments [] array.start array.entries array.held same
  rw [computes.fetched, List.length_nil] at fetches
  exact fetches

/-- The result buffer is still empty. -/
theorem Waiting.result (waits : Waiting s fn callback w blocks l) :
    l.world.memory[w.memory.length]? = some (zeros (resultSize m s.returnType)) := by
  rw [waits.kept.same _ ⟨Nat.le_refl _, by omega⟩, result_marshalled]

/-- The result is what the native function made of the arguments. -/
theorem Performed.loads (done : Performed s fn callback w blocks arguments l)
    (computes : Computes s fn blocks arguments) :
    load l.world.memory ⟨w.memory.length, 0⟩ (derefReads m s.returnType) =
      some ((resultBlock s fn arguments).take (derefReads m s.returnType)) := by
  have here : l.world.memory[w.memory.length]? = some (resultBlock s fn arguments) := by
    rw [done.kept.same _ ⟨Nat.le_refl _, by omega⟩]
    exact List.getElem?_set_self (by simp [marshalled])
  apply load_first here
  rw [resultBlock_length computes]
  exact computes.readable

theorem Waiting.perform (waits : Waiting s fn callback w blocks l)
    (computes : Computes s fn blocks arguments) (next : l.step host (.perform w.asyncCalls) = some t) :
    Performed s fn callback w blocks arguments t := by
  obtain ⟨delivered, _, request, arguments', memory, found, loads, stores, world⟩ := step_perform next
  rw [request_eq, waits.request] at found
  obtain rfl : issued s fn callback w = request := by simpa [issued] using found
  obtain ⟨rfl, _⟩ := Prod.mk.inj (Option.some.inj ((waits.loads computes).symm.trans loads))
  obtain ⟨cells, here, _, rfl⟩ := store_eq_some.mp stores
  obtain rfl := Option.some.inj (waits.result.symm.trans here)
  refine ⟨⟨?_, ?_, ?_⟩, ?_, ?_, ?_⟩
  · rw [world]
    simpa [World.setMemory] using waits.kept.grown
  · intro request member other
    rw [world] at member
    obtain ⟨before, known, number, result⟩ := mem_perform member
    rw [result]
    exact waits.kept.apart before known (number ▸ other)
  · intro block mine
    rw [world]
    change (l.world.memory.set w.memory.length (resultBlock s fn arguments))[block]? = _
    rw [List.getElem?_set', List.getElem?_set', waits.kept.same block mine]
  · rw [Loop.ticksFor, world]
    exact waits.ticks
  · have marked := filter_perform w.asyncCalls w.asyncCalls l.world.requests
    rw [show List.filter _ l.world.requests = _ from waits.request] at marked
    rw [Loop.requestsOf, world]
    exact marked.trans (by simp [NodeFfi.perform, issued])
  · rw [Loop.answersTo, delivered]
    exact waits.answers

theorem Performed.finish {raised : Option JsVal} (done : Performed s fn callback w blocks arguments l)
    (computes : Computes s fn blocks arguments) (next : l.step host (.finish w.asyncCalls raised) = some t) :
    Settled w (completionDeliveries w.asyncCalls callback (decodedResult host s fn arguments)) t := by
  obtain ⟨world, request, cells, found, loads, delivered, _⟩ := step_finish next
  rw [request_eq, done.request] at found
  obtain rfl : { issued s fn callback w with performed := true } = request := by
    simpa [issued] using found
  obtain rfl := Option.some.inj ((done.loads computes).symm.trans loads)
  have answers := done.answers
  rw [Loop.answersTo] at answers
  refine ⟨?_, ?_, ?_⟩
  · rw [Loop.ticksFor, world]
    exact done.ticks
  · rw [Loop.requestsOf, world]
    simp
  · rw [Loop.answersTo, delivered, List.filter_append, answers]
    change List.filter _ (completionDeliveries _ callback (decodedResult host s fn arguments)) = _
    cases decodedResult host s fn arguments <;> simp [completionDeliveries]

/-- The call is in a phase, and the process goes on until nothing is left to do for it. -/
structure Onward (host : Host) (s : Signature m) (fn : List (List Cell) → List Cell) (callback : JsVal)
    (w : World m) (final : List Delivery) (l : Loop m) : Prop where
  phase : Phase host s fn callback w final l
  numbered : w.asyncCalls < l.world.asyncCalls
  goes : l.ended = true → Settled w final l

/-- An event that moves the call on finds it in the phase it is for. -/
theorem phase_concerned {event : Event m} (phase : Phase host s fn callback w final l)
    (concerns : Concerns l w.asyncCalls event) (next : l.step host event = some t) :
    Phase host s fn callback w final t ∧ (t.ended = true → Settled w final t) := by
  cases event with
  | call s fn arguments => exact concerns.elim
  | other memory errors => exact concerns.elim
  | tick raised handled =>
    have queued' : l.ticksFor w.asyncCalls ≠ [] := by
      obtain ⟨tick, rest, head, mine⟩ := concerns
      simp [Loop.ticksFor, head, mine]
    cases phase with
    | waiting _ _ _ waits => exact absurd waits.ticks queued'
    | performed _ _ _ done => exact absurd done.ticks queued'
    | notified e told =>
      have idle := told.tick concerns next
      exact ⟨.settled idle, fun _ => idle⟩
    | settled idle => exact absurd idle.ticks queued'
  | perform call =>
    obtain rfl : call = w.asyncCalls := concerns
    obtain ⟨_, alive, request, _, _, found, _⟩ := step_perform next
    rw [request_eq] at found
    cases phase with
    | waiting blocks arguments computes waits =>
      refine ⟨.performed blocks arguments computes (waits.perform computes next), fun ended => ?_⟩
      cases alive.symm.trans ended
    | performed _ _ _ done => simp [done.request] at found
    | notified e told => simp [told.request] at found
    | settled idle => simp [idle.request] at found
  | finish call raised =>
    obtain rfl : call = w.asyncCalls := concerns
    obtain ⟨_, request, _, found, _⟩ := step_finish next
    rw [request_eq] at found
    cases phase with
    | waiting _ _ _ waits => simp [waits.request, issued] at found
    | performed blocks arguments computes done =>
      have idle := done.finish computes next
      exact ⟨.settled idle, fun _ => idle⟩
    | notified e told => simp [told.request] at found
    | settled idle => simp [idle.request] at found

/-- What is spared goes on. -/
theorem goes_on {event : Event m} {call : Nat} (spared : Spared host call l event)
    (elsewhere : ¬ Concerns l call event) (next : l.step host event = some t) : t.ended = false := by
  cases event with
  | call s fn arguments => exact (step_call next).2.1
  | perform other => exact (step_perform next).2.1
  | other memory errors => exact (step_other next).2.1
  | tick raised handled =>
    obtain ⟨tick, rest, ticks, _, _, goes⟩ := step_tick next
    rcases spared with handles | spares
    · exact goes (.inl handles)
    · rcases spares tick rest ticks with silent | mine
      · exact goes (.inr silent)
      · exact absurd ⟨tick, rest, ticks, mine⟩ elsewhere
  | finish other raised =>
    obtain ⟨_, request, cells, found, loads, _, goes⟩ := step_finish next
    rcases spared with mine | ⟨silent, decodes⟩
    · exact absurd mine elsewhere
    · exact goes silent (decodes request cells found loads)

/-- **Step.** Whatever happens next, the call stays on its way to the same end. -/
theorem onward_step {event : Event m} (onward : Onward host s fn callback w final l)
    (undisturbed : Undisturbed host w.asyncCalls l event) (next : l.step host event = some t) :
    Onward host s fn callback w final t := by
  have numbered := Nat.lt_of_lt_of_le onward.numbered (step_grows undisturbed.1 next).2.1
  by_cases concerns : Concerns l w.asyncCalls event
  · obtain ⟨phase, goes⟩ := phase_concerned onward.phase concerns next
    exact ⟨phase, numbered, goes⟩
  · refine ⟨phase_elsewhere onward.phase onward.numbered undisturbed.1 concerns next, numbered, fun ended => ?_⟩
    cases (goes_on undisturbed.2 concerns next).symm.trans ended

/-- **Run.** So it does whatever happens after. -/
theorem onward_reaches (onward : Onward host s fn callback w final t)
    (reached : Reaches (Loop.step host) (Undisturbed host w.asyncCalls) t u) :
    Onward host s fn callback w final u :=
  reached.invariant (Onward host s fn callback w final) onward
    fun _ _ _ onward undisturbed next => onward_step onward undisturbed next

/-- Either the answer has been given, or there is something left to do. -/
theorem phase_answers (phase : Phase host s fn callback w final l) :
    l.answersTo w.asyncCalls = final ∨
      l.answersTo w.asyncCalls = [] ∧ ¬ (l.world.ticks = [] ∧ l.world.requests = []) := by
  cases phase with
  | waiting _ _ _ waits =>
    refine .inr ⟨waits.answers, fun idle => ?_⟩
    simpa [idle.2] using waits.member
  | performed _ _ _ done =>
    refine .inr ⟨done.answers, fun idle => ?_⟩
    simpa [idle.2] using done.member
  | notified e told =>
    refine .inr ⟨told.answers, fun idle => ?_⟩
    have ticks := told.ticks
    simp [Loop.ticksFor, idle.1] at ticks
  | settled idle => exact .inl idle.answers

/-! ## Beginning -/

/-- A number that has not been given out is not in use. -/
theorem Tidy.unused (tidy : Tidy l) : l.ticksFor l.world.asyncCalls = [] ∧
    l.requestsOf l.world.asyncCalls = [] ∧ l.answersTo l.world.asyncCalls = [] := by
  refine ⟨?_, ?_, ?_⟩
  · apply List.filter_eq_nil_iff.mpr
    intro tick member
    cases tick with
    | rethrow err => simp [Tick.isFor]
    | notify call callback e =>
      have number := tidy.ticks call callback e member
      simp only [Tick.isFor, beq_iff_eq]
      omega
  · apply List.filter_eq_nil_iff.mpr
    intro request member
    have number := (tidy.requests request member).1
    simp only [beq_iff_eq]
    omega
  · apply List.filter_eq_nil_iff.mpr
    intro delivery member
    have number := tidy.delivered delivery member
    simp only [beq_iff_eq]
    omega

theorem waiting_queued (callback : JsVal) (tidy : Tidy l) (computes : Computes s fn blocks arguments) :
    Waiting s fn callback l.world blocks { l with world := queued s fn callback blocks l.world } := by
  obtain ⟨ticks, requests, answers⟩ := tidy.unused
  refine ⟨⟨?_, ?_, fun block mine => rfl⟩, ticks, ?_, answers⟩
  · simp [queued, marshalled, World.setMemory, computes.count]
    omega
  · intro request member other mine
    rcases List.mem_append.mp member with old | new
    · have bound := (tidy.requests request old).2
      have start := mine.1
      omega
    · obtain rfl := List.mem_singleton.mp new
      exact other rfl
  · change (l.world.requests ++ [issued s fn callback l.world]).filter _ = _
    rw [List.filter_append, show l.world.requests.filter _ = [] from requests]
    simp [issued]

theorem notified_numbered (callback e : JsVal) (more : Memory Cell) (tidy : Tidy l) :
    Notified callback e l.world { l with world := { numbered more l.world with
      ticks := l.world.ticks ++ [.notify l.world.asyncCalls callback e] } } := by
  obtain ⟨ticks, requests, answers⟩ := tidy.unused
  refine ⟨?_, requests, answers⟩
  change (l.world.ticks ++ [_]).filter _ = _
  rw [List.filter_append, show l.world.ticks.filter _ = [] from ticks]
  simp [Tick.isFor]

/-! ## Getting there -/

/-- The event is the loop's own work, and about the given call or a tick. -/
def Serves (call : Nat) (_ : Loop m) : Event m → Prop
  | .tick _ handled => handled = true
  | .perform other => other = call
  | .finish other _ => other = call
  | _ => False

theorem serves_undisturbed {call : Nat} (l : Loop m) (event : Event m) (serves : Serves call l event) :
    Undisturbed host call l event := by
  cases event with
  | other memory errors => exact serves.elim
  | call s fn arguments => exact serves.elim
  | tick raised handled => exact ⟨trivial, .inl serves⟩
  | perform other => exact ⟨trivial, trivial⟩
  | finish other raised => exact ⟨trivial, .inl serves⟩

theorem tick_defined (host : Host) {tick : Tick} {rest : List Tick} (alive : l.ended = false)
    (ticks : l.world.ticks = tick :: rest) :
    ∃ t, l.step host (.tick none true) = some t ∧ t.world.ticks = rest ∧ t.ended = false := by
  obtain ⟨t, next⟩ : ∃ t, l.step host (.tick none true) = some t := by
    simp [step_eq alive, Loop.proceed, ticks]
  obtain ⟨tick', rest', same, world, _, goes⟩ := step_tick next
  obtain ⟨_, rfl⟩ := List.cons.inj (ticks.symm.trans same)
  exact ⟨t, next, by rw [world], goes (.inl rfl)⟩

/-- The queued ticks can be run. -/
theorem ticks_drain (host : Host) (call : Nat) (l : Loop m) (alive : l.ended = false) :
    ∃ t, Reaches (Loop.step host) (Serves call) l t ∧ t.world.ticks = [] ∧ t.ended = false := by
  induction ticks : l.world.ticks generalizing l with
  | nil => exact ⟨l, .start, ticks, alive⟩
  | cons tick rest further =>
    obtain ⟨t, next, shorter, goes⟩ := tick_defined host alive ticks
    obtain ⟨u, reached, empty⟩ := further t goes shorter
    have served : Serves call l (.tick none true) := rfl
    exact ⟨u, (Reaches.start.step served next).trans reached, empty⟩

theorem perform_defined {call : Nat} {request : Request m} (alive : l.ended = false)
    (found : l.world.request call false = some request)
    (ran : exec (ffiCall request.cif (ofFunction request.fn) request.result request.argsList) l.world =
      some ((), w)) : ∃ t, l.step host (.perform call) = some t := by
  simp only [step_eq alive, Loop.proceed, found]
  rw [show ffiCall _ _ _ _ l.world = _ from ran]
  exact ⟨_, rfl⟩

theorem finish_defined {call : Nat} {request : Request m} {cells : List Cell} (alive : l.ended = false)
    (found : l.world.request call true = some request)
    (room : derefReads m request.returnType ≤ resultSize m request.returnType)
    (loads : load l.world.memory request.result (derefReads m request.returnType) = some cells) :
    ∃ t, l.step host (.finish call none) = some t := by
  have gets : (refGet host ⟨request.result, resultSize m request.returnType⟩ request.returnType).run
      { l.world with requests := l.world.requests.filter fun other => other.call ≠ call } =
        some (host.get request.returnType cells, _) :=
    eval_refGet host _ (admits_of_derefReads room _) loads
  simp only [step_eq alive, Loop.proceed, found, gets]
  cases host.get request.returnType cells with
  | ok r => exact ⟨_, rfl⟩
  | error e => exact ⟨_, rfl⟩

theorem Waiting.defined (host : Host) (alive : l.ended = false) (waits : Waiting s fn callback w blocks l)
    (computes : Computes s fn blocks arguments) : ∃ t, l.step host (.perform w.asyncCalls) = some t := by
  have found : l.world.request w.asyncCalls false = some (issued s fn callback w) := by
    rw [request_eq, waits.request]
    rfl
  have same : s.cif.atypes.length = (pointersFrom (w.memory.length + 2) s.argTypes.length).length := by
    rw [pointersFrom_length, readyArgs]
  have stores : store l.world.memory ⟨w.memory.length, 0⟩ (returned m s.cif.rtype (fn arguments)) = some _ :=
    store_of_block waits.result (by simpa [zeros] using computes.room)
  exact perform_defined alive found (exec_ffiCall (argumentArray_kept computes.count waits.kept) same
    computes.fetched rfl computes.width stores)

theorem Performed.defined (host : Host) (alive : l.ended = false)
    (done : Performed s fn callback w blocks arguments l) (computes : Computes s fn blocks arguments) :
    ∃ t, l.step host (.finish w.asyncCalls none) = some t := by
  have found : l.world.request w.asyncCalls true = some { issued s fn callback w with performed := true } := by
    rw [request_eq, done.request]
    rfl
  exact finish_defined alive found computes.readable (done.loads computes)

/-- **Progress.** From every phase the loop's own work leads to the answer. -/
theorem phase_settles (onward : Onward host s fn callback w final l) :
    ∃ t, Reaches (Loop.step host) (Serves w.asyncCalls) l t ∧ t.answersTo w.asyncCalls = final := by
  cases ended : l.ended with
  | true => exact ⟨l, .start, (onward.goes ended).answers⟩
  | false =>
    obtain ⟨t, drained, empty, alive⟩ := ticks_drain host w.asyncCalls l ended
    cases (onward_reaches onward (drained.mono serves_undisturbed)).phase with
    | waiting blocks arguments computes waits =>
      obtain ⟨u, performs⟩ := waits.defined host alive computes
      have done := waits.perform computes performs
      obtain ⟨v, finishes⟩ := done.defined host (step_perform performs).2.1 computes
      have served : Serves w.asyncCalls t (.perform w.asyncCalls) := rfl
      have served' : Serves w.asyncCalls u (.finish w.asyncCalls none) := rfl
      exact ⟨v, (drained.step served performs).step served' finishes, (done.finish computes finishes).answers⟩
    | performed blocks arguments computes done =>
      obtain ⟨u, finishes⟩ := done.defined host alive computes
      have served : Serves w.asyncCalls t (.finish w.asyncCalls none) := rfl
      exact ⟨u, drained.step served finishes, (done.finish computes finishes).answers⟩
    | notified e told =>
      have ticks := told.ticks
      simp [Loop.ticksFor, empty] at ticks
    | settled idle => exact ⟨t, drained, idle.answers⟩

end NodeFfi
