import NodeFfi.AsyncSteps

/-! One asynchronous call among whatever else the event loop does: what the other events
leave alone. -/
namespace NodeFfi
open BlockMemory PartialPrograms TransitionSystem JsVal

variable {m : DataModel} {host : Host} {s : Signature m} {fn : List (List Cell) → List Cell}
  {w w' : World m} {l t : Loop m} {values : List JsVal} {callback : JsVal}

/-! ## One call among others -/

def Loop.ticksFor (l : Loop m) (call : Nat) : List Tick := l.world.ticks.filter (Tick.isFor call)

def Loop.requestsOf (l : Loop m) (call : Nat) : List (Request m) :=
  l.world.requests.filter fun request => request.call == call

def Loop.answersTo (l : Loop m) (call : Nat) : List Delivery :=
  l.delivered.filter fun delivery => delivery.call == call

/-- The event moves the given call on. -/
def Concerns (l : Loop m) (call : Nat) : Event m → Prop
  | .call _ _ _ => False
  | .tick _ _ => ∃ tick rest, l.world.ticks = tick :: rest ∧ tick.isFor call
  | .perform other => other = call
  | .finish other _ => other = call
  | .other _ _ => False

theorem request_eq (call : Nat) (performed : Bool) :
    l.world.request call performed =
      (l.requestsOf call).find? fun request => request.performed == performed := by
  rw [World.request, Loop.requestsOf, List.find?_filter]
  congr 1
  funext request
  by_cases mine : request.call = call <;> by_cases done : request.performed = performed <;>
    simp [mine, done]

theorem request_some {call : Nat} {performed : Bool} {request : Request m}
    (found : l.world.request call performed = some request) :
    request ∈ l.world.requests ∧ request.call = call := by
  have number := List.find?_some found
  simp only [Bool.and_eq_true, beq_iff_eq] at number
  exact ⟨List.mem_of_find?_eq_some found, number.1⟩

@[simp] theorem perform_call (call : Nat) (request : Request m) :
    (perform call request).call = request.call := by
  unfold perform
  split <;> rfl

theorem filter_perform (other call : Nat) (requests : List (Request m)) :
    (requests.map (perform other)).filter (fun request => request.call == call) =
      (requests.filter fun request => request.call == call).map (perform other) := by
  simp [List.filter_map, Function.comp_def]

theorem perform_elsewhere {call other : Nat} (apart : other ≠ call) (requests : List (Request m)) :
    (requests.filter fun request => request.call == call).map (perform other) =
      requests.filter fun request => request.call == call := by
  have untouched : ∀ request ∈ requests.filter fun request => request.call == call,
      perform other request = id request := by
    intro request member
    have mine : request.call = call := by simpa using (List.mem_filter.mp member).2
    exact if_neg (by rw [mine]; exact apart.symm)
  rw [List.map_congr_left untouched, List.map_id]

theorem filter_finish {call other : Nat} (apart : other ≠ call) (requests : List (Request m)) :
    (requests.filter fun request => request.call ≠ other).filter (fun request => request.call == call) =
      requests.filter fun request => request.call == call := by
  rw [List.filter_filter]
  apply List.filter_congr
  intro request _
  by_cases mine : request.call = call
  · simp [mine, apart.symm]
  · simp [mine]

theorem deliveries_elsewhere {tick : Tick} {call : Nat} (elsewhere : tick.isFor call = false) :
    tick.deliveries.filter (fun delivery => delivery.call == call) = [] := by
  cases tick with
  | rethrow err => rfl
  | notify other callback e => simpa [Tick.deliveries, Tick.isFor] using elsewhere

/-- An event that does not move a call on leaves its ticks, its request and its answers
as they are. -/
theorem step_elsewhere {event : Event m} {call : Nat} (numbered : call < l.world.asyncCalls)
    (elsewhere : ¬ Concerns l call event) (next : l.step host event = some t) :
    t.ticksFor call = l.ticksFor call ∧ t.requestsOf call = l.requestsOf call ∧
      t.answersTo call = l.answersTo call := by
  cases event with
  | call s fn arguments =>
    obtain ⟨delivered, _, ticks, requests, adds⟩ := step_call next
    have noTick : ticks.filter (Tick.isFor call) = [] := by
      apply List.filter_eq_nil_iff.mpr
      intro tick member
      obtain ⟨_, callback, e, rfl⟩ := adds.tick tick member
      simp [Tick.isFor]
      omega
    have noRequest : requests.filter (fun request => request.call == call) = [] := by
      apply List.filter_eq_nil_iff.mpr
      intro request member
      have number := (adds.request request member).2.1
      simp
      omega
    simp [Loop.ticksFor, Loop.requestsOf, Loop.answersTo, adds.ticks_eq, adds.requests_eq, delivered,
      noTick, noRequest]
  | tick raised handled =>
    obtain ⟨tick, rest, ticks, world, delivered, _⟩ := step_tick next
    have unconcerned : tick.isFor call = false := by
      by_contra concerned
      exact elsewhere ⟨tick, rest, ticks, by simpa using concerned⟩
    simp [Loop.ticksFor, Loop.requestsOf, Loop.answersTo, world, delivered, ticks, unconcerned,
      deliveries_elsewhere unconcerned]
  | perform other =>
    obtain ⟨delivered, _, request, arguments, memory, _, _, _, world⟩ := step_perform next
    simp only [Loop.ticksFor, Loop.requestsOf, Loop.answersTo, world, delivered]
    exact ⟨rfl, (filter_perform other call _).trans (perform_elsewhere elsewhere _), trivial⟩
  | finish other raised =>
    obtain ⟨world, request, cells, _, _, delivered, _⟩ := step_finish next
    have theirs : (completionDeliveries other request.callback (host.get request.returnType cells)).filter
        (fun delivery => delivery.call == call) = [] := by
      have apart : other ≠ call := elsewhere
      cases host.get request.returnType cells <;> simp [completionDeliveries, apart]
    simp only [Loop.ticksFor, Loop.requestsOf, Loop.answersTo, world, delivered, List.filter_append, theirs,
      List.append_nil]
    exact ⟨trivial, filter_finish elsewhere _, trivial⟩
  | other memory errors =>
    obtain ⟨delivered, _, world⟩ := step_other next
    have reports : (errors.map Tick.rethrow).filter (Tick.isFor call) = [] := by
      simp [Tick.isFor]
    simp [Loop.ticksFor, Loop.requestsOf, Loop.answersTo, world, delivered, reports]

/-- Nothing is pending, and every number in use has been given out. -/
structure Tidy (l : Loop m) : Prop where
  quiet : l.world.pending = none
  ticks : ∀ call callback e, .notify call callback e ∈ l.world.ticks → call < l.world.asyncCalls
  requests : ∀ request ∈ l.world.requests,
    request.call < l.world.asyncCalls ∧ request.result.block < l.world.memory.length
  delivered : ∀ delivery ∈ l.delivered, delivery.call < l.world.asyncCalls

theorem tidy_initial : Tidy (Loop.initial m) :=
  ⟨rfl, by simp [Loop.initial, World.initial], by simp [Loop.initial, World.initial], by simp [Loop.initial]⟩

/-- No event makes memory shorter or gives a number out twice. -/
theorem step_grows {event : Event m} (permitted : Permitted l event) (next : l.step host event = some t) :
    l.world.memory.length ≤ t.world.memory.length ∧ l.world.asyncCalls ≤ t.world.asyncCalls ∧
      t.world.pending = l.world.pending := by
  cases event with
  | call s fn arguments =>
    obtain ⟨_, _, ticks, requests, adds⟩ := step_call next
    exact ⟨adds.memory.length_le, adds.counted, adds.pending⟩
  | tick raised handled =>
    obtain ⟨tick, rest, _, world, _⟩ := step_tick next
    simp [world]
  | perform other =>
    obtain ⟨_, _, request, arguments, memory, _, _, stores, world⟩ := step_perform next
    simp [world, World.setMemory, store_keeps_length stores]
  | finish other raised =>
    obtain ⟨world, _⟩ := step_finish next
    simp [world]
  | other memory errors =>
    obtain ⟨_, _, world⟩ := step_other next
    simp [world, permitted.1.length_le]

theorem mem_perform {call : Nat} {request : Request m} {requests : List (Request m)}
    (member : request ∈ requests.map (perform call)) :
    ∃ before ∈ requests, request.call = before.call ∧ request.result = before.result := by
  obtain ⟨before, inside, rfl⟩ := List.mem_map.mp member
  refine ⟨before, inside, ?_⟩
  unfold perform
  split <;> exact ⟨rfl, rfl⟩

/-- Every request after an event was there before, or is new and about new blocks. -/
theorem step_requests {event : Event m} (next : l.step host event = some t) {request : Request m}
    (member : request ∈ t.world.requests) :
    (∃ before ∈ l.world.requests, request.call = before.call ∧ request.result = before.result) ∨
      request.call = l.world.asyncCalls ∧ l.world.asyncCalls < t.world.asyncCalls ∧
        request.result.block = l.world.memory.length ∧
        l.world.memory.length < t.world.memory.length := by
  cases event with
  | call s fn arguments =>
    obtain ⟨_, _, ticks, requests, adds⟩ := step_call next
    rw [adds.requests_eq, List.mem_append] at member
    rcases member with old | new
    · exact .inl ⟨request, old, rfl, rfl⟩
    · obtain ⟨counted, number, block, longer⟩ := adds.request request new
      exact .inr ⟨number, counted, block, longer⟩
  | tick raised handled =>
    obtain ⟨tick, rest, _, world, _⟩ := step_tick next
    rw [world] at member
    exact .inl ⟨request, member, rfl, rfl⟩
  | perform other =>
    obtain ⟨_, _, _, _, memory, _, _, _, world⟩ := step_perform next
    rw [world] at member
    exact .inl (mem_perform member)
  | finish other raised =>
    obtain ⟨world, _⟩ := step_finish next
    rw [world] at member
    exact .inl ⟨request, (List.mem_filter.mp member).1, rfl, rfl⟩
  | other memory errors =>
    obtain ⟨_, _, world⟩ := step_other next
    rw [world] at member
    exact .inl ⟨request, member, rfl, rfl⟩

/-- Every notification after an event was there before, or is of the call the event
numbers. -/
theorem step_ticks {event : Event m} (next : l.step host event = some t) {call : Nat} {callback e : JsVal}
    (member : .notify call callback e ∈ t.world.ticks) : .notify call callback e ∈ l.world.ticks ∨
      call = l.world.asyncCalls ∧ l.world.asyncCalls < t.world.asyncCalls := by
  cases event with
  | call s fn arguments =>
    obtain ⟨_, _, ticks, requests, adds⟩ := step_call next
    rw [adds.ticks_eq, List.mem_append] at member
    rcases member with old | new
    · exact .inl old
    · obtain ⟨counted, _, _, same⟩ := adds.tick _ new
      exact .inr ⟨(Tick.notify.inj same).1, counted⟩
  | tick raised handled =>
    obtain ⟨tick, rest, ticks, world, _⟩ := step_tick next
    rw [world] at member
    exact .inl (ticks ▸ List.mem_cons_of_mem _ member)
  | perform other =>
    obtain ⟨_, _, _, _, memory, _, _, _, world⟩ := step_perform next
    rw [world] at member
    exact .inl member
  | finish other raised =>
    obtain ⟨world, _⟩ := step_finish next
    rw [world] at member
    exact .inl member
  | other memory errors =>
    obtain ⟨_, _, world⟩ := step_other next
    rw [world, List.mem_append] at member
    rcases member with old | new
    · exact .inl old
    · simp at new

/-- Every answer after an event was there before, or is of a call with a notification or
a request. -/
theorem step_delivered {event : Event m} (next : l.step host event = some t) {delivery : Delivery}
    (member : delivery ∈ t.delivered) : delivery ∈ l.delivered ∨
      (∃ callback e, .notify delivery.call callback e ∈ l.world.ticks) ∨
        ∃ request ∈ l.world.requests, request.call = delivery.call := by
  cases event with
  | call s fn arguments => exact .inl ((step_call next).1 ▸ member)
  | perform other => exact .inl ((step_perform next).1 ▸ member)
  | other memory errors => exact .inl ((step_other next).1 ▸ member)
  | tick raised handled =>
    obtain ⟨tick, rest, ticks, _, delivered, _⟩ := step_tick next
    rw [delivered, List.mem_append] at member
    rcases member with old | new
    · exact .inl old
    · cases tick with
      | rethrow err => simp [Tick.deliveries] at new
      | notify call callback e =>
        obtain rfl := List.mem_singleton.mp new
        exact .inr (.inl ⟨callback, e, ticks ▸ List.mem_cons_self⟩)
  | finish other raised =>
    obtain ⟨_, request, cells, found, _, delivered, _⟩ := step_finish next
    rw [delivered, List.mem_append] at member
    rcases member with old | new
    · exact .inl old
    · obtain ⟨known, number⟩ := request_some found
      refine .inr (.inr ⟨request, known, ?_⟩)
      cases got : host.get request.returnType cells with
      | error e => simp [got, completionDeliveries] at new
      | ok r =>
        rw [got] at new
        obtain rfl := List.mem_singleton.mp new
        exact number

theorem tidy_step {event : Event m} (tidy : Tidy l) (permitted : Permitted l event)
    (next : l.step host event = some t) : Tidy t := by
  obtain ⟨longer, counted, pending⟩ := step_grows permitted next
  refine ⟨pending.trans tidy.quiet, fun call callback e member => ?_, fun request member => ?_,
    fun delivery member => ?_⟩
  · rcases step_ticks next member with old | ⟨number, more⟩
    · exact Nat.lt_of_lt_of_le (tidy.ticks call callback e old) counted
    · omega
  · rcases step_requests next member with ⟨before, inside, number, result⟩ | ⟨number, more, block, bound⟩
    · obtain ⟨known, allocated⟩ := tidy.requests before inside
      rw [number, result]
      omega
    · omega
  · rcases step_delivered next member with old | ⟨callback, e, waiting⟩ | ⟨request, inside, number⟩
    · exact Nat.lt_of_lt_of_le (tidy.delivered delivery old) counted
    · exact Nat.lt_of_lt_of_le (tidy.ticks _ callback e waiting) counted
    · have known := (tidy.requests request inside).1
      omega

theorem tidy_of_reaches (reached : Reaches (Loop.step host) Permitted (.initial m) l) : Tidy l :=
  reached.invariant Tidy tidy_initial fun _ _ _ tidy permitted next => tidy_step tidy permitted next

/-! ## The buffers of a call -/

/-- A block of the call made in `w`: its result, its array, or one of its arguments. -/
def Mine (s : Signature m) (w : World m) (block : Nat) : Prop :=
  w.memory.length ≤ block ∧ block < w.memory.length + 2 + s.argTypes.length

/-- The blocks of the call are as in `base`, and no other call's result goes there. -/
structure Kept (s : Signature m) (w : World m) (base : Memory Cell) (l : Loop m) : Prop where
  grown : w.memory.length + 2 + s.argTypes.length ≤ l.world.memory.length
  apart : ∀ request ∈ l.world.requests, request.call ≠ w.asyncCalls → ¬ Mine s w request.result.block
  same : ∀ block, Mine s w block → l.world.memory[block]? = base[block]?

/-- Only its own request writes to the blocks of a call. -/
theorem block_kept {base : Memory Cell} {event : Event m} {own : Request m} (kept : Kept s w base l)
    (inside : own ∈ l.world.requests) (result : own.result = ⟨w.memory.length, 0⟩) (cif : own.cif = s.cif)
    (permitted : Permitted l event) (next : l.step host event = some t)
    (elsewhere : event ≠ .perform w.asyncCalls) {block : Nat} (mine : Mine s w block) :
    t.world.memory[block]? = l.world.memory[block]? := by
  cases event with
  | call s fn arguments =>
    obtain ⟨_, _, _, _, adds⟩ := step_call next
    obtain ⟨more, same⟩ := adds.memory
    rw [← same, List.getElem?_append_left (Nat.lt_of_lt_of_le mine.2 kept.grown)]
  | tick raised handled =>
    obtain ⟨_, _, _, world, _⟩ := step_tick next
    rw [world]
  | perform other =>
    obtain ⟨_, _, request, arguments, memory, found, _, stores, world⟩ := step_perform next
    obtain ⟨known, number⟩ := request_some found
    have theirs := kept.apart request known fun same => elsewhere (by rw [← number, same])
    rw [world]
    exact store_other stores fun same => theirs (same ▸ mine)
  | finish other raised =>
    obtain ⟨world, _⟩ := step_finish next
    rw [world]
  | other memory errors =>
    obtain ⟨_, _, world⟩ := step_other next
    rw [world]
    apply permitted.2 own inside block
    rw [Request.Owns, result, cif, readyArgs]
    exact mine

theorem kept_step {base : Memory Cell} {event : Event m} {own : Request m} (kept : Kept s w base l)
    (inside : own ∈ l.world.requests) (result : own.result = ⟨w.memory.length, 0⟩) (cif : own.cif = s.cif)
    (permitted : Permitted l event) (next : l.step host event = some t)
    (elsewhere : event ≠ .perform w.asyncCalls) :
    Kept s w base t := by
  obtain ⟨longer, _⟩ := step_grows permitted next
  have grown := kept.grown
  refine ⟨grown.trans longer, fun request member other => ?_, fun block mine => ?_⟩
  · rcases step_requests next member with ⟨before, known, number, same⟩ | ⟨_, _, block, _⟩
    · rw [same]
      exact kept.apart before known (number ▸ other)
    · intro mine
      have bound := mine.2
      omega
  · rw [block_kept kept inside result cif permitted next elsewhere mine, kept.same block mine]

theorem holds_congr {memory memory' : Memory Cell} {pointers : List Pointer} {blocks : List (List Cell)}
    (held : List.Forall₂ (Holds memory) pointers blocks)
    (same : ∀ p ∈ pointers, memory'[p.block]? = memory[p.block]?) :
    List.Forall₂ (Holds memory') pointers blocks := by
  induction held with
  | nil => exact .nil
  | cons first rest ih =>
    refine .cons ⟨first.1, ?_⟩ (ih fun p member => same p (List.mem_cons_of_mem _ member))
    rw [same _ List.mem_cons_self, first.2]

/-- The arguments are still laid out for `ffi_call`. -/
theorem argumentArray_kept {blocks : List (List Cell)} (count : blocks.length = s.argTypes.length)
    (kept : Kept s w (marshalled s w.memory blocks) l) :
    ArgumentArray m l.world.memory ⟨w.memory.length + 1, 0⟩
      (pointersFrom (w.memory.length + 2) s.argTypes.length) blocks := by
  have array := argumentArray_marshalled s w.memory count
  refine ⟨rfl, ?_, holds_congr array.held fun p member => kept.same _ ?_⟩
  · rw [kept.same _ ⟨by simp, by simp only; omega⟩]
    exact array.entries
  · obtain ⟨block, inside, rfl⟩ := List.mem_map.mp member
    have range := List.mem_range'_1.mp inside
    exact ⟨by simp only; omega, by simp only; omega⟩

end NodeFfi
