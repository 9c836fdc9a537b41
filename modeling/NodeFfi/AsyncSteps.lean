import NodeFfi.MarshallingRoundTrip
import NodeFfi.MarshallingInversions
import NodeFfi.AsyncCalls

/-! What a call to the asynchronous proxy does to the world, what each event of the loop
can do, and what the synchronous call with the same values computes. -/
namespace NodeFfi
open BlockMemory PartialPrograms TransitionSystem JsVal

variable {m : DataModel} {host : Host} {s : Signature m} {fn : List (List Cell) → List Cell}
  {w w' : World m} {l t : Loop m} {values : List JsVal} {callback : JsVal}

/-! ## A call to the asynchronous proxy -/

/-- The request a call queues when its arguments are all stored. -/
def issued (s : Signature m) (fn : List (List Cell) → List Cell) (callback : JsVal) (w : World m) :
    Request m where
  call := w.asyncCalls
  cif := s.cif
  fn := fn
  result := ⟨w.memory.length, 0⟩
  argsList := ⟨w.memory.length + 1, 0⟩
  returnType := s.returnType
  callback := callback
  performed := false

/-- The world a call leaves when its arguments are all stored. -/
def queued (s : Signature m) (fn : List (List Cell) → List Cell) (callback : JsVal)
    (blocks : List (List Cell)) (w : World m) : World m :=
  { w.setMemory (marshalled s w.memory blocks) with
    requests := w.requests ++ [issued s fn callback w], asyncCalls := w.asyncCalls + 1 }

theorem eval_startAsync_ok {arguments : List JsVal} {blocks : List (List Cell)}
    (count : (s.argTypes.zip arguments).length = s.argTypes.length)
    (accepted : storedBlocks m host 0 (s.argTypes.zip arguments) = .ok blocks) :
    eval (startAsync host s fn callback arguments) w = some (.ok (), queued s fn callback blocks w) := by
  have counts : eval (native numberCall) w =
      some (.ok w.asyncCalls, { w with asyncCalls := w.asyncCalls + 1 }) := rfl
  have stores := eval_native (x := (marshal host s arguments).run)
    (eval_marshal_ok (w := { w with asyncCalls := w.asyncCalls + 1 }) count accepted)
  rw [startAsync, eval_ok counts, eval_ok stores]
  rfl

/-- The world after a call has taken its number and allocated `more`. -/
def numbered (more : Memory Cell) (w : World m) : World m :=
  { w.setMemory (w.memory ++ more) with asyncCalls := w.asyncCalls + 1 }

theorem eval_startAsync_error (fn : List (List Cell) → List Cell) (callback : JsVal)
    {arguments : List JsVal} {i : Nat} {e : JsVal}
    (count : (s.argTypes.zip arguments).length = s.argTypes.length)
    (refused : storedBlocks m host 0 (s.argTypes.zip arguments) = .error (i, e)) :
    ∃ more, eval (startAsync host s fn callback arguments) w =
      some (match prependMessage (settingArgument i) e with
        | .error raised => (.error raised, numbered more w)
        | .ok e => (.ok (), { numbered more w with
            ticks := w.ticks ++ [.notify w.asyncCalls callback e] })) := by
  have counts : eval (native numberCall) w =
      some (.ok w.asyncCalls, { w with asyncCalls := w.asyncCalls + 1 }) := rfl
  obtain ⟨more, fails⟩ := eval_marshal_error (w := { w with asyncCalls := w.asyncCalls + 1 }) count refused
  refine ⟨more, ?_⟩
  have stores : eval (native (marshal host s arguments).run) { w with asyncCalls := w.asyncCalls + 1 } =
      some (.ok (.error (i, e)), numbered more w) := eval_native fails
  have completes : eval (completion (prependMessage (settingArgument i) e)) (numbered more w) =
      some (prependMessage (settingArgument i) e, numbered more w) := eval_completion _
  rw [startAsync, eval_ok counts, eval_ok stores]
  cases prepended : prependMessage (settingArgument i) e with
  | error raised => exact eval_error (completes.trans (by rw [prepended]))
  | ok e => exact eval_ok (completes.trans (by rw [prepended]))

theorem async_checked (arity : values.length = s.argTypes.length) (function : callback.isFunction) :
    async (m := m) host s fn (values ++ [callback]) =
      startAsync host s fn callback (values ++ [callback]) := by
  have last : (values ++ [callback])[s.argTypes.length + 1 - 1]?.getD .undefined = callback := by
    simp [← arity]
  have length : (values ++ [callback]).length = s.argTypes.length + 1 := by simp [arity]
  simp only [async, length, last, function, ne_eq, not_true_eq_false, if_false, Bool.true_eq_false]

theorem zip_callback (callback : JsVal) (arity : values.length = s.argTypes.length) :
    s.argTypes.zip (values ++ [callback]) = s.argTypes.zip values := by
  have whole : (s.argTypes ++ []).zip (values ++ [callback]) = _ := List.zip_append arity.symm
  simpa using whole

/-! ## What an event can do -/

/-- What a call to an asynchronous proxy can do to the world: allocate, and queue a
tick or a request under the call's own number, about blocks of its own. -/
structure Adds (w w' : World m) (ticks : List Tick) (requests : List (Request m)) : Prop where
  memory : w.memory <+: w'.memory
  pending : w'.pending = w.pending
  ticks_eq : w'.ticks = w.ticks ++ ticks
  requests_eq : w'.requests = w.requests ++ requests
  counted : w.asyncCalls ≤ w'.asyncCalls
  tick : ∀ tick ∈ ticks, w.asyncCalls < w'.asyncCalls ∧ ∃ callback e, tick = .notify w.asyncCalls callback e
  request : ∀ request ∈ requests, w.asyncCalls < w'.asyncCalls ∧ request.call = w.asyncCalls ∧
    request.result.block = w.memory.length ∧ w.memory.length < w'.memory.length

theorem adds_of_async {arguments : List JsVal} {outcome : Except JsVal Unit}
    (did : eval (async host s fn arguments) w = some (outcome, w')) :
    ∃ ticks requests, Adds w w' ticks requests := by
  have idle : Adds w w [] [] := ⟨List.prefix_refl _, rfl, by simp, by simp, Nat.le_refl _, by simp, by simp⟩
  simp only [async] at did
  split at did
  · obtain ⟨_, rfl⟩ := Prod.mk.inj (Option.some.inj did)
    exact ⟨[], [], idle⟩
  · rename_i arity
    split at did
    · obtain ⟨_, rfl⟩ := Prod.mk.inj (Option.some.inj did)
      exact ⟨[], [], idle⟩
    · have count : (s.argTypes.zip arguments).length = s.argTypes.length := by
        rw [List.length_zip]
        omega
      cases storing : storedBlocks m host 0 (s.argTypes.zip arguments) with
      | ok blocks =>
        rw [eval_startAsync_ok count storing] at did
        obtain ⟨_, rfl⟩ := Prod.mk.inj (Option.some.inj did)
        refine ⟨[], [issued s fn _ w], ⟨?_, rfl, by simp [queued, World.setMemory], rfl, Nat.le_succ _,
          by simp, ?_⟩⟩
        · simp [queued, marshalled, World.setMemory]
        · simp [queued, issued, marshalled, World.setMemory]
      | error failure =>
        obtain ⟨i, e⟩ := failure
        obtain ⟨more, ends⟩ := eval_startAsync_error (w := w) fn
          (arguments[arguments.length - 1]?.getD .undefined) count storing
        rw [ends] at did
        cases prepended : prependMessage (settingArgument i) e with
        | error raised =>
          rw [prepended] at did
          obtain ⟨_, rfl⟩ := Prod.mk.inj (Option.some.inj did)
          exact ⟨[], [], List.prefix_append _ _, rfl, by simp [numbered, World.setMemory],
            by simp [numbered, World.setMemory], Nat.le_succ _, by simp, by simp⟩
        | ok e =>
          rw [prepended] at did
          obtain ⟨_, rfl⟩ := Prod.mk.inj (Option.some.inj did)
          exact ⟨[_], [], List.prefix_append _ _, rfl, rfl, by simp [numbered, World.setMemory],
            Nat.le_succ _, by simp [numbered], by simp⟩

theorem step_eq (alive : l.ended = false) (event : Event m) : l.step host event = l.proceed host event :=
  if_neg (by simp [alive])

theorem step_some {event : Event m} (next : l.step host event = some t) :
    l.ended = false ∧ l.proceed host event = some t := by
  unfold Loop.step at next
  cases ended : l.ended with
  | true => simp [ended] at next
  | false => exact ⟨rfl, by simpa [ended] using next⟩

theorem step_call {arguments : List JsVal} (next : l.step host (.call s fn arguments) = some t) :
    t.delivered = l.delivered ∧ t.ended = false ∧ ∃ ticks requests, Adds l.world t.world ticks requests := by
  obtain ⟨alive, next⟩ := step_some next
  simp only [Loop.proceed] at next
  split at next
  · rename_i outcome world ran
    obtain rfl := Option.some.inj next
    exact ⟨rfl, alive, adds_of_async ran⟩
  · cases next

theorem runTick_delivered (l : Loop m) (raised : Option JsVal) (handled : Bool) (tick : Tick) :
    (l.runTick raised handled tick).world = l.world ∧
      (l.runTick raised handled tick).delivered = l.delivered ++ tick.deliveries ∧
      (handled = true ∨ tick.raises raised = none → (l.runTick raised handled tick).ended = l.ended) := by
  unfold Loop.runTick
  cases raises : tick.raises raised with
  | none => exact ⟨rfl, rfl, fun _ => rfl⟩
  | some e => cases handled <;> simp

theorem step_tick {raised : Option JsVal} {handled : Bool} (next : l.step host (.tick raised handled) = some t) :
    ∃ tick rest, l.world.ticks = tick :: rest ∧ t.world = { l.world with ticks := rest } ∧
      t.delivered = l.delivered ++ tick.deliveries ∧
      (handled = true ∨ tick.raises raised = none → t.ended = false) := by
  obtain ⟨alive, next⟩ := step_some next
  simp only [Loop.proceed] at next
  split at next
  · cases next
  · rename_i tick rest ticks
    obtain rfl := Option.some.inj next
    obtain ⟨world, delivered, ended⟩ :=
      runTick_delivered { l with world := { l.world with ticks := rest } } raised handled tick
    exact ⟨tick, rest, ticks, world, delivered, fun goes => (ended goes).trans alive⟩

/-- Marks the request of a call as performed. -/
def perform (call : Nat) (request : Request m) : Request m :=
  if request.call = call then { request with performed := true } else request

theorem step_perform {call : Nat} (next : l.step host (.perform call) = some t) :
    t.delivered = l.delivered ∧ t.ended = false ∧ ∃ request arguments memory,
      l.world.request call false = some request ∧
      exec (loadArguments request.argsList 0 request.cif.atypes) l.world = some (arguments, l.world) ∧
      store l.world.memory request.result (returned m request.cif.rtype (request.fn arguments)) =
        some memory ∧
      t.world = { l.world.setMemory memory with requests := l.world.requests.map (perform call) } := by
  obtain ⟨alive, next⟩ := step_some next
  simp only [Loop.proceed] at next
  split at next
  · cases next
  · rename_i request found
    split at next
    · cases next
    · rename_i world ran
      obtain ⟨arguments, memory, loads, _, stores, rfl⟩ := exec_ffiCall_some ran
      obtain rfl := Option.some.inj next
      exact ⟨rfl, alive, request, arguments, memory, found, loads, stores, rfl⟩

/-- The calls of a user's function that a completion makes. -/
def completionDeliveries (call : Nat) (callback : JsVal) : Except JsVal JsVal → List Delivery
  | .ok r => [⟨call, callback, [.null, r]⟩]
  | .error _ => []

theorem step_finish {call : Nat} {raised : Option JsVal} (next : l.step host (.finish call raised) = some t) :
    t.world = { l.world with requests := l.world.requests.filter fun other => other.call ≠ call } ∧
      ∃ request cells, l.world.request call true = some request ∧
        load l.world.memory request.result (derefReads m request.returnType) = some cells ∧
        t.delivered = l.delivered ++
          completionDeliveries call request.callback (host.get request.returnType cells) ∧
        (raised = none → (∃ r, host.get request.returnType cells = .ok r) → t.ended = false) := by
  obtain ⟨_, next⟩ := step_some next
  simp only [Loop.proceed] at next
  split at next
  · cases next
  · rename_i request found
    split at next
    · cases next
    · rename_i r world got
      obtain ⟨rfl, _, cells, loads, same⟩ := eval_refGet_some got
      obtain rfl := Option.some.inj next
      refine ⟨rfl, request, cells, found, loads, by rw [← same]; rfl, ?_⟩
      rintro rfl _
      rfl
    · rename_i e world got
      obtain ⟨rfl, _, cells, loads, same⟩ := eval_refGet_some got
      obtain rfl := Option.some.inj next
      refine ⟨rfl, request, cells, found, loads, by rw [← same]; exact (List.append_nil _).symm, ?_⟩
      rintro _ ⟨r, decodes⟩
      cases same.trans decodes

theorem step_other {memory : Memory Cell} {errors : List JsVal}
    (next : l.step host (.other memory errors) = some t) :
    t.delivered = l.delivered ∧ t.ended = false ∧
      t.world = { l.world with memory, ticks := l.world.ticks ++ errors.map .rethrow } := by
  obtain ⟨alive, next⟩ := step_some next
  obtain rfl := Option.some.inj next
  exact ⟨rfl, alive, rfl⟩

/-! ## What the synchronous call computes -/

/-- The result buffer after the call. -/
def resultBlock (s : Signature m) (fn : List (List Cell) → List Cell) (arguments : List (List Cell)) :
    List Cell :=
  splice (zeros (resultSize m s.returnType)) 0 (returned m s.cif.rtype (fn arguments))

/-- What `result.deref()` makes of it. -/
def decodedResult (host : Host) (s : Signature m) (fn : List (List Cell) → List Cell)
    (arguments : List (List Cell)) : Except JsVal JsVal :=
  host.get s.returnType ((resultBlock s fn arguments).take (derefReads m s.returnType))

/-- The call is defined: the buffers are as large as what is moved. -/
structure Computes (s : Signature m) (fn : List (List Cell) → List Cell)
    (blocks arguments : List (List Cell)) : Prop where
  count : blocks.length = s.argTypes.length
  fetched : fetch s.cif.atypes blocks = some arguments
  width : (fn arguments).length = returnWidth s.cif.rtype
  room : (returned m s.cif.rtype (fn arguments)).length ≤ resultSize m s.returnType
  readable : derefReads m s.returnType ≤ resultSize m s.returnType

theorem resultBlock_length {blocks arguments : List (List Cell)} (computes : Computes s fn blocks arguments) :
    (resultBlock s fn arguments).length = resultSize m s.returnType := by
  rw [resultBlock, splice_length (by simpa [zeros] using computes.room), zeros, List.length_replicate]

theorem readyArgs (s : Signature m) : s.cif.atypes.length = s.argTypes.length :=
  (prepCif_eq_some s.prepared).2.length_eq.symm

theorem result_marshalled (s : Signature m) (memory : Memory Cell) (blocks : List (List Cell)) :
    (marshalled s memory blocks)[memory.length]? = some (zeros (resultSize m s.returnType)) := by
  simp [marshalled]

theorem storedBlocks_length {i : Nat} {arguments : List (RefType × JsVal)} {blocks : List (List Cell)}
    (accepted : storedBlocks m host i arguments = .ok blocks) : blocks.length = arguments.length := by
  induction arguments generalizing i blocks with
  | nil =>
    obtain rfl := Except.ok.inj accepted
    rfl
  | cons argument rest ih =>
    obtain ⟨type, value⟩ := argument
    rw [storedBlocks] at accepted
    split at accepted
    · cases accepted
    · cases others : storedBlocks m host (i + 1) rest with
      | error failure =>
        rw [others] at accepted
        cases accepted
      | ok tail =>
        rw [others] at accepted
        obtain rfl := Except.ok.inj accepted
        simp [ih others]

/-- The native call of a proxy whose arguments are stored. -/
theorem eval_FFICall_computes {blocks : List (List Cell)} {outcome : Except JsVal Unit}
    (quiet : w.pending = none) (count : blocks.length = s.argTypes.length)
    (ran : eval (FFICall s.cif (ofFunction fn) ⟨⟨w.memory.length, 0⟩, resultSize m s.returnType⟩
      ⟨⟨w.memory.length + 1, 0⟩, s.argTypes.length * m.pointer.bytes⟩)
      (w.setMemory (marshalled s w.memory blocks)) = some (outcome, w')) :
    outcome = .ok () ∧ ∃ arguments, fetch s.cif.atypes blocks = some arguments ∧
      (fn arguments).length = returnWidth s.cif.rtype ∧
      (returned m s.cif.rtype (fn arguments)).length ≤ resultSize m s.returnType ∧
      w'.memory[w.memory.length]? = some (resultBlock s fn arguments) := by
  have array := argumentArray_marshalled s w.memory count
  have same : s.cif.atypes.length = (pointersFrom (w.memory.length + 2) s.argTypes.length).length := by
    rw [pointersFrom_length, readyArgs]
  have fetches := exec_loadArguments (w := w.setMemory (marshalled s w.memory blocks)) [] array.start
    array.entries array.held same
  obtain ⟨_, between, called, thrown⟩ := eval_native_bind_some ran
  obtain ⟨arguments, memory, loads, width, stores, rfl⟩ := exec_ffiCall_some called
  rw [List.length_nil, loads] at fetches
  obtain ⟨_, fetched, pair⟩ := Option.map_eq_some_iff.mp fetches.symm
  obtain ⟨rfl, _⟩ := Prod.mk.inj pair
  obtain ⟨cells, found, inside, rfl⟩ := store_eq_some.mp stores
  obtain rfl := Option.some.inj ((result_marshalled s w.memory blocks).symm.trans found)
  obtain ⟨rfl, rfl⟩ := Prod.mk.inj (Option.some.inj ((eval_throwPending (by exact quiet)).symm.trans thrown))
  refine ⟨rfl, _, fetched, width, by simpa [zeros] using inside, ?_⟩
  refine List.getElem?_set_self ?_
  simp [marshalled]

theorem computes_of_sync {blocks : List (List Cell)} {outcome : Except JsVal JsVal}
    (quiet : w.pending = none) (arity : values.length = s.argTypes.length)
    (accepted : storedBlocks m host 0 (s.argTypes.zip values) = .ok blocks)
    (did : eval (proxy host s (ofFunction fn) values) w = some (outcome, w')) :
    ∃ arguments, Computes s fn blocks arguments ∧ outcome = decodedResult host s fn arguments := by
  have count : blocks.length = s.argTypes.length := by
    rw [storedBlocks_length accepted, List.length_zip, arity, Nat.min_self]
  rw [eval_proxy_ok arity accepted] at did
  rcases eval_bind_some did with ⟨e, throws, _⟩ | ⟨_, between, calls, gets⟩
  · cases (eval_FFICall_computes quiet count throws).1
  · obtain ⟨_, arguments, fetched, width, room, here⟩ := eval_FFICall_computes quiet count calls
    obtain ⟨_, _, cells, loads, rfl⟩ := eval_refGet_some gets
    obtain ⟨block, found, inside, rfl⟩ := load_eq_some.mp loads
    obtain rfl := Option.some.inj (here.symm.trans found)
    have size : (resultBlock s fn arguments).length = resultSize m s.returnType := by
      rw [resultBlock, splice_length (by simpa [zeros] using room), zeros, List.length_replicate]
    rw [size, Nat.zero_add] at inside
    exact ⟨arguments, ⟨count, fetched, width, room, inside⟩, rfl⟩

end NodeFfi
