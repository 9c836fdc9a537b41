import NodeFfi.MarshallingInversions
import NodeFfi.ValueSizes

/-! A call that goes from JavaScript to C and back into JavaScript: a proxy whose C
function is the closure of a callback with the same signature. -/
namespace NodeFfi
open BlockMemory PartialPrograms JsVal

variable {m : DataModel} {host : Host} {s : Signature m} {w w' : World m}

/-- What `ref` reads back after storing a value as a type over other bytes. -/
def readBackOver (host : Host) (type : RefType) (old : List Cell) (value : JsVal) : Except JsVal JsVal :=
  host.get type (host.set type old value).1

/-- What `ref` reads back after storing a value as a type in fresh storage. -/
def readBack (m : DataModel) (host : Host) (type : RefType) (value : JsVal) : Except JsVal JsVal :=
  readBackOver host type (zeros (derefReads m type)) value

/-- The type's `set` accepts the value in fresh storage. -/
def Accepts (m : DataModel) (host : Host) (type : RefType) (value : JsVal) : Prop :=
  (stored m host type value).2 = .ok ()

/-- The type's `set` accepts the value, whatever it is stored over. -/
def Takes (m : DataModel) (host : Host) (type : RefType) (value : JsVal) : Prop :=
  ∀ old, old.length = derefReads m type → (host.set type old value).2 = .ok ()

/-- A function that returns, in every world, a value the return type accepts. It may do
anything else JavaScript can do, short of shrinking memory. -/
def Conforms (m : DataModel) (host : Host) (returnType : RefType) (f : List JsVal → JsM m JsVal) : Prop :=
  ∀ args (w : World m), w.pending = none → ∃ r w', eval (f args) w = some (.ok r, w') ∧
    Takes m host returnType r ∧ Grows w.memory w'.memory ∧ w'.pending = none

/-- Argument `i`, counted from zero, is the first that its type does not accept; storing
it throws `e`. -/
def FirstRefused (m : DataModel) (host : Host) (arguments : List (RefType × JsVal)) (i : Nat) (e : JsVal) :
    Prop :=
  ∃ before type value after, arguments = before ++ (type, value) :: after ∧ before.length = i ∧
    (∀ argument ∈ before, Accepts m host argument.1 argument.2) ∧
    (stored m host type value).2 = .error e

/-! ## Storing the arguments -/

theorem storedBlocks_ok {i : Nat} {arguments : List (RefType × JsVal)}
    (accepted : ∀ argument ∈ arguments, Accepts m host argument.1 argument.2) :
    storedBlocks m host i arguments = .ok (arguments.map fun a => (stored m host a.1 a.2).1) := by
  induction arguments generalizing i with
  | nil => rfl
  | cons argument rest ih =>
    obtain ⟨type, value⟩ := argument
    have first : (stored m host type value).2 = .ok () := accepted (type, value) (by simp)
    rw [storedBlocks, first, ih fun other member => accepted other (by simp [member])]
    rfl

theorem storedBlocks_error (start : Nat) {i : Nat} {arguments : List (RefType × JsVal)} {e : JsVal}
    (refused : FirstRefused m host arguments i e) :
    storedBlocks m host start arguments = .error (start + i, e) := by
  obtain ⟨before, type, value, after, rfl, rfl, accepted, throws⟩ := refused
  induction before generalizing start with
  | nil => simp [storedBlocks, throws]
  | cons argument before ih =>
    obtain ⟨type', value'⟩ := argument
    have first : (stored m host type' value').2 = .ok () := accepted (type', value') (by simp)
    rw [List.cons_append, storedBlocks, first, ih _ fun other member => accepted other (by simp [member])]
    simp [Except.map]
    omega

/-- Either every value is accepted or one is the first that is not. -/
theorem accepted_or_refused (m : DataModel) (host : Host) (arguments : List (RefType × JsVal)) :
    (∀ argument ∈ arguments, Accepts m host argument.1 argument.2) ∨
      ∃ i e, FirstRefused m host arguments i e := by
  induction arguments with
  | nil => exact .inl (by simp)
  | cons argument rest ih =>
    obtain ⟨type, value⟩ := argument
    cases outcome : (stored m host type value).2 with
    | error e => exact .inr ⟨0, e, [], type, value, rest, rfl, rfl, by simp, outcome⟩
    | ok done =>
      rcases ih with accepted | ⟨i, e, before, type', value', after, rfl, rfl, accepted, throws⟩
      · exact .inl (List.forall_mem_cons.mpr ⟨outcome, accepted⟩)
      · exact .inr ⟨_, e, (type, value) :: before, type', value', after, rfl, rfl,
          List.forall_mem_cons.mpr ⟨outcome, accepted⟩, throws⟩

theorem FirstRefused.not_accepted {arguments : List (RefType × JsVal)} {i : Nat} {e : JsVal}
    (refused : FirstRefused m host arguments i e) :
    ¬ ∀ argument ∈ arguments, Accepts m host argument.1 argument.2 := by
  obtain ⟨before, type, value, after, rfl, _, _, throws⟩ := refused
  intro accepted
  have stores : (stored m host type value).2 = .ok () := accepted (type, value) (by simp)
  rw [throws] at stores
  cases stores

theorem sized_blocks (host : Host) {types : List RefType} {values : List JsVal} (arity : values.length = types.length) :
    List.Forall₂ (fun type cells => cells.length = derefReads m type) types
      ((types.zip values).map fun a => (stored m host a.1 a.2).1) := by
  induction types generalizing values with
  | nil => exact .nil
  | cons type rest ih =>
    obtain ⟨value, others, rfl⟩ := List.exists_cons_of_length_eq_add_one arity
    exact .cons (stored_length type value) (ih (by simpa using arity))

theorem decoded_blocks {types : List RefType} {values args : List JsVal}
    (back : List.Forall₂ (fun argument arg => readBack m host argument.1 argument.2 = .ok arg)
      (types.zip values) args) :
    decoded host types ((types.zip values).map fun a => (stored m host a.1 a.2).1) = .ok args := by
  induction types generalizing values args with
  | nil =>
    cases back
    rfl
  | cons type rest ih =>
    cases values with
    | nil =>
      cases back
      rfl
    | cons value values =>
      obtain ⟨arg, others, first, tail, rfl⟩ := List.forall₂_cons_left_iff.mp back
      change host.get type (stored m host type value).1 = .ok arg at first
      simp only [List.zip_cons_cons, List.map_cons, decoded, first, ih tail]
      rfl

/-! ## Inside the callback -/

/-- The world in which a closure's function runs: its arguments are laid out and the
call is recorded. -/
def entered (host : Host) (s : Signature m) (blocks : List (List Cell)) (args : List JsVal)
    (w : World m) : World m :=
  { w.setMemory (dispatchMemory host s w.memory blocks) with calls := w.calls ++ [args] }

/-- The arguments are read and the function is called; what is left is to store its
result. -/
theorem eval_body {f : List JsVal → JsM m JsVal} {blocks : List (List Cell)} {args : List JsVal} {r : JsVal}
    (sized : List.Forall₂ (fun type cells => cells.length = derefReads m type) s.argTypes blocks)
    (decodes : decoded host s.argTypes blocks = .ok args)
    (returns : eval (f args) (entered host s blocks args w) = some (.ok r, w')) :
    eval (body host ⟨s, some f⟩ f ⟨w.memory.length + blocks.length + 1, 0⟩ ⟨w.memory.length + blocks.length, 0⟩)
        (w.setMemory (dispatchMemory host s w.memory blocks)) =
      eval (storeResult host s.returnType
        ⟨⟨w.memory.length + blocks.length + 1, 0⟩, s.returnType.size m⟩ r) w' := by
  have array := argumentArray_dispatched host s w.memory blocks
  have decoding := eval_decodeArguments (w := w.setMemory (dispatchMemory host s w.memory blocks)) host
    ⟨⟨w.memory.length + blocks.length, 0⟩, m.pointer.bytes * s.argTypes.length⟩ []
    array.start array.entries array.held sized
  rw [decodes, List.length_nil] at decoding
  have applies : eval (apply f args) (w.setMemory (dispatchMemory host s w.memory blocks)) =
      some (.ok r, w') := by
    rw [apply, eval_ok (eval_native rfl)]
    exact returns
  rw [body, invokeFunction, eval_ok decoding, eval_ok applies]

/-- The storage for the return value is the last block of the world the function is called
in; these are the bytes in it that the function left there. -/
def SlotHolds (host : Host) (s : Signature m) (called returned : World m) (old : List Cell) : Prop :=
  called.memory.getLast? = some ((List.range (returnSlot s.cif.rtype)).map host.residue) ∧
    load returned.memory ⟨called.memory.length - 1, 0⟩ (derefReads m s.returnType) = some old

theorem entered_slot (host : Host) (s : Signature m) (blocks : List (List Cell)) (args : List JsVal) (w : World m) :
    (entered host s blocks args w).memory.getLast? =
        some ((List.range (returnSlot s.cif.rtype)).map host.residue) ∧
      (entered host s blocks args w).memory.length - 1 = w.memory.length + blocks.length + 1 := by
  change (dispatchMemory host s w.memory blocks).getLast? = _ ∧ (dispatchMemory host s w.memory blocks).length - 1 = _
  rw [dispatchMemory]
  exact ⟨List.getLast?_concat, by simp [Nat.add_assoc]⟩

/-- The result is written over what the slot holds. -/
theorem eval_storeResult {slot : Pointer} {old : List Cell} {r : JsVal}
    (held : load w.memory slot (derefReads m s.returnType) = some old)
    (takes : (host.set s.returnType old r).2 = .ok ()) :
    ∃ memory, Grows w.memory memory ∧
      eval (storeResult host s.returnType ⟨slot, s.returnType.size m⟩ r) w = some (.ok (), w.setMemory memory) ∧
      load memory slot (derefReads m s.returnType) = some (host.set s.returnType old r).1 := by
  obtain ⟨block, here, inside, _⟩ := load_eq_some.mp held
  have new : (host.set s.returnType old r).1.length = derefReads m s.returnType := by
    rw [host.set_length, load_length held]
  obtain ⟨memory, stores⟩ : ∃ memory, store w.memory slot (host.set s.returnType old r).1 = some memory :=
    ⟨_, store_of_block here (by simpa [new] using inside)⟩
  refine ⟨memory, grows_store stores, ?_, ?_⟩
  · have sets := eval_refSet host ⟨slot, s.returnType.size m⟩ r (admits_of_room (Nat.le_refl _)) held stores
    rw [takes] at sets
    exact eval_tryCatch_ok sets
  · rw [load_store stores (Nat.le_of_eq new.symm), List.take_of_length_le (Nat.le_of_eq new)]

/-- A closure returns the bytes its function's result is stored as. -/
theorem exec_closure_returns {f : List JsVal → JsM m JsVal} {blocks : List (List Cell)}
    {args : List JsVal} {r : JsVal} (agrees : returnWidth s.cif.rtype = derefReads m s.returnType)
    (sized : List.Forall₂ (fun type cells => cells.length = derefReads m type) s.argTypes blocks)
    (decodes : decoded host s.argTypes blocks = .ok args)
    (returns : eval (f args) (entered host s blocks args w) = some (.ok r, w'))
    (takes : Takes m host s.returnType r)
    (grows : Grows (entered host s blocks args w).memory w'.memory) (quiet : w.pending = none) :
    ∃ memory old, Grows w'.memory memory ∧ SlotHolds host s (entered host s blocks args w) w' old ∧
      exec (closure host ⟨s, some f⟩ blocks) w =
        some ((host.set s.returnType old r).1, w'.setMemory memory) ∧
      (host.set s.returnType old r).1.length = derefReads m s.returnType := by
  obtain ⟨slot, here, size⟩ := grows _ _ (returnSlot_dispatched host s w.memory blocks)
  have room : derefReads m s.returnType ≤ slot.length := by
    rw [size, ← agrees]
    simp [returnSlot]
  have held : load w'.memory ⟨w.memory.length + blocks.length + 1, 0⟩ (derefReads m s.returnType) =
      some (slot.take (derefReads m s.returnType)) := load_first here room
  obtain ⟨memory, kept, stores, left⟩ := eval_storeResult (r := r) held (takes _ (load_length held))
  obtain ⟨last, place⟩ := entered_slot host s blocks args w
  refine ⟨memory, _, kept, ⟨last, place ▸ held⟩, ?_, load_length left⟩
  have dispatches : exec (dispatchToV8 host (return) ⟨s, some f⟩ ⟨w.memory.length + blocks.length + 1, 0⟩
      ⟨w.memory.length + blocks.length, 0⟩ false) (w.setMemory (dispatchMemory host s w.memory blocks)) =
        some ((), w'.setMemory memory) := by
    rw [exec_dispatch_direct _ rfl (by exact quiet) ((eval_body sized decodes returns).trans stores)]
    rfl
  rw [exec_closure, exec_bind dispatches, exec_read, agrees]
  change Option.map _ (load memory _ _) = _
  rw [left]
  rfl

/-! ## Through the proxy -/

/-- A proxy returns what the return type's `get` makes of the bytes its function returns. -/
theorem eval_proxy_returns {fn : Native m} {arguments : List JsVal} {blocks : List (List Cell)}
    {cells : List Cell} (target : IsLP64 m) (agree : SizesAgree s)
    (arity : arguments.length = s.argTypes.length)
    (accepted : storedBlocks m host 0 (s.argTypes.zip arguments) = .ok blocks)
    (sized : List.Forall₂ (fun type cells => cells.length = derefReads m type) s.argTypes blocks)
    (calls : exec (fn blocks) (w.setMemory (marshalled s w.memory blocks)) = some (cells, w'))
    (grows : Grows (marshalled s w.memory blocks) w'.memory) (quiet : w'.pending = none)
    (long : cells.length = derefReads m s.returnType) :
    ∃ memory, eval (proxy host s fn arguments) w = some (host.get s.returnType cells, w'.setMemory memory) := by
  obtain ⟨_, readyArgs⟩ := prepCif_eq_some s.prepared
  have width := long.trans agree.returns.symm
  obtain ⟨enough, readable⟩ := result_fits target agree.returns
  have count : blocks.length = s.argTypes.length := sized.length_eq.symm
  have start : (marshalled s w.memory blocks)[w.memory.length]? = some (zeros (resultSize m s.returnType)) := by
    simp [marshalled]
  obtain ⟨buffer, here, size⟩ := grows _ _ start
  have room : buffer.length = resultSize m s.returnType := by
    rw [size, zeros, List.length_replicate]
  have stored := returned_length s.cif.rtype width
  obtain ⟨memory, stores⟩ : ∃ memory, store w'.memory ⟨w.memory.length, 0⟩
      (returned m s.cif.rtype cells) = some memory :=
    ⟨_, store_of_block here (by simpa [stored, room] using enough)⟩
  refine ⟨memory, ?_⟩
  have call := exec_ffiCall (argumentArray_marshalled s w.memory count)
    (by rw [pointersFrom_length, readyArgs.length_eq])
    (fetch_blocks agree.takes sized) calls width stores
  have read : load (w'.setMemory memory).memory ⟨w.memory.length, 0⟩ (derefReads m s.returnType) =
      some cells := by
    have first := returned_take (m := m) s.cif.rtype cells
    have within : derefReads m s.returnType ≤ (returned m s.cif.rtype cells).length := by
      have kept := congrArg List.length first
      rw [List.length_take] at kept
      omega
    rw [World.setMemory_memory, load_store stores within, ← long, first]
  have calling := eval_FFICall_ok ⟨⟨w.memory.length, 0⟩, resultSize m s.returnType⟩
    ⟨⟨w.memory.length + 1, 0⟩, s.argTypes.length * m.pointer.bytes⟩ call quiet
  rw [eval_proxy_ok arity accepted, eval_ok calling,
    eval_refGet host _ (admits_of_derefReads readable _) read]

/-! ## Sizes

A callback reads the bytes `ref` gives each type, of what libffi has moved; it must not
read more. -/

/-- The loop ends well only where each argument has been moved whole. -/
theorem moved_whole {params : Buffer} (before : List Pointer) {pointers : List Pointer} {blocks : List (List Cell)}
    {types : List RefType} {atypes : List (FfiType m.sizeBits)} {outcome : Except JsVal (List JsVal)}
    (start : params.data.offset = 0)
    (entries : w.memory[params.data.block]? = some ((before ++ pointers).flatMap (pointerCells m)))
    (held : List.Forall₂ (Holds w.memory) pointers (moved atypes blocks))
    (less : List.Forall₂ (fun type atype => atype.size.toNat ≤ derefReads m type) types atypes)
    (back : List.Forall₂ (fun type cells => cells.length = derefReads m type ∧ ∃ arg, host.get type cells = .ok arg)
      types blocks)
    (runs : eval (decodeArguments host params before.length types) w = some (outcome, w')) :
    List.Forall₂ (fun type atype => atype.size.toNat = derefReads m type) types atypes := by
  induction less generalizing before pointers blocks outcome w' with
  | nil => exact .nil
  | @cons type atype types atypes small rest ih =>
    obtain ⟨cells, others, ⟨size, arg, got⟩, backs, rfl⟩ := List.forall₂_cons_left_iff.mp back
    obtain ⟨p, pointers, first, tail, rfl⟩ := List.forall₂_cons_right_iff.mp held
    have entry : exec (readPointer params (before.length * m.pointer.bytes) (type.size m)) w =
        some (⟨p, type.size m⟩, w) := by
      rw [readPointer, exec_bind (exec_loadEntry start entries), exec_pure]
    rw [decodeArguments, eval_ok (eval_native entry)] at runs
    have one : ∃ outcome between, eval (refGet host ⟨p, type.size m⟩ type) w = some (outcome, between) := by
      rcases eval_bind_some runs with ⟨e, throws, _⟩ | ⟨value, between, gets, _⟩
      · exact ⟨_, _, throws⟩
      · exact ⟨_, _, gets⟩
    obtain ⟨_, _, gets⟩ := one
    obtain ⟨_, _, read, loads, _⟩ := eval_refGet_some gets
    obtain ⟨block, here, inside, _⟩ := load_eq_some.mp loads
    obtain rfl := Option.some.inj (first.2.symm.trans here)
    have whole : atype.size.toNat = derefReads m type := by
      rw [List.length_take] at inside
      omega
    refine .cons whole ?_
    have uncut : cells.take atype.size.toNat = cells := by
      rw [whole, ← size, List.take_length]
    have loaded : load w.memory p (derefReads m type) = some cells := by
      rw [show p = ⟨p.block, 0⟩ from by rw [← first.1]]
      exact load_whole (first.2.trans (congrArg some uncut)) size
    have gives := eval_refGet host ⟨p, type.size m⟩ (admits_of_room (Nat.le_refl _)) loaded
    rw [got] at gives
    rw [eval_ok gives] at runs
    have further : w.memory[params.data.block]? =
        some (((before ++ [p]) ++ pointers).flatMap (pointerCells m)) := by
      simpa using entries
    have loop : ∃ outcome between, eval (decodeArguments host params (before ++ [p]).length types) w =
        some (outcome, between) := by
      rw [List.length_append, List.length_singleton]
      rcases eval_bind_some runs with ⟨e, throws, _⟩ | ⟨args, between, decodes, _⟩
      · exact ⟨_, _, throws⟩
      · exact ⟨_, _, decodes⟩
    obtain ⟨_, _, loop⟩ := loop
    exact ih (before ++ [p]) further tail backs loop

/-- The result is stored only where its slot has room for what `ref` stores. -/
theorem storeResult_room {slot : Pointer} {r : JsVal} {outcome : Except JsVal Unit} {block : List Cell}
    (here : w.memory[slot.block]? = some block)
    (stores : eval (storeResult host s.returnType ⟨slot, s.returnType.size m⟩ r) w = some (outcome, w')) :
    derefReads m s.returnType ≤ block.length := by
  cases sets : eval (refSet host ⟨slot, s.returnType.size m⟩ r s.returnType) w with
  | none =>
    rw [storeResult, eval_tryCatch_none sets] at stores
    cases stores
  | some result =>
    obtain ⟨_, _, guarded, rest⟩ := eval_native_bind_some sets
    obtain ⟨_, rfl⟩ := exec_undefinedUnless_some guarded
    obtain ⟨old, _, reads, _⟩ := eval_native_bind_some rest
    obtain ⟨loads, _⟩ := exec_read_some reads
    obtain ⟨_, found, inside, _⟩ := load_eq_some.mp loads
    obtain rfl := Option.some.inj (here.symm.trans found)
    omega

/-- What `ref` reads back of each stored value. -/
theorem sized_back {types : List RefType} {values args : List JsVal} (arity : values.length = types.length)
    (back : List.Forall₂ (fun argument arg => readBack m host argument.1 argument.2 = .ok arg)
      (types.zip values) args) :
    List.Forall₂ (fun type cells => cells.length = derefReads m type ∧ ∃ arg, host.get type cells = .ok arg) types
      ((types.zip values).map fun a => (stored m host a.1 a.2).1) := by
  induction types generalizing values args with
  | nil => exact .nil
  | cons type rest ih =>
    obtain ⟨value, others, rfl⟩ := List.exists_cons_of_length_eq_add_one arity
    obtain ⟨arg, _, first, tail, rfl⟩ := List.forall₂_cons_left_iff.mp back
    exact .cons ⟨stored_length type value, arg, first⟩ (ih (by simpa using arity) tail)

/-- A call that comes to an end has moved every value whole. -/
theorem sizes_of_defined {f : List JsVal → JsM m JsVal} {values args : List JsVal} {outcome : Except JsVal JsVal}
    (target : IsLP64 m) (declarable : Declarable m s.returnType s.argTypes)
    (conforms : Conforms m host s.returnType f) (quiet : w.pending = none)
    (arity : values.length = s.argTypes.length)
    (accepted : ∀ argument ∈ s.argTypes.zip values, Accepts m host argument.1 argument.2)
    (back : List.Forall₂ (fun argument arg => readBack m host argument.1 argument.2 = .ok arg)
      (s.argTypes.zip values) args)
    (defined : eval (proxy host s (closure host ⟨s, some f⟩) values) w = some (outcome, w')) : SizesAgree s := by
  obtain ⟨returnReady, argsReady⟩ := prepCif_eq_some s.prepared
  have sized := sized_blocks (m := m) host arity
  have backs := sized_back arity back
  have decodes := decoded_blocks back
  rw [eval_proxy_ok arity (storedBlocks_ok (i := 0) accepted)] at defined
  generalize (s.argTypes.zip values).map (fun a => (stored m host a.1 a.2).1) = blocks at *
  have calls : ∃ between, exec (ffiCall s.cif (closure host ⟨s, some f⟩) ⟨w.memory.length, 0⟩ ⟨w.memory.length + 1, 0⟩)
      (w.setMemory (marshalled s w.memory blocks)) = some ((), between) := by
    rcases eval_bind_some defined with ⟨e, throws, _⟩ | ⟨done, between, returns, _⟩
    · obtain ⟨_, between, did, _⟩ := eval_native_bind_some throws
      exact ⟨between, did⟩
    · obtain ⟨_, between, did, _⟩ := eval_native_bind_some returns
      exact ⟨between, did⟩
  obtain ⟨_, calls⟩ := calls
  have less := moves_less target declarable.takes argsReady
  have fetched := fetch_moved less sized
  obtain ⟨_, _, ran⟩ := exec_ffiCall_calls (argumentArray_marshalled s w.memory sized.length_eq.symm)
    (by rw [pointersFrom_length, argsReady.length_eq]) fetched calls
  rw [exec_closure] at ran
  obtain ⟨_, _, dispatches, _⟩ := exec_bind_some.mp ran
  obtain ⟨_, _, runs⟩ := exec_dispatch_some rfl (by exact quiet) dispatches
  have array := argumentArray_dispatched host s (marshalled s w.memory blocks) (moved s.cif.atypes blocks)
  have reads : ∃ outcome between, eval (decodeArguments host
      ⟨⟨(marshalled s w.memory blocks).length + (moved s.cif.atypes blocks).length, 0⟩,
        m.pointer.bytes * s.argTypes.length⟩ 0 s.argTypes)
      (w.setMemory (dispatchMemory host s (marshalled s w.memory blocks) (moved s.cif.atypes blocks))) =
        some (outcome, between) := by
    rcases eval_bind_some runs with ⟨e, throws, _⟩ | ⟨args, between, decodes, _⟩
    · exact ⟨_, _, throws⟩
    · exact ⟨_, _, decodes⟩
  obtain ⟨_, _, reads⟩ := reads
  have takes := moved_whole [] array.start array.entries array.held less backs reads
  refine ⟨takes, ?_⟩
  have whole := Option.some.inj ((fetch_blocks takes sized).symm.trans fetched)
  rw [← whole] at runs
  obtain ⟨r, returned, returns, _, grows, _⟩ := conforms args
    (entered host s blocks args (w.setMemory (marshalled s w.memory blocks))) quiet
  have stores := (eval_body (w := w.setMemory (marshalled s w.memory blocks)) sized decodes returns).symm.trans runs
  obtain ⟨slot, here, size⟩ := grows _ _ (returnSlot_dispatched host s (marshalled s w.memory blocks) blocks)
  have room := storeResult_room here stores
  rw [size, List.length_map, List.length_range] at room
  exact returnWidth_of_room target declarable.returns returnReady room

/-! ## The round trip -/

/-- What one call of the proxy of a callback promises: the function is called once with
what `ref` reads back of each value, and what `ref` reads back of its result, stored in
the slot for it, is returned; a call with another number of values, or with a value its
type does not accept, throws and does not call it. -/
structure RoundTrip (host : Host) (s : Signature m) (f : List JsVal → JsM m JsVal) (values : List JsVal)
    (w : World m) : Prop where
  returns : ∀ args, values.length = s.argTypes.length →
    (∀ argument ∈ s.argTypes.zip values, Accepts m host argument.1 argument.2) →
    List.Forall₂ (fun argument arg => readBack m host argument.1 argument.2 = .ok arg)
      (s.argTypes.zip values) args →
    ∃ called r returned old w', called.calls = w.calls ++ [args] ∧
      eval (f args) called = some (.ok r, returned) ∧ w'.calls = returned.calls ∧
      SlotHolds host s called returned old ∧
      eval (proxy host s (closure host ⟨s, some f⟩) values) w =
        some (readBackOver host s.returnType old r, w') ∧
      (s.returnType = .void → readBackOver host s.returnType old r = .ok .null)
  arity : values.length ≠ s.argTypes.length →
    eval (proxy host s (closure host ⟨s, some f⟩) values) w =
      some (.error (typeError (arityMessage s.argTypes.length values.length)), w)
  refused : ∀ i e, values.length = s.argTypes.length → FirstRefused m host (s.argTypes.zip values) i e →
    ∃ thrown w', eval (proxy host s (closure host ⟨s, some f⟩) values) w = some (.error thrown, w') ∧
      Leads (settingArgument (i + 1)) thrown ∧ w'.calls = w.calls

/-- A thrown value that names the argument once `lead` is prepended to its message: one
whose message can be assigned, or where the assignment comes to such a message anyway. -/
def Relabels (lead : String) : JsVal → Prop
  | .object _ _ .writable => True
  | .object kind message .ignored => Leads lead (.object kind message .ignored)
  | .hostile _ raised => Leads lead raised
  | _ => False

theorem settingArgument_head (i : Nat) (rest : String) :
    (settingArgument i ++ rest).toList.head? = some 'e' := by
  have first : "error setting argument ".toList = 'e' :: "rror setting argument ".toList := by decide
  unfold settingArgument
  simp only [String.toList_append, first, List.cons_append, List.head?_cons]

/-- The engine's own reports do not start like the proxy's. -/
theorem not_leads_typeError {i : Nat} {message : String} (other : message.toList.head? ≠ some 'e') :
    ¬ Leads (settingArgument i) (typeError message) := by
  intro leads
  obtain ⟨rest, same⟩ : ∃ rest, message = settingArgument i ++ rest := leads
  exact other (same ▸ settingArgument_head i rest)

theorem leads_relabelled_iff (i : Nat) (e : JsVal) :
    Leads (settingArgument i) (relabelled (settingArgument i) e) ↔ Relabels (settingArgument i) e := by
  have refuses : ∀ {e message}, relabelled (settingArgument i) e = typeError message →
      message.toList.head? ≠ some 'e' → ¬ Relabels (settingArgument i) e →
      (Leads (settingArgument i) (relabelled (settingArgument i) e) ↔ Relabels (settingArgument i) e) := by
    intro e message raises other unnamed
    rw [raises]
    exact iff_of_false (not_leads_typeError other) unnamed
  cases e with
  | undefined => exact refuses rfl (by decide) (by simp [Relabels])
  | null => exact refuses rfl (by decide) (by simp [Relabels])
  | bool b => exact refuses rfl (by decide) (by simp [Relabels])
  | number bits => exact refuses rfl (by decide) (by simp [Relabels])
  | bigint value => exact refuses rfl (by decide) (by simp [Relabels])
  | string text => exact refuses rfl (by decide) (by simp [Relabels])
  | symbol id => exact refuses rfl (by decide) (by simp [Relabels])
  | hostile id raised => exact Iff.rfl
  | object kind message slot =>
    cases slot with
    | readOnly => exact refuses rfl (by decide) (by simp [Relabels])
    | ignored => exact Iff.rfl
    | writable => exact iff_of_true ⟨message.getD "undefined", rfl⟩ trivial

theorem proxy_returns {f : List JsVal → JsM m JsVal} {values args : List JsVal} (target : IsLP64 m)
    (agree : SizesAgree s) (conforms : Conforms m host s.returnType f) (quiet : w.pending = none)
    (arity : values.length = s.argTypes.length)
    (accepted : ∀ argument ∈ s.argTypes.zip values, Accepts m host argument.1 argument.2)
    (back : List.Forall₂ (fun argument arg => readBack m host argument.1 argument.2 = .ok arg)
      (s.argTypes.zip values) args) :
    ∃ called r returned old w', called.calls = w.calls ++ [args] ∧
      eval (f args) called = some (.ok r, returned) ∧ w'.calls = returned.calls ∧
      SlotHolds host s called returned old ∧
      eval (proxy host s (closure host ⟨s, some f⟩) values) w =
        some (readBackOver host s.returnType old r, w') := by
  have blocks := storedBlocks_ok (i := 0) accepted
  have sized := sized_blocks (m := m) host arity
  have decodes := decoded_blocks back
  obtain ⟨r, returned, returns, takes, grows, settled⟩ := conforms args
    (entered host s _ args (w.setMemory (marshalled s w.memory
      ((s.argTypes.zip values).map fun a => (stored m host a.1 a.2).1)))) quiet
  obtain ⟨memory, old, kept, slot, calls, long⟩ :=
    exec_closure_returns agree.returns sized decodes returns takes grows quiet
  have entering : Grows (marshalled s w.memory
      ((s.argTypes.zip values).map fun a => (stored m host a.1 a.2).1)) returned.memory := by
    refine Grows.trans ?_ grows
    change Grows _ (dispatchMemory host s _ _)
    rw [dispatchMemory, List.append_assoc, List.append_assoc]
    exact grows_append _
  obtain ⟨final, proxied⟩ := eval_proxy_returns target agree arity blocks sized calls
    (entering.trans kept) settled long
  exact ⟨_, r, returned, old, (returned.setMemory memory).setMemory final, rfl, returns, rfl, slot, proxied⟩

/-- **Marshalling round trip.** A call of the proxy of a callback does what `RoundTrip`
promises exactly when libffi moves every value whole, and a value its type does not
accept makes it throw something that lets its message be prepended to. -/
theorem round_trip_iff {f : List JsVal → JsM m JsVal} {values : List JsVal} (target : IsLP64 m)
    (declarable : Declarable m s.returnType s.argTypes) (voidIsNull : host.get .void [] = .ok .null)
    (conforms : Conforms m host s.returnType f) (quiet : w.pending = none) :
    RoundTrip host s f values w ↔ (values.length = s.argTypes.length →
      ((∀ argument ∈ s.argTypes.zip values, Accepts m host argument.1 argument.2) →
        (∃ args, List.Forall₂ (fun argument arg => readBack m host argument.1 argument.2 = .ok arg)
          (s.argTypes.zip values) args) → SizesAgree s) ∧
      ∀ i e, FirstRefused m host (s.argTypes.zip values) i e → Relabels (settingArgument (i + 1)) e) := by
  constructor
  · intro trip arity
    refine ⟨?_, fun i e refused => ?_⟩
    · rintro accepted ⟨args, back⟩
      obtain ⟨_, _, _, _, _, _, _, _, _, returns, _⟩ := trip.returns args arity accepted back
      exact sizes_of_defined target declarable conforms quiet arity accepted back returns
    · obtain ⟨thrown, w', throws, leads, _⟩ := trip.refused i e arity refused
      have blocks := storedBlocks_error 0 refused
      rw [Nat.zero_add] at blocks
      obtain ⟨more, relabels⟩ := eval_proxy_error (w := w) (closure host ⟨s, some f⟩) arity blocks
      obtain ⟨same, _⟩ := Prod.mk.inj (Option.some.inj (throws.symm.trans relabels))
      obtain rfl := Except.error.inj same
      exact (leads_relabelled_iff _ e).mp leads
  · intro condition
    refine ⟨fun args arity accepted back => ?_, eval_proxy_arity, fun i e arity refused => ?_⟩
    · obtain ⟨called, r, returned, old, w', once, returns, after, slot, proxied⟩ :=
        proxy_returns target ((condition arity).1 accepted ⟨args, back⟩) conforms quiet arity accepted back
      refine ⟨called, r, returned, old, w', once, returns, after, slot, proxied, fun void => ?_⟩
      have size := load_length slot.2
      rw [void] at size
      have nothing : (host.set .void old r).1 = [] :=
        List.eq_nil_of_length_eq_zero ((host.set_length .void old r).trans size)
      rw [void, readBackOver, nothing, voidIsNull]
    · have blocks := storedBlocks_error 0 refused
      rw [Nat.zero_add] at blocks
      obtain ⟨more, throws⟩ := eval_proxy_error (w := w) (closure host ⟨s, some f⟩) arity blocks
      exact ⟨_, _, throws, (leads_relabelled_iff _ e).mpr ((condition arity).2 i e refused), rfl⟩

/-! ## A host with two types -/

def bytesOf (bits : BitVec 64) : List Cell :=
  (List.range 8).map fun k => .byte (bits.extractLsb' (8 * k) 8)

def bitsOf (cells : List Cell) : BitVec 64 :=
  cells.foldr (fun cell bits => bits <<< 8 ||| match cell with
    | .byte value => value.setWidth 64
    | .fragment _ _ => 0) 0

/-- `ref.types.double`, `ref.types.bool`, `ref.types.Object` and `void` on their own
values; an object is kept as a reference to it. The plain object 0 has a `valueOf` that
throws `undefined`. -/
def exampleHost : Host where
  set type cells value :=
    match type, value with
    | .void, _ => (cells, .ok ())
    | .scalar .double, .number bits => (if cells.length = 8 then bytesOf bits else cells, .ok ())
    | .scalar (.named .bool), .bool b => (cells.map fun _ => .byte (if b then 1 else 0), .ok ())
    | .scalar .Object, .object (.plain id) _ _ => ((List.range cells.length).map (.fragment ⟨id, 0⟩), .ok ())
    | _, .object (.plain 0) _ _ => (cells, .error .undefined)
    | _, _ => (cells, .error (typeError "The value is of the wrong type"))
  get type cells :=
    match type, cells with
    | .void, _ => .ok .null
    | .scalar .double, _ => .ok (.number (bitsOf cells))
    | .scalar (.named .bool), _ => .ok (.bool (cells != [.byte 0]))
    | .scalar .Object, .fragment reference _ :: _ => .ok (.object (.plain reference.block) none .writable)
    | _, _ => .error (typeError "The type is not known")
  toText value :=
    match value with
    | .string text => .ok text
    | .undefined => .ok "undefined"
    | _ => .error (typeError "Cannot convert to a string")
  residue _ := .byte 0
  set_length type cells value := by
    split
    · rfl
    · dsimp only
      split
      · simp [bytesOf, *]
      · rfl
    · simp
    · simp
    · rfl
    · rfl

theorem lp64_target : IsLP64 lp64 := ⟨rfl, rfl, rfl⟩

/-- `double (double, bool)`. -/
theorem exampleDeclarable :
    Declarable lp64 (.scalar .double) [.scalar .double, .scalar (.named .bool)] := by
  refine ⟨.inr ⟨by simp [Plain], by decide⟩, ?_⟩
  simp only [List.mem_cons, List.not_mem_nil, or_false, forall_eq_or_imp, forall_eq]
  exact ⟨⟨by simp [Plain], by decide⟩, ⟨by simp [Plain], by decide⟩⟩

def exampleSignature : Signature lp64 := exampleDeclarable.signature lp64_target

theorem exampleSizes : SizesAgree exampleSignature :=
  exampleDeclarable.sizesAgree (s := exampleSignature) lp64_target rfl
    (List.forall_mem_cons.mpr ⟨rfl, List.forall_mem_cons.mpr ⟨rfl, List.forall_mem_nil _⟩⟩)

/-- Returns its first argument if the second is `true`, and zero otherwise. -/
def select : List JsVal → JsM lp64 JsVal
  | [.number bits, .bool true] => return .number bits
  | _ => return .number 0

theorem select_conforms : Conforms lp64 exampleHost (.scalar .double) select := by
  intro args w quiet
  have gives : ∃ bits, eval (select args) w = some (.ok (.number bits), w) := by
    unfold select
    split
    · exact ⟨_, rfl⟩
    · exact ⟨_, rfl⟩
  obtain ⟨bits, returns⟩ := gives
  exact ⟨_, w, returns, fun _ _ => rfl, Grows.refl _, quiet⟩

theorem select_round_trip :
    RoundTrip exampleHost exampleSignature select [.number 0x4045000000000000, .bool true] (.initial lp64) := by
  apply (round_trip_iff (s := exampleSignature) lp64_target exampleDeclarable rfl select_conforms rfl).mpr
  intro _
  refine ⟨fun _ _ => exampleSizes, fun i e refused => ?_⟩
  have error := storedBlocks_error 0 refused
  have stores : ∃ blocks, storedBlocks lp64 exampleHost 0
      (exampleSignature.argTypes.zip [.number 0x4045000000000000, .bool true]) = .ok blocks := ⟨_, rfl⟩
  obtain ⟨blocks, stores⟩ := stores
  rw [stores] at error
  cases error

/-- A `valueOf` that throws `undefined`: the proxy throws the engine's complaint about
reading `message` of it. -/
theorem throwing_value_unnamed :
    ¬ RoundTrip exampleHost exampleSignature select
      [.object (.plain 0) none .writable, .bool true] (.initial lp64) := by
  intro trip
  have refused : FirstRefused lp64 exampleHost
      (exampleSignature.argTypes.zip [.object (.plain 0) none .writable, .bool true]) 0 .undefined :=
    ⟨[], .scalar .double, .object (.plain 0) none .writable, [(.scalar (.named .bool), .bool true)],
      rfl, rfl, by simp, rfl⟩
  obtain ⟨thrown, w', throws, leads, _⟩ := trip.refused 0 .undefined rfl refused
  have blocks := storedBlocks_error 0 refused
  obtain ⟨more, relabels⟩ := eval_proxy_error (w := .initial lp64) (s := exampleSignature)
    (closure exampleHost ⟨exampleSignature, some select⟩) rfl blocks
  obtain ⟨same, _⟩ := Prod.mk.inj (Option.some.inj (throws.symm.trans relabels))
  obtain rfl := Except.error.inj same
  exact not_leads_typeError (by decide) leads

/-- `void (Object)`. -/
theorem objectDeclarable : Declarable lp64 .void [.scalar .Object] :=
  ⟨.inl rfl, List.forall_mem_singleton.mpr ⟨by simp [Plain], by decide⟩⟩

def objectSignature : Signature lp64 := objectDeclarable.signature lp64_target

def ignore : List JsVal → JsM lp64 JsVal := fun _ => return .undefined

/-- Of an `Object` libffi moves a pointer's bytes, and the callback reads more. -/
theorem object_unread :
    ¬ RoundTrip exampleHost objectSignature ignore [.object (.plain 1) none .writable] (.initial lp64) := by
  intro trip
  have conforms : Conforms lp64 exampleHost .void ignore :=
    fun args w quiet => ⟨.undefined, w, rfl, fun _ _ => rfl, Grows.refl _, quiet⟩
  have accepted : ∀ argument ∈ objectSignature.argTypes.zip [.object (.plain 1) none .writable],
      Accepts lp64 exampleHost argument.1 argument.2 := List.forall_mem_singleton.mpr rfl
  have back : List.Forall₂ (fun argument arg => readBack lp64 exampleHost argument.1 argument.2 = .ok arg)
      (objectSignature.argTypes.zip [.object (.plain 1) none .writable]) [.object (.plain 1) none .writable] :=
    .cons rfl .nil
  obtain ⟨_, _, _, _, _, _, _, _, _, returns, _⟩ := trip.returns _ rfl accepted back
  have agree := sizes_of_defined (s := objectSignature) lp64_target objectDeclarable conforms rfl rfl accepted back
    returns
  obtain ⟨size, _⟩ := List.forall₂_cons.mp agree.takes
  exact absurd size (by decide)

theorem round_trip_fails :
    ¬ RoundTrip exampleHost exampleSignature select
      [.object (.plain 0) none .writable, .bool true] (.initial lp64) ∧
    ¬ RoundTrip exampleHost objectSignature ignore [.object (.plain 1) none .writable] (.initial lp64) :=
  ⟨throwing_value_unnamed, object_unread⟩

end NodeFfi
