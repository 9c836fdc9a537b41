import NodeFfi.Marshalling
import NodeFfi.PartialPrograms

/-! What the parts of the marshalling code do to the memory: one rule for each
function, and for each loop the layout it leaves or needs. -/
namespace NodeFfi
open BlockMemory PartialPrograms JsVal

variable {m : DataModel} {w w' : World m} {host : Host}

/-! ## Accesses -/

theorem exec_allocate (cells : List Cell) :
    exec (allocate cells) w = some (next w.memory, w.setMemory (w.memory ++ [cells])) := rfl

theorem exec_read {p : Pointer} {count : Nat} :
    exec (read p count) w = (load w.memory p count).map fun cells => (cells, w) := rfl

theorem exec_write {p : Pointer} {cells : List Cell} :
    exec (write p cells) w = (store w.memory p cells).map fun memory => ((), w.setMemory memory) := rfl

theorem exec_undefinedUnless {defined : Prop} [Decidable defined] (holds : defined) :
    exec (undefinedUnless defined) w = some ((), w) := if_pos holds

theorem eval_native {α : Type} {x : NativeM m α} {a : α} (did : exec x w = some (a, w')) :
    eval (native x) w = some (.ok a, w') := by
  rw [native, eval_lift, did]
  rfl

theorem eval_completion {α : Type} (outcome : Except JsVal α) :
    eval (completion outcome) w = some (outcome, w) := rfl

theorem pointer_bytes_pos : 0 < m.pointer.bytes := m.pointer.bytes_pos

@[simp] theorem pointerCells_length (p : Pointer) : (pointerCells m p).length = m.pointer.bytes := by
  simp [pointerCells]

theorem decodePointer_pointerCells (p : Pointer) : decodePointer m (pointerCells m p) = some p := by
  obtain ⟨count, bytes⟩ := Nat.exists_eq_add_one.mpr (pointer_bytes_pos (m := m))
  have first : pointerCells m p = .fragment p 0 :: ((List.range count).map Nat.succ).map (.fragment p) := by
    rw [pointerCells, bytes, List.range_succ_eq_map, List.map_cons]
  rw [first, decodePointer, ← first]
  exact if_pos rfl

theorem exec_loadPointer {p target : Pointer}
    (found : load w.memory p m.pointer.bytes = some (pointerCells m target)) :
    exec (loadPointer p) w = some (target, w) := by
  have reads : exec (read p m.pointer.bytes) w = some (pointerCells m target, w) := by
    rw [exec_read, found]
    rfl
  rw [loadPointer, exec_bind reads, decodePointer_pointerCells]
  rfl

/-! ## `ref` -/

/-- A value is read and written where its type has room for it. -/
theorem admits_of_room {type : RefType} {buffer : Buffer} (room : type.size m ≤ buffer.length) :
    admits m type buffer := by
  cases type <;> simp [admits, room]

theorem derefReads_eq (type : RefType) : derefReads m type = type.storageSize m := by
  cases type with
  | pointer pointee => simp [derefReads, RefType.storageSize, RefType.shape, AlignedLayout.Shape.atom,
      CType.size_pointer]
  | void => rfl
  | scalar s => rfl
  | struct fields => rfl
  | array type fixedLength => rfl

theorem admits_of_derefReads {type : RefType} {length : Nat} (enough : derefReads m type ≤ length)
    (data : Pointer) : admits m type ⟨data, length⟩ := by
  cases type <;> simp_all [admits, derefReads]

theorem eval_refSet (host : Host) (buffer : Buffer) (value : JsVal) {type : RefType} {old : List Cell}
    {memory : Memory Cell} (room : admits m type buffer)
    (held : load w.memory buffer.data (derefReads m type) = some old)
    (stored : store w.memory buffer.data (host.set type old value).1 = some memory) :
    eval (refSet host buffer value type) w =
      some ((host.set type old value).2, w.setMemory memory) := by
  have reads : exec (read buffer.data (derefReads m type)) w = some (old, w) := by
    rw [exec_read, held]
    rfl
  have writes : exec (write buffer.data (host.set type old value).1) w =
      some ((), w.setMemory memory) := by
    rw [exec_write, stored]
    rfl
  rw [refSet, eval_ok (eval_native (exec_undefinedUnless room)), eval_ok (eval_native reads),
    eval_ok (eval_native writes), eval_completion]

theorem eval_refGet (host : Host) (buffer : Buffer) {type : RefType} {cells : List Cell}
    (room : admits m type buffer) (held : load w.memory buffer.data (derefReads m type) = some cells) :
    eval (refGet host buffer type) w = some (host.get type cells, w) := by
  have reads : exec (read buffer.data (derefReads m type)) w = some (cells, w) := by
    rw [exec_read, held]
    rfl
  rw [refGet, eval_ok (eval_native (exec_undefinedUnless room)), eval_ok (eval_native reads),
    eval_completion]

/-- The bytes of a value stored in fresh storage, and what storing it throws. -/
def stored (m : DataModel) (host : Host) (type : RefType) (value : JsVal) :
    List Cell × Except JsVal Unit := host.set type (zeros (derefReads m type)) value

theorem stored_length (type : RefType) (value : JsVal) :
    (stored m host type value).1.length = derefReads m type := by
  simp [stored, host.set_length, zeros]

/-- `ref.alloc` appends one block. -/
theorem eval_refAlloc (host : Host) (type : RefType) (value : JsVal) :
    eval (refAlloc host type value) w =
      some ((stored m host type value).2.map fun _ => ⟨next w.memory, derefReads m type⟩,
        w.setMemory (w.memory ++ [(stored m host type value).1])) := by
  have block : exec (bufferAlloc (derefReads m type)) w = some (⟨next w.memory, derefReads m type⟩,
      w.setMemory (w.memory ++ [zeros (derefReads m type)])) := rfl
  have held : load (w.memory ++ [zeros (derefReads m type)]) (next w.memory) (derefReads m type) =
      some (zeros (derefReads m type)) :=
    load_whole (by simp) (by simp [zeros])
  have writes : store (w.memory ++ [zeros (derefReads m type)]) (next w.memory)
      (stored m host type value).1 = some (w.memory ++ [(stored m host type value).1]) := by
    have size : (stored m host type value).1.length = (zeros (derefReads m type)).length := by
      rw [stored_length, zeros, List.length_replicate]
    have spliced := store_middle w.memory [] [] (zeros (derefReads m type)) [] size
    simpa [next] using spliced
  rw [refAlloc, eval_ok (eval_native block)]
  have sets := eval_refSet (w := w.setMemory (w.memory ++ [zeros (derefReads m type)])) host
    ⟨next w.memory, derefReads m type⟩ value
    (admits_of_derefReads (Nat.le_refl _) _) held writes
  change eval _ _ = some ((stored m host type value).2, _) at sets
  cases outcome : (stored m host type value).2 with
  | ok done =>
    rw [outcome] at sets
    rw [eval_ok sets]
    rfl
  | error e =>
    rw [outcome] at sets
    rw [eval_error sets]
    rfl

/-! ## Arrays of pointers -/

/-- The first cells of `count` blocks in a row. -/
def pointersFrom (start count : Nat) : List Pointer :=
  (List.range' start count).map fun block => ⟨block, 0⟩

@[simp] theorem pointersFrom_length (start count : Nat) : (pointersFrom start count).length = count := by
  simp [pointersFrom]

theorem pointersFrom_succ (start count : Nat) :
    pointersFrom start (count + 1) = ⟨start, 0⟩ :: pointersFrom (start + 1) count := rfl

/-- What is at a pointer is one whole block. -/
def Holds (memory : Memory Cell) (p : Pointer) (cells : List Cell) : Prop :=
  p.offset = 0 ∧ memory[p.block]? = some cells

/-- An array of pointers, each to a block of its own: how arguments are laid out for
`ffi_call`, and by it for a closure. -/
structure ArgumentArray (m : DataModel) (memory : Memory Cell) (array : Pointer)
    (pointers : List Pointer) (blocks : List (List Cell)) : Prop where
  start : array.offset = 0
  entries : memory[array.block]? = some (pointers.flatMap (pointerCells m))
  held : List.Forall₂ (Holds memory) pointers blocks

/-- Blocks allocated in a row are held by the pointers to them. -/
theorem holds_pointersFrom (front back : Memory Cell) (blocks : List (List Cell)) :
    List.Forall₂ (Holds (front ++ blocks ++ back)) (pointersFrom front.length blocks.length) blocks := by
  induction blocks generalizing front with
  | nil => exact .nil
  | cons cells rest ih =>
    rw [List.length_cons, pointersFrom_succ]
    refine .cons ⟨rfl, by simp⟩ ?_
    have others := ih (front ++ [cells])
    simpa using others

/-- Entry `before.length` of an array of pointers. -/
theorem exec_loadEntry {array target : Pointer} {before after : List Pointer} (start : array.offset = 0)
    (entries : w.memory[array.block]? =
      some ((before ++ target :: after).flatMap (pointerCells m))) :
    exec (loadPointer (array.shift (before.length * m.pointer.bytes))) w = some (target, w) := by
  apply exec_loadPointer
  rw [List.flatMap_append, List.flatMap_cons, ← List.append_assoc] at entries
  rw [load_middle (p := array.shift (before.length * m.pointer.bytes)) entries
    (by simp [Pointer.shift, start]) (by simp)]
  rw [← pointerCells_length (m := m) target, List.take_length]

/-- The bytes that `ffi_call` reads of each block. -/
def fetch {v : Nat} : List (FfiType v) → List (List Cell) → Option (List (List Cell))
  | [], _ => some []
  | _ :: _, [] => none
  | atype :: atypes, cells :: blocks =>
    if atype.size.toNat ≤ cells.length then
      (fetch atypes blocks).map fun others => cells.take atype.size.toNat :: others
    else none

theorem exec_loadArguments {array : Pointer} (before : List Pointer) {pointers : List Pointer}
    {blocks : List (List Cell)} {atypes : List (FfiType m.sizeBits)} (start : array.offset = 0)
    (entries : w.memory[array.block]? = some ((before ++ pointers).flatMap (pointerCells m)))
    (held : List.Forall₂ (Holds w.memory) pointers blocks) (same : atypes.length = pointers.length) :
    exec (loadArguments array before.length atypes) w =
      (fetch atypes blocks).map fun cells => (cells, w) := by
  induction held generalizing before atypes with
  | nil =>
    obtain rfl := List.eq_nil_of_length_eq_zero same
    rfl
  | @cons p cells pointers blocks first rest ih =>
    obtain ⟨atype, others, rfl⟩ := List.exists_cons_of_length_eq_add_one same
    have further : w.memory[array.block]? =
        some (((before ++ [p]) ++ pointers).flatMap (pointerCells m)) := by
      simpa using entries
    have loop := ih (before ++ [p]) further (show others.length = pointers.length by simpa using same)
    rw [List.length_append, List.length_singleton] at loop
    rw [loadArguments, exec_bind (exec_loadEntry start entries), fetch]
    have here : w.memory[p.block]? = some cells := first.2
    split
    · rename_i enough
      have reads : exec (read p atype.size.toNat) w = some (cells.take atype.size.toNat, w) := by
        rw [exec_read, show p = ⟨p.block, 0⟩ from by rw [← first.1], load_first here enough]
        rfl
      rw [exec_bind reads]
      cases fetched : fetch others blocks with
      | none =>
        rw [fetched] at loop
        change Option.bind _ _ = _
        rw [show loadArguments array (before.length + 1) others w = _ from loop]
        rfl
      | some tail =>
        rw [fetched] at loop
        rw [exec_bind loop]
        rfl
    · rename_i short
      have reads : load w.memory p atype.size.toNat = none := by
        unfold load
        rw [here]
        simp [first.1, Nat.lt_of_not_le short]
      change Option.bind _ _ = _
      rw [show read p atype.size.toNat w = _ from exec_read, reads]
      rfl

/-! ## The proxies' loop -/

/-- What the loop leaves in the storage of each argument from argument `i` on, or the
first argument that cannot be stored and what storing it throws. -/
def storedBlocks (m : DataModel) (host : Host) :
    Nat → List (RefType × JsVal) → Except (Nat × JsVal) (List (List Cell))
  | _, [] => .ok []
  | i, (argType, val) :: rest =>
    match (stored m host argType val).2 with
    | .error e => .error (i, e)
    | .ok () => (storedBlocks m host (i + 1) rest).map ((stored m host argType val).1 :: ·)

theorem exec_writeEntry {front back : Memory Cell} {before : List Pointer} {left : Nat} (length : Nat)
    (target : Pointer) (layout : w.memory =
      front ++ [before.flatMap (pointerCells m) ++ zeros ((left + 1) * m.pointer.bytes)] ++ back) :
    exec (writePointer ⟨⟨front.length, 0⟩, length⟩ (before.length * m.pointer.bytes) target) w =
      some ((), w.setMemory (front ++
        [(before ++ [target]).flatMap (pointerCells m) ++ zeros (left * m.pointer.bytes)] ++ back)) := by
  have split : zeros ((left + 1) * m.pointer.bytes) =
      zeros m.pointer.bytes ++ zeros (left * m.pointer.bytes) := by
    rw [zeros, zeros, zeros, List.replicate_append_replicate, Nat.add_mul, Nat.one_mul, Nat.add_comm]
  have spliced := store_middle front back (before.flatMap (pointerCells m)) (zeros m.pointer.bytes)
    (zeros (left * m.pointer.bytes)) (show (pointerCells m target).length = _ by simp [zeros])
  have position : (⟨front.length, 0⟩ : Pointer).shift (before.length * m.pointer.bytes) =
      ⟨front.length, (before.flatMap (pointerCells m)).length⟩ := by
    simp [Pointer.shift]
  rw [writePointer, exec_write, position, layout, split, ← List.append_assoc (before.flatMap _), spliced]
  simp

/-- One round of the loop. -/
theorem eval_storeArguments_step {front back : Memory Cell} {before : List Pointer} {length : Nat}
    {argType : RefType} {val : JsVal} {rest : List (RefType × JsVal)}
    (accepted : (stored m host argType val).2 = .ok ()) (layout : w.memory = front ++
      [before.flatMap (pointerCells m) ++ zeros ((rest.length + 1) * m.pointer.bytes)] ++ back) :
    eval (storeArguments host ⟨⟨front.length, 0⟩, length⟩ before.length ((argType, val) :: rest)) w =
      eval (storeArguments host ⟨⟨front.length, 0⟩, length⟩ (before.length + 1) rest)
        (w.setMemory (front ++
          [(before ++ [(⟨front.length + 1 + back.length, 0⟩ : Pointer)]).flatMap (pointerCells m) ++
            zeros (rest.length * m.pointer.bytes)] ++ (back ++ [(stored m host argType val).1]))) := by
  have allocs := eval_refAlloc (w := w) host argType val
  rw [accepted] at allocs
  have position : next w.memory = ⟨front.length + 1 + back.length, 0⟩ := by
    simp [next, layout]
    omega
  have grown : (w.setMemory (w.memory ++ [(stored m host argType val).1])).memory =
      front ++ [before.flatMap (pointerCells m) ++ zeros ((rest.length + 1) * m.pointer.bytes)] ++
        (back ++ [(stored m host argType val).1]) := by
    simp [layout]
  have writes := exec_writeEntry length ⟨front.length + 1 + back.length, 0⟩ grown
  rw [storeArguments, eval_ok (eval_adapt_ok allocs), position,
    eval_ok (by rw [eval_lift, writes]; rfl), World.setMemory_setMemory]

theorem eval_storeArguments_ok (front back : Memory Cell) (before : List Pointer) (length : Nat)
    {arguments : List (RefType × JsVal)} {blocks : List (List Cell)}
    (accepted : storedBlocks m host before.length arguments = .ok blocks)
    (layout : w.memory = front ++
      [before.flatMap (pointerCells m) ++ zeros (arguments.length * m.pointer.bytes)] ++ back) :
    eval (storeArguments host ⟨⟨front.length, 0⟩, length⟩ before.length arguments) w =
      some (.ok (), w.setMemory (front ++
        [(before ++ pointersFrom (front.length + 1 + back.length) arguments.length).flatMap
          (pointerCells m)] ++ back ++ blocks)) := by
  induction arguments generalizing w before back blocks with
  | nil =>
    obtain rfl := Except.ok.inj accepted
    have unchanged : w.memory = front ++ [before.flatMap (pointerCells m)] ++ back := by
      simpa [zeros] using layout
    simp [storeArguments, eval_pure, pointersFrom, ← unchanged]
  | cons argument rest ih =>
    obtain ⟨argType, val⟩ := argument
    rw [storedBlocks] at accepted
    cases outcome : (stored m host argType val).2 with
    | error e => simp [outcome] at accepted
    | ok done =>
      rw [outcome] at accepted
      cases others : storedBlocks m host (before.length + 1) rest with
      | error failure => simp [others, Except.map] at accepted
      | ok tail =>
        obtain rfl : (stored m host argType val).1 :: tail = blocks := by
          simpa [others, Except.map] using accepted
        rw [eval_storeArguments_step outcome layout]
        have loop := ih (w := w.setMemory _) (back ++ [(stored m host argType val).1])
          (before ++ [⟨front.length + 1 + back.length, 0⟩]) (by simpa using others) rfl
        rw [List.length_append, List.length_singleton] at loop
        rw [loop, List.length_cons, pointersFrom_succ]
        simp [Nat.add_assoc]

theorem eval_storeArguments_error (front back : Memory Cell) (before : List Pointer) (length : Nat)
    {arguments : List (RefType × JsVal)} {failure : Nat × JsVal}
    (refused : storedBlocks m host before.length arguments = .error failure)
    (layout : w.memory = front ++
      [before.flatMap (pointerCells m) ++ zeros (arguments.length * m.pointer.bytes)] ++ back) :
    ∃ more, eval (storeArguments host ⟨⟨front.length, 0⟩, length⟩ before.length arguments) w =
      some (.error failure, w.setMemory (front ++ more)) := by
  induction arguments generalizing w before back with
  | nil => cases refused
  | cons argument rest ih =>
    obtain ⟨argType, val⟩ := argument
    rw [storedBlocks] at refused
    cases outcome : (stored m host argType val).2 with
    | error e =>
      rw [outcome] at refused
      obtain rfl : (before.length, e) = failure := by simpa using refused
      have allocs := eval_refAlloc (w := w) host argType val
      rw [outcome, layout, List.append_assoc, List.append_assoc] at allocs
      rw [storeArguments, eval_error (eval_adapt_error allocs)]
      exact ⟨_, rfl⟩
    | ok done =>
      rw [outcome] at refused
      have others : storedBlocks m host (before.length + 1) rest = .error failure := by
        cases others : storedBlocks m host (before.length + 1) rest with
        | error failure => simpa [others, Except.map] using refused
        | ok tail => simp [others, Except.map] at refused
      rw [eval_storeArguments_step outcome layout]
      obtain ⟨more, loop⟩ := ih (w := w.setMemory _) (back ++ [(stored m host argType val).1])
        (before ++ [⟨front.length + 1 + back.length, 0⟩]) (by simpa using others) rfl
      rw [List.length_append, List.length_singleton] at loop
      exact ⟨more, loop⟩

variable {s : Signature m}

/-- The memory of a call whose arguments are all stored: the result buffer, the array
of pointers and the arguments, in new blocks. -/
def marshalled (s : Signature m) (memory : Memory Cell) (blocks : List (List Cell)) : Memory Cell :=
  memory ++ [zeros (resultSize m s.returnType)] ++
    [(pointersFrom (memory.length + 2) s.argTypes.length).flatMap (pointerCells m)] ++ blocks

theorem eval_bufferAlloc {ε : Type} (size : Nat) :
    eval (ExceptT.lift (bufferAlloc size) : ExceptT ε (NativeM m) Buffer) w =
      some (.ok ⟨next w.memory, size⟩, w.setMemory (w.memory ++ [zeros size])) := rfl

/-- The world in which the loop starts. -/
def beforeLoop (s : Signature m) (w : World m) : World m :=
  w.setMemory (w.memory ++ [zeros (resultSize m s.returnType)] ++
    [zeros (s.argTypes.length * m.pointer.bytes)])

theorem eval_marshal (arguments : List JsVal) :
    eval (marshal host s arguments) w = eval (do
      storeArguments host ⟨⟨(w.memory ++ [zeros (resultSize m s.returnType)]).length, 0⟩,
        s.argTypes.length * m.pointer.bytes⟩ 0 (s.argTypes.zip arguments)
      return (⟨⟨w.memory.length, 0⟩, resultSize m s.returnType⟩,
        ⟨⟨(w.memory ++ [zeros (resultSize m s.returnType)]).length, 0⟩,
          s.argTypes.length * m.pointer.bytes⟩)) (beforeLoop s w) := by
  rw [marshal, eval_ok (eval_bufferAlloc _), eval_ok (eval_bufferAlloc _)]
  rfl

theorem eval_marshal_ok {arguments : List JsVal} {blocks : List (List Cell)}
    (count : (s.argTypes.zip arguments).length = s.argTypes.length)
    (accepted : storedBlocks m host 0 (s.argTypes.zip arguments) = .ok blocks) :
    eval (marshal host s arguments) w =
      some (.ok (⟨⟨w.memory.length, 0⟩, resultSize m s.returnType⟩,
          ⟨⟨w.memory.length + 1, 0⟩, s.argTypes.length * m.pointer.bytes⟩),
        w.setMemory (marshalled s w.memory blocks)) := by
  have loop := eval_storeArguments_ok (w := beforeLoop s w)
    (w.memory ++ [zeros (resultSize m s.returnType)]) [] [] (s.argTypes.length * m.pointer.bytes)
    accepted (by simp [beforeLoop, count])
  rw [List.length_nil] at loop
  rw [eval_marshal, eval_ok loop, eval_pure]
  simp [marshalled, beforeLoop, count]

theorem eval_marshal_error {arguments : List JsVal} {failure : Nat × JsVal}
    (count : (s.argTypes.zip arguments).length = s.argTypes.length)
    (refused : storedBlocks m host 0 (s.argTypes.zip arguments) = .error failure) :
    ∃ more, eval (marshal host s arguments) w =
      some (.error failure, w.setMemory (w.memory ++ more)) := by
  obtain ⟨more, loop⟩ := eval_storeArguments_error (w := beforeLoop s w)
    (w.memory ++ [zeros (resultSize m s.returnType)]) [] [] (s.argTypes.length * m.pointer.bytes)
    refused (by simp [beforeLoop, count])
  rw [List.length_nil] at loop
  refine ⟨[zeros (resultSize m s.returnType)] ++ more, ?_⟩
  rw [eval_marshal, eval_error loop, ← List.append_assoc]
  rfl

/-- Stored arguments are laid out for `ffi_call`. -/
theorem argumentArray_marshalled (s : Signature m) (memory : Memory Cell) {blocks : List (List Cell)}
    (count : blocks.length = s.argTypes.length) :
    ArgumentArray m (marshalled s memory blocks) ⟨memory.length + 1, 0⟩
      (pointersFrom (memory.length + 2) s.argTypes.length) blocks := by
  refine ⟨rfl, ?_, ?_⟩
  · have here : memory.length + 1 = (memory ++ [zeros (resultSize m s.returnType)]).length := by simp
    rw [here, marshalled, List.getElem?_append_left (by simp), List.getElem?_concat_length]
  · have held := holds_pointersFrom (memory ++ [zeros (resultSize m s.returnType)] ++
      [(pointersFrom (memory.length + 2) s.argTypes.length).flatMap (pointerCells m)]) [] blocks
    simpa [marshalled, count] using held

/-! ## Calls through an array -/

/-- What the loop of the wrapper makes of the bytes of the arguments. -/
def decoded (host : Host) : List RefType → List (List Cell) → Except JsVal (List JsVal)
  | type :: types, cells :: blocks => do
    let arg ← host.get type cells
    let args ← decoded host types blocks
    return arg :: args
  | _, _ => .ok []

theorem eval_decodeArguments (host : Host) (params : Buffer) (before : List Pointer) {pointers : List Pointer}
    {blocks : List (List Cell)} {types : List RefType} (start : params.data.offset = 0)
    (entries : w.memory[params.data.block]? = some ((before ++ pointers).flatMap (pointerCells m)))
    (held : List.Forall₂ (Holds w.memory) pointers blocks)
    (sized : List.Forall₂ (fun type cells => cells.length = derefReads m type) types blocks) :
    eval (decodeArguments host params before.length types) w = some (decoded host types blocks, w) := by
  induction held generalizing before types with
  | nil =>
    cases sized
    rfl
  | @cons p cells pointers blocks first rest ih =>
    obtain ⟨type, others, size, sizes, rfl⟩ := List.forall₂_cons_right_iff.mp sized
    have further : w.memory[params.data.block]? =
        some (((before ++ [p]) ++ pointers).flatMap (pointerCells m)) := by
      simpa using entries
    have loop := ih (before ++ [p]) further sizes
    rw [List.length_append, List.length_singleton] at loop
    have entry : exec (readPointer params (before.length * m.pointer.bytes) (type.size m)) w =
        some (⟨p, type.size m⟩, w) := by
      rw [readPointer, exec_bind (exec_loadEntry start entries), exec_pure]
    have here : load w.memory p (derefReads m type) = some cells := by
      rw [show p = ⟨p.block, 0⟩ from by rw [← first.1]]
      exact load_whole first.2 size
    have gets := eval_refGet host ⟨p, type.size m⟩
      (admits_of_room (Nat.le_refl _)) here
    rw [decodeArguments, eval_ok (eval_native entry), decoded]
    cases got : host.get type cells with
    | error e =>
      rw [got] at gets
      rw [eval_error gets]
      rfl
    | ok arg =>
      rw [got] at gets
      rw [eval_ok gets]
      cases tail : decoded host others blocks with
      | error e =>
        rw [tail] at loop
        rw [eval_error loop]
        rfl
      | ok args =>
        rw [tail] at loop
        rw [eval_ok loop]
        rfl

theorem exec_allocateAll (blocks : List (List Cell)) :
    exec (allocateAll blocks) w =
      some (pointersFrom w.memory.length blocks.length, w.setMemory (w.memory ++ blocks)) := by
  induction blocks generalizing w with
  | nil => simp [allocateAll, exec_pure, pointersFrom]
  | cons cells rest ih =>
    rw [allocateAll, exec_bind (exec_allocate cells), exec_bind ih, exec_pure]
    simp [pointersFrom_succ, next]

/-- `ffi_call` runs the function on what the array points to. -/
theorem exec_ffiCall {cif : Cif m} {fn : Native m} {rvalue avalue : Pointer}
    {pointers : List Pointer} {blocks arguments : List (List Cell)} {cells : List Cell}
    {memory : Memory Cell} (array : ArgumentArray m w.memory avalue pointers blocks)
    (same : cif.atypes.length = pointers.length) (fetched : fetch cif.atypes blocks = some arguments)
    (calls : exec (fn arguments) w = some (cells, w')) (width : cells.length = returnWidth cif.rtype)
    (stores : store w'.memory rvalue (returned m cif.rtype cells) = some memory) :
    exec (ffiCall cif fn rvalue avalue) w = some ((), w'.setMemory memory) := by
  have loads := exec_loadArguments [] array.start (by simpa using array.entries)
    array.held same
  rw [fetched, List.length_nil] at loads
  rw [ffiCall, exec_bind loads, exec_bind calls, exec_bind (exec_undefinedUnless width), exec_write, stores]
  rfl

/-! ## The proxy -/

theorem eval_proxy_arity {fn : Native m} {arguments : List JsVal}
    (arity : arguments.length ≠ s.argTypes.length) :
    eval (proxy host s fn arguments) w =
      some (.error (typeError (arityMessage s.argTypes.length arguments.length)), w) := by
  simp only [proxy, if_pos arity]
  rfl

/-- The `catch` clauses that prepend to a message. -/
theorem eval_relabel {α : Type} (lead : String) (e : JsVal) :
    eval (do
      let e ← completion (prependMessage lead e)
      throw e : JsM m α) w = some (.error (relabelled lead e), w) := by
  unfold relabelled
  cases prepended : prependMessage lead e with
  | error raised => rw [eval_error (eval_completion _)]
  | ok e => rw [eval_ok (eval_completion _), eval_throw]

theorem eval_proxy_error (fn : Native m) {arguments : List JsVal} {i : Nat} {e : JsVal}
    (arity : arguments.length = s.argTypes.length)
    (refused : storedBlocks m host 0 (s.argTypes.zip arguments) = .error (i, e)) :
    ∃ more, eval (proxy host s fn arguments) w =
      some (.error (relabelled (settingArgument (i + 1)) e), w.setMemory (w.memory ++ more)) := by
  obtain ⟨more, fails⟩ := eval_marshal_error (w := w) (by simp [arity]) refused
  refine ⟨more, ?_⟩
  have runs : eval (native (marshal host s arguments).run) w =
      some (.ok (.error (i, e)), w.setMemory (w.memory ++ more)) := eval_native fails
  simp only [proxy, arity, ne_eq, not_true_eq_false, if_false]
  rw [eval_ok runs]
  exact eval_relabel _ e

/-- With the arguments stored, a proxy is the call and the reading of the result. -/
theorem eval_proxy_ok {fn : Native m} {arguments : List JsVal} {blocks : List (List Cell)}
    (arity : arguments.length = s.argTypes.length)
    (accepted : storedBlocks m host 0 (s.argTypes.zip arguments) = .ok blocks) :
    eval (proxy host s fn arguments) w = eval (do
      FFICall s.cif fn ⟨⟨w.memory.length, 0⟩, resultSize m s.returnType⟩
        ⟨⟨w.memory.length + 1, 0⟩, s.argTypes.length * m.pointer.bytes⟩
      refGet host ⟨⟨w.memory.length, 0⟩, resultSize m s.returnType⟩ s.returnType)
      (w.setMemory (marshalled s w.memory blocks)) := by
  have runs := eval_native (x := (marshal host s arguments).run) (eval_marshal_ok (w := w) (by simp [arity]) accepted)
  simp only [proxy, arity, ne_eq, not_true_eq_false, if_false]
  rw [eval_ok runs]

theorem eval_throwPending (quiet : w.pending = none) : eval throwPending w = some (.ok (), w) := by
  change throwPending w = _
  rw [throwPending, quiet]

theorem eval_FFICall_ok {cif : Cif m} {fn : Native m} (res fnargs : Buffer)
    (calls : exec (ffiCall cif fn res.data fnargs.data) w = some ((), w')) (quiet : w'.pending = none) :
    eval (FFICall cif fn res fnargs) w = some (.ok (), w') := by
  rw [FFICall, eval_ok (eval_native calls), eval_throwPending quiet]

/-- An exception left pending by the native code is thrown to the caller. -/
theorem eval_FFICall_error {cif : Cif m} {fn : Native m} {res fnargs : Buffer} {e : JsVal}
    (calls : exec (ffiCall cif fn res.data fnargs.data) w = some ((), w'))
    (pending : w'.pending = some e) :
    eval (FFICall cif fn res fnargs) w = some (.error e, { w' with pending := none }) := by
  rw [FFICall, eval_ok (eval_native calls)]
  change throwPending w' = _
  rw [throwPending, pending]

/-! ## The closure -/

/-- The memory in which a closure dispatches: copies of the arguments, the array of
pointers to them, and the return slot. -/
def dispatchMemory (host : Host) (s : Signature m) (memory : Memory Cell)
    (arguments : List (List Cell)) : Memory Cell :=
  memory ++ arguments ++ [(pointersFrom memory.length arguments.length).flatMap (pointerCells m)] ++
    [(List.range (returnSlot s.cif.rtype)).map host.residue]

theorem exec_closure {info : CallbackInfo m} {arguments : List (List Cell)} :
    exec (closure host info arguments) w = exec (do
      dispatchToV8 host (return) info ⟨w.memory.length + arguments.length + 1, 0⟩
        ⟨w.memory.length + arguments.length, 0⟩ false
      read ⟨w.memory.length + arguments.length + 1, 0⟩ (returnWidth info.signature.cif.rtype))
      (w.setMemory (dispatchMemory host info.signature w.memory arguments)) := by
  rw [closure, exec_bind (exec_allocateAll arguments), exec_bind (exec_allocate _),
    exec_bind (exec_allocate _)]
  simp [next, dispatchMemory, Nat.add_assoc]

theorem argumentArray_dispatched (host : Host) (s : Signature m) (memory : Memory Cell)
    (arguments : List (List Cell)) :
    ArgumentArray m (dispatchMemory host s memory arguments) ⟨memory.length + arguments.length, 0⟩
      (pointersFrom memory.length arguments.length) arguments := by
  refine ⟨rfl, ?_, ?_⟩
  · have here : memory.length + arguments.length = (memory ++ arguments).length := by simp
    rw [here, dispatchMemory, List.getElem?_append_left (by simp), List.getElem?_concat_length]
  · have held := holds_pointersFrom memory
      ([(pointersFrom memory.length arguments.length).flatMap (pointerCells m)] ++
        [(List.range (returnSlot s.cif.rtype)).map host.residue]) arguments
    simpa [dispatchMemory] using held

theorem returnSlot_dispatched (host : Host) (s : Signature m) (memory : Memory Cell)
    (arguments : List (List Cell)) :
    (dispatchMemory host s memory arguments)[memory.length + arguments.length + 1]? =
      some ((List.range (returnSlot s.cif.rtype)).map host.residue) := by
  have here : memory.length + arguments.length + 1 = (memory ++ arguments ++
      [(pointersFrom memory.length arguments.length).flatMap (pointerCells m)]).length := by
    simp [Nat.add_assoc]
  rw [here, dispatchMemory, List.getElem?_concat_length]

/-! ## Dispatching -/

variable {info : CallbackInfo m} {func : List JsVal → JsM m JsVal} {retval params : Pointer}

/-- The body of the wrapper as `DispatchToV8` runs it. -/
def body (host : Host) (info : CallbackInfo m) (func : List JsVal → JsM m JsVal)
    (retval parameters : Pointer) : JsM m Unit :=
  invokeFunction host info.signature func ⟨retval, info.signature.returnType.size m⟩
    ⟨parameters, m.pointer.bytes * info.signature.argTypes.length⟩

/-- What the wrapper returns for an outcome of its body. -/
def wrapped : Except JsVal Unit → JsVal
  | .ok () => .undefined
  | .error e => e

theorem exec_wrapper {outcome : Except JsVal Unit}
    (runs : eval (body host info func retval params) w = some (outcome, w')) :
    exec (wrapper host info.signature func ⟨retval, info.signature.returnType.size m⟩
      ⟨params, m.pointer.bytes * info.signature.argTypes.length⟩) w = some (wrapped outcome, w') := by
  rw [wrapper, exec_bind (x := (invokeFunction _ _ _ _ _).run) runs]
  cases outcome <;> exact exec_pure

/-- A call that Node-API makes: the value is returned if the end of the scope lets it. -/
theorem eval_makeCallback (closing : JsM m Unit) {function : NativeM m JsVal} {value : JsVal}
    (quiet : w.pending = none) (returns : exec function w = some (value, w')) :
    eval (makeCallback closing function) w = match eval closing w' with
      | some (.ok (), closed) => some (.ok value, closed)
      | some (.error e, closed) => if e.isObject then some (.error e, closed) else none
      | none => none := by
  have calls : eval (do
      throwPending
      let value ← native function
      closing
      return value) w = eval (do
        closing
        return value) w' := by
    rw [eval_ok (eval_throwPending quiet), eval_ok (eval_native returns)]
  unfold makeCallback
  cases closes : eval closing w' with
  | none =>
    exact eval_tryCatch_none (calls.trans (eval_none closes))
  | some closed =>
    obtain ⟨outcome, closed⟩ := closed
    cases outcome with
    | ok done => exact eval_tryCatch_ok (calls.trans (eval_ok closes))
    | error e =>
      rw [eval_tryCatch_error (calls.trans (eval_error closes))]
      by_cases object : e.isObject
      · simp only [object, if_true]
        rw [keepError, eval_ok (eval_native (exec_undefinedUnless object)), eval_throw]
      · simp only [object, Bool.false_eq_true, if_false]
        apply eval_none
        rw [native, eval_lift]
        exact congrArg (Option.map _) (if_neg object)

/-- While an exception is pending nothing is called. -/
theorem eval_makeCallback_pending {closing : JsM m Unit} {function : NativeM m JsVal} {e : JsVal}
    (pending : w.pending = some e) (object : e.isObject) :
    eval (makeCallback closing function) w = some (.error e, { w with pending := none }) := by
  have throws : eval (do
      throwPending
      let value ← native function
      closing
      return value) w = some (.error e, { w with pending := none }) := by
    apply eval_error
    change throwPending w = _
    rw [throwPending, pending]
  rw [makeCallback, eval_tryCatch_error throws, keepError, eval_ok (eval_native (exec_undefinedUnless object)),
    eval_throw]

/-- What is pending after `err.ThrowAsJavaScriptException()`. -/
def World.raise (w : World m) (err : JsVal) : World m := { w with pending := w.pending.or (some err) }

/-- On the loop thread what the wrapper returns becomes an exception, unless it is
`undefined`. -/
def reportDirect (host : Host) (e : JsVal) (w : World m) : Option (World m) :=
  if e = .undefined then some w else (errorNew host e).map w.raise

/-- From the watcher it is queued to be thrown, if it is truthy. -/
def reportWatched (e : JsVal) (w : World m) : World m :=
  if e.truthy then { w with ticks := w.ticks ++ [.rethrow e] } else w

variable {ticks : JsM m Unit} {outcome : Except JsVal Unit}

theorem exec_dispatch_direct (ticks : JsM m Unit) (alive : info.function = some func) (quiet : w.pending = none)
    (runs : eval (body host info func retval params) w = some (outcome, w')) :
    exec (dispatchToV8 host ticks info retval params false) w =
      (reportDirect host (wrapped outcome) w').map fun world => ((), world) := by
  have calls := eval_makeCallback (return) quiet (exec_wrapper runs)
  rw [eval_pure] at calls
  have tries : eval (invokeCallback host (return) info retval params false) w =
      if wrapped outcome = .undefined then some (.ok (), w')
      else (errorNew host (wrapped outcome)).map fun err => (.error err, w') := by
    simp only [invokeCallback, alive]
    rw [eval_ok calls]
    split
    · rfl
    · cases errorNew host (wrapped outcome) <;> rfl
  unfold reportDirect
  by_cases absent : wrapped outcome = .undefined
  · rw [if_pos absent] at tries ⊢
    exact exec_bind (x := ExceptT.run _) tries
  · rw [if_neg absent] at tries ⊢
    cases raised : errorNew host (wrapped outcome) with
    | none =>
      rw [raised] at tries
      exact exec_bind_none (x := ExceptT.run _) tries
    | some err =>
      rw [raised] at tries
      exact exec_bind (x := ExceptT.run _) tries

/-- The watcher's route, when the queued functions run without throwing. -/
theorem exec_dispatch_watched {drained : World m} (alive : info.function = some func) (quiet : w.pending = none)
    (runs : eval (body host info func retval params) w = some (outcome, w'))
    (drains : eval ticks w' = some (.ok (), drained)) :
    exec (dispatchToV8 host ticks info retval params true) w =
      some ((), reportWatched (wrapped outcome) drained) := by
  have calls := eval_makeCallback ticks quiet (exec_wrapper runs)
  rw [drains] at calls
  have tries : eval (invokeCallback host ticks info retval params true) w =
      some (.ok (), reportWatched (wrapped outcome) drained) := by
    simp only [invokeCallback, alive]
    rw [eval_ok calls]
    split
    · next absent =>
      rw [absent]
      rfl
    · change eval (native (errorReportCallback (wrapped outcome))) drained = _
      apply eval_native
      unfold errorReportCallback reportWatched
      split <;> rfl
  exact exec_bind (x := ExceptT.run _) tries

/-- What a queued function throws takes the place of what the callback threw; a primitive
value ends the process. -/
theorem exec_dispatch_interrupted {e : JsVal} {failed : World m} (alive : info.function = some func)
    (quiet : w.pending = none) (runs : eval (body host info func retval params) w = some (outcome, w'))
    (throws : eval ticks w' = some (.error e, failed)) :
    exec (dispatchToV8 host ticks info retval params true) w =
      if e.isObject then some ((), failed.raise e) else none := by
  have calls := eval_makeCallback ticks quiet (exec_wrapper runs)
  rw [throws] at calls
  unfold dispatchToV8
  by_cases object : e.isObject
  · simp only [object, if_true] at calls ⊢
    have tries : eval (invokeCallback host ticks info retval params true) w = some (.error e, failed) := by
      simp only [invokeCallback, alive]
      exact eval_error calls
    exact exec_bind (x := ExceptT.run _) tries
  · simp only [object, Bool.false_eq_true, if_false] at calls ⊢
    have tries : eval (invokeCallback host ticks info retval params true) w = none := by
      simp only [invokeCallback, alive]
      exact eval_none calls
    exact exec_bind_none (x := ExceptT.run _) tries

/-- Queued functions without an end. -/
theorem exec_dispatch_endless (alive : info.function = some func) (quiet : w.pending = none)
    (runs : eval (body host info func retval params) w = some (outcome, w')) (endless : eval ticks w' = none) :
    exec (dispatchToV8 host ticks info retval params true) w = none := by
  have calls := eval_makeCallback ticks quiet (exec_wrapper runs)
  rw [endless] at calls
  have tries : eval (invokeCallback host ticks info retval params true) w = none := by
    simp only [invokeCallback, alive]
    exact eval_none calls
  exact exec_bind_none (x := ExceptT.run _) tries

end NodeFfi
