import NodeFfi.LayoutAgreement
import NodeFfi.TypeMemory
import NodeFfi.TransitionSystem
import Mathlib.Algebra.GroupWithZero.Nat
import Mathlib.Data.List.Induction
import Mathlib.Data.List.Nodup
import Mathlib.Logic.Relation

/-! The `elements` arrays that `Type` makes. libffi is given no length: it walks an array to the
first `NULL`, at every level of nesting. -/
namespace NodeFfi.TypeMemory

open PartialPrograms TransitionSystem Relation

section
variable {m : DataModel} (B : Bindings m) (fields : Nat → List TypeRef)

/-! ## What libffi reads -/

/-- The pointer at an offset: what was stored there last, and `NULL` in new storage. -/
def Buffer.content (buffer : Buffer) (offset : Nat) : Option BufferId :=
  buffer.stores.foldl (fun found store => if store.1 = offset then store.2 else found) none

/-- `while (*ptr != NULL)`, from slot `i` on and with `left` slots before the end of the buffer;
`none` is a read past it. -/
def walk (m : DataModel) (elements : Buffer) : Nat → Nat → Option (List BufferId)
  | 0, _ => none
  | left + 1, i =>
    match elements.content (i * m.pointer.bytes) with
    | none => some []
    | some target => (walk m elements left (i + 1)).map (target :: ·)

/-- The elements that `initialize_aggregate` visits. -/
def visited (m : DataModel) (elements : Buffer) : Option (List BufferId) :=
  walk m elements (elements.length / m.pointer.bytes) 0

/-- The `elements` array of an `ffi_type`. -/
def Memory.elementsOf (memory : Memory) (ffi_type : BufferId) : Option Buffer :=
  memory.buffers[ffi_type]?.bind fun buffer => (buffer.content B.elements).bind (memory.buffers[·]?)

/-! ## What it should read -/

/-- The `ffi_type` that `Type` has for a type. -/
def Memory.resolved (memory : Memory) : TypeRef → Option BufferId
  | .void => some (B.predefined .void)
  | .scalar s => some (B.predefined (.value (s.ffiType m)))
  | .pointer _ => some B.pointer
  | .array _ _ => some B.pointer
  | .struct object => memory.ffi_type object
  | .unknown => none

/-- One for a scalar, a pointer or a struct, and `fixedLength` for a fixed-length array. -/
def TypeRef.places : TypeRef → Nat
  | .array _ fixedLength => if fixedLength > 0 then fixedLength else 1
  | _ => 1

/-- The pointers for the fields in order, with `count` of them for each. -/
def Memory.listed (memory : Memory) (count : TypeRef → Nat) : List TypeRef → Option (List BufferId)
  | [] => some []
  | field :: rest =>
    (memory.resolved B field.element.1).bind fun target =>
      (listed memory count rest).map fun others => List.replicate (count field) target ++ others

/-- Pointers stored one after another, from the first slot on. -/
def stored (m : DataModel) (targets : List BufferId) : List (Nat × Option BufferId) :=
  targets.mapIdx fun i target => (i * m.pointer.bytes, some target)

/-- The stores of the second pass: the pointers, and a `NULL` after them. -/
def terminated (m : DataModel) (targets : List BufferId) : List (Nat × Option BufferId) :=
  stored m targets ++ [(targets.length * m.pointer.bytes, none)]

/-- **The array of a struct with these fields is well formed.** -/
structure WellFormed (memory : Memory) (structFields : List TypeRef) (elements : Buffer) : Prop where
  room : elements.length = m.pointer.bytes * ((structFields.map TypeRef.places).sum + 1)
  inside : ∀ store ∈ elements.stores, store.1 + m.pointer.bytes ≤ elements.length
  once : (elements.stores.map Prod.fst).Nodup
  order : ∃ targets, memory.listed B TypeRef.places structFields = some targets ∧
    elements.stores = terminated m targets ∧ visited m elements = some targets

/-- A pointer that reads a `fixedLength` above one: its target is such an array. -/
def TypeRef.Misread : TypeRef → Prop
  | .pointer target => ∃ array ∈ target.elementType, 1 < array.2
  | _ => False

end

/-! ## Counting -/

section
variable {m : DataModel} {B : Bindings m} {fields : Nat → List TypeRef} {memory memory' : Memory}
  {field : TypeRef} {rest : List TypeRef} {elements : Buffer} {targets : List BufferId}

/-- The first pass counts what the second one writes. -/
theorem numElements_eq (rest : List TypeRef) :
    numElements rest = (rest.map fun field => field.element.2).sum := by
  induction rest with
  | nil => rfl
  | cons field rest further =>
    rw [numElements, List.map_cons, List.sum_cons, ← further, element_count]
    cases field.elementType <;> rfl

/-- Only a pointer that reads a `fixedLength` above one takes more room than it should. -/
theorem places_eq_iff (field : TypeRef) : field.places = field.element.2 ↔ ¬ field.Misread := by
  rw [element_count]
  cases field with
  | pointer target =>
    simp only [TypeRef.places, TypeRef.Misread, TypeRef.elementType]
    cases target.elementType with
    | none => simp
    | some array =>
      simp only [Option.mem_def, Option.some.injEq, exists_eq_left']
      split <;> omega
  | _ => simp [TypeRef.places, TypeRef.Misread, TypeRef.elementType]

theorem places_le (field : TypeRef) : field.places ≤ field.element.2 := by
  cases field with
  | pointer target => exact element_count_pos (.pointer target)
  | _ => exact ((places_eq_iff _).mpr id).le

/-- A struct's array has the room it should have if no field takes more. -/
theorem sum_places_eq_iff (rest : List TypeRef) :
    (rest.map TypeRef.places).sum = numElements rest ↔ ∀ field ∈ rest, ¬ field.Misread := by
  rw [numElements_eq]
  induction rest with
  | nil => simp
  | cons field rest further =>
    have less : (rest.map TypeRef.places).sum ≤ (rest.map fun field => field.element.2).sum :=
      List.sum_le_sum fun field _ => places_le field
    have first := places_le field
    rw [List.map_cons, List.map_cons, List.sum_cons, List.sum_cons, List.forall_mem_cons, ← places_eq_iff,
      ← further]
    omega

/-! ## Walking -/

theorem stored_concat (targets : List BufferId) (target : BufferId) :
    stored m (targets ++ [target]) = stored m targets ++ [(targets.length * m.pointer.bytes, some target)] :=
  List.mapIdx_concat

theorem slot_eq_iff {i j : Nat} : i * m.pointer.bytes = j * m.pointer.bytes ↔ i = j :=
  Nat.mul_left_inj m.pointer.bytes_pos.ne'

theorem content_stored (length : Nat) (targets : List BufferId) (references : List BufferId) (i : Nat) :
    (Buffer.mk length (stored m targets) references).content (i * m.pointer.bytes) = targets[i]? := by
  induction targets using List.reverseRecOn with
  | nil => rfl
  | append_singleton targets target before =>
    rw [Buffer.content] at before ⊢
    dsimp only at before ⊢
    rw [stored_concat, List.foldl_append, before]
    simp only [List.foldl_cons, List.foldl_nil, slot_eq_iff]
    split
    · next last => rw [← last, List.getElem?_concat_length]
    · next other => rw [List.getElem?_append, List.getElem?_singleton]; grind

/-- An array holds its pointers in its slots, and `NULL` after them. -/
theorem content_terminated {targets : List BufferId} (same : elements.stores = terminated m targets) (i : Nat) :
    elements.content (i * m.pointer.bytes) = targets[i]? := by
  have before := content_stored (m := m) elements.length targets elements.references i
  rw [Buffer.content] at before ⊢
  dsimp only at before
  rw [same, terminated, List.foldl_append, before]
  simp only [List.foldl_cons, List.foldl_nil, slot_eq_iff]
  split
  · next last => rw [← last, List.getElem?_length]
  · rfl

theorem walk_of_content (filled : ∀ i, elements.content (i * m.pointer.bytes) = targets[i]?) {left i : Nat}
    (started : i ≤ targets.length) (room : targets.length < i + left) :
    walk m elements left i = some (targets.drop i) := by
  induction left generalizing i with
  | zero => omega
  | succ left further =>
    rw [walk, filled]
    cases found : targets[i]? with
    | none => 
      rw [List.drop_of_length_le (List.getElem?_eq_none_iff.mp found)]
    | some target =>
      obtain ⟨inside, same⟩ := List.getElem?_eq_some_iff.mp found
      dsimp only
      rw [further inside (by omega), List.drop_eq_getElem_cons inside, same]
      rfl

/-- The walk ends at the terminator, inside the buffer. -/
theorem visited_of_terminated (same : elements.stores = terminated m targets)
    (room : elements.length = m.pointer.bytes * (targets.length + 1)) : visited m elements = some targets := by
  have slots : elements.length / m.pointer.bytes = targets.length + 1 := by
    rw [room, Nat.mul_div_cancel_left _ m.pointer.bytes_pos]
  rw [visited, slots, walk_of_content (content_terminated same) (Nat.zero_le _) (by omega), List.drop_zero]

/-! ## What `Type` leaves -/

/-- The `ffi_type` that `Type` has made for a struct, with the `elements` array next to it. -/
structure Made (B : Bindings m) (fields : Nat → List TypeRef) (memory : Memory) (object : Nat)
    (ffi_type : BufferId) : Prop where
  record : ∃ references, memory.buffers[ffi_type]? =
    some ⟨B.FFI_TYPE_SIZE, [(B.elements, some (ffi_type + 1))], references⟩
  elements : ∃ targets references, memory.buffers[ffi_type + 1]? =
      some ⟨m.pointer.bytes * (numElements (fields object) + 1), terminated m targets, references⟩ ∧
    memory.listed B (fun field => field.element.2) (fields object) = some targets
  finite : Acc (Below fields) object

/-- Every `ffi_type` is one that `Type` has made. -/
def Sound (B : Bindings m) (fields : Nat → List TypeRef) (memory : Memory) : Prop :=
  ∀ object ffi_type, memory.ffi_type object = some ffi_type → Made B fields memory object ffi_type

/-- No `ffi_type` and no `elements` array is this Buffer. -/
def Pending (memory : Memory) (buffer : BufferId) : Prop :=
  ∀ object ffi_type, memory.ffi_type object = some ffi_type → ffi_type ≠ buffer ∧ ffi_type + 1 ≠ buffer

/-- The Buffers below `bound` stay as they are, and so do the `ffi_type`s; what is new is not
below `bound`. -/
structure Keeps (bound : Nat) (memory memory' : Memory) : Prop where
  longer : memory.buffers.length ≤ memory'.buffers.length
  buffers : ∀ i < bound, memory'.buffers[i]? = memory.buffers[i]?
  cached : ∀ object b, memory.ffi_type object = some b → memory'.ffi_type object = some b
  new : ∀ object b, memory'.ffi_type object = some b → memory.ffi_type object = some b ∨ bound ≤ b

/-- Only this Buffer is written to. -/
structure Writes (buffer : BufferId) (memory memory' : Memory) : Prop where
  length : memory'.buffers.length = memory.buffers.length
  others : ∀ i ≠ buffer, memory'.buffers[i]? = memory.buffers[i]?
  ffi_type : memory'.ffi_type = memory.ffi_type

variable {memory'' : Memory} {bound bound' : Nat} {e : BufferId}

theorem Keeps.refl (bound : Nat) (memory : Memory) : Keeps bound memory memory :=
  ⟨Nat.le_refl _, fun _ _ => rfl, fun _ _ => id, fun _ _ => .inl⟩

theorem Keeps.trans (first : Keeps bound memory memory') (second : Keeps bound memory' memory'') :
    Keeps bound memory memory'' where
  longer := first.longer.trans second.longer
  buffers := fun i below => (second.buffers i below).trans (first.buffers i below)
  cached := fun object b there => second.cached object b (first.cached object b there)
  new := by
    intro object b there
    rcases second.new object b there with before | new
    · exact first.new object b before
    · exact .inr new

theorem Keeps.weaken (keeps : Keeps bound memory memory') (less : bound' ≤ bound) : Keeps bound' memory memory' :=
  ⟨keeps.longer, fun _ below => keeps.buffers _ (Nat.lt_of_lt_of_le below less), keeps.cached,
    fun object b there => (keeps.new object b there).imp_right fun new => Nat.le_trans less new⟩

theorem Writes.refl (buffer : BufferId) (memory : Memory) : Writes buffer memory memory :=
  ⟨rfl, fun _ _ => rfl, rfl⟩

theorem Writes.trans (first : Writes e memory memory') (second : Writes e memory' memory'') :
    Writes e memory memory'' :=
  ⟨second.length.trans first.length, fun i other => (second.others i other).trans (first.others i other),
    second.ffi_type.trans first.ffi_type⟩

theorem writes_update (memory : Memory) (buffer : BufferId) (change : Buffer → Buffer) :
    Writes buffer memory (memory.update buffer change) :=
  ⟨List.length_modify .., fun _ other => List.getElem?_modify_ne _ _ other.symm, rfl⟩

theorem Writes.keeps (writes : Writes e memory memory') (above : bound ≤ e) : Keeps bound memory memory' where
  longer := writes.length.ge
  buffers := fun i below => writes.others i (Nat.ne_of_lt (Nat.lt_of_lt_of_le below above))
  cached := fun object b there => by rw [writes.ffi_type, there]
  new := fun object b there => .inl (by rw [← writes.ffi_type, there])

theorem Writes.pending (writes : Writes e memory memory') (pending : Pending memory e) : Pending memory' e := by
  rw [Pending, writes.ffi_type]
  exact pending

theorem resolved_mono (cached : ∀ object b, memory.ffi_type object = some b → memory'.ffi_type object = some b)
    {type : TypeRef} {b : BufferId} (found : memory.resolved B type = some b) : memory'.resolved B type = some b := by
  cases type with
  | struct object => exact cached object b found
  | _ => exact found

theorem listed_mono (cached : ∀ object b, memory.ffi_type object = some b → memory'.ffi_type object = some b)
    {count : TypeRef → Nat} (found : memory.listed B count rest = some targets) :
    memory'.listed B count rest = some targets := by
  induction rest generalizing targets with
  | nil => exact found
  | cons field rest further =>
    obtain ⟨target, first, onward⟩ := Option.bind_eq_some_iff.mp found
    obtain ⟨others, tail, same⟩ := Option.map_eq_some_iff.mp onward
    rw [Memory.listed, resolved_mono cached first, Option.bind_some, further tail, ← same]
    rfl

/-- What is made stays made while its two Buffers are left alone. -/
theorem Made.kept {object : Nat} {b : BufferId} (made : Made B fields memory object b)
    (record : memory'.buffers[b]? = memory.buffers[b]?)
    (elements : memory'.buffers[b + 1]? = memory.buffers[b + 1]?)
    (cached : ∀ object b, memory.ffi_type object = some b → memory'.ffi_type object = some b) :
    Made B fields memory' object b := by
  obtain ⟨targets, references, there, lists⟩ := made.elements
  exact ⟨by rw [record]; exact made.record, ⟨targets, references, elements.trans there, listed_mono cached lists⟩,
    made.finite⟩

theorem Sound.writes (sound : Sound B fields memory) (pending : Pending memory e)
    (writes : Writes e memory memory') : Sound B fields memory' := by
  intro object b there
  rw [writes.ffi_type] at there
  obtain ⟨other, next⟩ := pending object b there
  apply (sound object b there).kept (writes.others b other) (writes.others (b + 1) next)
  rw [writes.ffi_type]
  exact fun _ _ => id

theorem Sound.bounded (sound : Sound B fields memory) {object : Nat} {b : BufferId}
    (there : memory.ffi_type object = some b) : b + 1 < memory.buffers.length := by
  obtain ⟨targets, references, found, _⟩ := (sound object b there).elements
  exact (List.getElem?_eq_some_iff.mp found).1

theorem Pending.kept (pending : Pending memory e) (keeps : Keeps bound memory memory') (below : e < bound) :
    Pending memory' e := by
  intro object b there
  rcases keeps.new object b there with before | new
  · exact pending object b before
  · have above : e < b := Nat.lt_of_lt_of_le below new
    exact ⟨above.ne', (above.trans (Nat.lt_succ_self b)).ne'⟩

/-! ## The loops -/

theorem eval_writePointer (buffer : BufferId) (offset : Nat) (target : Option BufferId) :
    eval (writePointer buffer offset target) memory =
      some (.ok (), memory.update buffer fun b => b.write offset target) := rfl

theorem writeElement_runs {length : Nat} {references : List BufferId} (target : BufferId) (count : Nat)
    (there : memory.buffers[e]? = some ⟨length, stored m targets, references⟩) :
    ∃ memory' references', Writes e memory memory' ∧
      eval (writeElement (m := m) e target targets.length count) memory =
        some (.ok (targets.length + count), memory') ∧
      memory'.buffers[e]? = some ⟨length, stored m (targets ++ List.replicate count target), references'⟩ := by
  induction count generalizing memory targets references with
  | zero => exact ⟨memory, references, .refl e memory, rfl, by simpa using there⟩
  | succ count further =>
    have next : (memory.update e fun b => b.write (targets.length * m.pointer.bytes) (some target)).buffers[e]? =
        some ⟨length, stored m (targets ++ [target]), references ++ [target]⟩ := by
      rw [stored_concat, Memory.update, List.getElem?_modify_eq, there]
      rfl
    obtain ⟨memory', references', writes, runs, filled⟩ := further next
    rw [List.length_append, List.length_singleton] at runs
    refine ⟨memory', references', (writes_update _ _ _).trans writes, ?_, ?_⟩
    · rw [writeElement, eval_ok (eval_writePointer ..), runs, Nat.add_right_comm, Nat.add_assoc]
    · rw [filled, List.append_assoc, List.replicate_succ, List.singleton_append]

/-- What a call of `Type` does to the memory, and what it returns. -/
structure Typed (B : Bindings m) (fields : Nat → List TypeRef) (type : TypeRef) (memory : Memory)
    (outcome : Except Thrown BufferId) (memory' : Memory) : Prop where
  sound : Sound B fields memory'
  keeps : Keeps memory.buffers.length memory memory'
  resolves : ∀ b, outcome = .ok b → memory'.resolved B type = some b
  finite : ∀ b, outcome = .ok b → ∀ n, type = .struct n → Acc (Below fields) n
  within : ∀ b, outcome = .ok b → ∀ k, memory.ffi_type k = none → memory'.ffi_type k ≠ none →
    ∃ n, type = .struct n ∧ ReflTransGen (Below fields) k n

/-- What the second pass does to the memory, with `e` the array and `targets` in it already. -/
structure Filled (B : Bindings m) (fields : Nat → List TypeRef) (rest : List TypeRef) (e : BufferId)
    (length : Nat) (targets : List BufferId) (memory : Memory) (outcome : Except Thrown Nat) (memory' : Memory) :
    Prop where
  sound : Sound B fields memory'
  keeps : Keeps e memory memory'
  pending : Pending memory' e
  fills : ∀ index, outcome = .ok index → ∃ more references, index = (targets ++ more).length ∧
    memory'.buffers[e]? = some ⟨length, stored m (targets ++ more), references⟩ ∧
      memory'.listed B (fun field => field.element.2) rest = some more
  finite : ∀ index, outcome = .ok index → ∀ field ∈ rest, ∀ n, field.element.1 = .struct n → Acc (Below fields) n
  within : ∀ index, outcome = .ok index → ∀ k, memory.ffi_type k = none → memory'.ffi_type k ≠ none →
    ∃ field ∈ rest, ∃ n, field.element.1 = .struct n ∧ ReflTransGen (Below fields) k n

theorem writeElements_filled (targets : List BufferId) {resolve : TypeRef → JsM BufferId} {length : Nat}
    {references : List BufferId} {outcome : Except Thrown Nat}
    (each : ∀ field ∈ rest, ∀ memory outcome memory', Sound B fields memory →
      eval (resolve field.element.1) memory = some (outcome, memory') →
        Typed B fields field.element.1 memory outcome memory')
    (sound : Sound B fields memory) (pending : Pending memory e)
    (there : memory.buffers[e]? = some ⟨length, stored m targets, references⟩)
    (runs : eval (writeElements (m := m) resolve e targets.length rest) memory = some (outcome, memory')) :
    Filled B fields rest e length targets memory outcome memory' := by
  induction rest generalizing memory targets references with
  | nil =>
    obtain ⟨rfl, rfl⟩ := Prod.mk.inj (Option.some.inj runs)
    refine ⟨sound, .refl e memory, pending, ?_, nofun, ?_⟩
    · rintro index ⟨⟩
      exact ⟨[], references, by simp, by simpa using there, rfl⟩
    · exact fun _ _ k absent present => absurd absent present
  | cons field rest further =>
    rw [List.forall_mem_cons] at each
    have inside : e < memory.buffers.length := (List.getElem?_eq_some_iff.mp there).1
    rw [writeElements] at runs
    rcases eval_bind_some runs with ⟨raised, throws, rfl⟩ | ⟨target, between, resolves, onward⟩
    · have typed := each.1 memory _ memory' sound throws
      exact ⟨typed.sound, typed.keeps.weaken inside.le, pending.kept typed.keeps inside, nofun, nofun, nofun⟩
    · have typed := each.1 memory _ between sound resolves
      have still : between.buffers[e]? = some ⟨length, stored m targets, references⟩ :=
        (typed.keeps.buffers e inside).trans there
      obtain ⟨written, references', writes, wrote, holds⟩ := writeElement_runs target field.element.2 still
      rw [eval_ok wrote] at onward
      have apart := pending.kept typed.keeps inside
      have rest_filled := further _ each.2 (typed.sound.writes apart writes) (writes.pending apart) holds
        (by rw [List.length_append, List.length_replicate]; exact onward)
      have onKeeps := (typed.keeps.weaken inside.le).trans ((writes.keeps (Nat.le_refl e)).trans rest_filled.keeps)
      have later : ∀ object b, between.ffi_type object = some b → memory'.ffi_type object = some b := by
        intro object b cached
        rw [← writes.ffi_type] at cached
        exact rest_filled.keeps.cached object b cached
      refine ⟨rest_filled.sound, onKeeps, rest_filled.pending, ?_, ?_, ?_⟩
      · intro index ok
        obtain ⟨more, references'', last, filled, lists⟩ := rest_filled.fills index ok
        refine ⟨List.replicate field.element.2 target ++ more, references'', ?_, ?_, ?_⟩
        · rw [last, List.append_assoc]
        · rw [filled, List.append_assoc]
        · rw [Memory.listed, resolved_mono later (typed.resolves target rfl), Option.bind_some, lists]
          rfl
      · intro index ok
        rw [List.forall_mem_cons]
        exact ⟨typed.finite target rfl, rest_filled.finite index ok⟩
      · intro index ok k absent present
        by_cases soon : between.ffi_type k = none
        · have before : written.ffi_type k = none := by rw [writes.ffi_type, soon]
          obtain ⟨other, member, n, same, path⟩ := rest_filled.within index ok k before present
          exact ⟨other, List.mem_cons_of_mem _ member, n, same, path⟩
        · obtain ⟨n, same, path⟩ := typed.within target rfl k absent soon
          exact ⟨field, List.mem_cons_self, n, same, path⟩

/-- The two Buffers of a new `ffi_type`, the second one's address stored in the first. -/
def Memory.allocated (memory : Memory) (first second offset : Nat) : Memory :=
  Memory.update ⟨memory.buffers ++ [⟨first, [], []⟩] ++ [⟨second, [], []⟩], memory.ffi_type⟩
    memory.buffers.length fun b => b.write offset (some (memory.buffers.length + 1))

theorem eval_allocated {α : Type} (memory : Memory) (first second offset : Nat)
    (rest : BufferId → BufferId → JsM α) :
    eval (do
      let ffi_type ← bufferAlloc first
      let elements ← bufferAlloc second
      writePointer ffi_type offset (some elements)
      rest ffi_type elements) memory =
    eval (rest memory.buffers.length (memory.buffers.length + 1)) (memory.allocated first second offset) := by
  have runs : eval (do
      let ffi_type ← bufferAlloc first
      let elements ← bufferAlloc second
      writePointer ffi_type offset (some elements)
      rest ffi_type elements) memory =
    eval (rest memory.buffers.length (memory.buffers ++ [Buffer.mk first [] []]).length)
      (Memory.update ⟨memory.buffers ++ [Buffer.mk first [] []] ++ [Buffer.mk second [] []], memory.ffi_type⟩
        memory.buffers.length fun b => b.write offset (memory.buffers ++ [Buffer.mk first [] []]).length) := rfl
  simp only [List.length_append, List.length_singleton] at runs
  exact runs

theorem allocated_before (memory : Memory) (first second offset : Nat) {i : Nat} (below : i < memory.buffers.length) :
    (memory.allocated first second offset).buffers[i]? = memory.buffers[i]? := by
  rw [Memory.allocated, (writes_update _ _ _).others i below.ne, List.getElem?_append_left (by simp; omega),
    List.getElem?_append_left below]

theorem allocated_first (memory : Memory) (first second offset : Nat) :
    (memory.allocated first second offset).buffers[memory.buffers.length]? =
      some ⟨first, [(offset, some (memory.buffers.length + 1))], [memory.buffers.length + 1]⟩ := by
  rw [Memory.allocated, Memory.update, List.getElem?_modify_eq, List.getElem?_append_left (by simp),
    List.getElem?_concat_length]
  rfl

theorem allocated_second (memory : Memory) (first second offset : Nat) :
    (memory.allocated first second offset).buffers[memory.buffers.length + 1]? = some ⟨second, [], []⟩ := by
  rw [Memory.allocated, (writes_update _ _ _).others _ (by simp)]
  simp

/-- A new `ffi_type` is made: the second pass has run, and its array is terminated. -/
theorem made_terminated {object : Nat} {b : BufferId} {references references' : List BufferId}
    (finite : Acc (Below fields) object)
    (record : memory.buffers[b]? = some ⟨B.FFI_TYPE_SIZE, [(B.elements, some (b + 1))], references⟩)
    (filled : memory.buffers[b + 1]? =
      some ⟨m.pointer.bytes * (numElements (fields object) + 1), stored m targets, references'⟩)
    (lists : memory.listed B (fun field => field.element.2) (fields object) = some targets)
    (absent : memory.ffi_type object = none) :
    Made B fields ((memory.update (b + 1) fun e => e.write (targets.length * m.pointer.bytes) none).cache object b)
      object b := by
  refine ⟨⟨references, ?_⟩, ⟨targets, references' ++ [], ?_, ?_⟩, finite⟩
  · exact ((writes_update memory (b + 1) _).others b (Nat.ne_of_lt (Nat.lt_succ_self b))).trans record
  · change (memory.update (b + 1) _).buffers[b + 1]? = _
    rw [Memory.update, List.getElem?_modify_eq, filled]
    rfl
  · refine listed_mono ?_ lists
    intro n c there
    exact (Memory.cache_other _ _ (by rintro rfl; rw [absent] at there; cases there)).trans there

theorem keeps_cache (object : Nat) (b : BufferId) (absent : memory.ffi_type object = none) (above : bound ≤ b) :
    Keeps bound memory (memory.cache object b) := by
  refine ⟨Nat.le_refl _, fun _ _ => rfl, ?_, ?_⟩
  · intro n c there
    exact (Memory.cache_other _ _ (by rintro rfl; rw [absent] at there; cases there)).trans there
  · intro n c there
    by_cases own : n = object
    · subst n
      obtain rfl : b = c := Option.some.inj ((Memory.cache_self ..).symm.trans there)
      exact .inr above
    · exact .inl ((Memory.cache_other _ _ own).symm.trans there)

theorem Typed.constant {type : TypeRef} {b : BufferId} (sound : Sound B fields memory)
    (resolves : memory.resolved B type = some b) (plain : ∀ n, type ≠ .struct n) :
    Typed B fields type memory (.ok b) memory :=
  ⟨sound, .refl _ _, by rintro c ⟨⟩; exact resolves, fun _ _ n same => absurd same (plain n),
    fun _ _ _ absent present => absurd absent present⟩

/-- A new `ffi_type` is on no type yet, and touches none that is. -/
theorem Sound.allocated (sound : Sound B fields memory) (first second offset : Nat) :
    Keeps memory.buffers.length memory (memory.allocated first second offset) ∧
      Sound B fields (memory.allocated first second offset) ∧
      Pending (memory.allocated first second offset) (memory.buffers.length + 1) := by
  have before := fun i => @allocated_before memory first second offset i
  have longer : memory.buffers.length + 1 < (memory.allocated first second offset).buffers.length :=
    (List.getElem?_eq_some_iff.mp (allocated_second memory first second offset)).1
  have fresh : Keeps memory.buffers.length memory (memory.allocated first second offset) :=
    ⟨by omega, before, fun _ _ => id, fun _ _ => .inl⟩
  refine ⟨fresh, ?_, ?_⟩
  · intro n b there
    have bounded := sound.bounded there
    exact (sound n b there).kept (before b (Nat.lt_of_succ_lt bounded)) (before (b + 1) bounded) fresh.cached
  · intro n b there
    have bounded := sound.bounded there
    exact ⟨(Nat.lt_succ_of_lt (Nat.lt_of_succ_lt bounded)).ne, (Nat.lt_succ_of_lt bounded).ne⟩

/-- `Type` on a struct type that has no `ffi_type` yet. -/
theorem struct_typed {resolve : TypeRef → JsM BufferId} {object : Nat} {outcome : Except Thrown BufferId}
    (each : ∀ field ∈ fields object, ∀ memory outcome memory', Sound B fields memory →
      eval (resolve field.element.1) memory = some (outcome, memory') →
        Typed B fields field.element.1 memory outcome memory')
    (sound : Sound B fields memory) (absent : memory.ffi_type object = none)
    (runs : eval (do
      let ffi_type ← bufferAlloc B.FFI_TYPE_SIZE
      let elements ← bufferAlloc (m.pointer.bytes * (numElements (fields object) + 1))
      writePointer ffi_type B.elements (some elements)
      let index ← writeElements (m := m) resolve elements 0 (fields object)
      writePointer elements (index * m.pointer.bytes) none
      modify fun memory => memory.cache object ffi_type
      return ffi_type) memory = some (outcome, memory')) :
    Typed B fields (.struct object) memory outcome memory' := by
  rw [eval_allocated] at runs
  obtain ⟨fresh, madeSound, pending⟩ :=
    sound.allocated B.FFI_TYPE_SIZE (m.pointer.bytes * (numElements (fields object) + 1)) B.elements
  have record := allocated_first memory B.FFI_TYPE_SIZE (m.pointer.bytes * (numElements (fields object) + 1))
    B.elements
  have empty := allocated_second memory B.FFI_TYPE_SIZE (m.pointer.bytes * (numElements (fields object) + 1))
    B.elements
  have same : (memory.allocated B.FFI_TYPE_SIZE (m.pointer.bytes * (numElements (fields object) + 1))
    B.elements).ffi_type = memory.ffi_type := rfl
  generalize memory.allocated B.FFI_TYPE_SIZE (m.pointer.bytes * (numElements (fields object) + 1))
    B.elements = made at *
  rcases eval_bind_some runs with ⟨raised, throws, rfl⟩ | ⟨index, filledMemory, fills, onward⟩
  · have filled := writeElements_filled [] each madeSound pending empty throws
    exact ⟨filled.sound, fresh.trans (filled.keeps.weaken (Nat.le_succ _)), nofun, nofun, nofun⟩
  · have filled := writeElements_filled [] each madeSound pending empty fills
    obtain ⟨targets, references, rfl, holds, lists⟩ := filled.fills index rfl
    rw [List.nil_append] at onward holds
    have finite := acc_of_fields (filled.finite _ rfl)
    have below : ∀ k, memory.ffi_type k = none → filledMemory.ffi_type k ≠ none →
        TransGen (Below fields) k object := by
      intro k missing present
      rw [← same] at missing
      obtain ⟨field, member, n, element, path⟩ := filled.within _ rfl k missing present
      exact TransGen.tail' path ⟨field, member, element⟩
    -- The struct type is not among those that its fields have made.
    have still : filledMemory.ffi_type object = none := by
      by_contra present
      exact not_below_self finite (below object absent present)
    have record' : filledMemory.buffers[memory.buffers.length]? = _ :=
      (filled.keeps.buffers _ (Nat.lt_succ_self _)).trans record
    obtain ⟨rfl, rfl⟩ := Prod.mk.inj (Option.some.inj onward.symm)
    have writes := writes_update filledMemory (memory.buffers.length + 1) fun e =>
      e.write (targets.length * m.pointer.bytes) none
    have cacheKeeps := keeps_cache object memory.buffers.length
      (by rw [writes.ffi_type]; exact still) (Nat.le_refl _)
    have soundWritten := filled.sound.writes filled.pending writes
    refine ⟨?_, ?_, ?_, ?_, ?_⟩
    · intro n b there
      by_cases own : n = object
      · subst n
        obtain rfl : memory.buffers.length = b := Option.some.inj ((Memory.cache_self ..).symm.trans there)
        exact made_terminated finite record' holds lists still
      · rw [Memory.cache_other _ _ own] at there
        exact (soundWritten n b there).kept rfl rfl cacheKeeps.cached
    · exact fresh.trans ((filled.keeps.weaken (Nat.le_succ _)).trans
        ((writes.keeps (Nat.le_succ _)).trans cacheKeeps))
    · rintro b ⟨⟩
      exact Memory.cache_self ..
    · rintro b ⟨⟩ n ⟨⟩
      exact finite
    · rintro b ⟨⟩ k missing present
      refine ⟨object, rfl, ?_⟩
      by_cases own : k = object
      · rw [own]
      · rw [Memory.cache_other _ _ own, writes.ffi_type] at present
        exact (below k missing present).to_reflTransGen

/-- **A call of `Type`** leaves every array as it is that it finds, and makes whole ones. -/
theorem typeAt_typed {depth : Nat} {type : TypeRef} {outcome : Except Thrown BufferId} (sound : Sound B fields memory)
    (runs : eval (typeAt B fields depth type) memory = some (outcome, memory')) :
    Typed B fields type memory outcome memory' := by
  induction depth generalizing type memory outcome memory' with
  | zero =>
    obtain ⟨rfl, rfl⟩ := Prod.mk.inj (Option.some.inj runs)
    exact ⟨sound, .refl _ _, nofun, nofun, nofun⟩
  | succ depth further =>
    cases type with
    | struct object =>
      rw [typeAt, eval_ok (rfl : eval (get : JsM Memory) memory = some (.ok memory, memory))] at runs
      cases cached : memory.ffi_type object with
      | some b =>
        rw [cached] at runs
        obtain ⟨rfl, rfl⟩ := Prod.mk.inj (Option.some.inj runs)
        refine ⟨sound, .refl _ _, by rintro c ⟨⟩; exact cached, ?_, fun _ _ _ absent present => absurd absent present⟩
        rintro c ⟨⟩ n ⟨⟩
        exact (sound object b cached).finite
      | none =>
        rw [cached] at runs
        exact struct_typed (fun field member memory outcome memory' sound runs => further sound runs) sound cached runs
    | unknown =>
      obtain ⟨rfl, rfl⟩ := Prod.mk.inj (Option.some.inj runs)
      exact ⟨sound, .refl _ _, nofun, nofun, nofun⟩
    | _ =>
      obtain ⟨rfl, rfl⟩ := Prod.mk.inj (Option.some.inj runs)
      exact .constant sound rfl nofun

/-! ## The arrays -/

theorem terminated_offsets (targets : List BufferId) :
    (terminated m targets).map Prod.fst = (List.range (targets.length + 1)).map (· * m.pointer.bytes) := by
  have before : (stored m targets).map Prod.fst = (List.range targets.length).map (· * m.pointer.bytes) := by
    apply List.ext_getElem <;> simp [stored]
  rw [terminated, List.map_append, before, List.range_succ, List.map_append]
  rfl

theorem listed_length {count : TypeRef → Nat} (lists : memory.listed B count rest = some targets) :
    targets.length = (rest.map count).sum := by
  induction rest generalizing targets with
  | nil =>
    obtain rfl := Option.some.inj lists
    rfl
  | cons field rest further =>
    obtain ⟨target, _, onward⟩ := Option.bind_eq_some_iff.mp lists
    obtain ⟨others, tail, rfl⟩ := Option.map_eq_some_iff.mp onward
    rw [List.length_append, List.length_replicate, further tail, List.map_cons, List.sum_cons]

theorem listed_congr {count count' : TypeRef → Nat} (same : ∀ field ∈ rest, count field = count' field) :
    memory.listed B count rest = memory.listed B count' rest := by
  induction rest with
  | nil => rfl
  | cons field rest further =>
    rw [List.forall_mem_cons] at same
    rw [Memory.listed, Memory.listed, same.1, further same.2]

theorem listed_resolves {count : TypeRef → Nat} (lists : memory.listed B count rest = some targets)
    {field : TypeRef} (member : field ∈ rest) : ∃ target, memory.resolved B field.element.1 = some target := by
  induction rest generalizing targets with
  | nil => cases member
  | cons first rest further =>
    obtain ⟨target, found, onward⟩ := Option.bind_eq_some_iff.mp lists
    obtain ⟨others, tail, _⟩ := Option.map_eq_some_iff.mp onward
    rcases List.mem_cons.mp member with rfl | later
    · exact ⟨target, found⟩
    · exact further tail later

theorem wellFormed_of_stores {structFields : List TypeRef} (agree : ∀ field ∈ structFields, ¬ field.Misread)
    (room : elements.length = m.pointer.bytes * (numElements structFields + 1))
    (same : elements.stores = terminated m targets)
    (lists : memory.listed B (fun field => field.element.2) structFields = some targets) :
    WellFormed B memory structFields elements := by
  have counted : targets.length = numElements structFields := by rw [listed_length lists, numElements_eq]
  have fits : elements.length = m.pointer.bytes * (targets.length + 1) := by rw [room, counted]
  refine ⟨by rw [room, (sum_places_eq_iff structFields).mpr agree], ?_, ?_, targets, ?_, same,
    visited_of_terminated same fits⟩
  · intro store member
    have offset : store.1 ∈ (terminated m targets).map Prod.fst := List.mem_map_of_mem (same ▸ member)
    rw [terminated_offsets] at offset
    obtain ⟨i, below, start⟩ := List.mem_map.mp offset
    rw [List.mem_range] at below
    rw [← start, fits, ← Nat.succ_mul, Nat.mul_comm]
    exact Nat.mul_le_mul_left _ below
  · rw [same, terminated_offsets]
    exact List.nodup_range.map fun _ _ equal => slot_eq_iff.mp equal
  · rw [← lists]
    exact listed_congr fun field member => (places_eq_iff field).mpr (agree field member)

theorem Made.elementsOf {object : Nat} {b : BufferId} (made : Made B fields memory object b) :
    ∃ targets references, memory.elementsOf B b =
        some ⟨m.pointer.bytes * (numElements (fields object) + 1), terminated m targets, references⟩ ∧
      memory.listed B (fun field => field.element.2) (fields object) = some targets := by
  obtain ⟨references, record⟩ := made.record
  obtain ⟨targets, references', there, lists⟩ := made.elements
  refine ⟨targets, references', ?_, lists⟩
  rw [Memory.elementsOf, record, Option.bind_some, Buffer.content]
  simp only [List.foldl_cons, List.foldl_nil, if_true, Option.bind_some, there]

/-- The array of a struct is well formed unless one of its fields is misread. -/
theorem Made.wellFormed_iff {object : Nat} {b : BufferId} (made : Made B fields memory object b) :
    (∃ elements, memory.elementsOf B b = some elements ∧ WellFormed B memory (fields object) elements) ↔
      ∀ field ∈ fields object, ¬ field.Misread := by
  obtain ⟨targets, references, found, lists⟩ := made.elementsOf
  constructor
  · rintro ⟨elements, same, formed⟩
    obtain rfl := Option.some.inj (found.symm.trans same)
    have counts := Nat.eq_of_mul_eq_mul_left m.pointer.bytes_pos formed.room
    exact (sum_places_eq_iff _).mp (by omega)
  · intro agree
    exact ⟨_, found, wellFormed_of_stores agree rfl rfl lists⟩

/-- libffi's walk of the array finds what was listed. -/
theorem Made.walks {object : Nat} {b : BufferId} (made : Made B fields memory object b) :
    ∃ elements targets, memory.elementsOf B b = some elements ∧ visited m elements = some targets ∧
      memory.listed B (fun field => field.element.2) (fields object) = some targets := by
  obtain ⟨targets, references, found, lists⟩ := made.elementsOf
  refine ⟨_, targets, found, visited_of_terminated rfl ?_, lists⟩
  rw [listed_length lists, ← numElements_eq]

/-- All struct types in a type that has an `ffi_type` have one. -/
theorem Sound.nested (sound : Sound B fields memory) {object n : Nat} {b : BufferId}
    (there : memory.ffi_type object = some b) (path : ReflTransGen (Below fields) n object) :
    ∃ c, memory.ffi_type n = some c := by
  induction path using ReflTransGen.head_induction_on with
  | refl => exact ⟨b, there⟩
  | head below _ ih =>
    obtain ⟨c, cached⟩ := ih
    obtain ⟨targets, _, _, lists⟩ := (sound _ c cached).elements
    obtain ⟨field, member, same⟩ := below
    obtain ⟨target, found⟩ := listed_resolves lists member
    rw [same] at found
    exact ⟨target, found⟩

/-- A call of `Type`. -/
def call (B : Bindings m) (fields : Nat → List TypeRef) (memory : Memory) (label : Nat × TypeRef) : Option Memory :=
  (eval (typeAt B fields label.1 label.2) memory).map Prod.snd

theorem sound_reached {start : Memory} (fresh : ∀ n, start.ffi_type n = none)
    (reached : Reaches (call B fields) (fun _ _ => True) start memory) : Sound B fields memory := by
  apply reached.invariant (Sound B fields)
  · intro object b there
    rw [fresh] at there
    cases there
  · intro memory label memory' sound _ next
    obtain ⟨⟨outcome, _⟩, runs, rfl⟩ := Option.map_eq_some_iff.mp next
    exact (typeAt_typed sound runs).sound

/-- The arrays of a struct type and of all struct types in it are well formed. -/
def WellFormedThroughout (B : Bindings m) (fields : Nat → List TypeRef) (memory : Memory) (object : Nat) : Prop :=
  ∀ n, ReflTransGen (Below fields) n object → ∃ ffi_type elements, memory.ffi_type n = some ffi_type ∧
    memory.elementsOf B ffi_type = some elements ∧ WellFormed B memory (fields n) elements

theorem Sound.throughout_iff (sound : Sound B fields memory) {object : Nat} {b : BufferId}
    (there : memory.ffi_type object = some b) : WellFormedThroughout B fields memory object ↔
      ∀ n, ReflTransGen (Below fields) n object → ∀ field ∈ fields n, ¬ field.Misread := by
  apply forall_congr'
  intro n
  apply imp_congr_right
  intro path
  obtain ⟨c, cached⟩ := sound.nested there path
  rw [← (sound n c cached).wellFormed_iff]
  constructor
  · rintro ⟨ffi_type, elements, same, formed⟩
    obtain rfl := Option.some.inj (cached.symm.trans same)
    exact ⟨elements, formed⟩
  · rintro ⟨elements, formed⟩
    exact ⟨c, elements, cached, formed⟩

/-- **The arrays that `Type` returns are well formed at every level, and libffi walks exactly
their elements, unless a pointer among the fields reads the `fixedLength` of its target.** -/
theorem elements_wellFormed_iff {start : Memory} {depth object : Nat} {b : BufferId}
    (fresh : ∀ n, start.ffi_type n = none) (reached : Reaches (call B fields) (fun _ _ => True) start memory)
    (returns : eval (typeAt B fields depth (.struct object)) memory = some (.ok b, memory')) :
    memory'.ffi_type object = some b ∧ (WellFormedThroughout B fields memory' object ↔
      ∀ n, ReflTransGen (Below fields) n object → ∀ field ∈ fields n, ¬ field.Misread) := by
  have typed := typeAt_typed (sound_reached fresh reached) returns
  have there : memory'.ffi_type object = some b := typed.resolves b rfl
  exact ⟨there, typed.sound.throughout_iff there⟩

end

/-! ## Two structs -/

/-- `FFI_TYPES`, with one entry for all values that are no pointers. -/
def someBindings : Bindings lp64 where
  predefined
    | .void => 0
    | .value .pointer => 1
    | .value _ => 2
  FFI_TYPE_SIZE := 24
  elements := 16

/-- A process in which no struct type has been used. -/
def unused : Memory := ⟨List.replicate 3 ⟨24, [], []⟩, fun _ => none⟩

/-- `{a: int, b: ArrayType(T, 2), c: ref.refType(T)}` and `T`, which is `{d: double}`. -/
def nestedFields : Nat → List TypeRef
  | 0 => [.scalar (.named .int), .array (.struct 1) 2, .pointer (.struct 1)]
  | 1 => [.scalar .double]
  | _ => []

theorem nested_wellFormed : ∃ b memory, eval (typeAt someBindings nestedFields 3 (.struct 0)) unused =
    some (.ok b, memory) ∧ WellFormedThroughout someBindings nestedFields memory 0 := by
  have returns : ∃ b memory, eval (typeAt someBindings nestedFields 3 (.struct 0)) unused =
    some (.ok b, memory) := ⟨_, _, rfl⟩
  obtain ⟨b, memory, returns⟩ := returns
  refine ⟨b, memory, returns, (elements_wellFormed_iff (fun _ => rfl) .start returns).2.mpr ?_⟩
  intro n _
  match n with
  | 0 => simp [nestedFields, TypeRef.Misread, TypeRef.elementType]
  | 1 => simp [nestedFields, TypeRef.Misread]
  | _ + 2 => simp [nestedFields]

/-- `{p: ref.refType(ArrayType('int', 3))}`. -/
def pointerFields : Nat → List TypeRef
  | 0 => [.pointer (.array (.scalar (.named .int)) 3)]
  | _ => []

/-- The array of a struct of one pointer has room for three elements and a `NULL`. -/
theorem pointer_not_wellFormed : ∃ b memory, eval (typeAt someBindings pointerFields 2 (.struct 0)) unused =
    some (.ok b, memory) ∧ ¬ WellFormedThroughout someBindings pointerFields memory 0 := by
  have returns : ∃ b memory, eval (typeAt someBindings pointerFields 2 (.struct 0)) unused =
    some (.ok b, memory) := ⟨_, _, rfl⟩
  obtain ⟨b, memory, returns⟩ := returns
  refine ⟨b, memory, returns, ?_⟩
  intro formed
  have sound : Sound someBindings pointerFields unused := nofun
  have typed := typeAt_typed sound returns
  have agree := (typed.sound.throughout_iff (typed.resolves b rfl)).mp formed 0 .refl
  simp [pointerFields, TypeRef.Misread, TypeRef.elementType] at agree

end NodeFfi.TypeMemory
