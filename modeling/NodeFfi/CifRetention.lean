import NodeFfi.LayoutAgreement
import NodeFfi.TypeMemory
import NodeFfi.TransitionSystem
import Mathlib.Logic.Relation

/-! What keeps the memory of a cif. libffi follows raw addresses from the cif to its types and
on to their elements, and the collector follows JavaScript references; the first must stay
within the second. -/
namespace NodeFfi.TypeMemory

open PartialPrograms TransitionSystem Relation

section
variable {m : DataModel}

/-- An assignment to a property of the Buffer. -/
def setProperty (buffer target : BufferId) : JsM Unit :=
  modify fun memory => memory.update buffer fun b => { b with references := b.references ++ [target] }

/-- Addresses stored by native code, which JavaScript does not know of. -/
def storeNative (buffer : BufferId) (stores : List (Nat × Option BufferId)) : JsM Unit :=
  modify fun memory => memory.update buffer fun b => { b with stores := b.stores ++ stores }

/-- The layout of a `ffi_cif` and of a closure: where the addresses are that libffi keeps there. -/
structure Records where
  FFI_CIF_SIZE : Nat
  arg_types : Nat
  rtype : Nat
  closure_cif : Nat

/-- What `ffi_prep_cif` comes to: it refuses the ABI before it has stored anything, or one of the
types after that. -/
inductive Prepared where
  | ok
  | badTypedef
  | badAbi
  deriving DecidableEq, Repr

/-- A call of `CIF`, or of `CIF_var` with fixed arguments: the types, the stack that there is, and
what libffi says. -/
structure Request where
  rtype : TypeRef
  types : List TypeRef
  numFixedArgs : Option Nat
  depth : Nat
  status : Prepared

section
variable (B : Bindings m) (R : Records) (fields : Nat → List TypeRef)

/-- The loop over the argument types. -/
def writeTypes (depth : Nat) (argtypesptr : BufferId) : Nat → List TypeRef → JsM Unit
  | _, [] => return
  | i, type :: rest => do
    let ffiType ← typeAt B fields depth type
    writePointer argtypesptr (i * m.pointer.bytes) (some ffiType)
    writeTypes depth argtypesptr (i + 1) rest

/-- `ffi_prep_cif` and `ffi_prep_cif_var`, on the cif's memory. -/
def ffi_prep_cif (cif rtype argtypes : BufferId) : Prepared → JsM Unit
  | .badAbi => throw .status
  | .ok => storeNative cif [(R.arg_types, some argtypes), (R.rtype, some rtype)]
  | .badTypedef => do
    storeNative cif [(R.arg_types, some argtypes), (R.rtype, some rtype)]
    throw .status

/-- `lib/cif.js`, `CIF`. -/
def CIF (request : Request) : JsM BufferId := do
  let cif ← bufferAlloc R.FFI_CIF_SIZE
  let argtypesptr ← bufferAlloc (request.types.length * m.pointer.bytes)
  let rtypeptr ← typeAt B fields request.depth request.rtype
  writeTypes B fields request.depth argtypesptr 0 request.types
  setProperty cif rtypeptr
  setProperty cif argtypesptr
  ffi_prep_cif R cif rtypeptr argtypesptr request.status
  return cif

/-- `lib/cif_var.js`, `CIF_var`: the same after an assertion. -/
def CIF_var (numFixedArgs : Nat) (request : Request) : JsM BufferId :=
  if numFixedArgs = 0 then throw .assertion else CIF B R fields request

/-- The one or the other. -/
def cifFor (request : Request) : JsM BufferId :=
  match request.numFixedArgs with
  | none => CIF B R fields request
  | some numFixedArgs => CIF_var B R fields numFixedArgs request

/-- `lib/callback.js`, `Callback`: the Buffer at the code address. -/
def Callback (request : Request) : JsM BufferId := do
  let cif ← CIF B R fields request
  let callback ← bufferAlloc m.pointer.bytes
  storeNative callback [(R.closure_cif, some cif)]
  setProperty callback cif
  return callback

/-- `ref.alloc(argType, val)`: the pointers that the type's `set` writes, if it does not throw. -/
structure Value where
  size : Nat
  pointers : List (Nat × Option BufferId)
  accepted : Bool

def writePointers (buffer : BufferId) : List (Nat × Option BufferId) → JsM Unit
  | [] => return
  | (offset, target) :: rest => do
    writePointer buffer offset target
    writePointers buffer rest

def refAlloc (value : Value) : JsM BufferId := do
  let buffer ← bufferAlloc value.size
  writePointers buffer value.pointers
  if value.accepted then return buffer else throw .value

/-- The loop over the arguments of a call. -/
def writeArguments (m : DataModel) (argsList : BufferId) : Nat → List Value → JsM Unit
  | _, [] => return
  | i, value :: rest => do
    let valPtr ← refAlloc value
    writePointer argsList (i * m.pointer.bytes) (some valPtr)
    writeArguments m argsList (i + 1) rest

/-- The storage of a call: `result` and `argsList`. -/
def storage (m : DataModel) (resultSize : Nat) (values : List Value) : JsM (BufferId × BufferId) := do
  let result ← bufferAlloc resultSize
  let argsList ← bufferAlloc (values.length * m.pointer.bytes)
  writeArguments m argsList 0 values
  return (result, argsList)

end

/-! ## Processes -/

/-- A function that the library makes, with what its body refers to. -/
inductive Function where
  | proxy (cif funcPtr : BufferId)
  | completion (cif funcPtr argsList result : BufferId)
  deriving DecidableEq, Repr

def Function.captures : Function → List BufferId
  | .proxy cif funcPtr => [cif, funcPtr]
  | .completion cif funcPtr argsList result => [cif, funcPtr, argsList, result]

/-- `AsyncCallParams`: four addresses, and a persistent reference to the completion function. -/
structure AsyncCallParams where
  cif : BufferId
  fn : BufferId
  res : BufferId
  argv : BufferId
  callback : Nat
  deriving DecidableEq, Repr

def AsyncCallParams.addresses (p : AsyncCallParams) : List BufferId := [p.cif, p.fn, p.res, p.argv]

/-- A process: what `CIF` and `Callback` have returned, and the asynchronous calls that are pending. -/
structure World where
  memory : Memory
  fields : Nat → List TypeRef
  cifs : List BufferId
  callbacks : List BufferId
  functions : List Function
  requests : List AsyncCallParams

/-- What a program does with the library: it can also make Buffers, write pointers with `ref`,
define fields, and put a Buffer of its own on a struct type as its `ffi_type`. -/
inductive Event where
  | alloc (length : Nat)
  | writePointer (buffer : BufferId) (offset : Nat) (target : Option BufferId)
  | define (object : Nat) (fields : List TypeRef)
  | assign (object : Nat) (ffi_type : BufferId)
  | type (depth : Nat) (t : TypeRef)
  | cif (request : Request)
  | foreignFunction (funcPtr : BufferId) (request : Request)
  | callback (request : Request)
  | call (proxy resultSize : Nat) (values : List Value)
  | async (proxy resultSize : Nat) (values : List Value)
  | complete (p : AsyncCallParams)

/-- A run of JavaScript: what it throws leaves nothing but memory. -/
def World.run {α : Type} (w : World) (program : JsM α) (next : World → α → World) : Option World :=
  (eval program w.memory).map fun
    | (.ok a, memory) => next { w with memory } a
    | (.error _, memory) => { w with memory }

section
variable (B : Bindings m) (R : Records)

/-- `ForeignFunction` and the variadic one make a cif and a proxy. -/
def step (w : World) : Event → Option World
  | .alloc length => w.run (bufferAlloc length) fun w _ => w
  | .writePointer buffer offset target => w.run (writePointer buffer offset target) fun w _ => w
  | .define object fields => some { w with fields := Function.update w.fields object fields }
  | .assign object ffi_type => some { w with memory := w.memory.cache object ffi_type }
  | .type depth t => w.run (typeAt B w.fields depth t) fun w _ => w
  | .cif request => w.run (cifFor B R w.fields request) fun w cif => { w with cifs := w.cifs ++ [cif] }
  | .foreignFunction funcPtr request => w.run (cifFor B R w.fields request) fun w cif =>
      { w with cifs := w.cifs ++ [cif], functions := w.functions ++ [.proxy cif funcPtr] }
  | .callback request => w.run (Callback B R w.fields request) fun w callback =>
      { w with callbacks := w.callbacks ++ [callback] }
  | .call proxy resultSize values =>
    match w.functions[proxy]? with
    | some (.proxy _ _) => w.run (storage m resultSize values) fun w _ => w
    | _ => none
  | .async proxy resultSize values =>
    match w.functions[proxy]? with
    | some (.proxy cif funcPtr) => w.run (storage m resultSize values) fun w (result, argsList) =>
        { w with
          functions := w.functions ++ [.completion cif funcPtr argsList result]
          requests := w.requests ++ [⟨cif, funcPtr, result, argsList, w.functions.length⟩] }
    | _ => none
  | .complete p => if p ∈ w.requests then some { w with requests := w.requests.erase p } else none

end

/-! ## The two graphs -/

/-- There is the address of a Buffer at this offset of another. -/
def Points (memory : Memory) (b : BufferId) (offset : Nat) (c : BufferId) : Prop :=
  ∃ buffer : Buffer, memory.buffers[b]? = some buffer ∧ (offset, some c) ∈ buffer.stores

/-- The raw addresses in memory. -/
def Follows (memory : Memory) (b c : BufferId) : Prop := ∃ offset, Points memory b offset c

inductive Node where
  | buffer (id : BufferId)
  | function (id : Nat)

/-- The references of JavaScript. -/
inductive Refers (w : World) : Node → Node → Prop
  | buffer {b c : BufferId} {buffer : Buffer} (found : w.memory.buffers[b]? = some buffer)
      (inside : c ∈ buffer.references) : Refers w (.buffer b) (.buffer c)
  | function {f : Nat} {c : BufferId} {function : Function} (found : w.functions[f]? = some function)
      (inside : c ∈ function.captures) : Refers w (.function f) (.buffer c)

/-- From the node, references lead to all that addresses lead to from the Buffer. -/
def Retains (w : World) (root : Node) (b : BufferId) : Prop :=
  ∀ c, ReflTransGen (Follows w.memory) b c → ReflTransGen (Refers w) root (.buffer c)

/-- A cif that has been prepared: it has the addresses of its types. -/
def IsCif (R : Records) (memory : Memory) (cif : BufferId) : Prop :=
  ∃ rtype argtypes, Points memory cif R.rtype rtype ∧ Points memory cif R.arg_types argtypes

/-- **Everything that libffi can follow is retained**: by what `CIF` returned, by a proxy, by what
`Callback` returned, and by the completion function of a pending call. -/
structure Retained (R : Records) (w : World) : Prop where
  cifs : ∀ cif ∈ w.cifs, IsCif R w.memory cif ∧ Retains w (.buffer cif) cif
  proxies : ∀ f cif funcPtr, w.functions[f]? = some (.proxy cif funcPtr) →
    IsCif R w.memory cif ∧ Retains w (.function f) cif ∧ Retains w (.function f) funcPtr
  callbacks : ∀ callback ∈ w.callbacks, ∃ cif, Points w.memory callback R.closure_cif cif ∧
    IsCif R w.memory cif ∧ Retains w (.buffer callback) cif
  requests : ∀ p ∈ w.requests, IsCif R w.memory p.cif ∧ ∀ address ∈ p.addresses, Retains w (.function p.callback) address

/-! ## What each program keeps -/

/-- The Buffer references whatever it has the address of. -/
def Buffer.Safe (buffer : Buffer) : Prop := ∀ store ∈ buffer.stores, ∀ c ∈ store.2, c ∈ buffer.references

def Memory.Safe (memory : Memory) : Prop := ∀ (i : Nat) (buffer : Buffer), memory.buffers[i]? = some buffer → buffer.Safe

/-- Buffers stay, with what they hold, and stay safe. -/
structure Careful (memory memory' : Memory) : Prop where
  safe : memory.Safe → memory'.Safe
  kept : ∀ (i : Nat) (buffer : Buffer), memory.buffers[i]? = some buffer →
    ∃ buffer' : Buffer, memory'.buffers[i]? = some buffer' ∧ buffer.stores ⊆ buffer'.stores

variable {B : Bindings m} {R : Records} {fields : Nat → List TypeRef} {memory memory' memory'' : Memory}
  {α β : Type}

theorem Careful.refl (memory : Memory) : Careful memory memory :=
  ⟨id, fun _ buffer found => ⟨buffer, found, fun _ => id⟩⟩

theorem Careful.trans (first : Careful memory memory') (second : Careful memory' memory'') :
    Careful memory memory'' := by
  refine ⟨fun safe => second.safe (first.safe safe), ?_⟩
  intro i buffer found
  obtain ⟨buffer', found', stores⟩ := first.kept i buffer found
  obtain ⟨buffer'', found'', stores'⟩ := second.kept i buffer' found'
  exact ⟨buffer'', found'', fun _ inside => stores' (stores inside)⟩

theorem Careful.points {b c : BufferId} {offset : Nat} (careful : Careful memory memory')
    (points : Points memory b offset c) : Points memory' b offset c := by
  obtain ⟨buffer, found, inside⟩ := points
  obtain ⟨buffer', found', stores⟩ := careful.kept b buffer found
  exact ⟨buffer', found', stores inside⟩

theorem IsCif.careful {cif : BufferId} (isCif : IsCif R memory cif) (careful : Careful memory memory') :
    IsCif R memory' cif := by
  obtain ⟨rtype, argtypes, there, there'⟩ := isCif
  exact ⟨rtype, argtypes, careful.points there, careful.points there'⟩

theorem careful_alloc (memory : Memory) (length : Nat) :
    Careful memory { memory with buffers := memory.buffers ++ [⟨length, [], []⟩] } := by
  constructor
  · intro safe i buffer found
    rw [List.getElem?_append] at found
    split at found
    · exact safe i buffer found
    · obtain rfl := List.mem_singleton.mp (List.mem_of_getElem? found)
      simp [Buffer.Safe]
  · intro i buffer found
    have old : i < memory.buffers.length := (List.getElem?_eq_some_iff.mp found).1
    exact ⟨buffer, by rw [List.getElem?_append_left old, found], fun _ => id⟩

theorem careful_update (memory : Memory) (b : BufferId) {change : Buffer → Buffer}
    (safely : ∀ buffer : Buffer, buffer.Safe → (change buffer).Safe)
    (stores : ∀ buffer : Buffer, buffer.stores ⊆ (change buffer).stores) :
    Careful memory (memory.update b change) := by
  constructor
  · intro safe i buffer found
    simp only [Memory.update, List.getElem?_modify] at found
    obtain ⟨before, there, rfl⟩ := Option.map_eq_some_iff.mp found
    split
    · exact safely before (safe i before there)
    · exact safe i before there
  · intro i buffer found
    refine ⟨if b = i then change buffer else buffer, ?_, ?_⟩
    · simp [Memory.update, List.getElem?_modify, found]
    · split
      · exact stores buffer
      · exact fun _ => id

theorem careful_cache (memory : Memory) (object : Nat) (ffi_type : BufferId) :
    Careful memory (memory.cache object ffi_type) := ⟨id, fun _ buffer found => ⟨buffer, found, fun _ => id⟩⟩

theorem update_update (memory : Memory) (b : BufferId) (f g : Buffer → Buffer) :
    (memory.update b f).update b g = memory.update b (g ∘ f) := by
  simp [Memory.update, List.modify_modify_eq]

/-- However it ends, the program is careful. -/
def Cautious (program : JsM α) : Prop :=
  ∀ memory outcome memory', eval program memory = some (outcome, memory') → Careful memory memory'

theorem cautious_pure (a : α) : Cautious (pure a) := by
  rintro memory outcome memory' ⟨⟩
  exact .refl memory

theorem cautious_throw (e : Thrown) : Cautious (throw e : JsM α) := by
  rintro memory outcome memory' ⟨⟩
  exact .refl memory

theorem Cautious.bind {first : JsM α} {rest : α → JsM β} (cautious : Cautious first)
    (onward : ∀ a, Cautious (rest a)) : Cautious (first >>= rest) := by
  intro memory outcome final ran
  rcases eval_bind_some ran with ⟨e, threw, _⟩ | ⟨a, memory', did, went⟩
  · exact cautious memory _ final threw
  · exact (cautious memory _ memory' did).trans (onward a memory' outcome final went)

theorem cautious_modify {change : Memory → Memory} (careful : ∀ memory, Careful memory (change memory)) :
    Cautious (modify change : JsM PUnit) := by
  rintro memory outcome memory' ⟨⟩
  exact careful memory

theorem cautious_get : Cautious (get : JsM Memory) := by
  rintro memory outcome memory' ⟨⟩
  exact .refl memory

theorem cautious_alloc (length : Nat) : Cautious (bufferAlloc length) := by
  rintro memory outcome memory' ⟨⟩
  exact careful_alloc memory length

/-- `ref` references what it writes. -/
theorem careful_write (memory : Memory) (b : BufferId) (offset : Nat) (target : Option BufferId) :
    Careful memory (memory.update b fun buffer => buffer.write offset target) := by
  apply careful_update
  · intro buffer safe store inside c c_in
    rcases List.mem_append.mp inside with old | new
    · exact List.mem_append_left _ (safe store old c c_in)
    · obtain rfl := List.mem_singleton.mp new
      exact List.mem_append_right _ (Option.mem_toList.mpr c_in)
  · intro buffer
    exact List.subset_append_left ..

theorem cautious_writePointer (b : BufferId) (offset : Nat) (target : Option BufferId) :
    Cautious (writePointer b offset target) :=
  cautious_modify fun memory => careful_write memory b offset target

theorem cautious_setProperty (b target : BufferId) : Cautious (setProperty b target) := by
  apply cautious_modify
  intro memory
  apply careful_update
  · intro buffer safe store inside c c_in
    exact List.mem_append_left _ (safe store inside c c_in)
  · intro buffer
    exact fun _ => id

theorem cautious_writeElement (elements target : BufferId) (index count : Nat) :
    Cautious (writeElement (m := m) elements target index count) := by
  induction count generalizing index with
  | zero => exact cautious_pure _
  | succ count further =>
    apply (cautious_writePointer _ _ _).bind
    intro _
    exact further _

theorem cautious_writeElements {resolve : TypeRef → JsM BufferId} (cautious : ∀ type, Cautious (resolve type))
    (elements : BufferId) (index : Nat) (rest : List TypeRef) :
    Cautious (writeElements (m := m) resolve elements index rest) := by
  induction rest generalizing index with
  | nil => exact cautious_pure _
  | cons field rest further =>
    apply (cautious _).bind
    intro target
    apply (cautious_writeElement _ _ _ _).bind
    intro index
    exact further index

theorem cautious_typeAt (depth : Nat) (type : TypeRef) : Cautious (typeAt B fields depth type) := by
  induction depth generalizing type with
  | zero => exact cautious_throw _
  | succ depth further =>
    cases type with
    | void => exact cautious_pure _
    | scalar s => exact cautious_pure _
    | pointer target => exact cautious_pure _
    | array type fixedLength => exact cautious_pure _
    | unknown => exact cautious_throw _
    | struct object =>
      apply cautious_get.bind
      intro memory
      cases memory.ffi_type object with
      | some ffi_type => exact cautious_pure _
      | none =>
        apply (cautious_alloc _).bind
        intro ffi_type
        apply (cautious_alloc _).bind
        intro elements
        apply (cautious_writePointer _ _ _).bind
        intro _
        apply (cautious_writeElements further _ _ _).bind
        intro index
        apply (cautious_writePointer _ _ _).bind
        intro _
        apply (cautious_modify fun memory => careful_cache memory object ffi_type).bind
        intro _
        exact cautious_pure _

theorem cautious_writeTypes (depth : Nat) (argtypesptr : BufferId) (i : Nat) (types : List TypeRef) :
    Cautious (writeTypes B fields depth argtypesptr i types) := by
  induction types generalizing i with
  | nil => exact cautious_pure _
  | cons type rest further =>
    apply (cautious_typeAt _ _).bind
    intro ffiType
    apply (cautious_writePointer _ _ _).bind
    intro _
    exact further _

theorem cautious_writePointers (b : BufferId) (pointers : List (Nat × Option BufferId)) :
    Cautious (writePointers b pointers) := by
  induction pointers with
  | nil => exact cautious_pure _
  | cons pointer rest further =>
    apply (cautious_writePointer _ _ _).bind
    intro _
    exact further

theorem cautious_refAlloc (value : Value) : Cautious (refAlloc value) := by
  apply (cautious_alloc _).bind
  intro buffer
  apply (cautious_writePointers _ _).bind
  intro _
  split
  · exact cautious_pure _
  · exact cautious_throw _

theorem cautious_writeArguments (argsList : BufferId) (i : Nat) (values : List Value) :
    Cautious (writeArguments m argsList i values) := by
  induction values generalizing i with
  | nil => exact cautious_pure _
  | cons value rest further =>
    apply (cautious_refAlloc value).bind
    intro valPtr
    apply (cautious_writePointer _ _ _).bind
    intro _
    exact further _

theorem cautious_storage (resultSize : Nat) (values : List Value) : Cautious (storage m resultSize values) := by
  apply (cautious_alloc _).bind
  intro result
  apply (cautious_alloc _).bind
  intro argsList
  apply (cautious_writeArguments _ _ _).bind
  intro _
  exact cautious_pure _

/-! ## What is stored by native code -/

/-- The end of `CIF`: libffi keeps two addresses that the properties already retain. -/
theorem cautious_prepared (cif rtype argtypes : BufferId) (status : Prepared) :
    Cautious (do
      setProperty cif rtype
      setProperty cif argtypes
      ffi_prep_cif R cif rtype argtypes status
      return cif) := by
  have properties (memory : Memory) : eval (do setProperty cif rtype; setProperty cif argtypes) memory =
      some (.ok (), (memory.update cif fun b => { b with references := b.references ++ [rtype] }).update cif
        fun b => { b with references := b.references ++ [argtypes] }) := rfl
  have stored (memory : Memory) : Careful memory
      (((memory.update cif fun b => { b with references := b.references ++ [rtype] }).update cif
        fun b => { b with references := b.references ++ [argtypes] }).update cif
          fun b => { b with stores := b.stores ++ [(R.arg_types, some argtypes), (R.rtype, some rtype)] }) := by
    rw [update_update, update_update]
    apply careful_update
    · intro buffer safe store inside c c_in
      simp only [Function.comp_apply, List.mem_append, List.mem_cons, List.not_mem_nil, or_false] at inside ⊢
      rcases inside with old | rfl | rfl
      · exact .inl (.inl (safe store old c c_in))
      · exact .inr (Option.some.inj c_in).symm
      · exact .inl (.inr (Option.some.inj c_in).symm)
    · intro buffer
      exact List.subset_append_left ..
  cases status with
  | badAbi =>
    apply (cautious_setProperty cif rtype).bind
    intro _
    apply (cautious_setProperty cif argtypes).bind
    intro _
    exact (cautious_throw .status).bind fun _ => cautious_pure cif
  | ok =>
    rintro memory outcome memory' ⟨⟩
    exact stored memory
  | badTypedef =>
    rintro memory outcome memory' ⟨⟩
    exact stored memory

theorem cautious_CIF (request : Request) : Cautious (CIF B R fields request) := by
  apply (cautious_alloc _).bind
  intro cif
  apply (cautious_alloc _).bind
  intro argtypesptr
  apply (cautious_typeAt _ _).bind
  intro rtypeptr
  apply (cautious_writeTypes _ _ _ _).bind
  intro _
  exact cautious_prepared cif rtypeptr argtypesptr request.status

theorem cautious_CIF_var (numFixedArgs : Nat) (request : Request) :
    Cautious (CIF_var B R fields numFixedArgs request) := by
  rw [CIF_var]
  split
  · exact cautious_throw _
  · exact cautious_CIF request

theorem cautious_cifFor (request : Request) : Cautious (cifFor B R fields request) := by
  rw [cifFor]
  split
  · exact cautious_CIF request
  · exact cautious_CIF_var _ request

theorem points_stored {b : BufferId} {buffer : Buffer} {stores : List (Nat × Option BufferId)} {offset : Nat}
    {target : BufferId} (found : memory.buffers[b]? = some buffer) (inside : (offset, some target) ∈ stores) :
    Points (memory.update b fun b => { b with stores := b.stores ++ stores }) b offset target := by
  refine ⟨{ buffer with stores := buffer.stores ++ stores }, ?_, List.mem_append_right _ inside⟩
  simp [Memory.update, found]

theorem found_alloc (memory : Memory) (length : Nat) :
    ({ memory with buffers := memory.buffers ++ [⟨length, [], []⟩] } : Memory).buffers[memory.buffers.length]? =
      some ⟨length, [], []⟩ := by
  simp

/-- What `CIF` returns has the addresses of its types. -/
theorem isCif_of_CIF {request : Request} {cif : BufferId}
    (ran : eval (CIF B R fields request) memory = some (.ok cif, memory')) : IsCif R memory' cif := by
  obtain ⟨_, m₁, ⟨⟩, ran⟩ := eval_bind_ok ran
  obtain ⟨argtypes, m₂, alloc, ran⟩ := eval_bind_ok ran
  obtain ⟨rtype, m₃, type, ran⟩ := eval_bind_ok ran
  obtain ⟨_, m₄, types, ran⟩ := eval_bind_ok ran
  obtain ⟨_, m₅, first, ran⟩ := eval_bind_ok ran
  obtain ⟨_, m₆, second, ran⟩ := eval_bind_ok ran
  obtain ⟨_, m₇, prepared, ⟨⟩⟩ := eval_bind_ok ran
  have before := (cautious_alloc _ _ _ _ alloc).trans ((cautious_typeAt _ _ _ _ _ type).trans
    ((cautious_writeTypes _ _ _ _ _ _ _ types).trans ((cautious_setProperty _ _ _ _ _ first).trans
      (cautious_setProperty _ _ _ _ _ second))))
  obtain ⟨buffer, found, _⟩ := before.kept _ _ (found_alloc memory R.FFI_CIF_SIZE)
  cases accepts : request.status with
  | ok =>
    rw [accepts] at prepared
    obtain ⟨⟩ := prepared
    refine ⟨rtype, argtypes, points_stored found ?_, points_stored found ?_⟩
    · simp
    · simp
  | badAbi =>
    rw [accepts] at prepared
    cases prepared
  | badTypedef =>
    rw [accepts] at prepared
    obtain ⟨_, _, _, ⟨⟩⟩ := eval_bind_ok prepared

theorem isCif_of_cifFor {request : Request} {cif : BufferId}
    (ran : eval (cifFor B R fields request) memory = some (.ok cif, memory')) : IsCif R memory' cif := by
  rw [cifFor] at ran
  split at ran
  · exact isCif_of_CIF ran
  · rw [CIF_var] at ran
    split at ran
    · cases ran
    · exact isCif_of_CIF ran

/-- The end of `Callback`: the address is there before the property. -/
theorem careful_attached (memory : Memory) (callback cif : BufferId) : Careful memory
    ((memory.update callback fun b => { b with stores := b.stores ++ [(R.closure_cif, some cif)] }).update callback
      fun b => { b with references := b.references ++ [cif] }) := by
  rw [update_update]
  exact careful_write memory callback R.closure_cif (some cif)

theorem cautious_Callback (request : Request) : Cautious (Callback B R fields request) := by
  apply (cautious_CIF request).bind
  intro cif
  apply (cautious_alloc _).bind
  intro callback
  rintro memory outcome memory' ⟨⟩
  exact careful_attached memory callback cif

/-- What `Callback` returns has the address of a cif. -/
theorem points_of_Callback {request : Request} {callback : BufferId}
    (ran : eval (Callback B R fields request) memory = some (.ok callback, memory')) :
    ∃ cif, Points memory' callback R.closure_cif cif ∧ IsCif R memory' cif := by
  obtain ⟨cif, m₁, made, ran⟩ := eval_bind_ok ran
  obtain ⟨_, m₂, ⟨⟩, ran⟩ := eval_bind_ok ran
  obtain ⟨_, m₃, ⟨⟩, ran⟩ := eval_bind_ok ran
  obtain ⟨_, m₄, property, ⟨⟩⟩ := eval_bind_ok ran
  have stored := points_stored (found_alloc m₁ m.pointer.bytes)
    (List.mem_singleton_self (R.closure_cif, some cif))
  have isCif := (isCif_of_CIF made).careful (careful_alloc m₁ m.pointer.bytes)
  refine ⟨cif, (cautious_setProperty _ _ _ _ _ property).points stored, ?_⟩
  obtain ⟨⟩ := property
  exact isCif.careful (careful_attached _ _ cif)

/-! ## The invariant -/

/-- A process whose memory is safe, with what each function refers to in place. -/
structure Kept (R : Records) (w : World) : Prop where
  safe : w.memory.Safe
  cifs : ∀ cif ∈ w.cifs, IsCif R w.memory cif
  proxies : ∀ (f : Nat) (cif funcPtr : BufferId), w.functions[f]? = some (Function.proxy cif funcPtr) → IsCif R w.memory cif
  callbacks : ∀ callback ∈ w.callbacks, ∃ cif, Points w.memory callback R.closure_cif cif ∧ IsCif R w.memory cif
  requests : ∀ p ∈ w.requests, w.functions[p.callback]? = some (Function.completion p.cif p.fn p.argv p.res) ∧
    IsCif R w.memory p.cif

variable {w w' : World}

theorem run_cases {program : JsM α} {next : World → α → World} (ran : w.run program next = some w') :
    ∃ outcome memory, eval program w.memory = some (outcome, memory) ∧
      ((∃ a, outcome = .ok a ∧ w' = next { w with memory } a) ∨ w' = { w with memory }) := by
  obtain ⟨⟨outcome, memory⟩, did, rfl⟩ := Option.map_eq_some_iff.mp ran
  refine ⟨outcome, memory, did, ?_⟩
  cases outcome with
  | ok a => exact .inl ⟨a, rfl, rfl⟩
  | error e => exact .inr rfl

theorem Kept.careful (kept : Kept R w) (careful : Careful w.memory memory) : Kept R { w with memory } where
  safe := careful.safe kept.safe
  cifs cif inside := (kept.cifs cif inside).careful careful
  proxies f cif funcPtr found := (kept.proxies f cif funcPtr found).careful careful
  callbacks callback inside := by
    obtain ⟨cif, points, isCif⟩ := kept.callbacks callback inside
    exact ⟨cif, careful.points points, isCif.careful careful⟩
  requests p inside := ⟨(kept.requests p inside).1, (kept.requests p inside).2.careful careful⟩

/-- A cautious program keeps the invariant if what is done with its result does. -/
theorem Kept.run {program : JsM α} {next : World → α → World} (kept : Kept R w) (cautious : Cautious program)
    (returns : ∀ a memory, eval program w.memory = some (.ok a, memory) → Kept R { w with memory } →
      Kept R (next { w with memory } a))
    (ran : w.run program next = some w') : Kept R w' := by
  obtain ⟨outcome, memory, did, ⟨a, rfl, rfl⟩ | rfl⟩ := run_cases ran
  · exact returns a memory did (kept.careful (cautious _ _ _ did))
  · exact kept.careful (cautious _ _ _ did)

/-- A new cif. -/
theorem Kept.cif (kept : Kept R w) {cif : BufferId} (isCif : IsCif R w.memory cif) :
    Kept R { w with cifs := w.cifs ++ [cif] } := by
  refine ⟨kept.safe, ?_, kept.proxies, kept.callbacks, kept.requests⟩
  intro c inside
  rcases List.mem_append.mp inside with old | new
  · exact kept.cifs c old
  · obtain rfl := List.mem_singleton.mp new
    exact isCif

/-- A new function, which proxies only a cif. -/
theorem Kept.function (kept : Kept R w) {function : Function}
    (isCif : ∀ cif funcPtr, function = Function.proxy cif funcPtr → IsCif R w.memory cif) :
    Kept R { w with functions := w.functions ++ [function] } := by
  refine ⟨kept.safe, kept.cifs, ?_, kept.callbacks, ?_⟩
  · intro f cif funcPtr found
    rw [List.getElem?_append] at found
    split at found
    · exact kept.proxies f cif funcPtr found
    · exact isCif cif funcPtr (List.mem_singleton.mp (List.mem_of_getElem? found)).symm
  · intro p inside
    obtain ⟨found, isCif⟩ := kept.requests p inside
    have old : p.callback < w.functions.length := (List.getElem?_eq_some_iff.mp found).1
    exact ⟨by rw [List.getElem?_append_left old, found], isCif⟩

theorem Kept.callback (kept : Kept R w) {callback cif : BufferId}
    (points : Points w.memory callback R.closure_cif cif) (isCif : IsCif R w.memory cif) :
    Kept R { w with callbacks := w.callbacks ++ [callback] } := by
  refine ⟨kept.safe, kept.cifs, kept.proxies, ?_, kept.requests⟩
  intro c inside
  rcases List.mem_append.mp inside with old | new
  · exact kept.callbacks c old
  · obtain rfl := List.mem_singleton.mp new
    exact ⟨cif, points, isCif⟩

theorem Kept.request (kept : Kept R w) {p : AsyncCallParams}
    (found : w.functions[p.callback]? = some (Function.completion p.cif p.fn p.argv p.res)) (isCif : IsCif R w.memory p.cif) :
    Kept R { w with requests := w.requests ++ [p] } := by
  refine ⟨kept.safe, kept.cifs, kept.proxies, kept.callbacks, ?_⟩
  intro q inside
  rcases List.mem_append.mp inside with old | new
  · exact kept.requests q old
  · obtain rfl := List.mem_singleton.mp new
    exact ⟨found, isCif⟩

theorem kept_step (kept : Kept R w) {event : Event} (next : step B R w event = some w') : Kept R w' := by
  cases event with
  | alloc length =>
    rw [step] at next
    exact kept.run (cautious_alloc length) (fun _ _ _ => id) next
  | writePointer buffer offset target =>
    rw [step] at next
    exact kept.run (cautious_writePointer buffer offset target) (fun _ _ _ => id) next
  | define object fields =>
    obtain ⟨⟩ := next
    exact ⟨kept.safe, kept.cifs, kept.proxies, kept.callbacks, kept.requests⟩
  | assign object ffi_type =>
    obtain ⟨⟩ := next
    exact kept.careful (careful_cache w.memory object ffi_type)
  | type depth t =>
    rw [step] at next
    exact kept.run (cautious_typeAt depth t) (fun _ _ _ => id) next
  | cif request =>
    rw [step] at next
    apply kept.run (cautious_cifFor request) _ next
    intro cif memory made later
    exact later.cif (isCif_of_cifFor made)
  | foreignFunction funcPtr request =>
    rw [step] at next
    apply kept.run (cautious_cifFor request) _ next
    intro cif memory made later
    have isCif : IsCif R memory cif := isCif_of_cifFor made
    apply (later.cif isCif).function
    rintro _ _ ⟨⟩
    exact isCif
  | callback request =>
    rw [step] at next
    apply kept.run (cautious_Callback request) _ next
    intro callback memory made later
    obtain ⟨cif, points, isCif⟩ := points_of_Callback made
    exact later.callback points isCif
  | call proxy resultSize values =>
    rw [step] at next
    split at next
    · exact kept.run (cautious_storage resultSize values) (fun _ _ _ => id) next
    · cases next
  | async proxy resultSize values =>
    rw [step] at next
    split at next
    · rename_i cif funcPtr found
      apply kept.run (cautious_storage resultSize values) _ next
      rintro ⟨result, argsList⟩ memory _ later
      apply (later.function _).request
      · simp
      · exact later.proxies proxy cif funcPtr found
      · rintro _ _ ⟨⟩
    · cases next
  | complete p =>
    rw [step] at next
    split at next
    · obtain ⟨⟩ := next
      exact ⟨kept.safe, kept.cifs, kept.proxies, kept.callbacks,
        fun q inside => kept.requests q (List.mem_of_mem_erase inside)⟩
    · cases next

/-! ## Retention -/

theorem refers_of_follows (safe : w.memory.Safe) {b c : BufferId} (follows : Follows w.memory b c) :
    Refers w (.buffer b) (.buffer c) := by
  obtain ⟨offset, buffer, found, inside⟩ := follows
  exact .buffer found (safe b buffer found (offset, some c) inside c rfl)

theorem retains_self (safe : w.memory.Safe) (b : BufferId) : Retains w (.buffer b) b :=
  fun _ path => path.lift Node.buffer fun _ _ => refers_of_follows safe

/-- What a node refers to it retains, with all that follows. -/
theorem Refers.retains (safe : w.memory.Safe) {root : Node} {b : BufferId} (refers : Refers w root (.buffer b)) :
    Retains w root b :=
  fun c path => .head refers (retains_self safe b c path)

theorem Kept.retained (kept : Kept R w) : Retained R w where
  cifs cif inside := ⟨kept.cifs cif inside, retains_self kept.safe cif⟩
  proxies f cif funcPtr found := by
    refine ⟨kept.proxies f cif funcPtr found, ?_, ?_⟩
    · exact (Refers.function found (by simp [Function.captures])).retains kept.safe
    · exact (Refers.function found (by simp [Function.captures])).retains kept.safe
  callbacks callback inside := by
    obtain ⟨cif, points, isCif⟩ := kept.callbacks callback inside
    exact ⟨cif, points, isCif, (refers_of_follows kept.safe ⟨_, points⟩).retains kept.safe⟩
  requests p inside := by
    obtain ⟨found, isCif⟩ := kept.requests p inside
    refine ⟨isCif, ?_⟩
    intro address among
    have captured : address ∈ (Function.completion p.cif p.fn p.argv p.res).captures := by
      simp only [AsyncCallParams.addresses, Function.captures, List.mem_cons, List.not_mem_nil, or_false] at among ⊢
      tauto
    exact (Refers.function found captured).retains kept.safe

/-- A process in which the library has done nothing yet, with whatever was cached on the types. -/
def loaded (memory : Memory) (fields : Nat → List TypeRef) : World := ⟨memory, fields, [], [], [], []⟩

/-- **What libffi can follow is retained**, in every process, by every root. -/
theorem retained_reached (safe : memory.Safe)
    (reached : Reaches (step B R) (fun _ _ => True) (loaded memory fields) w) : Retained R w := by
  have initially : Kept R (loaded memory fields) := by
    refine ⟨safe, ?_, ?_, ?_, ?_⟩ <;> simp [loaded]
  exact (reached.invariant (Kept R) initially fun _ _ _ before _ next => kept_step before next).retained

end

/-! ## A pending call -/

/-- `FFI_TYPES`, with one entry for all values that are no pointers. -/
def processBindings : Bindings lp64 where
  predefined
    | .void => 0
    | .value .pointer => 1
    | .value _ => 2
  FFI_TYPE_SIZE := 24
  elements := 16

def processRecords : Records := ⟨32, 8, 16, 24⟩

/-- `{a: int, b: ArrayType(T, 2)}` and `T`, which is `{d: double}`. -/
def processFields : Nat → List TypeRef
  | 0 => [.scalar (.named .int), .array (.struct 1) 2]
  | 1 => [.scalar .double]
  | _ => []

/-- The predefined types, and the Buffer of a symbol. -/
def processMemory : Memory := ⟨List.replicate 4 ⟨24, [], []⟩, fun _ => none⟩

/-- A function of the struct and of a pointer, called by `async`. -/
def pendingCall : List Event := [
  .foreignFunction 3 ⟨.scalar .double, [.struct 0, .pointer .void], none, 3, .ok⟩,
  .async 0 8 [⟨24, [], true⟩, ⟨8, [(0, some 3)], true⟩]]

theorem pending_retained : ∃ w : World, Retained processRecords w ∧ w.requests = [⟨4, 3, 10, 11, 1⟩] ∧
    w.memory.ffi_type 0 = some 6 ∧ w.memory.ffi_type 1 = some 8 := by
  obtain ⟨w, reached, found⟩ := exists_reaches (step processBindings processRecords) (fun _ _ => True)
    (loaded processMemory processFields) pendingCall
    (fun w => decide (w.requests = [⟨4, 3, 10, 11, 1⟩] ∧ w.memory.ffi_type 0 = some 6 ∧ w.memory.ffi_type 1 = some 8))
    (by decide)
  have safe : processMemory.Safe := by
    intro i buffer inside
    have empty := List.eq_of_mem_replicate (List.mem_of_getElem? inside)
    simp [empty, Buffer.Safe]
  exact ⟨w, retained_reached safe reached, of_decide_eq_true found⟩

end NodeFfi.TypeMemory
