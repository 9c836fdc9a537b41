import NodeFfi.FunctionTypes

/-! Function pointers make the round trip. What is stored as a function type is read back as
a function that behaves as it: a call of the one is a call of the other, with arguments and a
result that behave so too. -/
namespace NodeFfi.FunctionTypes

open BlockMemory JsVal PartialPrograms

variable {m : DataModel} {G : Type}

/-! ## What stays -/

/-- Function objects and closures are kept. -/
structure Process.Extends (s s' : Process G) : Prop where
  functions : s.functions <+: s'.functions
  closures : s.closures <+: s'.closures

/-- Nothing has happened but that function objects and closures were made. -/
structure Process.Adds (s s' : Process G) : Prop extends s.Extends s' where
  calls : s'.calls = s.calls
  globals : s'.globals = s.globals

open Process

variable {s s' s'' : Process G}

theorem Process.Extends.refl (s : Process G) : s.Extends s := ⟨List.prefix_rfl, List.prefix_rfl⟩

theorem Process.Extends.trans (first : s.Extends s') (second : s'.Extends s'') : s.Extends s'' :=
  ⟨first.functions.trans second.functions, first.closures.trans second.closures⟩

theorem Process.Adds.refl (s : Process G) : s.Adds s := ⟨.refl s, rfl, rfl⟩

theorem Process.Adds.trans (first : s.Adds s') (second : s'.Adds s'') : s.Adds s'' :=
  ⟨first.toExtends.trans second.toExtends, second.calls.trans first.calls,
    second.globals.trans first.globals⟩

theorem Process.Extends.function {f : Nat} {object : FunctionObject} (later : s.Extends s')
    (there : s.functions[f]? = some object) : s'.functions[f]? = some object := by
  obtain ⟨more, rest⟩ := later.functions
  rw [← rest, List.getElem?_append_left (List.getElem?_eq_some_iff.mp there).1, there]

theorem Process.Extends.code {p : Pointer} {code : Code} (later : s.Extends s')
    (there : s.codeAt p = some code) : s'.codeAt p = some code := by
  obtain ⟨start, found⟩ := Option.ite_none_right_eq_some.mp there
  obtain ⟨more, rest⟩ := later.closures
  rw [codeAt, if_pos start, ← rest, List.getElem?_append_left (List.getElem?_eq_some_iff.mp found).1, found]

/-! ## The relation -/

section
variable (P : Program m G)

/-- A cif can be prepared for the function type. -/
structure Ready (retType : ValueType) (argTypes : List ValueType) (abi : Int) : Prop where
  abi : P.abis abi = true
  types : (prepCif m retType.declared (argTypes.map ValueType.declared)).isSome = true

/-- A function, or a `Buffer`. -/
def IsPointer (v : JsVal) : Prop := (functionId v).isSome ∨ (bufferData v).isSome

/-- A function, if a closure can be prepared for it, or a `Buffer`. -/
def Settable (retType : ValueType) (argTypes : List ValueType) (abi : Int) (v : JsVal) : Prop :=
  (functionId v).isSome ∧ Ready P retType argTypes abi ∨ (bufferData v).isSome

/-- Where a value is stored: in fresh storage for an argument, or in a closure's slot for a
result. -/
inductive Storage where
  | argument
  | result

/-- The bytes a value is stored over. -/
def Storage.cells : Storage → Nat → List Cell
  | .argument, count => zeros count
  | .result, count => resultSlot P count

/-- The type's `set` accepts the value there, and its `get` can read it back. -/
def Acceptable (place : Storage) : ValueType → JsVal → Prop
  | .ref type, v => (P.host.set type (place.cells P (derefReads m type)) v).2 = .ok () ∧
      ∃ w, readBackOver P.host type (place.cells P (derefReads m type)) v = .ok w
  | .function retType argTypes abi, v => Ready P retType argTypes abi ∧ IsPointer v

/-- Entering the code at an address, `NULL` included. -/
def jump (depth : Nat) : Option Pointer → List (List Cell) → Script G (List Cell)
  | none, _ => fun _ => none
  | some code, cells => (machine P depth).enter code cells

/-- The call of `g` from `s'` does what the call of `f` from `s` does: it does not return, or
throws the error for what that throws (there is none for some, and the process ends), or
returns what `back` relates to its result, with nothing but new functions and closures
since. -/
def CallsAs (accepted : JsVal → Prop) (back : Process G → JsVal → JsVal → Prop) (depth g f : Nat)
    (vs ws : List JsVal) (s' s : Process G) : Prop :=
  match eval ((machine P depth).call f ws) s with
  | none => eval ((machine P (depth + 2)).call g vs) s' = none
  | some (.error e, after) => e ≠ .undefined →
      eval ((machine P (depth + 2)).call g vs) s' = (errorNew P.host e).map fun err => (.error err, after)
  | some (.ok r, after) => accepted r → ∃ r' final, back final r' r ∧ after.Adds final ∧
      eval ((machine P (depth + 2)).call g vs) s' = some (.ok r', final)

mutual

/-- **`w` is on the other side what `v` is on this one.** For a type of `ref` it is what is read
back of `v` where that was stored. For a function type it is a function:
if `v` is one, calling `w` is calling `v` once, with arguments that are on the other side what
those of the call are, and the result is on this side what that of `v` is; and if `v` is a
`Buffer`, calling `w` stores the arguments, enters the code at the address and reads the
result. -/
def Behaves : ValueType → Storage → Process G → JsVal → JsVal → Prop
  | .ref type, place, _, w, v => readBackOver P.host type (place.cells P (derefReads m type)) v = .ok w
  | .function retType argTypes _, _, s, w, v => ∃ g, w = functionValue g ∧
      (∀ f, functionId v = some f → ∀ s', s.Extends s' → ∀ vs,
        List.Forall₂ (Acceptable P .argument) argTypes vs → ∃ ws called, s'.Adds called ∧
          BehaveAll argTypes called ws vs ∧ ∀ depth,
            CallsAs P (Acceptable P .result retType) (Behaves retType .result) depth g f vs ws s' called) ∧
      ∀ ptr, bufferData v = some ptr → ∀ s', s.Extends s' → ∀ vs,
        List.Forall₂ (Acceptable P .argument) argTypes vs → ∃ cells stored, s'.Adds stored ∧
          eval (storeArguments P 0 (argTypes.zip vs)) s' = some (.ok cells, stored) ∧ ∀ depth,
            eval ((machine P (depth + 1)).call g vs) s' =
              eval (do refGet P retType (← jump P depth ptr cells)) stored

def BehaveAll : List ValueType → Process G → List JsVal → List JsVal → Prop
  | [], _, ws, vs => ws = [] ∧ vs = []
  | t :: rest, s, ws, vs => ∃ w ws' v vs', ws = w :: ws' ∧ vs = v :: vs' ∧ Behaves t .argument s w v ∧
      BehaveAll rest s ws' vs'

end

end

variable {P : Program m G} {w v : JsVal} {t : ValueType} {place : Storage} {retType : ValueType} {argTypes : List ValueType} {abi : Int}

theorem Behaves.later (behaves : Behaves P t place s w v) (later : s.Extends s') : Behaves P t place s' w v := by
  cases t with
  | ref type =>
    rw [Behaves] at behaves ⊢
    exact behaves
  | function retType argTypes abi =>
    rw [Behaves] at behaves ⊢
    obtain ⟨g, same, function, code⟩ := behaves
    exact ⟨g, same, fun f is s'' onward => function f is s'' (later.trans onward),
      fun ptr is s'' onward => code ptr is s'' (later.trans onward)⟩

theorem BehaveAll.later {types : List ValueType} {ws vs : List JsVal} (behave : BehaveAll P types s ws vs)
    (later : s.Extends s') : BehaveAll P types s' ws vs := by
  induction types generalizing ws vs with
  | nil =>
    rw [BehaveAll] at behave ⊢
    exact behave
  | cons t rest further =>
    rw [BehaveAll] at behave ⊢
    obtain ⟨w, ws', v, vs', same, same', first, others⟩ := behave
    exact ⟨w, ws', v, vs', same, same', first.later later, further others⟩

/-! ## Addresses -/

@[simp] theorem addressCells_length (ptr : Option Pointer) : (addressCells m ptr).length = m.pointer.bytes := by
  cases ptr <;> simp [addressCells, zeros]

theorem readAddress_addressCells (ptr : Option Pointer) : readAddress m (addressCells m ptr) = some ptr := by
  cases ptr with
  | none => exact if_pos rfl
  | some p =>
    obtain ⟨count, bytes⟩ := Nat.exists_eq_add_one.mpr (pointer_bytes_pos (m := m))
    have other : pointerCells m p ≠ zeros m.pointer.bytes := by
      rw [pointerCells, zeros, bytes, List.range_succ_eq_map, List.replicate_succ]
      simp
    rw [addressCells, readAddress, if_neg other, decodePointer_pointerCells]
    rfl

/-! ## What each operation does -/

/-- The bytes of a pointer lead to the value: to the closure of a function, or where a `Buffer`
is. -/
def Leads (retType : ValueType) (argTypes : List ValueType) (s : Process G) (ptr : Option Pointer) (v : JsVal) :
    Prop :=
  match functionId v with
  | some f => ∃ code, ptr = some code ∧ s.codeAt code = some (.callback retType argTypes f)
  | none => bufferData v = some ptr

theorem Leads.later {ptr : Option Pointer} (leads : Leads retType argTypes s ptr v) (later : s.Extends s') :
    Leads retType argTypes s' ptr v := by
  unfold Leads at leads ⊢
  cases is : functionId v with
  | none =>
    rw [is] at leads
    exact leads
  | some f =>
    rw [is] at leads
    obtain ⟨code, same, there⟩ := leads
    exact ⟨code, same, later.code there⟩

/-- No value is both a function and a `Buffer`. -/
theorem functionId_buffer {ptr : Option Pointer} (is : bufferData v = some ptr) : functionId v = none := by
  cases v with
  | object kind message slot => cases kind <;> simp_all [functionId, bufferData]
  | _ => rfl

theorem eval_CIF (ready : Ready P retType argTypes abi) :
    eval (CIF P retType argTypes abi) s = some (.ok (), s) := by
  rw [CIF, if_pos ready.abi, if_pos ready.types]
  rfl

theorem eval_CIF_unready (unready : ¬ Ready P retType argTypes abi) :
    ∃ e, eval (CIF P retType argTypes abi) s = some (.error e, s) := by
  unfold CIF
  split
  · split
    · rename_i abi types
      exact absurd ⟨abi, types⟩ unready
    · exact ⟨_, rfl⟩
  · exact ⟨_, rfl⟩

theorem eval_callback (ready : Ready P retType argTypes abi) (f : Nat) :
    eval (callback P retType argTypes abi f) s = some (.ok ⟨s.closures.length, 0⟩,
      { s with closures := s.closures ++ [.callback retType argTypes f] }) := by
  rw [callback, eval_ok (eval_CIF ready)]
  rfl

theorem eval_foreignFunction (ready : Ready P retType argTypes abi) (ptr : Option Pointer) :
    eval (foreignFunction P ptr retType argTypes abi) s = some (.ok (functionValue s.functions.length),
      { s with functions := s.functions ++ [.proxy ptr retType argTypes] }) := by
  rw [foreignFunction, eval_ok (eval_CIF ready)]
  rfl

theorem adds_closure (s : Process G) (code : Code) : s.Adds { s with closures := s.closures ++ [code] } :=
  ⟨⟨List.prefix_rfl, List.prefix_append _ _⟩, rfl, rfl⟩

theorem adds_function (s : Process G) (object : FunctionObject) :
    s.Adds { s with functions := s.functions ++ [object] } :=
  ⟨⟨List.prefix_append _ _, List.prefix_rfl⟩, rfl, rfl⟩

/-- `set` leaves the address of a closure or of a `Buffer` in the slot. -/
theorem exec_functionSet (settable : Settable P retType argTypes abi v) (buffer : List Cell) (offset : Nat) :
    ∃ ptr s', exec (functionSet P retType argTypes abi buffer offset v) s =
        some ((splice buffer offset (addressCells m ptr), .ok ()), s') ∧
      s.Adds s' ∧ Leads retType argTypes s' ptr v := by
  unfold functionSet Leads
  cases is : functionId v with
  | none =>
    obtain ⟨function, _⟩ | data := settable
    · rw [is] at function
      cases function
    · obtain ⟨ptr, here⟩ := Option.isSome_iff_exists.mp data
      rw [here]
      exact ⟨ptr, s, rfl, .refl s, rfl⟩
  | some f =>
    obtain ⟨_, ready⟩ | data := settable
    · refine ⟨_, _, exec_bind (eval_callback ready f), adds_closure s _, _, rfl, ?_⟩
      simp [codeAt]
    · obtain ⟨ptr, here⟩ := Option.isSome_iff_exists.mp data
      rw [functionId_buffer here] at is
      cases is

/-- Everything else is refused, and nothing is written. -/
theorem exec_functionSet_refused (refused : ¬ Settable P retType argTypes abi v) (buffer : List Cell)
    (offset : Nat) :
    ∃ e, exec (functionSet P retType argTypes abi buffer offset v) s = some ((buffer, .error e), s) := by
  rw [Settable, not_or, not_and] at refused
  obtain ⟨unready, noData⟩ := refused
  unfold functionSet
  cases is : functionId v with
  | none =>
    rw [Option.not_isSome_iff_eq_none.mp noData]
    exact ⟨_, rfl⟩
  | some f =>
    obtain ⟨e, throws⟩ := eval_CIF_unready (s := s) (unready (by rw [is]; rfl))
    have fails : eval (callback P retType argTypes abi f) s = some (.error e, s) := eval_error throws
    exact ⟨e, exec_bind fails⟩

/-- `get` makes a proxy of the address in the slot. -/
theorem eval_functionGet (ready : Ready P retType argTypes abi) {buffer : List Cell} {offset : Nat}
    {ptr : Option Pointer} (slot : (buffer.drop offset).take m.pointer.bytes = addressCells m ptr) :
    eval (functionGet P retType argTypes abi buffer offset) s = some (.ok (functionValue s.functions.length),
      { s with functions := s.functions ++ [.proxy ptr retType argTypes] }) := by
  rw [functionGet, slot, readAddress_addressCells]
  exact eval_foreignFunction ready ptr

/-! ## Values that cross -/

@[simp] theorem cells_length (place : Storage) (count : Nat) : (place.cells P count).length = count := by
  cases place <;> simp [Storage.cells, zeros, resultSlot]

/-- What is stored as the type is read back as what it is on the other side, whatever is made
in between. -/
def Crosses (P : Program m G) (place : Storage) (t : ValueType) : Prop :=
  ∀ s v, Acceptable P place t v → ∃ cells stored,
    exec (refSet P t (place.cells P (t.size m)) v) s = some ((cells, .ok ()), stored) ∧ cells.length = t.size m ∧
      s.Adds stored ∧ ∀ s', stored.Extends s' → ∃ w read,
        eval (refGet P t cells) s' = some (.ok w, read) ∧ s'.Adds read ∧ Behaves P t place read w v

theorem crosses_ref (place : Storage) (type : RefType) : Crosses P place (.ref type) := by
  intro s v acceptable
  obtain ⟨accepts, w, back⟩ := acceptable
  have kept : (P.host.set type (place.cells P (derefReads m type)) v).1.length = derefReads m type :=
    (P.host.set_length type _ v).trans (cells_length place _)
  have stores : P.host.set type (place.cells P (derefReads m type)) v =
      ((P.host.set type (place.cells P (derefReads m type)) v).1, .ok ()) := Prod.ext rfl accepts
  refine ⟨_, s, ?_, kept, .refl s, ?_⟩
  · rw [refSet, exec_pure, ValueType.size, stores]
  · intro s' later
    have reads : eval (refGet P (.ref type) (P.host.set type (place.cells P (derefReads m type)) v).1) s' =
        some (.ok w, s') := congrArg (fun outcome => some (outcome, s')) back
    refine ⟨w, s', reads, .refl s', ?_⟩
    rw [Behaves]
    exact back

theorem eval_refAlloc {cells : List Cell} (stores : exec (refSet P t (zeros (t.size m)) v) s =
    some ((cells, .ok ()), s')) : eval (refAlloc P t v) s = some (.ok cells, s') := by
  have lifted : eval (ExceptT.lift (refSet P t (zeros (t.size m)) v) : Script G _) s =
      some (.ok (cells, .ok ()), s') := by
    rw [eval_lift, stores]
    rfl
  rw [refAlloc, eval_ok lifted]
  rfl

/-- The arguments cross when each of them does. -/
theorem arguments_cross {types : List ValueType} (cross : ∀ t ∈ types, Crosses P .argument t) {vs : List JsVal}
    (acceptable : List.Forall₂ (Acceptable P .argument) types vs) (i : Nat) :
    ∃ cells stored, eval (storeArguments P i (types.zip vs)) s = some (.ok cells, stored) ∧
      cells.map List.length = types.map (ValueType.size m) ∧ s.Adds stored ∧
        ∀ s', stored.Extends s' → ∃ ws read, eval (decodeArguments P (types.zip cells)) s' = some (.ok ws, read) ∧
          s'.Adds read ∧ BehaveAll P types read ws vs := by
  induction types generalizing vs s i with
  | nil =>
    cases acceptable
    refine ⟨[], s, rfl, rfl, .refl s, fun s' _ => ⟨[], s', rfl, .refl s', ?_⟩⟩
    rw [BehaveAll]
    exact ⟨rfl, rfl⟩
  | cons t rest further =>
    obtain ⟨v, vs, first, others, rfl⟩ := List.forall₂_cons_left_iff.mp acceptable
    obtain ⟨crossesFirst, crossRest⟩ := List.forall_mem_cons.mp cross
    obtain ⟨cells, stored, stores, size, adds, reads⟩ := crossesFirst s v first
    obtain ⟨more, final, storesRest, sizes, addsRest, readsRest⟩ := further crossRest others (i + 1)
    refine ⟨cells :: more, final, ?_, by simp [size, sizes], adds.trans addsRest, ?_⟩
    · rw [List.zip_cons_cons, storeArguments, eval_ok (eval_tryCatch_ok (eval_refAlloc stores)),
        eval_ok storesRest]
      rfl
    · intro s' later
      obtain ⟨w, between, readsFirst, addsFirst, behaves⟩ := reads s' (addsRest.toExtends.trans later)
      obtain ⟨ws, read, readsOthers, addsOthers, behave⟩ :=
        readsRest between (later.trans addsFirst.toExtends)
      refine ⟨w :: ws, read, ?_, addsFirst.trans addsOthers, ?_⟩
      · rw [List.zip_cons_cons, decodeArguments, eval_ok readsFirst, eval_ok readsOthers]
        rfl
      · rw [BehaveAll]
        exact ⟨w, ws, v, vs, rfl, rfl, behaves.later addsOthers.toExtends, behave⟩

/-! ## Calling what was read back -/

theorem jump_closure {code : Pointer} {f : Nat} {cells : List (List Cell)} (depth : Nat)
    (there : s.codeAt code = some (.callback retType argTypes f))
    (sizes : cells.map List.length = argTypes.map (ValueType.size m)) :
    eval (jump P (depth + 1) (some code) cells) s =
      eval (dispatch P (machine P depth).call retType argTypes f cells) s :=
  machine_enter depth there sizes

/-- A call of a proxy, the arguments stored. -/
theorem call_proxy {g : Nat} {ptr : Option Pointer} {vs : List JsVal} {cells : List (List Cell)} (depth : Nat)
    (there : s.functions[g]? = some (.proxy ptr retType argTypes)) (arity : vs.length = argTypes.length)
    (stores : eval (storeArguments P 0 (argTypes.zip vs)) s = some (.ok cells, s')) :
    eval ((machine P (depth + 1)).call g vs) s =
      eval (do refGet P retType (← jump P depth ptr cells)) s' := by
  have called : eval ((machine P (depth + 1)).call g vs) s =
      eval (proxy P (machine P depth).enter ptr retType argTypes vs) s := machine_call depth there vs
  rw [called, proxy]
  simp only [arity, ne_eq, not_true_eq_false, if_false]
  rw [eval_ok stores]
  cases ptr <;> rfl

section
variable {call : Nat → List JsVal → Script G JsVal} {f : Nat} {params : List (List Cell)} {ws : List JsVal}
  {called after : Process G}

theorem eval_dispatch {retval : List Cell} {e : JsVal} (returns : exec (wrapper P call retType argTypes f
    (resultSlot P (retType.size m)) params) s = some ((retval, e), after)) :
    eval (dispatch P call retType argTypes f params) s =
      if e = .undefined then some (.ok retval, after)
      else (errorNew P.host e).map fun err => (.error err, after) := by
  have lifted : eval (ExceptT.lift (wrapper P call retType argTypes f
      (resultSlot P (retType.size m)) params) : Script G _) s =
      some (.ok (retval, e), after) := by
    rw [eval_lift, returns]
    rfl
  rw [dispatch, eval_ok lifted]
  by_cases quiet : e = .undefined
  · simp only [quiet, if_true]
    rfl
  · simp only [quiet, if_false]
    cases errorNew P.host e <;> rfl

variable (decodes : eval (decodeArguments P (argTypes.zip params)) s = some (.ok ws, called))
include decodes

theorem dispatch_undefined (undefined : eval (call f ws) called = none) :
    eval (dispatch P call retType argTypes f params) s = none := by
  have body : eval (do call f (← decodeArguments P (argTypes.zip params))) s = none := by
    rw [eval_ok decodes, undefined]
  have wraps : exec (wrapper P call retType argTypes f
      (resultSlot P (retType.size m)) params) s = none := exec_bind_none body
  rw [dispatch]
  apply eval_none
  rw [eval_lift, wraps]
  rfl

theorem dispatch_throws {e : JsVal} (throws : eval (call f ws) called = some (.error e, after))
    (shows : e ≠ .undefined) :
    eval (dispatch P call retType argTypes f params) s =
      (errorNew P.host e).map fun err => (.error err, after) := by
  have body : eval (do call f (← decodeArguments P (argTypes.zip params))) s = some (.error e, after) := by
    rw [eval_ok decodes, throws]
  have wraps : exec (wrapper P call retType argTypes f
      (resultSlot P (retType.size m)) params) s =
      some ((resultSlot P (retType.size m), e), after) := exec_bind body
  rw [eval_dispatch wraps, if_neg shows]

theorem dispatch_returns {r : JsVal} {cells : List Cell} {stored : Process G}
    (returns : eval (call f ws) called = some (.ok r, after))
    (stores : exec (refSet P retType (resultSlot P (retType.size m)) r) after = some ((cells, .ok ()), stored)) :
    eval (dispatch P call retType argTypes f params) s = some (.ok cells, stored) := by
  have body : eval (do call f (← decodeArguments P (argTypes.zip params))) s = some (.ok r, after) := by
    rw [eval_ok decodes, returns]
  have wraps : exec (wrapper P call retType argTypes f
      (resultSlot P (retType.size m)) params) s = some ((cells, .undefined), stored) :=
    (exec_bind body).trans (exec_bind stores)
  rw [eval_dispatch wraps, if_pos rfl]

end

/-- A proxy of the closure of a function calls the function, and one of a `Buffer` the code
there. -/
theorem proxy_behaves (results : Crosses P .result retType) (arguments : ∀ t ∈ argTypes, Crosses P .argument t) {g : Nat}
    {ptr : Option Pointer} (there : s.functions[g]? = some (.proxy ptr retType argTypes))
    (leads : Leads retType argTypes s ptr v) :
    Behaves P (.function retType argTypes abi) place s (functionValue g) v := by
  rw [Behaves]
  refine ⟨g, rfl, ?_, ?_⟩
  · intro f is s' later vs acceptable
    obtain ⟨code, rfl, closure⟩ : ∃ code, ptr = some code ∧ s.codeAt code = some (.callback retType argTypes f) := by
      rw [Leads, is] at leads
      exact leads
    obtain ⟨cells, stored, stores, sizes, adds, reads⟩ := arguments_cross arguments acceptable 0
    obtain ⟨ws, called, decodes, addsCalled, behave⟩ := reads stored (.refl stored)
    refine ⟨ws, called, adds.trans addsCalled, behave, ?_⟩
    intro depth
    -- The call stores the arguments and enters the closure, which reads them.
    have calls := call_proxy (P := P) (depth + 1) (later.function there) acceptable.length_eq.symm stores
    have enters := jump_closure (P := P) depth ((later.trans adds.toExtends).code closure) sizes
    unfold CallsAs
    split
    · rename_i undefined
      rw [calls]
      exact eval_none (enters.trans (dispatch_undefined decodes undefined))
    · rename_i e after throws
      intro shows
      have raises := enters.trans (dispatch_throws decodes throws shows)
      rw [calls]
      cases made : errorNew P.host e with
      | none =>
        rw [made] at raises
        exact eval_none raises
      | some err =>
        rw [made] at raises
        exact eval_error raises
    · rename_i r after returns
      intro accepted
      obtain ⟨bytes, kept, storesResult, _, addsResult, readsResult⟩ := results after r accepted
      obtain ⟨r', final, back, addsFinal, behaves⟩ := readsResult kept (.refl kept)
      refine ⟨r', final, behaves, addsResult.trans addsFinal, ?_⟩
      rw [calls, eval_ok (enters.trans (dispatch_returns decodes returns storesResult))]
      exact back
  · intro address is s' later vs acceptable
    have here : ptr = address := by
      rw [Leads, functionId_buffer is] at leads
      exact Option.some.inj (leads.symm.trans is)
    obtain ⟨cells, stored, stores, _, adds, _⟩ := arguments_cross arguments acceptable 0
    refine ⟨cells, stored, adds, stores, ?_⟩
    intro depth
    rw [← here]
    exact call_proxy depth (later.function there) acceptable.length_eq.symm stores

/-- Every value crosses, at every order of its type. -/
theorem crosses (place : Storage) (t : ValueType) : Crosses P place t := by
  induction t generalizing place with
  | ref type => exact crosses_ref place type
  | function retType argTypes abi results arguments =>
    intro s v acceptable
    obtain ⟨ready, pointer⟩ := acceptable
    have settable : Settable P retType argTypes abi v := pointer.imp_left fun function => ⟨function, ready⟩
    obtain ⟨ptr, stored, stores, adds, leads⟩ := exec_functionSet settable (place.cells P m.pointer.bytes) 0
    have inside : 0 + (addressCells m ptr).length ≤ (place.cells P m.pointer.bytes).length := by
      rw [addressCells_length, cells_length]
      omega
    refine ⟨_, stored, stores, ?_, adds, ?_⟩
    · rw [splice_length inside, cells_length, ValueType.size]
    · intro s' later
      have slot := splice_read inside
      rw [addressCells_length] at slot
      refine ⟨_, _, eval_functionGet ready slot, adds_function s' _, ?_⟩
      apply proxy_behaves (results .result) (fun t member => arguments t member .argument) List.getElem?_concat_length
      exact (leads.later later).later (adds_function s' _).toExtends

/-! ## The round trip -/

/-- What a `set` does with the slot at an offset, and what a `get` of the slot makes of it from
then on. -/
structure SlotRoundTrip (P : Program m G) (retType : ValueType) (argTypes : List ValueType) (abi : Int)
    (buffer : List Cell) (offset : Nat) (v : JsVal) (after : List Cell) (outcome : Except JsVal Unit)
    (stored : Process G) : Prop where
  length : after.length = buffer.length
  outside : ∀ i, i < offset ∨ offset + m.pointer.bytes ≤ i → after[i]? = buffer[i]?
  accepted : outcome = .ok () ↔ Settable P retType argTypes abi v
  unchanged : ∀ e, outcome = .error e → after = buffer
  behaves : Ready P retType argTypes abi → outcome = .ok () → ∀ s', stored.Extends s' → ∃ w read,
    eval (functionGet P retType argTypes abi after offset) s' = some (.ok w, read) ∧ s'.Adds read ∧
      ∀ place, Behaves P (.function retType argTypes abi) place read w v

/-- `double (*)(double)`. -/
def numeric : ValueType := .function (.ref (.scalar .double)) [.ref (.scalar .double)] 2

/-- A program whose script `0` calls its argument with `0`. -/
def exampleProgram : Program lp64 Unit where
  host := exampleHost
  abis := fun abi => abi == 2
  script := fun _ call arguments =>
    match arguments with
    | [.object (.function f) _ _] => call f [.number 0]
    | _ => return .undefined
  native := fun _ _ _ => return zeros 8

end NodeFfi.FunctionTypes
