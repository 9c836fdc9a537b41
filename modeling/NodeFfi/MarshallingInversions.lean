import NodeFfi.MarshallingRuns

/-! What a run of a part of the marshalling code that ended says about the world: reading
changes nothing, storing changes memory alone, and a native function of its arguments
changes the block its result goes to. -/
namespace NodeFfi
open BlockMemory PartialPrograms JsVal

variable {m : DataModel} {w w' : World m} {host : Host}

theorem eval_native_some {α : Type} {x : NativeM m α} {outcome : Except JsVal α}
    (did : eval (native x) w = some (outcome, w')) : ∃ a, outcome = .ok a ∧ exec x w = some (a, w') := by
  rw [native, eval_lift] at did
  obtain ⟨⟨a, final⟩, ran, same⟩ := Option.map_eq_some_iff.mp did
  obtain ⟨rfl, rfl⟩ := Prod.mk.inj same
  exact ⟨a, rfl, ran⟩

theorem eval_native_bind_some {α β : Type} {x : NativeM m α} {f : α → JsM m β}
    {outcome : Except JsVal β} (did : eval (native x >>= f) w = some (outcome, w')) :
    ∃ a between, exec x w = some (a, between) ∧ eval (f a) between = some (outcome, w') := by
  rcases eval_bind_some did with ⟨e, throws, _⟩ | ⟨a, between, first, rest⟩
  · obtain ⟨_, impossible, _⟩ := eval_native_some throws
    cases impossible
  · obtain ⟨_, same, ran⟩ := eval_native_some first
    obtain rfl := Except.ok.inj same
    exact ⟨a, between, ran, rest⟩

theorem exec_undefinedUnless_some {defined : Prop} [Decidable defined] {u : Unit}
    (did : exec (undefinedUnless defined) w = some (u, w')) : defined ∧ w' = w := by
  change (if defined then some ((), w) else none) = _ at did
  split at did
  · rename_i holds
    exact ⟨holds, (Prod.mk.inj (Option.some.inj did)).2.symm⟩
  · cases did

theorem exec_read_some {p : Pointer} {count : Nat} {cells : List Cell}
    (did : exec (read p count) w = some (cells, w')) : load w.memory p count = some cells ∧ w' = w := by
  rw [exec_read] at did
  obtain ⟨found, loads, same⟩ := Option.map_eq_some_iff.mp did
  obtain ⟨rfl, rfl⟩ := Prod.mk.inj same
  exact ⟨loads, rfl⟩

theorem exec_loadPointer_some {p target : Pointer}
    (did : exec (loadPointer p) w = some (target, w')) : w' = w := by
  obtain ⟨cells, between, reads, rest⟩ := exec_bind_some.mp did
  obtain ⟨_, rfl⟩ := exec_read_some reads
  cases decodes : decodePointer m cells with
  | none =>
    rw [decodes] at rest
    cases rest
  | some q =>
    rw [decodes] at rest
    exact (Prod.mk.inj (Option.some.inj rest)).2.symm

/-- Reading a value changes nothing. -/
theorem eval_refGet_some {buffer : Buffer} {type : RefType} {outcome : Except JsVal JsVal}
    (did : eval (refGet host buffer type) w = some (outcome, w')) :
    w' = w ∧ admits m type buffer ∧ ∃ cells, load w.memory buffer.data (derefReads m type) = some cells ∧
      outcome = host.get type cells := by
  obtain ⟨_, first, guarded, rest⟩ := eval_native_bind_some did
  obtain ⟨room, rfl⟩ := exec_undefinedUnless_some guarded
  obtain ⟨cells, second, reads, got⟩ := eval_native_bind_some rest
  obtain ⟨loads, rfl⟩ := exec_read_some reads
  obtain ⟨rfl, rfl⟩ := Prod.mk.inj (Option.some.inj got)
  exact ⟨rfl, room, cells, loads, rfl⟩

theorem eval_decodeArguments_some {buffer : Buffer} {i : Nat} {types : List RefType}
    {outcome : Except JsVal (List JsVal)}
    (did : eval (decodeArguments host buffer i types) w = some (outcome, w')) : w' = w := by
  induction types generalizing i w w' outcome with
  | nil => exact (Prod.mk.inj (Option.some.inj did)).2.symm
  | cons type rest ih =>
    obtain ⟨argPtr, first, entry, got⟩ := eval_native_bind_some did
    obtain ⟨_, _, loads, built⟩ := exec_bind_some.mp entry
    obtain rfl := exec_loadPointer_some loads
    have unchanged := (Prod.mk.inj (Option.some.inj built)).2
    subst unchanged
    rcases eval_bind_some got with ⟨e, throws, _⟩ | ⟨arg, second, gets, others⟩
    · exact (eval_refGet_some throws).1
    · obtain ⟨rfl, _⟩ := eval_refGet_some gets
      rcases eval_bind_some others with ⟨e, throws, _⟩ | ⟨args, third, decodes, returned⟩
      · exact ih throws
      · obtain rfl := ih decodes
        exact (Prod.mk.inj (Option.some.inj returned)).2.symm

/-- Storing a value changes memory alone. -/
theorem eval_refSet_some {buffer : Buffer} {value : JsVal} {type : RefType} {outcome : Except JsVal Unit}
    (did : eval (refSet host buffer value type) w = some (outcome, w')) :
    ∃ memory, w' = w.setMemory memory := by
  obtain ⟨_, first, guarded, rest⟩ := eval_native_bind_some did
  obtain ⟨_, rfl⟩ := exec_undefinedUnless_some guarded
  obtain ⟨old, second, reads, stores⟩ := eval_native_bind_some rest
  obtain ⟨_, rfl⟩ := exec_read_some reads
  obtain ⟨_, third, writes, done⟩ := eval_native_bind_some stores
  rw [exec_write] at writes
  obtain ⟨memory, _, same⟩ := Option.map_eq_some_iff.mp writes
  obtain ⟨_, rfl⟩ := Prod.mk.inj same
  exact ⟨memory, (Prod.mk.inj (Option.some.inj done)).2.symm⟩

theorem exec_loadArguments_some {array : Pointer} {i : Nat} {atypes : List (FfiType m.sizeBits)}
    {arguments : List (List Cell)} (did : exec (loadArguments array i atypes) w = some (arguments, w')) :
    w' = w := by
  induction atypes generalizing i w w' arguments with
  | nil => exact (Prod.mk.inj (Option.some.inj did)).2.symm
  | cons atype rest ih =>
    obtain ⟨_, _, loads, others⟩ := exec_bind_some.mp did
    obtain rfl := exec_loadPointer_some loads
    obtain ⟨_, _, reads, rest⟩ := exec_bind_some.mp others
    obtain ⟨_, rfl⟩ := exec_read_some reads
    obtain ⟨_, _, tail, built⟩ := exec_bind_some.mp rest
    obtain rfl := ih tail
    exact (Prod.mk.inj (Option.some.inj built)).2.symm

/-- A call through an array that ended has called the function with what was fetched. -/
theorem exec_ffiCall_calls {cif : Cif m} {fn : Native m} {rvalue avalue : Pointer} {pointers : List Pointer}
    {blocks arguments : List (List Cell)} (array : ArgumentArray m w.memory avalue pointers blocks)
    (same : cif.atypes.length = pointers.length) (fetched : fetch cif.atypes blocks = some arguments)
    (did : exec (ffiCall cif fn rvalue avalue) w = some ((), w')) :
    ∃ cells between, exec (fn arguments) w = some (cells, between) := by
  have loads := exec_loadArguments [] array.start (by simpa using array.entries) array.held same
  rw [fetched, List.length_nil] at loads
  rw [ffiCall, exec_bind loads] at did
  obtain ⟨cells, between, calls, _⟩ := exec_bind_some.mp did
  exact ⟨cells, between, calls⟩

/-- A dispatch that ended has run the body of the wrapper. -/
theorem exec_dispatch_some {info : CallbackInfo m} {func : List JsVal → JsM m JsVal} {ticks : JsM m Unit}
    {retval params : Pointer} {dispatched : Bool} {done : Unit} (alive : info.function = some func)
    (quiet : w.pending = none)
    (did : exec (dispatchToV8 host ticks info retval params dispatched) w = some (done, w')) :
    ∃ outcome between, eval (body host info func retval params) w = some (outcome, between) := by
  obtain ⟨_, _, tries, _⟩ := exec_bind_some.mp did
  change eval (invokeCallback host _ info retval params dispatched) w = _ at tries
  simp only [invokeCallback, alive] at tries
  have called : ∃ outcome between, eval (makeCallback (if dispatched then ticks else return) (wrapper host
      info.signature func ⟨retval, info.signature.returnType.size m⟩
      ⟨params, m.pointer.bytes * info.signature.argTypes.length⟩)) w = some (outcome, between) := by
    rcases eval_bind_some tries with ⟨e, throws, _⟩ | ⟨value, between, returns, _⟩
    · exact ⟨_, _, throws⟩
    · exact ⟨_, _, returns⟩
  obtain ⟨outcome, between, called⟩ := called
  cases runs : eval (body host info func retval params) w with
  | some result => exact ⟨result.1, result.2, rfl⟩
  | none =>
    have stuck : exec (wrapper host info.signature func ⟨retval, info.signature.returnType.size m⟩
        ⟨params, m.pointer.bytes * info.signature.argTypes.length⟩) w = none :=
      exec_bind_none (x := (invokeFunction _ _ _ _ _).run) runs
    have undefined : eval (makeCallback (if dispatched then ticks else return) (wrapper host info.signature func
        ⟨retval, info.signature.returnType.size m⟩
        ⟨params, m.pointer.bytes * info.signature.argTypes.length⟩)) w = none := by
      unfold makeCallback
      refine eval_tryCatch_none ?_
      rw [eval_ok (eval_throwPending quiet)]
      refine eval_none ?_
      rw [native, eval_lift, stuck]
      rfl
    rw [undefined] at called
    cases called

/-- A pure native function leaves the world alone but for the result it stores. -/
theorem exec_ffiCall_some {cif : Cif m} {fn : List (List Cell) → List Cell} {rvalue avalue : Pointer}
    (did : exec (ffiCall cif (ofFunction fn) rvalue avalue) w = some ((), w')) :
    ∃ arguments memory, exec (loadArguments avalue 0 cif.atypes) w = some (arguments, w) ∧
      (fn arguments).length = returnWidth cif.rtype ∧
      store w.memory rvalue (returned m cif.rtype (fn arguments)) = some memory ∧
      w' = w.setMemory memory := by
  obtain ⟨arguments, _, loads, rest⟩ := exec_bind_some.mp did
  obtain rfl := exec_loadArguments_some loads
  obtain ⟨cells, _, computes, rest⟩ := exec_bind_some.mp rest
  obtain ⟨rfl, rfl⟩ := Prod.mk.inj (Option.some.inj computes)
  obtain ⟨_, _, guarded, writes⟩ := exec_bind_some.mp rest
  obtain ⟨width, rfl⟩ := exec_undefinedUnless_some guarded
  rw [exec_write] at writes
  obtain ⟨memory, stores, same⟩ := Option.map_eq_some_iff.mp writes
  exact ⟨arguments, memory, loads, width, stores, (Prod.mk.inj same).2.symm⟩

end NodeFfi
