import NodeFfi.MarshallingRuns

/-! The sizes the two encoders rely on. For a type that is passed by value on an LP64
target, the bytes `ref` stores are the bytes libffi moves, and the result buffer has
room for what `ffi_call` stores of a result. -/
namespace NodeFfi
open AlignedLayout RefType

variable {m : DataModel}

/-- 64-bit `long`s, pointers and `ffi_arg`s. -/
structure IsLP64 (m : DataModel) : Prop where
  long : m.long = .eight
  pointer : m.pointer = .eight
  ffiArg : m.ffiArg = .eight

/-- A type built from scalars, pointers and structs; the pointers in structs are not to
arrays. -/
def Plain : RefType → Prop
  | .void => False
  | .scalar _ => True
  | .pointer _ => True
  | .struct fields => fields ≠ [] ∧ ∀ field ∈ fields, ¬ Misread field ∧ Plain field
  | .array _ _ => False

/-- A plain type whose size is a `size_t`. -/
structure Passable (m : DataModel) (type : RefType) : Prop where
  plain : Plain type
  fits : type.storageSize m < 2 ^ m.sizeBits

theorem plain_struct {fields : List RefType} : Plain (.struct fields) ↔
    fields ≠ [] ∧ ∀ field ∈ fields, ¬ Misread field ∧ Plain field := by
  rw [Plain]

theorem Plain.placeable {type : RefType} (plain : Plain type) : type.Placeable := by
  induction type with
  | void => simp [Plain] at plain
  | scalar s => simp [Placeable]
  | pointer pointee ih => simp [Placeable]
  | struct fields ih =>
    obtain ⟨nonempty, each⟩ := plain_struct.mp plain
    exact placeable_struct.mpr ⟨nonempty, fun field member => ih field member (each field member).2⟩
  | array type fixedLength ih => simp [Plain] at plain

theorem Plain.byValue {type : RefType} (plain : Plain type) : ByValue type := by
  refine ⟨plain.placeable, ?_⟩
  rintro element fixedLength rfl
  simp [Plain] at plain

theorem Plain.direct {type : RefType} (plain : Plain type) : Direct type := by
  induction type with
  | struct fields ih =>
    have each := (plain_struct.mp plain).2
    rw [Direct]
    exact fun field member => ⟨(each field member).1, ih field member (each field member).2⟩
  | array type fixedLength ih => simp [Plain] at plain
  | void => simp [Direct]
  | scalar s => simp [Direct]
  | pointer pointee ih => simp [Direct]

/-! ## Objects

`ref` stores a reference of its own for an `Object`, and libffi is told of a pointer. -/

namespace RefType

mutual

/-- The type that libffi is told of: an `Object` is a pointer there. -/
def asPassed : RefType → RefType
  | .void => .void
  | .scalar s => if s = .Object then .pointer .void else .scalar s
  | .pointer pointee => .pointer (asPassed pointee)
  | .struct fields => .struct (fieldsAsPassed fields)
  | .array type fixedLength => .array (asPassed type) fixedLength

def fieldsAsPassed : List RefType → List RefType
  | [] => []
  | field :: rest => asPassed field :: fieldsAsPassed rest

end

theorem fieldsAsPassed_eq (fields : List RefType) : fieldsAsPassed fields = fields.map asPassed := by
  induction fields with
  | nil => rfl
  | cons field rest ih => rw [fieldsAsPassed, ih, List.map_cons]

theorem asPassed_struct (fields : List RefType) :
    (struct fields).asPassed = .struct (fields.map asPassed) := by
  rw [asPassed, fieldsAsPassed_eq]

theorem elementType_asPassed (t : RefType) :
    t.asPassed.elementType = t.elementType.map fun array => (array.1.asPassed, array.2) := by
  induction t with
  | void => rfl
  | scalar s =>
    rw [asPassed]
    split <;> rfl
  | pointer pointee ih => exact ih
  | struct fields ih =>
    rw [asPassed_struct]
    rfl
  | array type fixedLength ih => rfl

theorem readsNone_asPassed {t : RefType} : ReadsNone t.asPassed ↔ ReadsNone t := by
  unfold ReadsNone
  rw [elementType_asPassed]
  cases t.elementType <;> simp

theorem misread_asPassed {t : RefType} : Misread t.asPassed ↔ Misread t := by
  cases t with
  | scalar s =>
    rw [asPassed]
    split
    · exact iff_of_false (not_misread nofun) id
    · exact Iff.rfl
  | pointer pointee => exact not_congr readsNone_asPassed
  | struct fields =>
    rw [asPassed_struct]
    exact Iff.rfl
  | void => exact Iff.rfl
  | array type fixedLength => exact Iff.rfl

/-- `Type` makes no difference between an `Object` and a pointer. -/
theorem ffiType_asPassed (t : RefType) :
    ffiType m t.asPassed = ffiType m t ∧ arrayElements m t.asPassed = arrayElements m t := by
  induction t with
  | void => exact ⟨rfl, rfl⟩
  | scalar s =>
    rw [asPassed]
    split
    · next object => exact object ▸ ⟨rfl, rfl⟩
    · exact ⟨rfl, rfl⟩
  | pointer pointee ih => exact ⟨rfl, ih.2⟩
  | struct fields ih =>
    rw [asPassed_struct]
    refine ⟨?_, rfl⟩
    rw [ffiType_struct, ffiType_struct, List.flatMap_map]
    congr 1
    apply List.flatMap_congr
    intro field member
    obtain ⟨type, elements⟩ := ih field member
    rw [fieldFfiTypes, fieldFfiTypes, type, elements]
  | array type fixedLength ih =>
    refine ⟨rfl, ?_⟩
    rw [asPassed, arrayElements, arrayElements, ih.1]

/-- The pointer is no larger than what `ref` stores. -/
theorem asPassed_within (t : RefType) : Shape.Within (t.asPassed.shape m) (t.shape m) ∧
    List.Forall₂ Shape.Within (t.asPassed.items m) (t.items m) := by
  have alone : ∀ {small large : Shape}, Shape.Within small large →
      Shape.Within small large ∧ List.Forall₂ Shape.Within [small] [large] :=
    fun within => ⟨within, .cons within .nil⟩
  induction t with
  | void => exact alone (.refl _)
  | scalar s =>
    rw [asPassed]
    split
    · next object =>
      subst object
      exact alone ⟨(CType.size_pointer m).trans_le m.object_pointer, rfl⟩
    · exact alone (.refl _)
  | pointer pointee ih => exact alone (.refl _)
  | struct fields ih =>
    refine alone ?_
    rw [asPassed_struct, shape_struct, shape_struct, List.flatMap_map]
    exact Shape.sequence_within (forall₂_flatMap fun field member => (ih field member).2)
  | array type fixedLength ih =>
    exact ⟨Shape.repeated_within ih.1 fixedLength, forall₂_replicate ih.1 fixedLength⟩

end RefType

theorem Plain.asPassed {type : RefType} (plain : Plain type) : Plain type.asPassed := by
  induction type with
  | void => simp [Plain] at plain
  | scalar s =>
    rw [RefType.asPassed]
    split <;> simp [Plain]
  | pointer pointee ih => simp [RefType.asPassed, Plain]
  | struct fields ih =>
    obtain ⟨nonempty, each⟩ := plain_struct.mp plain
    rw [asPassed_struct, plain_struct]
    refine ⟨by simpa using nonempty, List.forall_mem_map.mpr fun field member => ?_⟩
    exact ⟨fun misread => (each field member).1 (misread_asPassed.mp misread), ih field member (each field member).2⟩
  | array type fixedLength ih => simp [Plain] at plain

theorem Plain.encodable {type : RefType} (target : IsLP64 m) (plain : Plain type) :
    Encodable m type.asPassed := by
  induction type with
  | void => simp [Plain] at plain
  | scalar s =>
    rw [RefType.asPassed]
    split
    · simp [Encodable]
    · next other =>
      rw [Encodable]
      exact ⟨fun _ => target.long, fun object => absurd object other⟩
  | pointer pointee ih => simp [RefType.asPassed, Encodable]
  | struct fields ih =>
    rw [asPassed_struct, Encodable]
    exact List.forall_mem_map.mpr fun field member => ih field member ((plain_struct.mp plain).2 field member).2
  | array type fixedLength ih => simp [Plain] at plain

/-- An `Object` in a type of at most a pointer's size is kept in a pointer. -/
theorem Plain.shape_asPassed {type : RefType} (plain : Plain type)
    (small : type.storageSize m ≤ m.pointer.bytes) : type.asPassed.shape m = type.shape m := by
  induction type with
  | void => simp [Plain] at plain
  | scalar s =>
    rw [RefType.asPassed]
    split
    · next object =>
      subst object
      have same : m.objectSize = m.pointer.bytes := Nat.le_antisymm small m.object_pointer
      rw [shape, shape, CType.size_pointer, ← same]
      rfl
    · rfl
  | pointer pointee ih => rfl
  | struct fields ih =>
    have each := (plain_struct.mp plain).2
    rw [asPassed_struct, shape_struct, shape_struct, List.flatMap_map]
    congr 1
    apply List.flatMap_congr
    intro field member
    have single := (each field member).2.byValue.2
    have alone := items_alone (m := m) (each field member).2.asPassed.byValue.2
    have inside : field.shape m ∈ fields.flatMap (items m) :=
      List.mem_flatMap.mpr ⟨field, member, by rw [items_alone single]; exact List.mem_singleton_self _⟩
    rw [alone, items_alone single, ih field member (each field member).2
      ((struct_item_size_le plain.placeable inside).trans small)]
  | array type fixedLength ih => simp [Plain] at plain

theorem derefReads_asPassed_le (type : RefType) : derefReads m type.asPassed ≤ derefReads m type := by
  rw [derefReads_eq, derefReads_eq]
  exact (asPassed_within type).1.size

theorem Passable.asPassed {type : RefType} (passable : Passable m type) : Passable m type.asPassed :=
  ⟨passable.plain.asPassed, Nat.lt_of_le_of_lt (asPassed_within type).1.size passable.fits⟩

/-- libffi accepts the type, and moves the bytes of what it is told of. -/
theorem Passable.initialized {type : RefType} (target : IsLP64 m) (passable : Passable m type) :
    ∃ ft, NodeFfi.initialized (ffiType m type) = some ft ∧ ft.size.toNat = derefReads m type.asPassed := by
  obtain ⟨ft, ready, size, _⟩ := layoutAgrees_of_encodable passable.asPassed.plain.byValue
    passable.asPassed.plain.direct.written (passable.plain.encodable target) passable.asPassed.fits
  rw [(ffiType_asPassed type).1] at ready
  exact ⟨ft, ready, by rw [size, derefReads_eq]⟩

theorem Passable.size {type : RefType} {ft : FfiType m.sizeBits} (target : IsLP64 m)
    (passable : Passable m type) (ready : NodeFfi.initialized (ffiType m type) = some ft) :
    ft.size.toNat = derefReads m type.asPassed := by
  obtain ⟨_, accepted, size⟩ := passable.initialized target
  obtain rfl := Option.some.inj (accepted.symm.trans ready)
  exact size

/-! ## Signatures -/

theorem mapM_eq_some {α β : Type} {f : α → Option β} {as : List α} {bs : List β}
    (mapped : as.mapM f = some bs) : List.Forall₂ (fun a b => f a = some b) as bs := by
  induction as generalizing bs with
  | nil =>
    obtain rfl : [] = bs := by simpa using mapped
    exact .nil
  | cons a rest ih =>
    simp only [List.mapM_cons, bind, Option.bind_eq_some_iff, pure, Option.some.injEq] at mapped
    obtain ⟨b, first, others, tail, rfl⟩ := mapped
    exact .cons first (ih tail)

theorem prepCif_eq_some {returnType : RefType} {argTypes : List RefType} {cif : Cif m}
    (prepared : prepCif m returnType argTypes = some cif) :
    initialized (ffiType m returnType) = some cif.rtype ∧
      List.Forall₂ (fun type atype => initialized (ffiType m type) = some atype) argTypes cif.atypes := by
  simp only [prepCif, bind, Option.bind_eq_some_iff, Option.some.injEq] at prepared
  obtain ⟨rtype, ready, atypes, mapped, rfl⟩ := prepared
  exact ⟨ready, mapM_eq_some mapped⟩

/-- Types that a function can be declared with. -/
structure Declarable (m : DataModel) (returnType : RefType) (argTypes : List RefType) : Prop where
  returns : returnType = .void ∨ Passable m returnType
  takes : ∀ type ∈ argTypes, Passable m type

/-- `ffi_prep_cif` accepts every such declaration. -/
theorem Declarable.prepares {returnType : RefType} {argTypes : List RefType} (target : IsLP64 m)
    (declarable : Declarable m returnType argTypes) : (prepCif m returnType argTypes).isSome := by
  have returnReady : ∃ rtype, initialized (ffiType m returnType) = some rtype := by
    rcases declarable.returns with rfl | passable
    · refine ⟨ffiTypeVoid m, if_neg fun zero => ?_⟩
      have bits := four_le_sizeBits (m := m)
      have one := congrArg BitVec.toNat zero
      have wide : 1 < 2 ^ m.sizeBits := Nat.one_lt_two_pow (by omega)
      simp [ffiType, ffiTypeVoid, FfiType.size, Nat.mod_eq_of_lt wide] at one
    · obtain ⟨rtype, ready, _⟩ := passable.initialized target
      exact ⟨rtype, ready⟩
  obtain ⟨rtype, ready⟩ := returnReady
  have argsReady : ∃ atypes, argTypes.mapM (fun type => initialized (ffiType m type)) = some atypes := by
    have each := declarable.takes
    clear declarable ready
    induction argTypes with
    | nil => exact ⟨[], rfl⟩
    | cons type rest ih =>
      obtain ⟨atype, first, _⟩ := (each type (by simp)).initialized target
      obtain ⟨others, tail⟩ := ih fun other member => each other (by simp [member])
      exact ⟨atype :: others, by simp [List.mapM_cons, first, tail]⟩
  obtain ⟨atypes, mapped⟩ := argsReady
  simp [prepCif, ready, mapped]

/-- The signature of a declaration. -/
def Declarable.signature {returnType : RefType} {argTypes : List RefType}
    (declarable : Declarable m returnType argTypes) (target : IsLP64 m) : Signature m where
  returnType := returnType
  argTypes := argTypes
  cif := (prepCif m returnType argTypes).get (declarable.prepares target)
  prepared := (Option.some_get _).symm

/-- libffi moves as many bytes of a value of each type as `ref` stores. -/
structure SizesAgree (s : Signature m) : Prop where
  takes : List.Forall₂ (fun type atype => atype.size.toNat = derefReads m type) s.argTypes s.cif.atypes
  returns : returnWidth s.cif.rtype = derefReads m s.returnType

/-- Each argument's bytes are moved whole. -/
theorem fetch_blocks {types : List RefType} {atypes : List (FfiType m.sizeBits)}
    {blocks : List (List Cell)}
    (agree : List.Forall₂ (fun type atype => atype.size.toNat = derefReads m type) types atypes)
    (sized : List.Forall₂ (fun type cells => cells.length = derefReads m type) types blocks) :
    fetch atypes blocks = some blocks := by
  induction agree generalizing blocks with
  | nil =>
    cases sized
    rfl
  | @cons type atype types atypes moved rest ih =>
    obtain ⟨cells, others, size, sizes, rfl⟩ := List.forall₂_cons_left_iff.mp sized
    rw [fetch, moved, if_pos (Nat.le_of_eq size.symm), ih sizes, ← size, List.take_length]
    rfl

/-- The bytes of each block that libffi moves. -/
abbrev moved (atypes : List (FfiType m.sizeBits)) (blocks : List (List Cell)) : List (List Cell) :=
  List.zipWith (fun atype cells => cells.take atype.size.toNat) atypes blocks

/-- libffi never moves more of an argument than there is. -/
theorem moves_less {types : List RefType} {atypes : List (FfiType m.sizeBits)} (target : IsLP64 m)
    (passable : ∀ type ∈ types, Passable m type)
    (ready : List.Forall₂ (fun type atype => initialized (ffiType m type) = some atype) types atypes) :
    List.Forall₂ (fun type atype => atype.size.toNat ≤ derefReads m type) types atypes := by
  refine List.forall₂_iff_zip.mpr ⟨ready.length_eq, fun {type atype} member => ?_⟩
  calc atype.size.toNat
    _ = derefReads m type.asPassed :=
      (passable type (List.of_mem_zip member).1).size target (List.forall₂_zip ready member)
    _ ≤ derefReads m type := derefReads_asPassed_le type

theorem fetch_moved {types : List RefType} {atypes : List (FfiType m.sizeBits)} {blocks : List (List Cell)}
    (less : List.Forall₂ (fun type atype => atype.size.toNat ≤ derefReads m type) types atypes)
    (sized : List.Forall₂ (fun type cells => cells.length = derefReads m type) types blocks) :
    fetch atypes blocks = some (moved atypes blocks) := by
  induction less generalizing blocks with
  | nil =>
    cases sized
    rfl
  | @cons type atype types atypes small rest ih =>
    obtain ⟨cells, others, size, sizes, rfl⟩ := List.forall₂_cons_left_iff.mp sized
    rw [fetch, if_pos (by omega), ih sizes]
    rfl

/-! ## Results -/

/-- A result type libffi accepts is not `void` unless it was declared so. -/
theorem returnWidth_of_plain {type : RefType} {rtype : FfiType m.sizeBits} (plain : Plain type)
    (ready : initialized (ffiType m type) = some rtype) : returnWidth rtype = rtype.size.toNat := by
  cases type with
  | void => simp [Plain] at plain
  | scalar s =>
    obtain rfl := Option.some.inj ((initialized_ctype (s.ffiType m)).symm.trans ready)
    rfl
  | pointer pointee =>
    obtain rfl := Option.some.inj ((initialized_ctype .pointer).symm.trans ready)
    rfl
  | struct fields =>
    rw [ffiType] at ready
    obtain ⟨size, alignment, elements, rfl⟩ := initialized_aggregate ready
    rfl
  | array type fixedLength => simp [Plain] at plain

theorem returnWidth_eq {returnType : RefType} {rtype : FfiType m.sizeBits} (target : IsLP64 m)
    (returns : returnType = .void ∨ Passable m returnType)
    (ready : initialized (ffiType m returnType) = some rtype) :
    returnWidth rtype = derefReads m returnType.asPassed := by
  rcases returns with rfl | passable
  · simp only [ffiType, ffiTypeVoid, initialized, initializeAggregate] at ready
    split at ready
    · cases ready
    · cases ready
      rfl
  · rw [returnWidth_of_plain passable.plain ready, passable.size target ready]

/-- Types without an `Object` are moved whole. -/
theorem Declarable.sizesAgree {s : Signature m} (target : IsLP64 m) (declarable : Declarable m s.returnType s.argTypes)
    (returns : s.returnType.asPassed = s.returnType) (takes : ∀ type ∈ s.argTypes, type.asPassed = type) :
    SizesAgree s := by
  obtain ⟨returnReady, argsReady⟩ := prepCif_eq_some s.prepared
  refine ⟨List.forall₂_iff_zip.mpr ⟨argsReady.length_eq, fun {type atype} member => ?_⟩,
    by rw [returnWidth_eq target declarable.returns returnReady, returns]⟩
  have inside := (List.of_mem_zip member).1
  rw [(declarable.takes type inside).size target (List.forall₂_zip argsReady member), takes type inside]

/-- A slot that has room for the value is as wide as the value. -/
theorem returnWidth_of_room {returnType : RefType} {rtype : FfiType m.sizeBits} (target : IsLP64 m)
    (returns : returnType = .void ∨ Passable m returnType)
    (ready : initialized (ffiType m returnType) = some rtype)
    (room : derefReads m returnType ≤ returnSlot rtype) : returnWidth rtype = derefReads m returnType := by
  have width := returnWidth_eq target returns ready
  have less := derefReads_asPassed_le (m := m) returnType
  rcases returns with rfl | passable
  · exact width
  · by_cases small : returnType.storageSize m ≤ m.pointer.bytes
    · rw [width, derefReads_eq, derefReads_eq, RefType.storageSize, passable.plain.shape_asPassed small,
        RefType.storageSize]
    · rw [← derefReads_eq, target.pointer] at small
      rw [returnSlot, target.ffiArg] at room
      omega

theorem returned_length (rtype : FfiType m.sizeBits) {cells : List Cell}
    (width : cells.length = returnWidth rtype) :
    (returned m rtype cells).length = ffiCallStores m rtype := by
  have extended : cells.length + (m.ffiArg.bytes - cells.length) = max m.ffiArg.bytes cells.length := by
    omega
  cases rtype with
  | aggregate size alignment elements => exact width
  | basic size alignment type =>
    cases type with
    | void => exact width
    | value c =>
      change cells.length = size.toNat at width
      cases c with
      | int signed bits => simpa [returned, ffiCallStores, width] using extended
      | pointer => simpa [returned, ffiCallStores, width] using extended
      | float => exact width
      | double => exact width

theorem ffiCallStores_le (rtype : FfiType m.sizeBits) :
    ffiCallStores m rtype ≤ max m.ffiArg.bytes (returnWidth rtype) := by
  cases rtype with
  | aggregate size alignment elements => exact Nat.le_max_right _ _
  | basic size alignment type =>
    cases type with
    | void => exact Nat.zero_le _
    | value c => cases c <;> simp [ffiCallStores, returnWidth]

/-- The result buffer has room for what is stored and for what is read. -/
theorem result_fits {returnType : RefType} {rtype : FfiType m.sizeBits} (target : IsLP64 m)
    (agrees : returnWidth rtype = derefReads m returnType) :
    ffiCallStores m rtype ≤ resultSize m returnType ∧ derefReads m returnType ≤ resultSize m returnType := by
  have stores := ffiCallStores_le rtype
  have room : max m.ffiArg.bytes (derefReads m returnType) ≤ resultSize m returnType := by
    have reads : derefReads m returnType = m.pointer.bytes ∨ derefReads m returnType = returnType.size m := by
      cases returnType <;> simp [derefReads]
    rw [target.pointer] at reads
    rw [resultSize, target.long, target.ffiArg]
    split <;> omega
  rw [agrees] at stores
  omega

theorem returned_take (rtype : FfiType m.sizeBits) (cells : List Cell) :
    (returned m rtype cells).take cells.length = cells := by
  unfold returned
  split <;> simp

end NodeFfi
