import NodeFfi.TypeDescriptors

/-! The cifs that `lib/cif.js` and `lib/cif_var.js` prepare, one after another in one
process. `Type` caches the `ffi_type` of a struct type on the type before libffi has
looked at it; `ffi_prep_cif_core` then fills in the cached one. -/
namespace NodeFfi.CifPreparation

variable {w : Nat}

/-- A type as `Type` sees it. `given` has an `ffi_type` already, one without elements, or
more than one level of indirection; `array` reads a `fixedLength`, as an array and a pointer
to one do; a struct type is an object and is known by its number. -/
inductive JsType (w : Nat) where
  | given (size : BitVec w) (alignment : Nat) (type : FfiTypeCode)
  | array (type : JsType w) (fixedLength : Nat)
  | struct (object : Nat) (fields : List (JsType w))
  | unknown

/-- `ffi_status`. -/
inductive Status
  | FFI_OK
  | FFI_BAD_TYPEDEF
  | FFI_BAD_ABI
  deriving DecidableEq, Repr

/-- The target: `ffi_type_pointer`, the ABIs, and `ffi_prep_cif_machdep`, which reads the
types and writes the cif. -/
structure Platform (w : Nat) where
  pointer : Extent w
  firstAbi : Int
  lastAbi : Int
  machdep : Option Nat → Int → FfiType w → List (FfiType w) → Status

/-- The struct types' `ffi_type` properties, and the memory these point to: that of struct
type number `n` stands at address `n`. -/
structure World (w : Nat) where
  ffi_type : Nat → Option (Descriptor w)
  extents : Extents w

def World.initial : World w := ⟨fun _ => none, fun _ => ⟨0, 0⟩⟩

/-- What throws, throws on. -/
def andThen {α β : Type} (run : Option α × World w) (next : α → World w → Option β × World w) :
    Option β × World w :=
  match run with
  | (none, world) => (none, world)
  | (some value, world) => next value world

section
variable (p : Platform w)

def Platform.pointerType : Descriptor w := .basic p.pointer.size p.pointer.alignment (.value .pointer)

mutual

/-- `lib/type.js`, `Type`; `none` is a failed assertion. -/
def typeOf : JsType w → World w → Option (Descriptor w) × World w
  | .given size alignment type, world => (some (.basic size alignment type), world)
  | .array _ _, world => (some p.pointerType, world)
  | .unknown, world => (none, world)
  | .struct object fields, world =>
    match world.ffi_type object with
    | some ffi_type => (some ffi_type, world)
    | none => andThen (fieldElements fields world) fun elements world =>
        (some (.aggregate object elements),
          { ffi_type := Function.update world.ffi_type object (some (.aggregate object elements))
            extents := Function.update world.extents object ⟨0, 0⟩ })

/-- The second pass over a struct's fields, which writes `elements`. -/
def fieldElements : List (JsType w) → World w → Option (List (Descriptor w)) × World w
  | [], world => (some [], world)
  | .array type fixedLength :: rest, world =>
    andThen
      (if fixedLength > 0 then
        andThen (typeOf type world) fun ffi_type world =>
          (some (List.replicate fixedLength ffi_type), world)
      else (some [p.pointerType], world))
      fun first world => andThen (fieldElements rest world) fun others world =>
        (some (first ++ others), world)
  | field :: rest, world =>
    andThen (typeOf field world) fun ffi_type world =>
      andThen (fieldElements rest world) fun others world => (some (ffi_type :: others), world)

end

/-- The loop of `CIF` over the argument types. -/
def typesOf : List (JsType w) → World w → Option (List (Descriptor w)) × World w
  | [], world => (some [], world)
  | type :: rest, world =>
    andThen (typeOf p type world) fun ffiType world =>
      andThen (typesOf rest world) fun others world => (some (ffiType :: others), world)

/-- The types of a cif, in the order in which `ffi_prep_cif_core` initialises them. -/
def prepareAll : List (Descriptor w) → Extents w → Bool × Extents w
  | [], extents => (true, extents)
  | type :: rest, extents =>
    match type.prepare extents with
    | (false, extents) => (false, extents)
    | (true, extents) => prepareAll rest extents

/-- `prep_cif.c`, `ffi_prep_cif_core`. -/
def ffi_prep_cif_core (nfixedargs : Option Nat) (abi : Int) (rtype : Descriptor w)
    (atypes : List (Descriptor w)) (extents : Extents w) : Status × Extents w :=
  if ¬ (abi > p.firstAbi ∧ abi < p.lastAbi) then (.FFI_BAD_ABI, extents)
  else
    match prepareAll (rtype :: atypes) extents with
    | (false, extents) => (.FFI_BAD_TYPEDEF, extents)
    | (true, extents) =>
      (p.machdep nfixedargs abi (rtype.read extents) (atypes.map (Descriptor.read extents)), extents)

/-- What a call gives: a cif with its types as libffi left them, the error for a status, or a
failed assertion. -/
inductive Outcome (w : Nat) where
  | cif (rtype : FfiType w) (types : List (FfiType w))
  | error (status : Status)
  | assertion

/-- The error handling of `CIF`. -/
def Outcome.of (status : Status) (rtype : FfiType w) (types : List (FfiType w)) : Outcome w :=
  match status with
  | .FFI_OK => .cif rtype types
  | .FFI_BAD_TYPEDEF | .FFI_BAD_ABI => .error status

/-- Every struct object in the type has the fields that `fields` has for its number. -/
inductive JsType.Declared (fields : Nat → List (JsType w)) : JsType w → Prop
  | given {size alignment type} : Declared fields (.given size alignment type)
  | unknown : Declared fields .unknown
  | array {type fixedLength} (inner : Declared fields type) : Declared fields (.array type fixedLength)
  | struct {object} (each : ∀ field ∈ fields object, Declared fields field) :
      Declared fields (.struct object (fields object))

/-- A call of `CIF`, or of `CIF_var` with its `numFixedArgs`, on types that exist
together in one process. -/
structure Request (fields : Nat → List (JsType w)) where
  numFixedArgs : Option Nat
  rtype : { t : JsType w // t.Declared fields }
  types : List { t : JsType w // t.Declared fields }
  abi : Int

variable {fields : Nat → List (JsType w)}

/-- `CIF` and `CIF_var`. -/
def prepareCif (request : Request fields) (world : World w) : Outcome w × World w :=
  if request.numFixedArgs = some 0 then (.assertion, world)
  else
    match typeOf p request.rtype.val world with
    | (none, world) => (.assertion, world)
    | (some rtype, world) =>
      match typesOf p (request.types.map Subtype.val) world with
      | (none, world) => (.assertion, world)
      | (some types, world) =>
        let (status, extents) :=
          ffi_prep_cif_core p request.numFixedArgs request.abi rtype types world.extents
        (.of status (rtype.read extents) (types.map (Descriptor.read extents)), { world with extents })

def step (world : World w) (request : Request fields) : Option (World w) :=
  some (prepareCif p request world).2

/-! ## What `Type` returns, cached or not -/

mutual

/-- The descriptor that `Type` returns whenever it is called; `none` is a failed assertion. -/
def descriptor : JsType w → Option (Descriptor w)
  | .given size alignment type => some (.basic size alignment type)
  | .array _ _ => some p.pointerType
  | .unknown => none
  | .struct object fields => (fieldDescriptors fields).map (.aggregate object)

def fieldDescriptors : List (JsType w) → Option (List (Descriptor w))
  | [] => some []
  | .array type fixedLength :: rest =>
    (if fixedLength > 0 then
      (descriptor type).bind fun ffi_type => some (List.replicate fixedLength ffi_type)
    else some [p.pointerType]).bind fun first =>
      (fieldDescriptors rest).bind fun others => some (first ++ others)
  | field :: rest =>
    (descriptor field).bind fun first => (fieldDescriptors rest).bind fun others => some (first :: others)

end

/-- The elements of the `ffi_type` that `Type` makes for each struct object. -/
def elements (fields : Nat → List (JsType w)) (object : Nat) : List (Descriptor w) :=
  (fieldDescriptors p (fields object)).getD []

/-- Every one of these addresses is that of a cached `ffi_type`. -/
def Covered (addresses : List Nat) (world : World w) : Prop :=
  ∀ a ∈ addresses, (world.ffi_type a).isSome

/-- What is cached is what `Type` would make, with all it consists of, and none of it
shows a trace of a failure. -/
structure Consistent (fields : Nat → List (JsType w)) (world : World w) : Prop where
  cached : ∀ n d, world.ffi_type n = some d → descriptor p (.struct n (fields n)) = some d
  within : ∀ n d, world.ffi_type n = some d → Covered d.addresses world
  unset : ∀ n, world.ffi_type n = none → (world.extents n).size = 0
  clean : Descriptor.Clean (elements p fields) world.extents

/-- What calls of `Type` do to the caches: nothing is replaced, and what is new belongs
to struct types no larger than `bound`. -/
structure Grows (fields : Nat → List (JsType w)) (bound : Nat) (world world' : World w) : Prop where
  consistent : Consistent p fields world'
  kept : ∀ n d, world.ffi_type n = some d → world'.ffi_type n = some d
  fresh : ∀ n, world'.ffi_type n = world.ffi_type n ∨ sizeOf (JsType.struct n (fields n)) ≤ bound

variable {p} {bound bound' : Nat} {world world' world'' : World w}

theorem Grows.refl (consistent : Consistent p fields world) : Grows p fields bound world world :=
  ⟨consistent, fun _ _ => id, fun _ => .inl rfl⟩

theorem Grows.trans (first : Grows p fields bound world world')
    (second : Grows p fields bound world' world'') : Grows p fields bound world world'' where
  consistent := second.consistent
  kept := fun n d there => second.kept n d (first.kept n d there)
  fresh := by
    intro n
    rcases second.fresh n with same | small
    · exact (first.fresh n).imp_left same.trans
    · exact .inr small

theorem Grows.widen (grows : Grows p fields bound world world') (wider : bound ≤ bound') :
    Grows p fields bound' world world' :=
  ⟨grows.consistent, grows.kept, fun n => (grows.fresh n).imp_right fun small => Nat.le_trans small wider⟩

theorem Covered.grows {addresses : List Nat} (covered : Covered addresses world)
    (grows : Grows p fields bound world world') : Covered addresses world' := by
  intro a inside
  obtain ⟨d, there⟩ := Option.isSome_iff_exists.mp (covered a inside)
  rw [grows.kept a d there]
  rfl

/-- Where `given` is cached, a run of calls of `Type` returns `value`, makes the caches
grow, and leaves all that `cover` says of its result cached. -/
def Returns {α : Type} (p : Platform w) (fields : Nat → List (JsType w)) (bound : Nat)
    (given : List Nat) (value : Option α) (cover : α → List Nat)
    (run : World w → Option α × World w) : Prop :=
  ∀ world, Consistent p fields world → Covered given world → (run world).1 = value ∧
    Grows p fields bound world (run world).2 ∧ ∀ a ∈ value, Covered (cover a) (run world).2

variable {α β : Type} {given given' : List Nat} {value : Option α} {cover : α → List Nat}
  {run : World w → Option α × World w}

theorem Returns.pure {a : α} (there : ∀ n ∈ cover a, n ∈ given) :
    Returns p fields bound given (some a) cover fun world => (some a, world) := by
  intro world consistent covered
  refine ⟨rfl, .refl consistent, ?_⟩
  rintro b ⟨⟩
  exact fun n inside => covered n (there n inside)

theorem Returns.widen (returns : Returns p fields bound given value cover run)
    (wider : bound ≤ bound') (more : ∀ n ∈ given, n ∈ given') :
    Returns p fields bound' given' value cover run := by
  intro world consistent covered
  obtain ⟨same, grows, inside⟩ := returns world consistent fun n there => covered n (more n there)
  exact ⟨same, grows.widen wider, inside⟩

/-- One run after another. -/
theorem Returns.andThen {after : α → Option β} {cover' : β → List Nat}
    {next : α → World w → Option β × World w} (first : Returns p fields bound given value cover run)
    (second : ∀ a ∈ value, Returns p fields bound (given ++ cover a) (after a) cover' (next a)) :
    Returns p fields bound given (value.bind after) cover' fun world =>
      CifPreparation.andThen (run world) next := by
  intro world consistent there
  beta_reduce
  obtain ⟨same, grows, covered⟩ := first world consistent there
  rcases found : run world with ⟨result, world'⟩
  rw [found] at same grows covered
  cases same
  cases result with
  | none => exact ⟨rfl, grows, nofun⟩
  | some a =>
    have both : Covered (given ++ cover a) world' :=
      List.forall_mem_append.mpr ⟨there.grows grows, covered a rfl⟩
    obtain ⟨same, onward, inside⟩ := second a rfl world' grows.consistent both
    exact ⟨same, grows.trans onward, inside⟩

/-- `Type` returns the descriptor of the type, whatever is cached. -/
abbrev Typed (p : Platform w) (fields : Nat → List (JsType w)) (t : JsType w) : Prop :=
  Returns p fields (sizeOf t) [] (descriptor p t) Descriptor.addresses (typeOf p t)

theorem fieldElements_alone {field : JsType w} (alone : ∀ type n, field ≠ .array type n)
    (rest : List (JsType w)) : fieldElements p (field :: rest) = fun world =>
      CifPreparation.andThen (typeOf p field world) fun ffi_type world =>
        CifPreparation.andThen (fieldElements p rest world) fun others world =>
          (some (ffi_type :: others), world) := by
  funext world
  rw [fieldElements]
  exact alone

theorem fieldDescriptors_alone {field : JsType w} (alone : ∀ type n, field ≠ .array type n)
    (rest : List (JsType w)) : fieldDescriptors p (field :: rest) =
      (descriptor p field).bind fun first =>
        (fieldDescriptors p rest).bind fun others => some (first :: others) := by
  rw [fieldDescriptors]
  exact alone

theorem addresses_replicate {d : Descriptor w} {count a : Nat}
    (inside : a ∈ Descriptor.addressesAll (List.replicate count d)) : a ∈ d.addresses := by
  rw [Descriptor.addressesAll_eq] at inside
  obtain ⟨e, member, within⟩ := List.mem_flatMap.mp inside
  rwa [List.eq_of_mem_replicate member] at within

theorem addresses_append {first others : List (Descriptor w)} {a : Nat}
    (inside : a ∈ Descriptor.addressesAll (first ++ others)) :
    a ∈ Descriptor.addressesAll first ++ Descriptor.addressesAll others := by
  rwa [Descriptor.addressesAll_eq, List.flatMap_append, ← Descriptor.addressesAll_eq,
    ← Descriptor.addressesAll_eq] at inside

theorem fieldElements_returns {rest : List (JsType w)}
    (each : ∀ field ∈ rest, Typed p fields field ∧ ∀ type n, field = .array type n → Typed p fields type) :
    Returns p fields (sizeOf rest) [] (fieldDescriptors p rest) Descriptor.addressesAll
      (fieldElements p rest) := by
  induction rest with
  | nil => exact .pure fun _ inside => inside
  | cons field rest further =>
    rw [List.forall_mem_cons] at each
    have smaller : sizeOf field ≤ sizeOf (field :: rest) ∧ sizeOf rest ≤ sizeOf (field :: rest) := by
      simp only [List.cons.sizeOf_spec]
      omega
    have others : ∀ given : List Nat, Returns p fields (sizeOf (field :: rest)) given
        (fieldDescriptors p rest) Descriptor.addressesAll (fieldElements p rest) :=
      fun given => (further each.2).widen smaller.2 (by simp)
    by_cases isArray : ∃ type n, field = .array type n
    · obtain ⟨type, n, rfl⟩ := isArray
      have first : Returns p fields (sizeOf (JsType.array type n :: rest)) []
          (if n > 0 then (descriptor p type).bind fun ffi_type => some (List.replicate n ffi_type)
            else some [p.pointerType]) Descriptor.addressesAll fun world =>
          if n > 0 then CifPreparation.andThen (typeOf p type world) fun ffi_type world =>
            (some (List.replicate n ffi_type), world)
          else (some [p.pointerType], world) := by
        split
        · have inner : sizeOf type ≤ sizeOf (JsType.array type n) := by
            simp only [JsType.array.sizeOf_spec]
            omega
          apply ((each.1.2 type n rfl).widen (Nat.le_trans inner smaller.1) (by simp)).andThen
          exact fun ffi_type _ => .pure fun a inside => addresses_replicate inside
        · exact .pure fun _ inside => inside
      apply first.andThen
      intro elements _
      apply (others _).andThen
      intro later _
      exact .pure fun a inside => addresses_append inside
    · have alone : ∀ type n, field ≠ .array type n := fun type n same => isArray ⟨type, n, same⟩
      rw [fieldElements_alone alone, fieldDescriptors_alone alone]
      apply (each.1.1.widen smaller.1 (by simp)).andThen
      intro first _
      apply (others _).andThen
      intro later _
      exact .pure fun a inside => inside

/-- The world with an `ffi_type` made for a struct object. -/
def World.create (world : World w) (object : Nat) (elements : List (Descriptor w)) : World w where
  ffi_type := Function.update world.ffi_type object (some (.aggregate object elements))
  extents := Function.update world.extents object ⟨0, 0⟩

theorem covered_create {object : Nat} {members : List (Descriptor w)} {addresses : List Nat}
    (covered : ∀ a ∈ addresses, a = object ∨ (world.ffi_type a).isSome) :
    Covered addresses (world.create object members) := by
  intro a inside
  by_cases own : a = object
  · simp [World.create, own]
  · simpa [World.create, own] using (covered a inside).resolve_left own

/-- `Type` caches a new `ffi_type`. -/
theorem create_grows (consistent : Consistent p fields world) {object : Nat}
    {members : List (Descriptor w)} (new : world.ffi_type object = none)
    (made : fieldDescriptors p (fields object) = some members)
    (covered : Covered (Descriptor.addressesAll members) world) :
    Grows p fields (sizeOf (JsType.struct object (fields object))) world
      (world.create object members) := by
  have other : ∀ {n d}, world.ffi_type n = some d → n ≠ object := by
    rintro n d there rfl
    cases new.symm.trans there
  refine ⟨⟨?_, ?_, ?_, ?_⟩, ?_, ?_⟩
  · intro n d there
    by_cases own : n = object
    · subst n
      have same : some (Descriptor.aggregate object members) = some d :=
        (Function.update_self object _ world.ffi_type).symm.trans there
      rw [descriptor, made, ← same]
      rfl
    · exact consistent.cached n d ((Function.update_of_ne own ..).symm.trans there)
  · intro n d there
    apply covered_create
    by_cases own : n = object
    · subst n
      have same : some (Descriptor.aggregate object members) = some d :=
        (Function.update_self object _ world.ffi_type).symm.trans there
      cases same
      rw [Descriptor.addresses, List.forall_mem_cons]
      exact ⟨.inl rfl, fun a inside => .inr (covered a inside)⟩
    · exact fun a inside =>
        .inr (consistent.within n d ((Function.update_of_ne own ..).symm.trans there) a inside)
  · intro n absent
    by_cases own : n = object
    · simp [World.create, own]
    · have before : world.ffi_type n = none := (Function.update_of_ne own ..).symm.trans absent
      simpa [World.create, own] using consistent.unset n before
  · exact consistent.clean.update (consistent.unset object new) (.inl rfl)
  · exact fun n d there => (Function.update_of_ne (other there) ..).trans there
  · intro n
    by_cases own : n = object
    · subst n
      exact .inr (Nat.le_refl _)
    · exact .inl (Function.update_of_ne own ..)

theorem typed_struct {object : Nat} (each : Returns p fields (sizeOf (fields object)) []
      (fieldDescriptors p (fields object)) Descriptor.addressesAll (fieldElements p (fields object))) :
    Typed p fields (.struct object (fields object)) := by
  intro world consistent covered
  rw [typeOf]
  cases there : world.ffi_type object with
  | some d =>
    have same := consistent.cached object d there
    refine ⟨same.symm, .refl consistent, ?_⟩
    rw [same]
    rintro e ⟨⟩
    exact consistent.within object d there
  | none =>
    obtain ⟨same, grows, inside⟩ := each world consistent covered
    have larger : sizeOf (fields object) < sizeOf (JsType.struct object (fields object)) := by
      simp only [JsType.struct.sizeOf_spec]
      omega
    have still : (fieldElements p (fields object) world).2.ffi_type object = none := by
      rcases grows.fresh object with unchanged | small
      · exact unchanged.trans there
      · exact absurd small (Nat.not_le_of_lt larger)
    rcases found : fieldElements p (fields object) world with ⟨result, world'⟩
    rw [found] at same grows inside still
    cases result with
    | none =>
      refine ⟨by rw [descriptor, ← same]; rfl, grows.widen larger.le, ?_⟩
      rw [descriptor, ← same]
      nofun
    | some members =>
      have created := create_grows grows.consistent still same.symm (inside members same.symm)
      refine ⟨by rw [descriptor, ← same]; rfl, (grows.widen larger.le).trans created, ?_⟩
      rw [descriptor, ← same]
      rintro d ⟨⟩
      exact created.consistent.within object _ (Function.update_self ..)

/-- **`Type` is a function of the type**, and keeps the caches consistent. -/
theorem typed {t : JsType w} (declared : t.Declared fields) :
    Typed p fields t ∧ ∀ type n, t = .array type n → Typed p fields type := by
  induction declared with
  | given => exact ⟨.pure fun _ inside => inside, nofun⟩
  | unknown => exact ⟨fun world consistent _ => ⟨rfl, .refl consistent, nofun⟩, nofun⟩
  | array inner ih =>
    refine ⟨.pure fun _ inside => inside, ?_⟩
    rintro type n ⟨⟩
    exact ih.1
  | struct each ih => exact ⟨typed_struct (fieldElements_returns ih), nofun⟩

/-- The descriptors that the calls of `Type` for a cif return. -/
def descriptors (p : Platform w) : List (JsType w) → Option (List (Descriptor w))
  | [] => some []
  | type :: rest =>
    (descriptor p type).bind fun first => (descriptors p rest).bind fun others => some (first :: others)

theorem typesOf_returns {types : List (JsType w)} (declared : ∀ t ∈ types, t.Declared fields) :
    Returns p fields (sizeOf types) [] (descriptors p types) Descriptor.addressesAll
      (typesOf p types) := by
  induction types with
  | nil => exact .pure fun _ inside => inside
  | cons t rest further =>
    rw [List.forall_mem_cons] at declared
    have smaller : sizeOf t ≤ sizeOf (t :: rest) ∧ sizeOf rest ≤ sizeOf (t :: rest) := by
      simp only [List.cons.sizeOf_spec]
      omega
    apply ((typed declared.1).1.widen smaller.1 (by simp)).andThen
    intro first _
    apply ((further declared.2).widen smaller.2 (by simp)).andThen
    intro others _
    exact .pure fun a inside => inside

end

end NodeFfi.CifPreparation
