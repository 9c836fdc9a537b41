import NodeFfi.CifPreparation
import NodeFfi.LayoutAgreement
import NodeFfi.TypeMemory

/-! Struct types that change. `defineProperty` of `ref-struct` adds fields until the first instance
is made; `Type` looks at the fields once, and keeps the `ffi_type` on the type. -/
namespace NodeFfi.StructDefinitions

open AlignedLayout Relation
open CifPreparation (Platform Status Outcome andThen ffi_prep_cif_core)
open TypeMemory (TypeRef Below)

/-! ## Struct types -/

/-- A property name. `Object.keys` has the integer indices first, in ascending order. -/
inductive Key where
  | index (n : Nat)
  | name (s : String)
  deriving DecidableEq

/-- The assignment to `fields[name]`, where there is no such field. -/
def insertField : Key → TypeRef → List (Key × TypeRef) → List (Key × TypeRef)
  | .name s, type, fields => fields ++ [(.name s, type)]
  | .index i, type, (.index j, first) :: rest =>
    if i < j then (.index i, type) :: (.index j, first) :: rest
    else (.index j, first) :: insertField (.index i) type rest
  | .index i, type, fields => (.index i, type) :: fields

/-- A ref-struct type: its shape is that of the last `recalc`. -/
structure StructType where
  packed : Bool
  fields : List (Key × TypeRef)
  shape : Shape
  instanceCreated : Bool

/-- What `Type` and libffi have made of the struct types. -/
abbrev Caches (m : DataModel) := CifPreparation.World m.sizeBits

/-- The struct types in a process. -/
structure Process (m : DataModel) where
  types : Nat → StructType
  world : Caches m

/-- No struct type has a field yet. -/
def Process.initial (m : DataModel) (packed : Nat → Bool) : Process m :=
  ⟨fun n => ⟨packed n, [], .empty, false⟩, .initial⟩

section
variable {m : DataModel}

def Process.fields (s : Process m) (n : Nat) : List TypeRef := (s.types n).fields.map Prod.snd

def Process.shapes (s : Process m) (n : Nat) : Shape := (s.types n).shape

/-- `type.indirection > 1 || type.size > 0`. An array type without a length is a pointer. -/
def positive (shapes : Nat → Shape) : TypeRef → Bool
  | .void => false
  | .scalar _ => true
  | .pointer _ => true
  | .array type fixedLength => fixedLength == 0 || positive shapes type
  | .struct object => decide (0 < (shapes object).size)
  | .unknown => true

/-- The assertions of `defineProperty`. -/
def Process.Accepts (s : Process m) (object : Nat) (key : Key) (type : TypeRef) : Prop :=
  (s.types object).instanceCreated = false ∧ positive s.shapes type = true ∧
    key ∉ (s.types object).fields.map Prod.fst

instance (s : Process m) (object : Nat) (key : Key) (type : TypeRef) : Decidable (s.Accepts object key type) :=
  inferInstanceAs (Decidable (_ ∧ _ ∧ _))

/-- The type as a tree, if its storage never changes. -/
def constant : TypeRef → Option RefType
  | .scalar s => some (.scalar s)
  | .pointer _ => some (.pointer .void)
  | .array type fixedLength =>
    if fixedLength = 0 then some (.pointer .void) else (constant type).map fun t => .array t fixedLength
  | _ => none

/-- The storage of a value of a type. -/
def shapeOf (m : DataModel) (shapes : Nat → Shape) : TypeRef → Shape
  | .scalar s => .atom (s.size m) (s.alignment m)
  | .pointer _ => .atom (CType.pointer.size m) (CType.pointer.alignment m)
  | .array type fixedLength =>
    if fixedLength = 0 then .atom (CType.pointer.size m) (CType.pointer.alignment m)
    else .repeated fixedLength (shapeOf m shapes type)
  | .struct object => shapes object
  | _ => .empty

/-- What one field of a struct places. -/
def items (m : DataModel) (shapes : Nat → Shape) : TypeRef → List Shape
  | .array type fixedLength =>
    if fixedLength = 0 then [shapeOf m shapes (.array type fixedLength)]
    else List.replicate fixedLength (shapeOf m shapes type)
  | field => [shapeOf m shapes field]

/-- A pointer whose target is an array of fixed length: it reads the array's `fixedLength`. -/
def misreads : TypeRef → Bool
  | .pointer target => target.elementType.any fun array => 0 < array.2
  | _ => false

/-- An element type whose size is known when the struct type with this number is laid out. The
size of an array type is from when it was made. -/
def elementNatural (object : Nat) : TypeRef → Bool
  | .array type fixedLength => (constant (.array type fixedLength)).isSome
  | .struct n => n != object
  | .unknown => false
  | _ => true

/-- A field that `recalc` places by the natural rule: no struct type in itself, no pointer that it
takes for an array, and no type that only the user knows. -/
def natural (object : Nat) (field : TypeRef) : Bool :=
  match field with
  | .array type fixedLength => fixedLength == 0 || elementNatural object type
  | field => !misreads field && elementNatural object field

/-- What is known of the result of `recalc`. -/
def Process.Recalculated (s : Process m) (object : Nat) (fields : List TypeRef) (shape : Shape) : Prop :=
  (s.types object).packed = false → (∀ field ∈ fields, natural object field = true) →
    shape = .sequence (fields.flatMap (items m s.shapes))

instance (s : Process m) (object : Nat) (fields : List TypeRef) (shape : Shape) :
    Decidable (s.Recalculated object fields shape) := inferInstanceAs (Decidable (_ → _ → _))

/-! ## `Type` -/

/-- The entry of `FFI_TYPES` for a C type. -/
def basic (m : DataModel) (c : CType) : Descriptor m.sizeBits :=
  .basic (BitVec.ofNat _ (c.size m)) (c.alignment m) (.value c)

/-- The second pass over a struct's fields, with `resolve` for `Type`. -/
def fieldElements (resolve : TypeRef → Caches m → Option (Descriptor m.sizeBits) × Caches m) :
    List TypeRef → Caches m → Option (List (Descriptor m.sizeBits)) × Caches m
  | [], world => (some [], world)
  | field :: rest, world =>
    andThen (resolve field.element.1 world) fun ffi_type_ptr world =>
      andThen (fieldElements resolve rest world) fun others world =>
        (some (List.replicate field.element.2 ffi_type_ptr ++ others), world)

/-- `lib/type.js`, `Type`, on a stack for `depth` nested calls; `none` is what it throws. -/
def typeOf (fields : Nat → List TypeRef) :
    Nat → TypeRef → Caches m → Option (Descriptor m.sizeBits) × Caches m
  | 0, _, world => (none, world)
  | _ + 1, .void, world => (some (.basic 1 1 .void), world)
  | _ + 1, .scalar s, world => (some (basic m (s.ffiType m)), world)
  | _ + 1, .pointer _, world => (some (basic m .pointer), world)
  | _ + 1, .array _ _, world => (some (basic m .pointer), world)
  | _ + 1, .unknown, world => (none, world)
  | depth + 1, .struct object, world =>
    match world.ffi_type object with
    | some ffi_type => (some ffi_type, world)
    | none => andThen (fieldElements (typeOf fields depth) (fields object) world) fun elements world =>
        (some (.aggregate object elements), world.create object elements)

/-- The loop of `CIF` over the argument types. -/
def typesOf (fields : Nat → List TypeRef) (depth : Nat) :
    List TypeRef → Caches m → Option (List (Descriptor m.sizeBits)) × Caches m
  | [], world => (some [], world)
  | type :: rest, world =>
    andThen (typeOf fields depth type world) fun ffiType world =>
      andThen (typesOf fields depth rest world) fun others world => (some (ffiType :: others), world)

/-- The target, with the pointers of its data model. -/
structure Target (m : DataModel) where
  firstAbi : Int
  lastAbi : Int
  machdep : Option Nat → Int → FfiType m.sizeBits → List (FfiType m.sizeBits) → Status

def Target.platform (target : Target m) : Platform m.sizeBits where
  pointer := ⟨BitVec.ofNat _ (CType.pointer.size m), CType.pointer.alignment m⟩
  firstAbi := target.firstAbi
  lastAbi := target.lastAbi
  machdep := target.machdep

/-- A call of `CIF`, or of `CIF_var` with its `numFixedArgs`. `ForeignFunction`, the variadic one
and `Callback` make one each, and do nothing else with a struct type. -/
structure Request where
  numFixedArgs : Option Nat
  rtype : TypeRef
  types : List TypeRef
  abi : Int
  depth : Nat

def Request.all (request : Request) : List TypeRef := request.rtype :: request.types

/-- `CIF` and `CIF_var`. -/
def prepareCif (target : Target m) (s : Process m) (request : Request) : Outcome m.sizeBits × Caches m :=
  if request.numFixedArgs = some 0 then (.assertion, s.world)
  else
    match typesOf s.fields request.depth request.all s.world with
    | (some (rtype :: types), world) =>
      let (status, extents) :=
        ffi_prep_cif_core target.platform request.numFixedArgs request.abi rtype types world.extents
      (.of status (rtype.read extents) (types.map (Descriptor.read extents)), { world with extents })
    | (_, world) => (.assertion, world)

/-! ## Runs -/

/-- `defineProperty` with the shape that `recalc` comes to, the first instance of a struct type, a
call of `Type`, and a call that prepares a cif. -/
inductive Event where
  | defineProperty (object : Nat) (key : Key) (type : TypeRef) (shape : Shape)
  | createInstance (object : Nat)
  | type (depth : Nat) (t : TypeRef)
  | cif (request : Request)

def Process.set (s : Process m) (object : Nat) (type : StructType) : Process m :=
  { s with types := Function.update s.types object type }

theorem Process.set_self (s : Process m) (object : Nat) (type : StructType) : (s.set object type).types object = type :=
  Function.update_self ..

theorem Process.set_other {object n : Nat} (s : Process m) (type : StructType) (other : n ≠ object) :
    (s.set object type).types n = s.types n := Function.update_of_ne other ..

def step (target : Target m) (s : Process m) : Event → Option (Process m)
  | .defineProperty object key type shape =>
    let fields := insertField key type (s.types object).fields
    if s.Accepts object key type then
      if s.Recalculated object (fields.map Prod.snd) shape then some (s.set object { s.types object with fields, shape })
      else none
    else some s
  | .createInstance object => some (s.set object { s.types object with instanceCreated := true })
  | .type depth t => some { s with world := (typeOf s.fields depth t s.world).2 }
  | .cif request => some { s with world := (prepareCif target s request).2 }

/-! ## What should hold -/

/-- What a field should be in `elements`: `fixedLength` times the element type for a fixed-length
array, and once the field's own type for everything else. -/
def expected : TypeRef → TypeRef × Nat
  | .array type fixedLength => if fixedLength > 0 then (type, fixedLength) else (.array type fixedLength, 1)
  | field => (field, 1)

/-- The `ffi_type` that `Type` has for a type. -/
def resolved (world : Caches m) : TypeRef → Option (Descriptor m.sizeBits)
  | .void => some (.basic 1 1 .void)
  | .scalar s => some (basic m (s.ffiType m))
  | .pointer _ => some (basic m .pointer)
  | .array _ _ => some (basic m .pointer)
  | .struct object => world.ffi_type object
  | .unknown => none

/-- The `ffi_type`s for the fields in order, each as often as `element` says. -/
def listed (world : Caches m) (element : TypeRef → TypeRef × Nat) :
    List TypeRef → Option (List (Descriptor m.sizeBits))
  | [] => some []
  | field :: rest =>
    (resolved world (element field).1).bind fun ffi_type =>
      (listed world element rest).map fun others => List.replicate (element field).2 ffi_type ++ others

/-- The struct type is one of these types, or nested in one. -/
def Used (fields : Nat → List TypeRef) (types : List TypeRef) (n : Nat) : Prop :=
  ∃ object, TypeRef.struct object ∈ types ∧ ReflTransGen (Below fields) n object

/-- **A cif that is prepared has the present fields**: libffi is given the `ffi_type`s of the types,
and that of each struct type lists its fields as they are. -/
def FollowsFields (target : Target m) (s : Process m) : Event → Prop
  | .cif request => ∀ rtype types, (prepareCif target s request).1 = .cif rtype types →
    let world := (prepareCif target s request).2
    (request.all.map fun type => (resolved world type).map (Descriptor.read world.extents)) =
        (rtype :: types).map some ∧
      ∀ n, Used s.fields request.all n → ∃ elements, world.ffi_type n = some (.aggregate n elements) ∧
        listed world expected (s.fields n) = some elements
  | _ => True

/-- **And their sizes**: what libffi has computed is the `size` that the type has. -/
def FollowsSizes (target : Target m) (s : Process m) : Event → Prop
  | .cif request => ∀ rtype types, (prepareCif target s request).1 = .cif rtype types →
    ∀ n, Used s.fields request.all n → ((prepareCif target s request).2.extents n).size.toNat = (s.types n).shape.size
  | _ => True

/-! ## When it holds -/

/-- A field is defined on a struct type that `Type` has not seen, and no cif uses a struct type with
a pointer that `Type` takes for an array. -/
def Unseen (s : Process m) : Event → Prop
  | .defineProperty object key type _ => s.Accepts object key type → s.world.ffi_type object = none
  | .cif request => ∀ n, Used s.fields request.all n → ∀ field ∈ s.fields n, misreads field = false
  | _ => True

/-- `Type` has an `ffi_type` of the leaf's size and alignment for each leaf of the type. -/
def elementLeafwise (m : DataModel) : TypeRef → Prop
  | .scalar s => Encodable m (.scalar s)
  | .array type fixedLength => ∀ t ∈ constant (.array type fixedLength), PointerShaped m t
  | _ => True

/-- It writes one for each leaf of the field. -/
def Leafwise (m : DataModel) : TypeRef → Prop
  | .array type fixedLength => 0 < fixedLength → elementLeafwise m type
  | field => elementLeafwise m field

/-- A struct type that `ref-struct` lays out as `Type` encodes it, in less than the address space. -/
structure Process.Plain (s : Process m) (n : Nat) : Prop where
  unpacked : (s.types n).packed = false
  fits : (s.types n).shape.size < 2 ^ m.sizeBits
  fields : ∀ field ∈ s.fields n, natural n field = true ∧ Leafwise m field

/-- A field is defined on a struct type that neither `Type` has seen nor another struct type has in
it, and cifs use plain struct types. -/
def Settled (s : Process m) : Event → Prop
  | .defineProperty object key type _ =>
    s.Accepts object key type → s.world.ffi_type object = none ∧ ∀ n, ¬ Below s.fields object n
  | .cif request => ∀ n, Used s.fields request.all n → s.Plain n
  | _ => True

end

end NodeFfi.StructDefinitions
