import NodeFfi.StructDescriptors
import NodeFfi.ElementArrays
import NodeFfi.TypeStability

/-! `Type` is modelled at five levels: on type trees, on struct types with numbers whose
`ffi_type`s are cached, on the same with the fields as they come to be defined, on Buffers and
on objects with prototypes. For a type that has a tree they all come to the `ffi_type` of
the tree. -/
namespace NodeFfi.TypeTrees

open TypeMemory (TypeRef)

/-- The type as a tree, with the fields in place of a struct type's number. What a pointer
points to is left out, unless a `fixedLength` is read from it. -/
inductive Unfolds (fields : Nat → List TypeRef) : TypeRef → RefType → Prop
  | void : Unfolds fields .void .void
  | scalar (s : Scalar) : Unfolds fields (.scalar s) (.scalar s)
  | pointer {target : TypeRef} (plain : target.elementType = none) :
      Unfolds fields (.pointer target) (.pointer .void)
  | toArray {target : TypeRef} {t : RefType} (array : target.elementType ≠ none)
      (inner : Unfolds fields target t) : Unfolds fields (.pointer target) (.pointer t)
  | array {type : TypeRef} {t : RefType} {fixedLength : Nat} (inner : Unfolds fields type t) :
      Unfolds fields (.array type fixedLength) (.array t fixedLength)
  | struct {object : Nat} {trees : List RefType} (length : (fields object).length = trees.length)
      (each : ∀ field t, (field, t) ∈ (fields object).zip trees → Unfolds fields field t) :
      Unfolds fields (.struct object) (.struct trees)

section
variable {m : DataModel} {fields : Nat → List TypeRef} {type field : TypeRef} {t : RefType}

theorem Unfolds.elementType_none (unfolds : Unfolds fields type t) (nothing : type.elementType = none) :
    t.elementType = none := by
  cases unfolds with
  | toArray array _ => exact absurd nothing array
  | array _ => cases nothing
  | _ => rfl

theorem Unfolds.elementType_some (unfolds : Unfolds fields type t) {array : TypeRef × Nat}
    (reads : type.elementType = some array) : ∃ inner, t.elementType = some (inner, array.2) ∧
      Unfolds fields array.1 inner ∧ sizeOf inner ≤ sizeOf t := by
  induction unfolds with
  | toArray _ _ further =>
    obtain ⟨inner, same, unfolds, smaller⟩ := further reads
    refine ⟨inner, same, unfolds, Nat.le_trans smaller ?_⟩
    simp only [RefType.pointer.sizeOf_spec]
    omega
  | @array type t fixedLength inner =>
    obtain rfl : (type, fixedLength) = array := Option.some.inj reads
    refine ⟨t, rfl, inner, ?_⟩
    simp only [RefType.array.sizeOf_spec]
    omega
  | pointer plain =>
    cases plain.symm.trans reads
  | _ => cases reads

/-- What `Type` resolves for a field has a tree too, and is written as often as for the tree. -/
theorem Unfolds.element (m : DataModel) (unfolds : Unfolds fields field t) :
    ∃ inner, Unfolds fields field.element.1 inner ∧ sizeOf inner ≤ sizeOf t ∧
      fieldFfiTypes m t = List.replicate field.element.2 (ffiType m inner) := by
  rw [TypeRef.element]
  cases reads : field.elementType with
  | none =>
    refine ⟨t, unfolds, Nat.le_refl _, fieldFfiTypes_none ?_⟩
    intro array there
    cases (unfolds.elementType_none reads).symm.trans there
  | some array =>
    obtain ⟨inner, same, unfolds', smaller⟩ := unfolds.elementType_some reads
    by_cases positive : array.2 > 0
    · simp only [if_pos positive]
      exact ⟨inner, unfolds', smaller, fieldFfiTypes_some same positive⟩
    · simp only [if_neg positive]
      refine ⟨t, unfolds, Nat.le_refl _, fieldFfiTypes_none ?_⟩
      intro array there
      cases same.symm.trans there
      omega

/-! ## Which types have a tree -/

/-- The struct type in a type, but for one that is only pointed to. -/
def inside : TypeRef → Option Nat
  | .struct object => some object
  | .array type _ => inside type
  | .pointer target => if target.elementType = none then none else inside target
  | _ => none

/-- No type in this one is unknown. -/
def Known : TypeRef → Prop
  | .unknown => False
  | .array type _ => Known type
  | .pointer target => target.elementType ≠ none → Known target
  | _ => True

/-- The first struct type is in a field of the second. -/
def Inside (fields : Nat → List TypeRef) (n object : Nat) : Prop := ∃ field ∈ fields object, inside field = some n

theorem exists_of_inside (type : TypeRef) (known : Known type)
    (structs : ∀ n, inside type = some n → ∃ t, Unfolds fields (.struct n) t) : ∃ t, Unfolds fields type t := by
  induction type with
  | void => exact ⟨_, .void⟩
  | scalar s => exact ⟨_, .scalar s⟩
  | unknown => exact known.elim
  | struct object => exact structs object rfl
  | array type fixedLength further =>
    obtain ⟨t, unfolds⟩ := further known structs
    exact ⟨_, .array unfolds⟩
  | pointer target further =>
    by_cases plain : target.elementType = none
    · exact ⟨_, .pointer plain⟩
    · obtain ⟨t, unfolds⟩ := further (known plain) fun n same => structs n ((if_neg plain).trans same)
      exact ⟨_, .toArray plain unfolds⟩

theorem exists_trees {rest : List TypeRef} (each : ∀ field ∈ rest, ∃ t, Unfolds fields field t) :
    ∃ trees, rest.length = trees.length ∧ ∀ field t, (field, t) ∈ rest.zip trees → Unfolds fields field t := by
  induction rest with
  | nil => exact ⟨[], rfl, fun _ _ member => by cases member⟩
  | cons field rest further =>
    rw [List.forall_mem_cons] at each
    obtain ⟨t, unfolds⟩ := each.1
    obtain ⟨trees, length, those⟩ := further each.2
    refine ⟨t :: trees, congrArg Nat.succ length, ?_⟩
    intro field' t' member
    rcases List.mem_cons.mp member with first | later
    · cases first
      exact unfolds
    · exact those field' t' later

/-- A known type has a tree if no struct type in it is in itself. -/
theorem exists_unfolds (finite : ∀ n, inside type = some n → Acc (Inside fields) n) (known : Known type)
    (all : ∀ n, ∀ field ∈ fields n, Known field) : ∃ t, Unfolds fields type t := by
  have struct : ∀ n, Acc (Inside fields) n → ∃ t, Unfolds fields (.struct n) t := by
    intro n finite
    induction finite with
    | intro n _ further =>
      obtain ⟨trees, length, each⟩ := exists_trees fun field member =>
        exists_of_inside field (all n field member) fun k inner => further k ⟨field, member, inner⟩
      exact ⟨_, .struct length each⟩
  exact exists_of_inside type known fun n same => struct n (finite n same)

/-! ## Reading types -/

/-- What `P` has for the fields in order, each as often as `Type` writes it. -/
def Lists {w : Nat} (P : TypeRef → FfiType w → Prop) : List TypeRef → List (FfiType w) → Prop
  | [], elements => elements = []
  | field :: rest, elements => ∃ first others, P field.element.1 first ∧ Lists P rest others ∧
      elements = List.replicate field.element.2 first ++ others

/-- A relation of types to `ffi_type`s that are as `Type` leaves them: it has the predefined
ones, and for a struct type the one that lists what it has for the fields. -/
structure Reading (m : DataModel) (fields : Nat → List TypeRef)
    (P : TypeRef → FfiType m.sizeBits → Prop) : Prop where
  void : P .void (ffiTypeVoid m)
  scalar : ∀ s : Scalar, P (.scalar s) ((s.ffiType m).ffiType m)
  pointer : ∀ target, P (.pointer target) (CType.pointer.ffiType m)
  array : ∀ type fixedLength, P (.array type fixedLength) (CType.pointer.ffiType m)
  struct : ∀ object elements, Lists P (fields object) elements → P (.struct object) (.aggregate 0 0 elements)

variable {P : TypeRef → FfiType m.sizeBits → Prop}

theorem lists_of_trees {rest : List TypeRef} {trees : List RefType} (length : rest.length = trees.length)
    (each : ∀ field t, (field, t) ∈ rest.zip trees → Unfolds fields field t)
    (reads : ∀ t ∈ trees, ∀ type inner, sizeOf inner ≤ sizeOf t → Unfolds fields type inner →
      P type (ffiType m inner)) : Lists P rest (trees.flatMap (fieldFfiTypes m)) := by
  induction rest generalizing trees with
  | nil =>
    obtain rfl := List.length_eq_zero_iff.mp length.symm
    rfl
  | cons field rest further =>
    cases trees with
    | nil => cases length
    | cons t trees =>
      rw [List.forall_mem_cons] at reads
      obtain ⟨inner, unfolds, smaller, written⟩ := (each field t List.mem_cons_self).element m
      refine ⟨ffiType m inner, trees.flatMap (fieldFfiTypes m), reads.1 _ inner smaller unfolds, ?_, ?_⟩
      · exact further (Nat.succ.inj length)
          (fun field t inside => each field t (List.mem_cons_of_mem _ inside)) reads.2
      · rw [List.flatMap_cons, written]

/-- **A reading has the `ffi_type` of the tree for a type that has a tree.** The induction is
on the tree's size: what `Type` resolves for a field may lie further down. -/
theorem Reading.agrees (reading : Reading m fields P) (unfolds : Unfolds fields type t) :
    P type (ffiType m t) := by
  induction sized : sizeOf t using Nat.strongRecOn generalizing type t with
  | ind size smaller =>
    cases unfolds with
    | void => exact reading.void
    | scalar s => exact reading.scalar s
    | pointer | toArray => exact reading.pointer _
    | array => exact reading.array _ _
    | @struct object trees length each =>
      rw [ffiType_struct]
      apply reading.struct
      apply lists_of_trees length each
      intro t member type inner within unfolds
      have below := List.sizeOf_lt_of_mem member
      simp only [RefType.struct.sizeOf_spec] at sized
      exact smaller (sizeOf inner) (by omega) unfolds rfl

end

/-! ## Cached `ffi_type`s -/

section
variable {m : DataModel} {fields : Nat → List TypeRef} {world : StructDefinitions.Caches m}
  {type : TypeRef} {t : RefType} {depth : Nat}

/-- Where the type has an `ffi_type`, it is this one as `Type` leaves it. -/
def Cached (world : StructDefinitions.Caches m) (type : TypeRef) (f : FfiType m.sizeBits) : Prop :=
  ∀ d, StructDefinitions.resolved world type = some d → d.blank = f

theorem blankAll_of_listed {rest : List TypeRef} {elements : List (Descriptor m.sizeBits)}
    {ffiTypes : List (FfiType m.sizeBits)}
    (listed : StructDefinitions.listed world TypeRef.element rest = some elements)
    (lists : Lists (Cached world) rest ffiTypes) : Descriptor.blankAll elements = ffiTypes := by
  induction rest generalizing elements ffiTypes with
  | nil =>
    cases listed
    exact lists.symm
  | cons field rest further =>
    obtain ⟨first, others, reads, onward, rfl⟩ := lists
    obtain ⟨d, resolves, later⟩ := Option.bind_eq_some_iff.mp listed
    obtain ⟨ds, tail, rfl⟩ := Option.map_eq_some_iff.mp later
    have rest_blank := further tail onward
    rw [Descriptor.blankAll, Descriptor.readAll_eq] at rest_blank ⊢
    rw [List.map_append, List.map_replicate, rest_blank]
    exact congrArg (List.replicate field.element.2 · ++ others) (reads d resolves)

theorem cached_reading (consistent : StructDefinitions.Consistent fields world) :
    Reading m fields (Cached world) where
  void := by
    rintro d ⟨⟩
    rfl
  scalar := by
    rintro s d ⟨⟩
    rfl
  pointer := by
    rintro target d ⟨⟩
    rfl
  array := by
    rintro type fixedLength d ⟨⟩
    rfl
  struct := by
    intro object elements lists d there
    obtain ⟨members, rfl, listed⟩ := consistent.cached object d there
    rw [← blankAll_of_listed listed lists]
    rfl

theorem fieldElements_returns {rest : List TypeRef} {trees : List RefType}
    {resolve : TypeRef → StructDefinitions.Caches m → Option (Descriptor m.sizeBits) × StructDefinitions.Caches m}
    (length : rest.length = trees.length)
    (each : ∀ field t, (field, t) ∈ rest.zip trees → Unfolds fields field t)
    (returns : ∀ t ∈ trees, ∀ type inner, sizeOf inner ≤ sizeOf t → Unfolds fields type inner →
      ∀ world, ((resolve type world).1).isSome) (world : StructDefinitions.Caches m) :
    ((StructDefinitions.fieldElements resolve rest world).1).isSome := by
  induction rest generalizing trees world with
  | nil => rfl
  | cons field rest further =>
    cases trees with
    | nil => cases length
    | cons t trees =>
      rw [List.forall_mem_cons] at returns
      obtain ⟨inner, unfolds, smaller, _⟩ := (each field t List.mem_cons_self).element m
      have first := returns.1 _ inner smaller unfolds world
      rw [StructDefinitions.fieldElements]
      rcases found : resolve field.element.1 world with ⟨_ | d, between⟩
      · rw [found] at first
        cases first
      · have others := further (Nat.succ.inj length)
          (fun field t inside => each field t (List.mem_cons_of_mem _ inside)) returns.2 between
        simp only [CifPreparation.andThen]
        rcases ran : StructDefinitions.fieldElements resolve rest between with ⟨_ | ds, final⟩
        · rw [ran] at others
          cases others
        · rfl

/-- The stack for as many calls as the tree is large is enough. -/
theorem typeOf_returns (unfolds : Unfolds fields type t) (deep : sizeOf t ≤ depth)
    (world : StructDefinitions.Caches m) : ((StructDefinitions.typeOf fields depth type world).1).isSome := by
  induction depth generalizing type t world with
  | zero => cases t <;> simp at deep
  | succ depth further =>
    cases unfolds with
    | @struct object trees length each =>
      rw [StructDefinitions.typeOf]
      cases world.ffi_type object with
      | some d => rfl
      | none =>
        have elements := fieldElements_returns (m := m) length each
          (fun t member type inner within unfolds => further unfolds (by
            have below := List.sizeOf_lt_of_mem member
            simp only [RefType.struct.sizeOf_spec] at deep
            omega)) world
        rcases ran : StructDefinitions.fieldElements (StructDefinitions.typeOf fields depth) (fields object) world with
          ⟨_ | ds, between⟩
        · rw [ran] at elements
          cases elements
        · rfl
    | _ => rfl

/-- **`Type` on struct types that it caches** makes the `ffi_type` of the tree. -/
theorem typeOf_agrees (consistent : StructDefinitions.Consistent fields world)
    (unfolds : Unfolds fields type t) (deep : sizeOf t ≤ depth) :
    ∃ d, (StructDefinitions.typeOf fields depth type world).1 = some d ∧ d.blank = ffiType m t := by
  obtain ⟨d, returns⟩ := Option.isSome_iff_exists.mp (typeOf_returns unfolds deep world)
  have made := StructDefinitions.typeOf_made depth type consistent
  exact ⟨d, returns, (cached_reading made.grows.consistent).agrees unfolds d (made.resolves d returns)⟩

end

/-! ## Types that all exist beforehand -/

section
variable {m : DataModel} {fields : Nat → List TypeRef} {type : TypeRef} {t : RefType} {depth : Nat}

/-- A field as the second pass looks at it, with `resolve` for its type. -/
def viewField (resolve : TypeRef → CifPreparation.JsType m.sizeBits) (field : TypeRef) :
    CifPreparation.JsType m.sizeBits :=
  match field.elementType with
  | some (type, fixedLength) => if fixedLength > 0 then .array (resolve type) fixedLength else resolve field
  | none => resolve field

def given (m : DataModel) (c : CType) : CifPreparation.JsType m.sizeBits :=
  .given (BitVec.ofNat _ (c.size m)) (c.alignment m) (.value c)

/-- The type with the fields of the struct types in it, as far as `depth` nested calls get. -/
def view (m : DataModel) (fields : Nat → List TypeRef) : Nat → TypeRef → CifPreparation.JsType m.sizeBits
  | 0, _ => .unknown
  | _ + 1, .void => .given 1 1 .void
  | _ + 1, .scalar s => given m (s.ffiType m)
  | _ + 1, .pointer _ => given m .pointer
  | _ + 1, .array _ _ => given m .pointer
  | _ + 1, .unknown => .unknown
  | depth + 1, .struct object => .struct object ((fields object).map (viewField (view m fields depth)))

theorem view_alone (depth : Nat) (type : TypeRef) :
    ∀ inner n, view m fields depth type ≠ .array inner n := by
  intro inner n same
  cases depth with
  | zero => cases same
  | succ depth => cases type <;> cases same

/-- The two second passes do the same if the two `Type`s do. -/
theorem fieldElements_view {p : CifPreparation.Platform m.sizeBits}
    {resolve : TypeRef → CifPreparation.JsType m.sizeBits}
    {resolve' : TypeRef → StructDefinitions.Caches m → Option (Descriptor m.sizeBits) × StructDefinitions.Caches m}
    (alone : ∀ type inner n, resolve type ≠ .array inner n)
    (same : ∀ type world, CifPreparation.typeOf p (resolve type) world = resolve' type world)
    (rest : List TypeRef) (world : StructDefinitions.Caches m) :
    CifPreparation.fieldElements p (rest.map (viewField resolve)) world =
      StructDefinitions.fieldElements resolve' rest world := by
  induction rest generalizing world with
  | nil => rfl
  | cons field rest further =>
    have single : viewField resolve field = resolve field → field.element = (field, 1) →
        CifPreparation.fieldElements p ((field :: rest).map (viewField resolve)) world =
          StructDefinitions.fieldElements resolve' (field :: rest) world := by
      intro plain once
      rw [List.map_cons, plain, CifPreparation.fieldElements_alone (alone field), StructDefinitions.fieldElements, once]
      dsimp only
      rw [same]
      rcases resolve' field world with ⟨_ | d, between⟩
      · rfl
      · simp only [CifPreparation.andThen, further]
        rfl
    cases reads : field.elementType with
    | none => exact single (by rw [viewField, reads]) (by rw [TypeRef.element, reads])
    | some array =>
      obtain ⟨type, fixedLength⟩ := array
      by_cases positive : fixedLength > 0
      · have viewed : viewField resolve field = .array (resolve type) fixedLength := by
          rw [viewField, reads]
          exact if_pos positive
        have several : field.element = (type, fixedLength) := by
          rw [TypeRef.element, reads]
          exact if_pos positive
        rw [List.map_cons, viewed, CifPreparation.fieldElements, if_pos positive, StructDefinitions.fieldElements,
          several, same]
        rcases resolve' type world with ⟨_ | d, between⟩
        · rfl
        · simp only [CifPreparation.andThen, further]
      · apply single
        · rw [viewField, reads]
          exact if_neg positive
        · rw [TypeRef.element, reads]
          exact if_neg positive

/-- **`Type` on types that all exist beforehand** does to the caches, and returns, what `Type`
does that looks the fields up as it goes. -/
theorem typeOf_view (target : StructDefinitions.Target m) (depth : Nat) (type : TypeRef)
    (world : StructDefinitions.Caches m) :
    CifPreparation.typeOf target.platform (view m fields depth type) world =
      StructDefinitions.typeOf fields depth type world := by
  induction depth generalizing type world with
  | zero => rfl
  | succ depth further =>
    cases type with
    | struct object =>
      rw [view, CifPreparation.typeOf, StructDefinitions.typeOf,
        fieldElements_view (view_alone depth) further]
      cases world.ffi_type object <;> rfl
    | _ => rfl

end

/-! ## Buffers -/

section
open TypeMemory PartialPrograms

variable {m : DataModel} {B : Bindings m} {fields : Nat → List TypeRef} {memory memory' : Memory}
  {type : TypeRef} {t : RefType} {depth : Nat}

/-- The entry of `FFI_TYPES` for a type code. -/
def predefined (m : DataModel) : FfiTypeCode → FfiType m.sizeBits
  | .void => ffiTypeVoid m
  | .value c => c.ffiType m

mutual

/-- The Buffer is the predefined one, or libffi's walk of its `elements` array finds the elements. -/
def Holds (B : Bindings m) (memory : Memory) : FfiType m.sizeBits → BufferId → Prop
  | .basic size alignment type, b => predefined m type = .basic size alignment type ∧ b = B.predefined type
  | .aggregate size alignment elements, b => size = 0 ∧ alignment = 0 ∧ ∃ array targets,
      memory.elementsOf B b = some array ∧ visited m array = some targets ∧ HoldsAll B memory elements targets

def HoldsAll (B : Bindings m) (memory : Memory) : List (FfiType m.sizeBits) → List BufferId → Prop
  | [], targets => targets = []
  | element :: rest, targets => ∃ b others, targets = b :: others ∧ Holds B memory element b ∧
      HoldsAll B memory rest others

end

/-- Where the type has an `ffi_type`, that is held in its Buffer. -/
def Stored (B : Bindings m) (memory : Memory) (type : TypeRef) (f : FfiType m.sizeBits) : Prop :=
  ∀ b, memory.resolved B type = some b → Holds B memory f b

theorem holdsAll_replicate {f : FfiType m.sizeBits} {b : BufferId} {others : List (FfiType m.sizeBits)}
    {targets : List BufferId} (first : Holds B memory f b) (rest : HoldsAll B memory others targets) (count : Nat) :
    HoldsAll B memory (List.replicate count f ++ others) (List.replicate count b ++ targets) := by
  induction count with
  | zero => exact rest
  | succ count further => exact ⟨b, List.replicate count b ++ targets, rfl, first, further⟩

theorem holdsAll_of_listed {rest : List TypeRef} {targets : List BufferId} {ffiTypes : List (FfiType m.sizeBits)}
    (listed : memory.listed B (fun field => field.element.2) rest = some targets)
    (lists : Lists (Stored B memory) rest ffiTypes) : HoldsAll B memory ffiTypes targets := by
  induction rest generalizing targets ffiTypes with
  | nil =>
    cases listed
    cases lists
    rfl
  | cons field rest further =>
    obtain ⟨first, others, reads, onward, rfl⟩ := lists
    obtain ⟨b, resolves, later⟩ := Option.bind_eq_some_iff.mp listed
    obtain ⟨bs, tail, rfl⟩ := Option.map_eq_some_iff.mp later
    exact holdsAll_replicate (reads b resolves) (further tail onward) _

theorem stored_reading (sound : Sound B fields memory) : Reading m fields (Stored B memory) where
  void := by
    rintro b ⟨⟩
    exact ⟨rfl, rfl⟩
  scalar := by
    rintro s b ⟨⟩
    exact ⟨rfl, rfl⟩
  pointer := by
    rintro target b ⟨⟩
    exact ⟨rfl, rfl⟩
  array := by
    rintro type fixedLength b ⟨⟩
    exact ⟨rfl, rfl⟩
  struct := by
    intro object elements lists b there
    have made := sound object b there
    obtain ⟨array, targets, found, walked, listed⟩ := made.walks
    exact ⟨rfl, rfl, array, targets, found, walked, holdsAll_of_listed listed lists⟩

variable {α β : Type} {world : StructDefinitions.Caches m}

/-- The same struct types have an `ffi_type`. -/
def Mirrors (memory : Memory) (world : StructDefinitions.Caches m) : Prop :=
  ∀ n, (memory.ffi_type n).isSome = (world.ffi_type n).isSome

/-- The one returns where the other does, and they leave the same struct types with an `ffi_type`. -/
def Follows (ran : Option (Except Thrown α × Memory)) (result : Option β × StructDefinitions.Caches m) : Prop :=
  ∃ outcome memory', ran = some (outcome, memory') ∧ outcome.isOk = result.1.isSome ∧ Mirrors memory' result.2

theorem Follows.bind {α' β' : Type} {x : TypeMemory.JsM α} {f : α → TypeMemory.JsM α'}
    {run : Option β × StructDefinitions.Caches m}
    {next : β → StructDefinitions.Caches m → Option β' × StructDefinitions.Caches m}
    (first : Follows (eval x memory) run)
    (rest : ∀ a d memory world, Mirrors memory world → Follows (eval (f a) memory) (next d world)) :
    Follows (eval (x >>= f) memory) (CifPreparation.andThen run next) := by
  obtain ⟨outcome, between, ran, returned, mirrors⟩ := first
  obtain ⟨_ | d, world⟩ := run
  · cases outcome with
    | error thrown => exact ⟨.error thrown, between, eval_error ran, rfl, mirrors⟩
    | ok a => cases returned
  · cases outcome with
    | error thrown => cases returned
    | ok a =>
      rw [eval_ok ran]
      exact rest a d between world mirrors

theorem writeElement_returns (elements target : BufferId) (index count : Nat) (memory : Memory) :
    ∃ last memory', eval (writeElement (m := m) elements target index count) memory = some (.ok last, memory') ∧
      memory'.ffi_type = memory.ffi_type := by
  induction count generalizing index memory with
  | zero => exact ⟨index, memory, rfl, rfl⟩
  | succ count further =>
    obtain ⟨last, memory', runs, same⟩ := further (index + 1)
      (memory.update elements fun b => b.write (index * m.pointer.bytes) (some target))
    refine ⟨last, memory', ?_, same⟩
    rw [writeElement, eval_ok (eval_writePointer ..), runs]

theorem writeElements_follows {resolve : TypeRef → TypeMemory.JsM BufferId}
    {resolve' : TypeRef → StructDefinitions.Caches m → Option (Descriptor m.sizeBits) × StructDefinitions.Caches m}
    (each : ∀ type memory world, Mirrors memory world → Follows (eval (resolve type) memory) (resolve' type world))
    (elements : BufferId) (rest : List TypeRef) (index : Nat) (mirrors : Mirrors memory world) :
    Follows (eval (writeElements (m := m) resolve elements index rest) memory)
      (StructDefinitions.fieldElements resolve' rest world) := by
  induction rest generalizing index memory world with
  | nil => exact ⟨.ok index, memory, rfl, rfl, mirrors⟩
  | cons field rest further =>
    rw [writeElements, StructDefinitions.fieldElements]
    apply (each field.element.1 memory world mirrors).bind
    intro b d between world mirrors
    obtain ⟨last, written, runs, same⟩ := writeElement_returns (m := m) elements b index field.element.2 between
    rw [eval_ok runs]
    have still : Mirrors written world := by
      intro n
      rw [same, mirrors n]
    obtain ⟨outcome, final, ran, returned, mirrors'⟩ := further last still
    refine ⟨outcome, final, ran, ?_, ?_⟩
    · rw [returned]
      rcases StructDefinitions.fieldElements resolve' rest world with ⟨_ | ds, _⟩ <;> rfl
    · rcases found : StructDefinitions.fieldElements resolve' rest world with ⟨_ | ds, _⟩
      all_goals
        rw [found] at mirrors'
        exact mirrors'

/-- **`Type` on Buffers returns where it does on the caches alone**, on any types. -/
theorem typeAt_follows (depth : Nat) (type : TypeRef) (mirrors : Mirrors memory world) :
    Follows (eval (typeAt B fields depth type) memory) (StructDefinitions.typeOf fields depth type world) := by
  induction depth generalizing type memory world with
  | zero => exact ⟨.error .rangeError, memory, rfl, rfl, mirrors⟩
  | succ depth further =>
    cases type with
    | unknown => exact ⟨.error .assertion, memory, rfl, rfl, mirrors⟩
    | struct object =>
      have both := mirrors object
      rw [typeAt, eval_ok (rfl : eval (get : TypeMemory.JsM Memory) memory = some (.ok memory, memory)),
        StructDefinitions.typeOf]
      cases cached : memory.ffi_type object with
      | some b =>
        rw [cached] at both
        obtain ⟨d, there⟩ := Option.isSome_iff_exists.mp both.symm
        rw [there]
        exact ⟨.ok b, memory, rfl, rfl, mirrors⟩
      | none =>
        rw [cached] at both
        rw [Option.isSome_eq_false_iff.mp both.symm |> Option.isNone_iff_eq_none.mp]
        dsimp only
        rw [eval_allocated]
        apply (writeElements_follows (fun type memory world => further type) _ _ 0 ?_).bind
        · intro index elements between world mirrors
          refine ⟨.ok _, _, rfl, rfl, ?_⟩
          intro n
          by_cases own : n = object
          · subst n
            rw [Memory.cache_self, StructDefinitions.create_self]
            rfl
          · rw [Memory.cache_other _ _ own, StructDefinitions.create_other world elements own]
            exact mirrors n
        · exact mirrors
    | void => exact ⟨.ok _, memory, rfl, rfl, mirrors⟩
    | scalar s => exact ⟨.ok _, memory, rfl, rfl, mirrors⟩
    | pointer target => exact ⟨.ok _, memory, rfl, rfl, mirrors⟩
    | array type fixedLength => exact ⟨.ok _, memory, rfl, rfl, mirrors⟩

theorem exists_mirrors (m : DataModel) (memory : Memory) :
    ∃ world : StructDefinitions.Caches m, Mirrors memory world := by
  refine ⟨⟨fun n => (memory.ffi_type n).map fun _ => .basic 1 1 .void, fun _ => ⟨0, 0⟩⟩, ?_⟩
  intro n
  exact Option.isSome_map.symm

/-- **`Type` on Buffers** makes one that holds the `ffi_type` of the tree. -/
theorem typeAt_agrees (sound : Sound B fields memory) (unfolds : Unfolds fields type t) (deep : sizeOf t ≤ depth) :
    ∃ b memory', eval (typeAt B fields depth type) memory = some (.ok b, memory') ∧
      Holds B memory' (ffiType m t) b := by
  obtain ⟨world, mirrors⟩ := exists_mirrors m memory
  have follows : Follows (eval (typeAt B fields depth type) memory)
      (StructDefinitions.typeOf fields depth type world) := typeAt_follows depth type mirrors
  obtain ⟨outcome, memory', ran, returned, _⟩ := follows
  rw [typeOf_returns unfolds deep world] at returned
  cases outcome with
  | error thrown => cases returned
  | ok b =>
    have typed := typeAt_typed sound ran
    exact ⟨b, memory', ran, (stored_reading typed.sound).agrees unfolds b (typed.resolves b rfl)⟩

end

/-! ## Objects with prototypes -/

section
open TypeResolution TypeResolution.Types

variable {m : DataModel} {T : Types} {given : Nat → FfiType m.sizeBits} {fields : Nat → List TypeRef}
  {ref : Id → TypeRef} {start slots : Slots} {o : Id} {t : RefType}

mutual

/-- The `ffi_type` that a value is, where `given` has those that types came with. -/
def interpret {w : Nat} (given : Nat → FfiType w) : Value → FfiType w
  | .given descriptor => given descriptor
  | .aggregate elements => .aggregate 0 0 (interpretAll given elements)

def interpretAll {w : Nat} (given : Nat → FfiType w) : List Value → List (FfiType w)
  | [] => []
  | element :: rest => interpret given element :: interpretAll given rest

end

/-- The object is this type, and its `ffi_type` reads as nothing unless it is built in. -/
def Shows (T : Types) (given : Nat → FfiType m.sizeBits) (fields : Nat → List TypeRef) (ref : Id → TypeRef)
    (slots : Slots) (o : Id) : TypeRef → Prop
  | .void => (T.object o).indirection = 1 ∧ ∃ k, T.read slots o = some (.given k) ∧ given k = ffiTypeVoid m
  | .scalar s => (T.object o).indirection = 1 ∧
      ∃ k, T.read slots o = some (.given k) ∧ given k = (s.ffiType m).ffiType m
  | .pointer _ => 1 < (T.object o).indirection
  | .array _ _ => (T.object o).indirection = 1 ∧ T.read slots o = none
  | .struct n => (T.object o).indirection = 1 ∧ T.read slots o = none ∧
      ∃ members, (T.object o).fields = some members ∧ members.map ref = fields n
  | .unknown => True

/-- Objects that are the types which `ref` has for them. -/
structure Shown (T : Types) (given : Nat → FfiType m.sizeBits) (fields : Nat → List TypeRef) (ref : Id → TypeRef)
    (slots : Slots) : Prop where
  pointer : given T.pointer = CType.pointer.ffiType m
  arrays : ∀ o, (T.object o).array.map (fun array => (ref array.1, array.2)) = (ref o).elementType
  each : ∀ o, Shows T given fields ref slots o (ref o)

/-- Every object that is the type stands for this `ffi_type`. -/
def Standing (T : Types) (given : Nat → FfiType m.sizeBits) (ref : Id → TypeRef) (slots : Slots) (type : TypeRef)
    (f : FfiType m.sizeBits) : Prop :=
  ∀ o, ref o = type → ∃ v, T.meaning slots o = some v ∧ interpret given v = f

theorem interpretAll_eq {w : Nat} (given : Nat → FfiType w) (elements : List Value) :
    interpretAll given elements = elements.map (interpret given) := by
  induction elements with
  | nil => rfl
  | cons element rest further => rw [interpretAll, further, List.map_cons]

theorem Shown.element (shown : Shown T given fields ref start) (field : Id) :
    (ref field).element =
      (ref (TypeResolution.element T.object field).1, (TypeResolution.element T.object field).2) := by
  have reads := shown.arrays field
  rw [TypeRef.element, ← reads, TypeResolution.element]
  cases (T.object field).array with
  | none => rfl
  | some array =>
    dsimp only [Option.map_some]
    split <;> rfl

theorem shapeAll_standing (shown : Shown T given fields ref start) {members : List Id}
    {ffiTypes : List (FfiType m.sizeBits)} (lists : Lists (Standing T given ref start) (members.map ref) ffiTypes) :
    ∃ vs, T.shapeAll (T.meaning start) members = some vs ∧ interpretAll given vs = ffiTypes := by
  induction members generalizing ffiTypes with
  | nil =>
    cases lists
    exact ⟨[], rfl, rfl⟩
  | cons field rest further =>
    obtain ⟨first, others, reads, onward, rfl⟩ := lists
    rw [shown.element field] at reads ⊢
    obtain ⟨v, stands, same⟩ := reads _ rfl
    obtain ⟨vs, all, tail⟩ := further onward
    refine ⟨List.replicate (TypeResolution.element T.object field).2 v ++ vs, ?_, ?_⟩
    · rw [shapeAll, stands, Option.bind_some, all]
      rfl
    · rw [interpretAll_eq] at tail ⊢
      rw [List.map_append, List.map_replicate, same, tail]

theorem Shown.shows {type : TypeRef} (shown : Shown T given fields ref start) (same : ref o = type) :
    Shows T given fields ref start o type := by
  rw [← same]
  exact shown.each o

theorem Shown.reads {type : TypeRef} (shown : Shown T given fields ref start) (same : ref o = type) :
    (T.object o).array.map (fun array => (ref array.1, array.2)) = type.elementType := by
  rw [← same]
  exact shown.arrays o

/-- A built-in type stands for the `ffi_type` that it came with. -/
theorem standing_builtin {f : FfiType m.sizeBits} (single : (T.object o).indirection = 1)
    (comes : ∃ k, T.read start o = some (.given k) ∧ given k = f) :
    ∃ v, T.meaning start o = some v ∧ interpret given v = f := by
  obtain ⟨k, read, value⟩ := comes
  exact ⟨.given k, (fits_meaning T start).read single read, value⟩

theorem standing_struct {n : Nat} {elements : List (FfiType m.sizeBits)} (shown : Shown T given fields ref start)
    (lists : Lists (Standing T given ref start) (fields n) elements) :
    Standing T given ref start (.struct n) (.aggregate 0 0 elements) := by
  intro o same
  obtain ⟨single, nothing, members, structured, those⟩ := shown.shows same
  have plain : (T.object o).array = none := Option.map_eq_none_iff.mp (shown.reads same)
  rw [← those] at lists
  obtain ⟨vs, all, found⟩ := shapeAll_standing shown lists
  refine ⟨.aggregate vs, ?_, ?_⟩
  · rw [(fits_meaning T start).shape single nothing, shape_of_fields plain structured, all]
    rfl
  · rw [interpret, found]

theorem standing_reading (shown : Shown T given fields ref start) :
    Reading m fields (Standing T given ref start) where
  void := by
    intro o same
    obtain ⟨single, comes⟩ := shown.shows same
    exact standing_builtin single comes
  scalar := by
    intro s o same
    obtain ⟨single, comes⟩ := shown.shows same
    exact standing_builtin single comes
  pointer := by
    intro target o same
    have plural : 1 < (T.object o).indirection := shown.shows same
    refine ⟨T.pointerValue, ?_, shown.pointer⟩
    rw [fits_meaning T start o, direct, if_neg (by omega), if_neg (by omega)]
  array := by
    intro type fixedLength o same
    obtain ⟨single, nothing⟩ := shown.shows same
    obtain ⟨array, there, _⟩ := Option.map_eq_some_iff.mp (shown.reads same)
    refine ⟨T.pointerValue, ?_, shown.pointer⟩
    rw [(fits_meaning T start).shape single nothing, shape_of_array (Option.isSome_of_eq_some there)]
  struct := fun _ _ lists => standing_struct shown lists

/-- **`Type` on objects with prototypes**, where no call of it disturbs another, gives the `ffi_type`
of the tree whatever it has been called for before. -/
theorem type_agrees (shown : Shown T given fields ref start) (stable : T.Stable start)
    (reached : T.Leads start slots) (unfolds : Unfolds fields (ref o) t) :
    ∃ v, (T.type o slots).1 = some v ∧ interpret given v = ffiType m t := by
  rw [stable.resolves reached]
  exact (standing_reading shown).agrees unfolds o rfl

end

end NodeFfi.TypeTrees
