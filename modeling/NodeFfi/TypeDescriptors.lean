import NodeFfi.FfiTypes
import Mathlib.Logic.Function.Basic

/-! `initialize_aggregate` as it runs: on descriptors in memory that other types share,
filling in size and alignment where they stand and taking a size of zero for "not
initialised yet". Compared with `FfiTypes`, which says what it makes of a tree. -/
namespace NodeFfi

variable {w : Nat}

/-- The members of an `ffi_type` that `initialize_aggregate` writes. -/
structure Extent (w : Nat) where
  size : BitVec w
  alignment : Nat
  deriving DecidableEq, Repr

/-- An `ffi_type *`. A predefined type is never written; an aggregate stands at an
address, and its `elements` never change. -/
inductive Descriptor (w : Nat) where
  | basic (size : BitVec w) (alignment : Nat) (type : FfiTypeCode)
  | aggregate (address : Nat) (elements : List (Descriptor w))

/-- The aggregates' sizes and alignments, by their addresses. -/
abbrev Extents (w : Nat) := Nat → Extent w

namespace Descriptor

/-- Structural induction with the hypothesis at every element. -/
@[elab_as_elim, induction_eliminator]
theorem induct {motive : Descriptor w → Prop}
    (basic : ∀ size alignment type, motive (.basic size alignment type))
    (aggregate : ∀ address elements, (∀ element ∈ elements, motive element) →
      motive (.aggregate address elements))
    (d : Descriptor w) : motive d :=
  @Descriptor.rec w motive (fun elements => ∀ element ∈ elements, motive element) basic aggregate
    (fun _ member => absurd member List.not_mem_nil)
    (fun _ _ head rest => List.forall_mem_cons.mpr ⟨head, rest⟩) d

def extent (extents : Extents w) : Descriptor w → Extent w
  | .basic size alignment _ => ⟨size, alignment⟩
  | .aggregate address _ => extents address

mutual

/-- The tree that libffi finds under a descriptor. -/
def read (extents : Extents w) : Descriptor w → FfiType w
  | .basic size alignment type => .basic size alignment type
  | .aggregate address elements =>
    .aggregate (extents address).size (extents address).alignment (readAll extents elements)

def readAll (extents : Extents w) : List (Descriptor w) → List (FfiType w)
  | [] => []
  | element :: rest => element.read extents :: readAll extents rest

end

mutual

/-- The addresses of the aggregates in a descriptor. -/
def addresses : Descriptor w → List Nat
  | .basic _ _ _ => []
  | .aggregate address elements => address :: addressesAll elements

def addressesAll : List (Descriptor w) → List Nat
  | [] => []
  | element :: rest => element.addresses ++ addressesAll rest

end

mutual

/-- `prep_cif.c`, `initialize_aggregate`, with the status it returns. -/
def initializeAggregate : Descriptor w → Extents w → Bool × Extents w
  | .basic _ _ _, extents => (false, extents)
  | .aggregate address elements, extents =>
    match walkElements address elements (Function.update extents address ⟨0, 0⟩) with
    | (false, extents) => (false, extents)
    | (true, extents) =>
      let size := ffiAlign (extents address).size (extents address).alignment
      (decide (size ≠ 0), Function.update extents address ⟨size, (extents address).alignment⟩)

/-- The `while ((*ptr) != NULL)` loop: the running size and alignment are those of `arg`. -/
def walkElements (arg : Nat) : List (Descriptor w) → Extents w → Bool × Extents w
  | [], extents => (true, extents)
  | element :: rest, extents =>
    match (if (element.extent extents).size = 0 then initializeAggregate element extents
        else (true, extents)) with
    | (false, extents) => (false, extents)
    | (true, extents) =>
      let added := element.extent extents
      let size := ffiAlign (extents arg).size added.alignment
      let alignment :=
        if (extents arg).alignment > added.alignment then (extents arg).alignment else added.alignment
      walkElements arg rest (Function.update extents arg ⟨size + added.size, alignment⟩)

end

/-- As `Type` leaves it: every aggregate has size and alignment zero. -/
def blank (d : Descriptor w) : FfiType w := d.read fun _ => ⟨0, 0⟩

def blankAll (elements : List (Descriptor w)) : List (FfiType w) := readAll (fun _ => ⟨0, 0⟩) elements

/-- `ffi_prep_cif_core`, for the return type and for each argument type. -/
def prepare (d : Descriptor w) (extents : Extents w) : Bool × Extents w :=
  if (d.extent extents).size = 0 then d.initializeAggregate extents else (true, extents)

end Descriptor

mutual

/-- A failure to initialise the type leaves no size in it: where the first invalid
element stands, at every level, the running size is zero. -/
def FfiType.traceless : FfiType w → Bool
  | .basic _ _ _ => true
  | .aggregate _ _ elements => tracelessElements elements 0

def tracelessElements : List (FfiType w) → BitVec w → Bool
  | [], _ => true
  | element :: rest, size =>
    match initialized element with
    | none => decide (size = 0) && element.traceless
    | some element => tracelessElements rest (ffiAlign size element.alignment + element.size)

end

/-! ## What initialising a tree gives -/

theorem walkElements_cons (element : FfiType w) (rest : List (FfiType w)) (size : BitVec w)
    (alignment : Nat) : walkElements (element :: rest) size alignment =
      (initialized element).bind fun t =>
        (walkElements rest (ffiAlign size t.alignment + t.size)
          (if alignment > t.alignment then alignment else t.alignment)).map fun r =>
            (r.1, r.2.1, t :: r.2.2) := by
  rw [walkElements, initialized]
  split
  · next failed => rw [failed]; rfl
  · next t ready =>
    rw [ready]
    simp only [Option.bind_some]
    split
    · next failed => rw [failed]; rfl
    · next walk => rw [walk]; rfl

theorem initialized_unset_aggregate (alignment : Nat) (elements : List (FfiType w)) :
    initialized (.aggregate 0 alignment elements) =
      (walkElements elements 0 0).bind fun r =>
        if ffiAlign r.1 r.2.1 = 0 then none
        else some (.aggregate (ffiAlign r.1 r.2.1) r.2.1 r.2.2) := by
  have unset : (FfiType.aggregate 0 alignment elements).size = 0 := rfl
  rw [initialized, if_pos unset, initializeAggregate]
  split
  · next failed => rw [failed]; rfl
  · next walk => rw [walk]; rfl

/-- No aggregate in the type is left without a size. -/
inductive FfiType.Sized : FfiType w → Prop
  | basic {size alignment type} (sized : size ≠ 0) : Sized (.basic size alignment type)
  | aggregate {size alignment elements} (sized : size ≠ 0) (each : ∀ t ∈ elements, t.Sized) :
      Sized (.aggregate size alignment elements)

/-- No valid typedef: without a size and without elements, or with an element that is none,
at any position and depth. -/
inductive FfiType.Invalid : FfiType w → Prop
  | null {alignment type} : Invalid (.basic 0 alignment type)
  | empty {alignment} : Invalid (.aggregate 0 alignment [])
  | element {alignment elements element} (inside : element ∈ elements)
      (invalid : Invalid element) : Invalid (.aggregate 0 alignment elements)

theorem walkElements_eq_none {elements : List (FfiType w)} {element : FfiType w}
    (inside : element ∈ elements) (refused : initialized element = none) (size : BitVec w)
    (alignment : Nat) : walkElements elements size alignment = none := by
  induction elements generalizing size alignment with
  | nil => cases inside
  | cons first rest further =>
    rw [walkElements_cons]
    rcases List.mem_cons.mp inside with rfl | later
    · rw [refused]
      rfl
    · cases initialized first with
      | none => rfl
      | some t => exact Option.map_eq_none_iff.mpr (further later ..)

theorem ffiAlign_nothing : ffiAlign (0 : BitVec w) 0 = 0 := by
  have zero : BitVec.ofNat w 0 = 0 := rfl
  rw [ffiAlign, AlignedLayout.roundUpBits, zero, BitVec.or_self]
  exact BitVec.sub_add_cancel 0 1

/-- libffi refuses what is no valid typedef. -/
theorem FfiType.Invalid.refused {t : FfiType w} (invalid : t.Invalid) : initialized t = none := by
  induction invalid with
  | null => exact if_pos rfl
  | empty =>
    rw [initialized_unset_aggregate, walkElements]
    exact if_pos ffiAlign_nothing
  | element inside _ ih => rw [initialized_unset_aggregate, walkElements_eq_none inside ih]; rfl

namespace Descriptor

variable {d : Descriptor w} {f g : Extents w} {a : Nat}

theorem addressesAll_eq (elements : List (Descriptor w)) :
    addressesAll elements = elements.flatMap addresses := by
  induction elements with
  | nil => rfl
  | cons e rest further => rw [addressesAll, further, List.flatMap_cons]

theorem readAll_eq (f : Extents w) (elements : List (Descriptor w)) :
    readAll f elements = elements.map (read f) := by
  induction elements with
  | nil => rfl
  | cons e rest further => rw [readAll, further, List.map_cons]

theorem addresses_element {elements : List (Descriptor w)} {element : Descriptor w}
    (inside : element ∈ elements) (within : a ∈ element.addresses) : a ∈ addressesAll elements := by
  rw [addressesAll_eq]
  exact List.mem_flatMap_of_mem inside within

theorem read_congr (same : ∀ a ∈ d.addresses, f a = g a) : d.read f = d.read g := by
  induction d with
  | basic => rfl
  | aggregate address elements ih =>
    rw [addresses, List.forall_mem_cons] at same
    have each : elements.map (read f) = elements.map (read g) :=
      List.map_congr_left fun e inside =>
        ih e inside fun a within => same.2 a (addresses_element inside within)
    rw [read, read, readAll_eq, readAll_eq, same.1, each]

/-- The extent at an aggregate's own address is no part of its elements. -/
theorem read_update {address : Nat} {elements : List (Descriptor w)} (apart : address ∉ addressesAll elements)
    (x : Extent w) : (aggregate address elements).read (Function.update f address x) =
      .aggregate x.size x.alignment (readAll f elements) := by
  have same : readAll (Function.update f address x) elements = readAll f elements := by
    rw [readAll_eq, readAll_eq]
    apply List.map_congr_left
    intro e inside
    apply read_congr
    intro a within
    refine Function.update_of_ne ?_ ..
    rintro rfl
    exact apart (addresses_element inside within)
  rw [read, same, Function.update_self]

theorem read_size (d : Descriptor w) (f : Extents w) : (d.read f).size = (d.extent f).size := by
  cases d <;> rfl

theorem read_alignment (d : Descriptor w) (f : Extents w) :
    (d.read f).alignment = (d.extent f).alignment := by
  cases d <;> rfl

theorem extent_update {x : Extent w} (apart : a ∉ d.addresses) :
    d.extent (Function.update f a x) = d.extent f := by
  cases d with
  | basic => rfl
  | aggregate address elements =>
    rw [addresses, List.mem_cons, not_or] at apart
    exact Function.update_of_ne (Ne.symm apart.1) ..

/-- The sizes of a tree are those at the addresses in it. -/
theorem sized_addresses (sized : (d.read f).Sized) : ∀ a ∈ d.addresses, (f a).size ≠ 0 := by
  induction d with
  | basic => exact fun a inside => absurd inside List.not_mem_nil
  | aggregate address elements ih =>
    rw [read, readAll_eq] at sized
    cases sized with
    | aggregate sized each =>
      rw [addresses, List.forall_mem_cons]
      refine ⟨sized, ?_⟩
      intro a inside
      rw [addressesAll_eq] at inside
      obtain ⟨e, member, within⟩ := List.mem_flatMap.mp inside
      exact ih e member (each _ (List.mem_map_of_mem member)) a within

theorem sized_of_walk {elements : List (Descriptor w)}
    (each : ∀ e ∈ elements, ∀ t ∈ initialized e.blank, FfiType.Sized t) {size : BitVec w}
    {alignment : Nat} {r : BitVec w × Nat × List (FfiType w)}
    (walk : NodeFfi.walkElements (blankAll elements) size alignment = some r) :
    ∀ t ∈ r.2.2, t.Sized := by
  induction elements generalizing size alignment r with
  | nil =>
    cases walk
    exact fun t inside => absurd inside List.not_mem_nil
  | cons e rest further =>
    rw [List.forall_mem_cons] at each
    obtain ⟨t, ready, onward⟩ := Option.bind_eq_some_iff.mp ((walkElements_cons ..).symm.trans walk)
    obtain ⟨r, remaining, rfl⟩ := Option.map_eq_some_iff.mp onward
    rw [List.forall_mem_cons]
    exact ⟨each.1 t ready, further each.2 remaining⟩

/-- What `Type` made and libffi initialised has sizes at every level. -/
theorem sized_of_initialized {t : FfiType w} (ready : initialized d.blank = some t) : t.Sized := by
  induction d generalizing t with
  | basic size alignment type =>
    obtain ⟨sized, same⟩ := Option.ite_none_left_eq_some.mp
      ((if_congr Iff.rfl rfl rfl).symm.trans ready)
    cases same
    exact .basic sized
  | aggregate address elements ih =>
    obtain ⟨r, walk, finish⟩ := Option.bind_eq_some_iff.mp
      ((initialized_unset_aggregate ..).symm.trans ready)
    obtain ⟨sized, same⟩ := Option.ite_none_left_eq_some.mp finish
    cases same
    exact .aggregate sized (sized_of_walk (fun e inside t ready => ih e inside ready) walk)

/-! ## Apart -/

theorem walkElements_cons (arg : Nat) (e : Descriptor w) (rest : List (Descriptor w))
    (f : Extents w) : walkElements arg (e :: rest) f =
      match e.prepare f with
      | (false, g) => (false, g)
      | (true, g) => walkElements arg rest (Function.update g arg
          ⟨ffiAlign (g arg).size (e.extent g).alignment + (e.extent g).size,
            if (g arg).alignment > (e.extent g).alignment then (g arg).alignment
            else (e.extent g).alignment⟩) := by
  rw [walkElements]
  rfl

theorem initializeAggregate_aggregate (address : Nat) (elements : List (Descriptor w))
    (f : Extents w) : (aggregate address elements).initializeAggregate f =
      match walkElements address elements (Function.update f address ⟨0, 0⟩) with
      | (false, g) => (false, g)
      | (true, g) =>
        (decide (ffiAlign (g address).size (g address).alignment ≠ 0), Function.update g address
          ⟨ffiAlign (g address).size (g address).alignment, (g address).alignment⟩) := by
  rw [initializeAggregate]

/-- Initialising a descriptor neither reads nor writes what is not in it. -/
def Apart (a : Nat) (x : Extent w) (run : Extents w → Bool × Extents w) : Prop :=
  ∀ f, run (Function.update f a x) = ((run f).1, Function.update (run f).2 a x)

theorem walk_apart {arg : Nat} {x : Extent w} {elements : List (Descriptor w)} (other : a ≠ arg)
    (apart : a ∉ addressesAll elements) (each : ∀ e ∈ elements, a ∉ e.addresses → Apart a x e.prepare) :
    Apart a x (walkElements arg elements) := by
  induction elements with
  | nil => exact fun f => rfl
  | cons e rest further =>
    rw [addressesAll, List.mem_append, not_or] at apart
    rw [List.forall_mem_cons] at each
    intro f
    rw [walkElements_cons, walkElements_cons, each.1 apart.1 f]
    rcases found : e.prepare f with ⟨ready, g⟩
    cases ready with
    | false => rfl
    | true =>
      simp only [extent_update apart.1, Function.update_of_ne other.symm]
      rw [Function.update_comm other]
      exact further apart.2 each.2 _

theorem prepare_apart {x : Extent w} (apart : a ∉ d.addresses) : Apart a x d.prepare := by
  induction d with
  | basic =>
    intro f
    rw [prepare, prepare, extent_update apart]
    split <;> rfl
  | aggregate address elements ih =>
    intro f
    rw [prepare, prepare, extent_update apart]
    split
    · rw [addresses, List.mem_cons, not_or] at apart
      rw [initializeAggregate_aggregate, initializeAggregate_aggregate,
        Function.update_comm apart.1,
        walk_apart apart.1 apart.2 (fun e inside outside => ih e inside outside) _]
      rcases walkElements address elements (Function.update f address ⟨0, 0⟩) with ⟨walked, g⟩
      cases walked with
      | false => rfl
      | true => 
        simp only [Function.update_of_ne (Ne.symm apart.1)]
        rw [Function.update_comm apart.1]
    · rfl

/-- What is not in a descriptor stays as it is. -/
theorem prepare_frame (apart : a ∉ d.addresses) (f : Extents w) : (d.prepare f).2 a = f a := by
  have same := prepare_apart (x := f a) apart f
  rw [Function.update_eq_self] at same
  rw [congrArg Prod.snd same]
  exact Function.update_self ..

/-! ## Shared descriptors -/

/-- Every aggregate in the descriptor has the elements that `elements` has for its address. -/
inductive Laid (elements : Nat → List (Descriptor w)) : Descriptor w → Prop
  | basic {size alignment type} : Laid elements (.basic size alignment type)
  | aggregate {address} (each : ∀ e ∈ elements address, Laid elements e) :
      Laid elements (.aggregate address (elements address))

variable {elements : Nat → List (Descriptor w)}

theorem Laid.within (laid : Laid elements d) (inside : a ∈ d.addresses) :
    Laid elements (.aggregate a (elements a)) ∧
      sizeOf (Descriptor.aggregate a (elements a)) ≤ sizeOf d := by
  induction laid with
  | basic => cases inside
  | @aggregate address each ih =>
    rw [addresses, List.mem_cons, addressesAll_eq, List.mem_flatMap] at inside
    rcases inside with rfl | ⟨e, member, inside⟩
    · exact ⟨.aggregate each, Nat.le_refl _⟩
    · obtain ⟨laid, smaller⟩ := ih e member inside
      have := List.sizeOf_lt_of_mem member
      refine ⟨laid, ?_⟩
      simp only [Descriptor.aggregate.sizeOf_spec] at smaller ⊢
      omega

/-- No aggregate is an element of itself, at any depth. -/
theorem Laid.acyclic (laid : Laid elements (.aggregate a (elements a))) :
    a ∉ addressesAll (elements a) := by
  intro inside
  rw [addressesAll_eq] at inside
  obtain ⟨e, member, inside⟩ := List.mem_flatMap.mp inside
  cases laid with
  | aggregate each =>
    have smaller := ((each e member).within inside).2
    have := List.sizeOf_lt_of_mem member
    simp only [Descriptor.aggregate.sizeOf_spec] at smaller
    omega

/-! ## What is left in memory -/

/-- The aggregate is as libffi leaves it after initialising it in full. -/
def Done (elements : Nat → List (Descriptor w)) (f : Extents w) (a : Nat) : Prop :=
  initialized (aggregate a (elements a)).blank = some ((aggregate a (elements a)).read f)

/-- **No trace of a failure**: every aggregate either counts as not initialised or has been
initialised in full. -/
def Clean (elements : Nat → List (Descriptor w)) (f : Extents w) : Prop :=
  ∀ a, Laid elements (.aggregate a (elements a)) → (f a).size = 0 ∨ Done elements f a

theorem Done.sized (done : Done elements f a) :
    ∀ b ∈ (aggregate a (elements a)).addresses, (f b).size ≠ 0 :=
  sized_addresses (sized_of_initialized done)

/-- What is done stays done while nothing that has a size is changed. -/
theorem Done.frame (done : Done elements f a) (kept : ∀ b, (f b).size ≠ 0 → g b = f b) :
    Done elements g a := by
  have same : (aggregate a (elements a)).read g = (aggregate a (elements a)).read f :=
    read_congr fun b inside => kept b (done.sized b inside)
  rw [Done, same]
  exact done

/-- What is set where there is no size changes nothing that has one. -/
theorem update_sized {x : Extent w} {b : Nat} (unset : (f a).size = 0) (sized : (f b).size ≠ 0) :
    Function.update f a x b = f b := by
  refine Function.update_of_ne ?_ ..
  rintro rfl
  exact sized unset

/-- One aggregate without a size is set to something else. -/
theorem Clean.update {x : Extent w} (clean : Clean elements f) (unset : (f a).size = 0)
    (fine : x.size = 0 ∨ Done elements (Function.update f a x) a) :
    Clean elements (Function.update f a x) := by
  intro b laid
  by_cases own : b = a
  · subst b
    rw [Function.update_self]
    exact fine
  · rw [Function.update_of_ne own]
    exact (clean b laid).imp_right fun done => done.frame fun c sized => update_sized unset sized

/-- What preparing a descriptor does: the status is the one for the tree, the tree is
what libffi makes of it, nothing that has a size is changed, and no trace is left
unless by a failure that leaves one. -/
structure Prepared (elements : Nat → List (Descriptor w)) (d : Descriptor w) (f : Extents w) : Prop where
  status : (d.prepare f).1 = (initialized d.blank).isSome
  result : ∀ t ∈ initialized d.blank, d.read (d.prepare f).2 = t
  kept : ∀ a, (f a).size ≠ 0 → (d.prepare f).2 a = f a
  clean : ((initialized d.blank).isSome ∨ d.blank.traceless) → Clean elements (d.prepare f).2

/-- What the loop does from running values `x` at `arg`, where `f` is without them. -/
structure Walked (elements : Nat → List (Descriptor w)) (arg : Nat) (rest : List (Descriptor w))
    (x : Extent w) (f : Extents w) (g : Extents w) (y : Extent w) : Prop where
  unset : (g arg).size = 0
  kept : ∀ a, (f a).size ≠ 0 → g a = f a
  finished : ∀ r ∈ NodeFfi.walkElements (blankAll rest) x.size x.alignment,
    walkElements arg rest (Function.update f arg x) = (true, Function.update g arg y) ∧
      Clean elements g ∧ y = ⟨r.1, r.2.1⟩ ∧ readAll g rest = r.2.2
  failed : NodeFfi.walkElements (blankAll rest) x.size x.alignment = none →
    walkElements arg rest (Function.update f arg x) = (false, Function.update g arg y) ∧
      (tracelessElements (blankAll rest) x.size → Clean elements g ∧ y.size = 0)

theorem walked {arg : Nat} {rest : List (Descriptor w)} {x : Extent w} (clean : Clean elements f)
    (unset : (f arg).size = 0) (apart : arg ∉ addressesAll rest)
    (each : ∀ e ∈ rest, ∀ f, Clean elements f → Prepared elements e f) :
    ∃ g y, Walked elements arg rest x f g y := by
  induction rest generalizing f x with
  | nil =>
    refine ⟨f, x, unset, fun _ _ => rfl, ?_, nofun⟩
    rintro r ⟨⟩
    exact ⟨rfl, clean, rfl, rfl⟩
  | cons e rest further =>
    rw [addressesAll, List.mem_append, not_or] at apart
    rw [List.forall_mem_cons] at each
    have prepared := each.1 f clean
    have frame := prepare_frame apart.1 f
    have moved := prepare_apart (x := x) apart.1 f
    have tree : NodeFfi.walkElements (blankAll (e :: rest)) x.size x.alignment = _ :=
      NodeFfi.walkElements_cons e.blank (blankAll rest) x.size x.alignment
    cases ready : initialized e.blank with
    | none =>
      rw [ready] at tree
      refine ⟨(e.prepare f).2, x, by rw [frame, unset], prepared.kept, ?_, ?_⟩
      · intro r walk
        cases tree.symm.trans walk
      · intro _
        refine ⟨by rw [walkElements_cons, moved, prepared.status, ready]; rfl, ?_⟩
        intro traceless
        have both : (decide (x.size = 0) && e.blank.traceless) = true := by
          rw [← traceless, blankAll, readAll, tracelessElements, ← blank, ready]
        rw [Bool.and_eq_true, decide_eq_true_iff] at both
        exact ⟨prepared.clean (.inr both.2), both.1⟩
    | some t =>
      rw [ready] at tree
      have first : e.read (e.prepare f).2 = t := prepared.result t ready
      let next : Extent w := ⟨ffiAlign x.size t.alignment + t.size,
        if x.alignment > t.alignment then x.alignment else t.alignment⟩
      have step : walkElements arg (e :: rest) (Function.update f arg x) =
          walkElements arg rest (Function.update (e.prepare f).2 arg next) := by
        rw [walkElements_cons, moved, prepared.status, ready]
        simp only [Option.isSome_some, extent_update apart.1, Function.update_self,
          Function.update_idem, ← read_size, ← read_alignment, first, next]
      obtain ⟨g, y, later⟩ := further (x := next) (prepared.clean (.inl (by rw [ready]; rfl)))
        (by rw [frame, unset]) apart.2 each.2
      have kept : ∀ a, (f a).size ≠ 0 → g a = f a := by
        intro a sized
        rw [later.kept a (by rwa [prepared.kept a sized]), prepared.kept a sized]
      refine ⟨g, y, later.unset, kept, ?_, ?_⟩
      · intro r walk
        obtain ⟨r, remaining, rfl⟩ := Option.map_eq_some_iff.mp (tree.symm.trans walk)
        obtain ⟨ran, left, extent, rest_read⟩ := later.finished r remaining
        refine ⟨step.trans ran, left, extent, ?_⟩
        have sized : ∀ a ∈ e.addresses, ((e.prepare f).2 a).size ≠ 0 :=
          sized_addresses (by rw [first]; exact sized_of_initialized ready)
        rw [readAll, rest_read, read_congr fun a inside => later.kept a (sized a inside), first]
      · intro walk
        obtain ⟨ran, trace⟩ := later.failed (Option.map_eq_none_iff.mp (tree.symm.trans walk))
        refine ⟨step.trans ran, fun traceless => trace ?_⟩
        rw [← traceless, blankAll, blankAll, readAll, tracelessElements, ← blank, ready]

/-- An aggregate that counts as not initialised. -/
theorem prepared_unset {address : Nat} (laid : Laid elements (.aggregate address (elements address)))
    (each : ∀ e ∈ elements address, ∀ f, Clean elements f → Prepared elements e f)
    (clean : Clean elements f) (unset : (f address).size = 0) :
    Prepared elements (.aggregate address (elements address)) f := by
  obtain ⟨g, y, walk⟩ := walked (x := ⟨0, 0⟩) clean unset laid.acyclic each
  have kept : ∀ x : Extent w, ∀ a, (f a).size ≠ 0 → Function.update g address x a = f a := by
    intro x a sized
    rw [update_sized walk.unset (by rwa [walk.kept a sized]), walk.kept a sized]
  have started : prepare (.aggregate address (elements address)) f =
      initializeAggregate (.aggregate address (elements address)) f := if_pos unset
  have tree : initialized (blank (.aggregate address (elements address))) = _ :=
    initialized_unset_aggregate 0 (blankAll (elements address))
  rw [initializeAggregate_aggregate] at started
  cases found : NodeFfi.walkElements (blankAll (elements address)) 0 0 with
  | none =>
    obtain ⟨ran, trace⟩ := walk.failed found
    rw [found] at tree
    rw [ran] at started
    refine ⟨by rw [started, tree]; rfl, by rw [tree]; nofun, by rw [started]; exact kept y, ?_⟩
    rw [started, tree]
    intro traceless
    obtain ⟨left, gone⟩ := trace (traceless.resolve_left (by simp))
    exact left.update walk.unset (.inl gone)
  | some r =>
    obtain ⟨ran, left, rfl, members⟩ := walk.finished r found
    rw [found, Option.bind_some] at tree
    rw [ran] at started
    simp only [Function.update_self, Function.update_idem] at started
    by_cases empty : ffiAlign r.1 r.2.1 = 0
    · rw [if_pos empty] at tree
      refine ⟨by rw [started, tree]; simp [empty], by rw [tree]; nofun,
        by rw [started]; exact kept _, ?_⟩
      intro _
      rw [started]
      exact left.update walk.unset (.inl empty)
    · rw [if_neg empty] at tree
      have whole : (aggregate address (elements address)).read
          (Function.update g address ⟨ffiAlign r.1 r.2.1, r.2.1⟩) =
            .aggregate (ffiAlign r.1 r.2.1) r.2.1 r.2.2 := by
        rw [read_update laid.acyclic, members]
      refine ⟨by rw [started, tree]; exact decide_eq_true empty, ?_,
        by rw [started]; exact kept _, ?_⟩
      · rw [tree, started]
        rintro t ⟨⟩
        exact whole
      · intro _
        rw [started]
        exact left.update walk.unset (.inr (tree.trans (congrArg some whole.symm)))

/-- **Preparing a descriptor**, wherever it stands and whatever else was prepared before. -/
theorem prepared (laid : Laid elements d) (clean : Clean elements f) : Prepared elements d f := by
  induction d generalizing f with
  | basic size alignment type =>
    have tree : initialized (blank (.basic size alignment type)) =
        if size = 0 then none else some (.basic size alignment type) := rfl
    by_cases unset : size = 0
    · rw [if_pos unset] at tree
      have ran : prepare (.basic size alignment type) f = (false, f) := if_pos unset
      exact ⟨by rw [ran, tree]; rfl, by rw [tree]; nofun, by simp [ran], fun _ => by rwa [ran]⟩
    · rw [if_neg unset] at tree
      have ran : prepare (.basic size alignment type) f = (true, f) := if_neg unset
      refine ⟨by rw [ran, tree]; rfl, ?_, by simp [ran], fun _ => by rwa [ran]⟩
      rw [tree]
      rintro t ⟨⟩
      rfl
  | aggregate address members ih =>
    cases laid with
    | aggregate each =>
      have laid : Laid elements (.aggregate address (elements address)) := .aggregate each
      by_cases unset : (f address).size = 0
      · exact prepared_unset laid (fun e inside f clean => ih e inside (each e inside) clean) clean unset
      · have done : Done elements f address := (clean address laid).resolve_left unset
        have ran : prepare (.aggregate address (elements address)) f = (true, f) := if_neg unset
        refine ⟨by rw [ran, done]; rfl, ?_, by simp [ran], fun _ => by rwa [ran]⟩
        rw [done, ran]
        rintro t ⟨⟩
        rfl

end Descriptor

end NodeFfi
