import NodeFfi.FormedTypes
import Mathlib.Data.List.Count
import Mathlib.Data.Option.Basic

/-! How libffi decides where an x86-64 Unix argument goes: `merge_classes`,
`classify_argument` and `examine_argument` of `x86/ffi64.c`. A type no larger than two
eightbytes is given a class for each, the rest are passed in memory. The classes are those
of the psABI unless a struct inside the type ends in an eightbyte that its own size does
not count. -/
namespace NodeFfi
open AlignedLayout

variable {w : Nat}

/-- `enum x86_64_reg_class`. -/
inductive RegClass where
  | noClass
  | integer
  | integerSI
  | sse
  | sseSF
  | sseDF
  | sseUp
  | x87
  | x87Up
  | complexX87
  | memory
  deriving DecidableEq, Repr

namespace RegClass

/-- `SSE_CLASS_P`, a range of the enumeration. -/
def isSse : RegClass → Bool
  | .sse | .sseSF | .sseDF | .sseUp => true
  | _ => false

def isInteger : RegClass → Bool
  | .integer | .integerSI => true
  | _ => false

/-- The classes that `examine_argument` counts an SSE register for. -/
def takesSse : RegClass → Bool
  | .sse | .sseSF | .sseDF => true
  | _ => false

def isX87 : RegClass → Bool
  | .x87 | .x87Up | .complexX87 => true
  | _ => false

end RegClass

open RegClass

def mergeClasses (class1 class2 : RegClass) : RegClass :=
  if class1 = class2 then class1
  else if class1 = .noClass then class2
  else if class2 = .noClass then class1
  else if class1 = .memory ∨ class2 = .memory then .memory
  else if (class1 = .integerSI ∧ class2 = .sseSF) ∨ (class2 = .integerSI ∧ class1 = .sseSF) then
    .integerSI
  else if class1.isInteger ∨ class2.isInteger then .integer
  else if class1.isX87 ∨ class2.isX87 then .memory
  else .sse

/-- `do_integer`, from where the integer ends; `none` where the assertion fails. -/
def integerClasses (size : Nat) : Option (List RegClass) :=
  if size ≤ 4 then some [.integerSI]
  else if size ≤ 8 then some [.integer]
  else if size ≤ 12 then some [.integer, .integerSI]
  else if size ≤ 16 then some [.integer, .integer]
  else none

/-- `classes[i + pos] = merge_classes (subclasses[i], classes[i + pos])` for each `i`;
`none` past the end of the array. -/
def mergeAt (pos : Nat) (subclasses classes : List RegClass) : Option (List RegClass) :=
  if pos + subclasses.length ≤ classes.length then
    some (classes.mapIdx fun k c =>
      if k < pos then c
      else match subclasses[k - pos]? with
        | some sub => mergeClasses sub c
        | none => c)
  else none

/-- The loop of the final merger cleanup, after the class before entry `i`; `none` where
it finds that the type goes in memory. -/
def finalMerger : Nat → RegClass → List RegClass → Option (List RegClass)
  | _, _, [] => some []
  | i, previous, c :: rest =>
    if c = .memory then none
    else
      let cleaned := if 1 < i ∧ c = .sseUp ∧ previous ≠ .sse ∧ previous ≠ .sseUp then .sse else c
      if 1 < i ∧ cleaned = .x87Up ∧ previous ≠ .x87 then none
      else (finalMerger (i + 1) cleaned rest).map (cleaned :: ·)

/-- The struct case once the fields are merged, `[]` for memory. -/
def structClasses (classes : List RegClass) : List RegClass :=
  if 2 < classes.length ∧ (classes.head? ≠ some .sse ∨ ∃ c ∈ classes.tail, c ≠ .sseUp) then []
  else (finalMerger 0 .noClass classes).getD []

mutual

/-- `classify_argument`: the classes it fills in, as many as it returns; `[]` for the 0 that
means memory, `none` where an assertion fails or it writes past the `MAX_CLASSES` classes
it has. -/
def classifyArgument : FfiType w → Nat → Option (List RegClass)
  | .basic _ _ .void, _ => some [.noClass]
  | .basic size _ (.value (.int _ _)), byteOffset => integerClasses (byteOffset + size.toNat)
  | .basic size _ (.value .pointer), byteOffset => integerClasses (byteOffset + size.toNat)
  | .basic _ _ (.value .float), byteOffset =>
    if byteOffset % 8 = 0 then some [.sseSF] else some [.sse]
  | .basic _ _ (.value .double), _ => some [.sseDF]
  | .aggregate size _ elements, byteOffset =>
    let words := (size.toNat + 7) / 8
    if 32 < size.toNat then some []
    else if words = 0 then some [.noClass]
    else
      -- The classes from `words` on are not initialised. `merge_classes` reads one of them for a
      -- struct split between two eightbytes; what it makes of it is not among those returned.
      match mergeFields elements (List.replicate 4 .noClass) byteOffset with
      | none => none
      | some [] => some []
      | some classes => some (structClasses (classes.take words))

/-- The loop over the fields of a struct. -/
def mergeFields : List (FfiType w) → List RegClass → Nat → Option (List RegClass)
  | [], classes, _ => some classes
  | element :: rest, classes, byteOffset =>
    match classifyArgument element (roundUp byteOffset element.alignment % 8) with
    | none => none
    | some [] => some []
    | some subclasses =>
      match mergeAt (roundUp byteOffset element.alignment / 8) subclasses classes with
      | none => none
      | some classes =>
        mergeFields rest classes (roundUp byteOffset element.alignment + element.size.toNat)

end

/-- What `examine_argument` returns and the two counts it sets; no classes for memory. -/
structure Examined where
  classes : List RegClass
  ngpr : Nat
  nsse : Nat
  deriving DecidableEq, Repr

/-- The switch of `examine_argument`. No type here has a class that `abort`s or one that it
treats by `in_return`. -/
def examineArgument (type : FfiType w) : Option Examined :=
  match classifyArgument type 0 with
  | none => none
  | some classes =>
    if classes.any fun c => c.isX87 || c == .memory then none
    else some ⟨classes, classes.countP isInteger, classes.countP takesSse⟩

/-! ## Merging -/

/-- The classes that scalars and their merges have. -/
def RegClass.ordinary : RegClass → Bool
  | .noClass | .integer | .integerSI | .sse | .sseSF | .sseDF => true
  | _ => false

/-- A property of an eightbyte that it has as soon as one of the scalars in it has it. -/
structure Additive (h : RegClass → Prop) : Prop where
  none : ¬ h .noClass
  merge : ∀ {a b : RegClass}, a.ordinary → b.ordinary → (h (mergeClasses a b) ↔ h a ∨ h b)

theorem ordinary_merge {a b : RegClass} (first : a.ordinary) (second : b.ordinary) :
    (mergeClasses a b).ordinary := by
  cases a <;> cases first <;> cases b <;> cases second <;> rfl

theorem additive_occupied : Additive (· ≠ .noClass) where
  none := by simp
  merge {a b} first second := by
    cases a <;> cases first <;> cases b <;> cases second <;> decide

theorem additive_isInteger : Additive (·.isInteger = true) where
  none := by simp [isInteger]
  merge {a b} first second := by
    cases a <;> cases first <;> cases b <;> cases second <;> decide

/-- A move of four bytes is enough only for a `float` on its own. -/
theorem additive_wide : Additive fun c => c ≠ .noClass ∧ c ≠ .sseSF where
  none := by simp
  merge {a b} first second := by
    cases a <;> cases first <;> cases b <;> cases second <;> decide

section
variable {pos : Nat} {subclasses classes merged : List RegClass}

theorem mergeAt_fits (fits : pos + subclasses.length ≤ classes.length) :
    ∃ merged, mergeAt pos subclasses classes = some merged ∧ merged.length = classes.length :=
  ⟨_, if_pos fits, by simp⟩

theorem mergeAt_entry (did : mergeAt pos subclasses classes = some merged) {k : Nat} {c : RegClass}
    (before : classes[k]? = some c) :
    merged[k]? = some (if k < pos then c else match subclasses[k - pos]? with
      | some sub => mergeClasses sub c
      | none => c) := by
  simp only [mergeAt] at did
  split at did
  · obtain rfl := Option.some.inj did
    simp [before]
  · cases did

theorem mergeAt_ordinary (did : mergeAt pos subclasses classes = some merged)
    (same : merged.length = classes.length) (subs : ∀ c ∈ subclasses, c.ordinary)
    (before : ∀ c ∈ classes, c.ordinary) : ∀ c ∈ merged, c.ordinary := by
  intro c member
  obtain ⟨k, bound, rfl⟩ := List.mem_iff_getElem.mp member
  have bound' : k < classes.length := same ▸ bound
  have old : classes[k]? = some classes[k] := List.getElem?_eq_getElem _
  have entry := mergeAt_entry did old
  rw [List.getElem?_eq_getElem bound, Option.some.injEq] at entry
  have was : classes[k].ordinary := before _ (List.getElem_mem _)
  rw [entry]
  split
  · exact was
  · split
    · next sub found => exact ordinary_merge (subs sub (List.mem_of_getElem? found)) was
    · exact was

/-- What an eightbyte has after the merge it had before or from the class merged into it. -/
theorem mergeAt_additive {h : RegClass → Prop} (additive : Additive h)
    (did : mergeAt pos subclasses classes = some merged) (subs : ∀ c ∈ subclasses, c.ordinary)
    {k : Nat} {c c' : RegClass} (before : classes[k]? = some c) (was : c.ordinary)
    (after : merged[k]? = some c') :
    h c' ↔ h c ∨ ∃ sub, pos ≤ k ∧ subclasses[k - pos]? = some sub ∧ h sub := by
  rw [mergeAt_entry did before, Option.some.injEq] at after
  subst after
  by_cases early : k < pos
  · rw [if_pos early]
    simp [Nat.not_le.mpr early]
  · rw [if_neg early]
    have late : pos ≤ k := Nat.le_of_not_lt early
    cases found : subclasses[k - pos]? with
    | none => simp
    | some sub =>
      simp only [additive.merge (subs sub (List.mem_of_getElem? found)) was, late, true_and,
        Option.some.injEq, exists_eq_left']
      exact or_comm

end

theorem finalMerger_ordinary {classes : List RegClass} (ordinary : ∀ c ∈ classes, c.ordinary) (i : Nat)
    (previous : RegClass) : finalMerger i previous classes = some classes := by
  induction classes generalizing i previous with
  | nil => rfl
  | cons c rest ih =>
    have tail := ih (fun other member => ordinary other (List.mem_cons_of_mem _ member)) (i + 1)
    have head := ordinary c (by simp)
    cases c <;> cases head <;> simp [finalMerger, tail]

/-- With ordinary classes only the number of eightbytes matters. -/
theorem structClasses_ordinary {classes : List RegClass} (ordinary : ∀ c ∈ classes, c.ordinary) :
    structClasses classes = if 2 < classes.length then [] else classes := by
  rw [structClasses, finalMerger_ordinary ordinary]
  by_cases long : 2 < classes.length
  · rw [if_pos long, if_pos]
    refine ⟨long, .inr ?_⟩
    obtain ⟨first, second, rest, rfl⟩ : ∃ first second rest, classes = first :: second :: rest := by
      rcases classes with _ | ⟨first, _ | ⟨second, rest⟩⟩
      · simp at long
      · simp at long
      · exact ⟨first, second, rest, rfl⟩
    refine ⟨second, by simp, ?_⟩
    rintro rfl
    exact absurd (ordinary .sseUp (by simp)) (by decide)
  · rw [if_neg long, if_neg (fun both => long both.1)]
    rfl

/-! ## What is classified -/

/-- The class that a scalar gives the eightbyte it is in. -/
def CType.regClass (c : CType) (offset : Nat) : RegClass :=
  match c with
  | .float => if offset % 8 = 0 then .sseSF else .sse
  | .double => .sseDF
  | _ => if offset % 8 + c.size lp64 ≤ 4 then .integerSI else .integer

mutual

/-- No struct in the type ends in an eightbyte that is not among the first `ceil (size / 8)`
from where it starts: `classify_argument` drops the class of such an eightbyte. -/
def unsplit : FfiType w → Nat → Bool
  | .basic _ _ _, _ => true
  | .aggregate _ _ elements, start => elementsUnsplit elements start

def elementsUnsplit : List (FfiType w) → Nat → Bool
  | [], _ => true
  | element :: rest, start =>
    let offset := roundUp start element.alignment
    (offset % 8 + element.size.toNat + 7) / 8 ≤ (element.size.toNat + 7) / 8 &&
      unsplit element (offset % 8) && elementsUnsplit rest (offset + element.size.toNat)

end

/-- The classes of a type that starts in the first eightbyte of them: each has the additive
properties of the scalars in its eightbyte, if no class is dropped. -/
structure Classified (t : FfiType lp64.sizeBits) (start : Nat) (classes : List RegClass) : Prop where
  length : classes.length = (t.size.toNat + 7) / 8
  ordinary : ∀ c ∈ classes, c.ordinary
  additive : unsplit t start → ∀ h : RegClass → Prop, Additive h → ∀ (k : Nat) (c : RegClass),
    classes[k]? = some c → (h c ↔ ∃ s ∈ scalars t, (start + s.offset) / 8 = k ∧ h (s.type.regClass (start + s.offset)))

/-- `classify_argument` on a type within four eightbytes. -/
structure ClassifiedAt (t : FfiType lp64.sizeBits) (start : Nat) : Prop where
  small : t.size.toNat ≤ 16 → ∃ classes, classifyArgument t start = some classes ∧ Classified t start classes
  large : 16 < t.size.toNat → classifyArgument t start = some []

theorem regClass_mod (c : CType) (k offset : Nat) :
    c.regClass (k % 8 + offset) = c.regClass (k + offset) := by
  have same : (k % 8 + offset) % 8 = (k + offset) % 8 := Nat.mod_add_mod k 8 offset
  cases c <;> simp only [CType.regClass, same]

theorem integerClasses_one {size : Nat} (small : size ≤ 8) :
    integerClasses size = some [if size ≤ 4 then .integerSI else .integer] := by
  by_cases narrow : size ≤ 4 <;> simp [integerClasses, narrow, small]

theorem classify_ctype (c : CType) {start : Nat} (within : start < 8) (aligned : c.alignment lp64 ∣ start) :
    classifyArgument (c.ffiType lp64) start = some [c.regClass start] := by
  have bytes : (BitVec.ofNat lp64.sizeBits (c.size lp64)).toNat = c.size lp64 := ctype_size_toNat c
  have ends := scalar_within c aligned
  have small : start % 8 = start := Nat.mod_eq_of_lt within
  cases c with
  | float =>
    simp only [CType.ffiType, classifyArgument, CType.regClass]
    split <;> rfl
  | double => rfl
  | int signed width =>
    simp only [CType.ffiType, classifyArgument, CType.regClass, bytes]
    rw [small] at ends ⊢
    exact integerClasses_one ends
  | pointer =>
    simp only [CType.ffiType, classifyArgument, CType.regClass, bytes]
    rw [small] at ends ⊢
    exact integerClasses_one ends

theorem classifiedAt_ctype (c : CType) {start : Nat} (within : start < 8)
    (aligned : c.alignment lp64 ∣ start) : ClassifiedAt (c.ffiType lp64) start := by
  have bytes := ctype_size_toNat (m := lp64) c
  have bounds := size_le_eight c
  refine ⟨fun _ => ⟨_, classify_ctype c within aligned, ?_, ?_, ?_⟩, fun large => by omega⟩
  · rw [bytes, List.length_singleton]
    omega
  · simp only [List.mem_singleton, forall_eq]
    cases c <;> simp only [CType.regClass] <;> (try split) <;> rfl
  · intro _ h _ k found here
    obtain ⟨rfl, rfl⟩ : k = 0 ∧ c.regClass start = found := by
      cases k with
      | zero => simpa using here
      | succ k => simp at here
    simp [CType.ffiType, scalars, within]

/-- The classes of a struct's eightbytes after some of its fields are merged. -/
structure Merged (h : RegClass → Prop) (parts : List ScalarAt) (start : Nat) (before after : List RegClass) : Prop where
  each : ∀ (k : Nat) (c c' : RegClass), before[k]? = some c → after[k]? = some c' →
    (h c' ↔ h c ∨ ∃ s ∈ parts, (start + s.offset) / 8 = k ∧ h (s.type.regClass (start + s.offset)))

/-- Merging one field. -/
theorem merge_field {h : RegClass → Prop} (additive : Additive h) {element : FfiType lp64.sizeBits}
    (formed : Formed element) {start distance : Nat} {subclasses classes merged : List RegClass}
    (sub : Classified element ((start + distance) % 8) subclasses) (ordinary : ∀ c ∈ classes, c.ordinary)
    (did : mergeAt ((start + distance) / 8) subclasses classes = some merged)
    (counted : ((start + distance) % 8 + element.size.toNat + 7) / 8 ≤ (element.size.toNat + 7) / 8)
    (whole : unsplit element ((start + distance) % 8)) :
    Merged h ((scalars element).map (.shift distance)) start classes merged := by
  refine ⟨fun k c c' before after => ?_⟩
  rw [mergeAt_additive additive did sub.ordinary before (ordinary c (List.mem_of_getElem? before)) after]
  refine or_congr_right ⟨?_, ?_⟩
  · rintro ⟨subclass, late, found, holds⟩
    obtain ⟨s, member, position, holds⟩ := (sub.additive whole h additive _ _ found).mp holds
    rw [regClass_mod] at holds
    refine ⟨s.shift distance, List.mem_map_of_mem member, ?_, ?_⟩
    · simp only [ScalarAt.shift]
      omega
    · simpa [ScalarAt.shift, Nat.add_assoc] using holds
  · rintro ⟨shifted, member, position, holds⟩
    obtain ⟨s, inside, rfl⟩ := List.mem_map.mp member
    have bounds := scalar_inside formed inside
    have sized := (size_le_eight s.type).2
    simp only [ScalarAt.shift, ← Nat.add_assoc] at position holds
    -- the class of the scalar's eightbyte is one of those that were kept
    have kept : k - (start + distance) / 8 < subclasses.length := by
      rw [sub.length]
      omega
    refine ⟨subclasses[k - (start + distance) / 8], by omega, List.getElem?_eq_getElem kept, ?_⟩
    refine (sub.additive whole h additive _ _ (List.getElem?_eq_getElem kept)).mpr ⟨s, inside, by omega, ?_⟩
    rwa [regClass_mod]

theorem Merged.trans {h : RegClass → Prop} {first second : List ScalarAt} {start : Nat}
    {before between after : List RegClass} (one : Merged h first start before between)
    (two : Merged h second start between after) (same : between.length = before.length) :
    Merged h (first ++ second) start before after := by
  refine ⟨fun k c c'' early late => ?_⟩
  have bound : k < between.length := same ▸ (List.getElem?_eq_some_iff.mp early).1
  have middle := List.getElem?_eq_getElem bound
  rw [two.each k _ _ middle late, one.each k _ _ early middle, or_assoc, ← exists_or]
  simp only [List.mem_append, or_and_right]

/-- The loop over the fields of a struct that ends within four eightbytes: it gives up at a
field that goes in memory, and else merges all their classes. -/
theorem mergeFields_spec {elements : List (FfiType lp64.sizeBits)} {start : Nat}
    (each : ∀ element ∈ elements, Formed element ∧ element.alignment ∣ start ∧
      ∀ offset < 8, element.alignment ∣ offset → offset + element.size.toNat ≤ 32 → ClassifiedAt element offset)
    (placed : Shape) {classes : List RegClass} (length : classes.length = 4)
    (ordinary : ∀ c ∈ classes, c.ordinary)
    (fits : start + ((elements.map FfiType.shape).foldl Shape.place placed).size ≤ 32) :
    ∃ result, mergeFields elements classes (start + placed.size) = some result ∧
      (result = [] ∧ (∃ element ∈ elements, 16 < element.size.toNat) ∨
        (∀ element ∈ elements, element.size.toNat ≤ 16) ∧ result.length = 4 ∧ (∀ c ∈ result, c.ordinary) ∧
          (elementsUnsplit elements (start + placed.size) → ∀ h : RegClass → Prop, Additive h →
            Merged h (elementScalars elements placed.size) start classes result)) := by
  induction elements generalizing placed classes with
  | nil => exact ⟨classes, rfl, .inr ⟨by simp, length, ordinary, fun _ _ _ =>
      ⟨fun k c c' before after => by
        obtain rfl := Option.some.inj (before.symm.trans after)
        simp [elementScalars]⟩⟩⟩
  | cons element rest ih =>
    obtain ⟨formed, aligned, classified⟩ := each element (by simp)
    have restEach := fun other member => each other (List.mem_cons_of_mem element member)
    have positive := formed.isAlignment.pos
    have offset : roundUp (start + placed.size) element.alignment =
        start + roundUp placed.size element.alignment := roundUp_add positive aligned
    have multiple : element.alignment ∣ start + roundUp placed.size element.alignment :=
      Nat.dvd_add aligned (dvd_roundUp _ _)
    have next : (placed.place element.shape).size =
        roundUp placed.size element.alignment + element.size.toNat := rfl
    rw [List.map_cons, List.foldl_cons] at fits
    have grows := Shape.size_le_foldl_place (rest.map FfiType.shape) (placed.place element.shape)
      fun item member => by
        obtain ⟨other, inside, rfl⟩ := List.mem_map.mp member
        exact (restEach other inside).1.isAlignment.pos
    have at_ := classified ((start + roundUp placed.size element.alignment) % 8) (Nat.mod_lt _ (by omega))
      ((Nat.dvd_mod_iff formed.isAlignment.dvd_eight).mpr multiple) (by omega)
    simp only [mergeFields, offset]
    rcases Nat.lt_or_ge 16 element.size.toNat with large | small
    · exact ⟨[], by rw [at_.large large], .inl ⟨rfl, element, by simp, large⟩⟩
    · obtain ⟨subclasses, did, sub⟩ := at_.small small
      have room : (start + roundUp placed.size element.alignment) / 8 + subclasses.length ≤ classes.length := by
        rw [sub.length, length]
        omega
      obtain ⟨merged, merge, same⟩ := mergeAt_fits room
      obtain ⟨result, loop, outcome⟩ := ih restEach (placed.place element.shape)
        (same.trans length) (mergeAt_ordinary merge same sub.ordinary ordinary) fits
      have some_ : subclasses ≠ [] := by
        rintro rfl
        have none := sub.length
        have bytes := formed.size_pos
        simp only [List.length_nil] at none
        omega
      obtain ⟨first, others, rfl⟩ := List.exists_cons_of_ne_nil some_
      refine ⟨result, ?_, ?_⟩
      · rw [did]
        simp only [merge]
        rw [Nat.add_assoc, ← next, loop]
      · rcases outcome with ⟨rfl, big, member, size⟩ | ⟨sizes, long, kinds, properties⟩
        · exact .inl ⟨rfl, big, List.mem_cons_of_mem _ member, size⟩
        · refine .inr ⟨?_, long, kinds, fun whole h additive => ?_⟩
          · exact List.forall_mem_cons.mpr ⟨small, sizes⟩
          · simp only [elementsUnsplit, offset, Bool.and_eq_true, decide_eq_true_eq] at whole
            obtain ⟨⟨counted, inner⟩, tail⟩ := whole
            rw [Nat.add_assoc] at tail
            exact (merge_field additive formed sub ordinary merge counted inner).trans
              (properties tail h additive) same

/-- Every type within four eightbytes is classified without a failing assertion or a write
past the array. -/
theorem Formed.classifiedAt {t : FfiType lp64.sizeBits} (formed : Formed t) :
    ∀ start < 8, t.alignment ∣ start → start + t.size.toNat ≤ 32 → ClassifiedAt t start := by
  induction formed with
  | scalar c => exact fun start within aligned _ => classifiedAt_ctype c within aligned
  | @struct size alignment elements nonempty each natural ih =>
    intro start within aligned ends
    have formed := Formed.struct nonempty each natural
    have bytes : 0 < size.toNat := formed.size_pos
    change start + size.toNat ≤ 32 at ends
    have whole : size.toNat = (Shape.sequence (elements.map FfiType.shape)).size :=
      congrArg Shape.size natural
    have unit : 0 < (Shape.sequence (elements.map FfiType.shape)).alignment :=
      (congrArg Shape.alignment natural) ▸ formed.isAlignment.pos
    have padded : ((elements.map FfiType.shape).foldl Shape.place .empty).size ≤ size.toNat :=
      whole ▸ le_roundUp _ unit
    have fields : ∀ element ∈ elements, Formed element ∧ element.alignment ∣ start ∧
        ∀ offset < 8, element.alignment ∣ offset → offset + element.size.toNat ≤ 32 →
          ClassifiedAt element offset := fun element member =>
      ⟨each element member, (formed.element_alignment member).trans aligned, ih element member⟩
    obtain ⟨result, loop, outcome⟩ := mergeFields_spec fields .empty
      (List.length_replicate (n := 4) (a := RegClass.noClass)) (by simp [RegClass.ordinary]) (by omega)
    have start_ : start + Shape.empty.size = start := rfl
    have class_ : classifyArgument (.aggregate size alignment elements) start =
        match mergeFields elements (List.replicate 4 .noClass) start with
        | none => none
        | some [] => some []
        | some classes => some (structClasses (classes.take ((size.toNat + 7) / 8))) := by
      rw [classifyArgument, if_neg (by omega), if_neg (by omega)]
    rw [start_] at loop outcome
    rw [loop] at class_
    rcases outcome with ⟨rfl, element, member, large⟩ | ⟨sizes, long, kinds, properties⟩
    · have most := formed.element_size_le member
      refine ⟨fun small => ?_, fun _ => class_⟩
      change size.toNat ≤ 16 at small
      omega
    · have words : (result.take ((size.toNat + 7) / 8)).length = (size.toNat + 7) / 8 := by
        rw [List.length_take, long]
        omega
      have some_ : classifyArgument (.aggregate size alignment elements) start =
          some (structClasses (result.take ((size.toNat + 7) / 8))) := by
        rw [class_]
        cases result with
        | nil => simp at long
        | cons first rest => rfl
      have ordinary : ∀ c ∈ result.take ((size.toNat + 7) / 8), c.ordinary := fun c member =>
        kinds c (List.mem_of_mem_take member)
      rw [structClasses_ordinary ordinary, words] at some_
      refine ⟨fun small => ⟨_, some_.trans (congrArg some (if_neg ?_)), words, ordinary, ?_⟩, fun large => ?_⟩
      · change size.toNat ≤ 16 at small
        omega
      · intro unbroken h additive k c found
        have inside : k < (size.toNat + 7) / 8 := words ▸ (List.getElem?_eq_some_iff.mp found).1
        rw [List.getElem?_take_of_lt inside] at found
        have before : (List.replicate 4 RegClass.noClass)[k]? = some .noClass := by
          rw [List.getElem?_replicate, if_pos (by omega)]
        rw [(properties unbroken h additive).each k _ _ before found]
        simp [additive.none, scalars, Shape.empty]
      · change 16 < size.toNat at large
        rw [some_, if_pos (by omega)]

/-- What `examine_argument` finds: memory exactly for types over two eightbytes, and else
as many classes as the type has eightbytes. -/
theorem Formed.classified {t : FfiType lp64.sizeBits} (formed : Formed t) :
    ∃ classes, classifyArgument t 0 = some classes ∧ (16 < t.size.toNat → classes = []) ∧
      (t.size.toNat ≤ 16 → Classified t 0 classes) := by
  rcases Nat.lt_or_ge 32 t.size.toNat with huge | bounded
  · refine ⟨[], ?_, fun _ => rfl, fun small => by omega⟩
    cases formed with
    | scalar c =>
      have small := (size_le_eight c).1
      rw [ctype_size_toNat] at huge
      omega
    | struct nonempty each natural =>
      rw [classifyArgument]
      exact if_pos huge
  · have at_ := formed.classifiedAt 0 (by omega) (Nat.dvd_zero _) (by omega)
    rcases Nat.lt_or_ge 16 t.size.toNat with large | small
    · exact ⟨[], at_.large large, fun _ => rfl, fun small => by omega⟩
    · obtain ⟨classes, did, sub⟩ := at_.small small
      exact ⟨classes, did, fun large => by omega, fun _ => sub⟩

theorem countP_kinds {classes : List RegClass} (ordinary : ∀ c ∈ classes, c.ordinary) :
    classes.countP isInteger + classes.countP takesSse + classes.count .noClass = classes.length := by
  induction classes with
  | nil => rfl
  | cons c rest ih =>
    have tail := ih fun other member => ordinary other (List.mem_cons_of_mem _ member)
    have head := ordinary c (by simp)
    have one : (if c.isInteger then 1 else 0) + (if c.takesSse then 1 else 0) +
        (if c == .noClass then 1 else 0) = 1 := by
      cases c <;> cases head <;> rfl
    rw [List.countP_cons, List.countP_cons, List.count_cons, List.length_cons]
    omega

theorem examineArgument_ordinary {t : FfiType w} {classes : List RegClass}
    (did : classifyArgument t 0 = some classes) (ordinary : ∀ c ∈ classes, c.ordinary) :
    examineArgument t = some ⟨classes, classes.countP isInteger, classes.countP takesSse⟩ := by
  have passes : ¬ (classes.any fun c => c.isX87 || c == .memory) := by
    rw [Bool.not_eq_true, List.any_eq_false]
    intro c member
    have kind := ordinary c member
    cases c <;> cases kind <;> decide
  simp only [examineArgument, did]
  exact if_neg passes

/-- **Where an argument goes.** `examine_argument` never aborts, fails an assertion or writes
past its arrays; it sends exactly the types over 16 bytes to memory, and asks for no more
registers than the others have eightbytes. -/
theorem examineArgument_defined {t : FfiType lp64.sizeBits} (formed : Formed t) :
    ∃ e, examineArgument t = some e ∧ (e.classes = [] ↔ 16 < t.size.toNat) ∧
      (t.size.toNat ≤ 16 → e.classes.length = (t.size.toNat + 7) / 8) ∧ e.ngpr + e.nsse ≤ e.classes.length := by
  obtain ⟨classes, did, large, small⟩ := formed.classified
  have bytes := formed.size_pos
  have ordinary : ∀ c ∈ classes, c.ordinary := by
    rcases Nat.lt_or_ge 16 t.size.toNat with big | fits
    · simp [large big]
    · exact (small fits).ordinary
  have counts := countP_kinds ordinary
  refine ⟨_, examineArgument_ordinary did ordinary, ⟨fun none => ?_, large⟩,
    fun fits => (small fits).length, by dsimp only; omega⟩
  by_contra fits
  have long := (small (Nat.le_of_not_lt fits)).length
  rw [show classes = [] from none, List.length_nil] at long
  omega

/-- `struct { int64_t; double; }`, of an INTEGER and an SSE eightbyte. -/
def longDouble : RefType := .struct [.scalar (.sized true .w64), .scalar .double]

def longDoubleType : FfiType lp64.sizeBits := (initialized (ffiType lp64 longDouble)).get (by rfl)

theorem longDouble_formed : Formed longDoubleType := by
  refine (formed_of_encodable (t := longDouble) ⟨?_, ?_⟩ ?_ ?_ (by decide) rfl).1
  · simp [longDouble, RefType.Placeable]
  · simp [longDouble]
  · simp [longDouble, Direct, Misread]
  · simp [longDouble, Encodable, Scalar.Encodable]

theorem longDouble_examined : ∃ e, examineArgument longDoubleType = some e ∧
    (e.classes = [] ↔ 16 < longDoubleType.size.toNat) ∧
    (longDoubleType.size.toNat ≤ 16 → e.classes.length = (longDoubleType.size.toNat + 7) / 8) ∧
    e.ngpr + e.nsse ≤ e.classes.length :=
  examineArgument_defined longDouble_formed

/-! ## The psABI's classes -/

/-- The two classes that the psABI gives an eightbyte of scalars. -/
inductive EightbyteClass where
  | integer
  | sse
  deriving DecidableEq, Repr

def CType.floating : CType → Bool
  | .float | .double => true
  | _ => false

/-- An eightbyte goes in an SSE register only if every scalar in it is a floating one. -/
def eightbyteClass (t : FfiType w) (k : Nat) : EightbyteClass :=
  if (scalars t).any fun s => s.offset / 8 == k && !s.type.floating then .integer else .sse

/-- The classes the psABI gives an argument; none for one passed in memory. -/
def psabiClasses (t : FfiType w) : List EightbyteClass :=
  if 16 < t.size.toNat then [] else (List.range ((t.size.toNat + 7) / 8)).map (eightbyteClass t)

/-- What a class of libffi's is to the psABI. -/
def RegClass.eightbyte : RegClass → Option EightbyteClass
  | .integer | .integerSI => some .integer
  | .sse | .sseSF | .sseDF => some .sse
  | _ => none

theorem regClass_isInteger (c : CType) (offset : Nat) : (c.regClass offset).isInteger = !c.floating := by
  cases c <;> simp only [CType.regClass, CType.floating] <;> (try split) <;> rfl

theorem regClass_occupied (c : CType) (offset : Nat) : c.regClass offset ≠ .noClass := by
  cases c <;> simp only [CType.regClass] <;> (try split) <;> simp

theorem eightbyte_of_ordinary {c : RegClass} (ordinary : c.ordinary) (occupied : c ≠ .noClass) :
    c.eightbyte = some (if c.isInteger then .integer else .sse) := by
  cases c <;> cases ordinary <;> simp_all [RegClass.eightbyte, isInteger]

theorem countP_eightbyte (classes : List RegClass) :
    classes.countP isInteger = (classes.map RegClass.eightbyte).count (some .integer) ∧
      classes.countP takesSse = (classes.map RegClass.eightbyte).count (some .sse) := by
  constructor
  · rw [List.count, List.countP_map]
    congr 1
    funext c
    cases c <;> rfl
  · rw [List.count, List.countP_map]
    congr 1
    funext c
    cases c <;> rfl

/-- The class of one eightbyte of a type that is passed in registers. -/
theorem Classified.eightbyte {t : FfiType lp64.sizeBits} {classes : List RegClass} (formed : Formed t)
    (classified : Classified t 0 classes) (whole : unsplit t 0) {k : Nat} {c : RegClass}
    (found : classes[k]? = some c) : c.eightbyte = some (eightbyteClass t k) := by
  have bound : k < (t.size.toNat + 7) / 8 := classified.length ▸ (List.getElem?_eq_some_iff.mp found).1
  have occupied : c ≠ .noClass := by
    obtain ⟨s, member, position⟩ := formed.eightbyte_starts (k := k) (by omega)
    refine (classified.additive whole _ additive_occupied k c found).mpr ⟨s, member, by omega, ?_⟩
    exact regClass_occupied _ _
  have integer := classified.additive whole _ additive_isInteger k c found
  rw [eightbyte_of_ordinary (classified.ordinary c (List.mem_of_getElem? found)) occupied, eightbyteClass]
  congr 1
  refine if_congr ?_ rfl rfl
  simp only [integer, regClass_isInteger, List.any_eq_true, Bool.and_eq_true, beq_iff_eq, Nat.zero_add,
    Bool.not_eq_eq_eq_not, Bool.not_true]

/-- **libffi's classes are the psABI's** on every type none of whose eightbytes is dropped:
each eightbyte is passed in the kind of register that compiled code looks for it in. -/
theorem examineArgument_psabi {t : FfiType lp64.sizeBits} (formed : Formed t) (whole : unsplit t 0) :
    ∃ e, examineArgument t = some e ∧ e.classes.map RegClass.eightbyte = (psabiClasses t).map some ∧
      e.ngpr = (psabiClasses t).count .integer ∧ e.nsse = (psabiClasses t).count .sse := by
  obtain ⟨classes, did, large, small⟩ := formed.classified
  have same : (∀ c ∈ classes, c.ordinary) ∧ classes.map RegClass.eightbyte = (psabiClasses t).map some := by
    rcases Nat.lt_or_ge 16 t.size.toNat with big | fits
    · rw [large big, psabiClasses, if_pos big]
      simp
    · have classified := small fits
      refine ⟨classified.ordinary, ?_⟩
      rw [psabiClasses, if_neg (by omega), ← classified.length]
      apply List.ext_getElem?
      intro k
      cases found : classes[k]? with
      | none => simp [List.getElem?_eq_none_iff.mp found]
      | some c =>
        have bound := (List.getElem?_eq_some_iff.mp found).1
        simp [found, classified.eightbyte formed whole found, List.getElem?_range bound]
  have counts := countP_eightbyte classes
  have injective : Function.Injective (some : EightbyteClass → _) := Option.some_injective _
  refine ⟨_, examineArgument_ordinary did same.1, same.2, ?_, ?_⟩
  · rw [counts.1, same.2, List.count_map_of_injective _ _ injective]
  · rw [counts.2, same.2, List.count_map_of_injective _ _ injective]

theorem longDouble_psabi : ∃ e, examineArgument longDoubleType = some e ∧
    e.classes.map RegClass.eightbyte = (psabiClasses longDoubleType).map some ∧
    e.ngpr = (psabiClasses longDoubleType).count .integer ∧ e.nsse = (psabiClasses longDoubleType).count .sse :=
  examineArgument_psabi longDouble_formed (by rfl)

/-- `struct { float; struct { float; float; }; }`: the last `float` has no class. -/
example : ((initialized (ffiType lp64 (.struct [.scalar .float, .struct [.scalar .float, .scalar .float]]))).bind
    examineArgument).map Examined.classes = some [.sse, .noClass] := by rfl

end NodeFfi
