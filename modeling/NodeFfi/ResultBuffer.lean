import NodeFfi.LayoutAgreement

/-! The buffer a proxy allocates for a result, against what `ffi_call` stores into
it. `_foreign_function.js` compares the `size` property of the return type with
`sizeof(long)`; libffi widens by `sizeof(ffi_arg)`, and a pointer type's `size` is
its pointee's. Both proxies of a function use the one `resultSize`. -/
namespace NodeFfi
open AlignedLayout RefType

/-- `_foreign_function.js`, `resultSize`. -/
def resultSize (m : DataModel) (returnType : RefType) : Nat :=
  if returnType.size m ≥ m.long.bytes then returnType.size m else m.ffiArg.bytes

/-- How many bytes `ffi_call` stores for an initialised return type: an integer or a
pointer fills at least an `ffi_arg`, a floating or struct result its own size. -/
def ffiCallStores (m : DataModel) : FfiType m.sizeBits → Nat
  | .basic _ _ .void => 0
  | .basic size _ (.value (.int _ _)) => max m.ffiArg.bytes size.toNat
  | .basic size _ (.value .pointer) => max m.ffiArg.bytes size.toNat
  | .basic size _ (.value .float) => size.toNat
  | .basic size _ (.value .double) => size.toNat
  | .aggregate size _ _ => size.toNat

/-- How many bytes `result.deref()` reads: `ref.get` reads a pointer when the
indirection is above one, and leaves it to the type otherwise. -/
def derefReads (m : DataModel) : RefType → Nat
  | .pointer _ => m.pointer.bytes
  | t => t.size m

/-- The result buffer holds whatever `ffi_call` stores and `result.deref()` reads. -/
def ResultFits (m : DataModel) (returnType : RefType) : Prop :=
  ∀ rtype, initialized (ffiType m returnType) = some rtype →
    ffiCallStores m rtype ≤ resultSize m returnType ∧ derefReads m returnType ≤ resultSize m returnType

/-- The targets of this build. -/
inductive Supported (m : DataModel) : Prop where
  | ilp32 (long : m.long = .four) (pointer : m.pointer = .four) (ffiArg : m.ffiArg = .four)
  | lp64 (long : m.long = .eight) (pointer : m.pointer = .eight) (ffiArg : m.ffiArg = .eight)
  | llp64 (long : m.long = .four) (pointer : m.pointer = .eight) (ffiArg : m.ffiArg = .eight)

/-- A return type `ffi_call` widens: an integer or a pointer. -/
def Widened (m : DataModel) : RefType → Prop
  | .scalar s => s.ctype m ≠ some .float ∧ s.ctype m ≠ some .double
  | .pointer _ => True
  | _ => False

/-- A return type of a function: not an array, and a struct only if libffi gives it
the size `ref` gives it. -/
structure Returnable (m : DataModel) (returnType : RefType) : Prop where
  notArray : ∀ type fixedLength, returnType ≠ .array type fixedLength
  structSize : ∀ fields rtype, returnType = .struct fields →
    initialized (ffiType m returnType) = some rtype → rtype.size.toNat = returnType.size m

variable {m : DataModel}

private theorem widened_stores {c : CType} (float : c ≠ .float) (double : c ≠ .double) :
    ffiCallStores m (c.ffiType m) = max m.ffiArg.bytes (c.size m) := by
  have size := ctype_size_toNat (m := m) c
  cases c with
  | float => exact absurd rfl float
  | double => exact absurd rfl double
  | int signed width => rw [← size]; rfl
  | pointer => rw [← size]; rfl

private theorem floating_stores {c : CType} (floating : c = .float ∨ c = .double) :
    ffiCallStores m (c.ffiType m) = c.size m := by
  rw [← ctype_size_toNat]
  rcases floating with rfl | rfl <;> rfl

theorem size_le_resultSize (supported : Supported m) (returnType : RefType) :
    returnType.size m ≤ resultSize m returnType := by
  have longest : m.long.bytes ≤ m.ffiArg.bytes := by
    cases supported <;> simp [*, Word.bytes]
  rw [resultSize]
  split <;> omega

/-- A widened result fits unless the return type's `size` lies between `sizeof(long)`
and `sizeof(ffi_arg)`. -/
theorem ffiArg_le_resultSize_iff (returnType : RefType) :
    m.ffiArg.bytes ≤ resultSize m returnType ↔
      ¬ (m.long.bytes ≤ returnType.size m ∧ returnType.size m < m.ffiArg.bytes) := by
  rw [resultSize]
  split <;> omega

theorem widened_iff (s : Scalar) :
    Widened m (.scalar s) ↔ s.ffiType m ≠ .float ∧ s.ffiType m ≠ .double := by
  cases s with
  | named name =>
    cases name <;> cases h : m.long <;>
      simp [Widened, Scalar.ctype, Scalar.ffiType, Typedef.ownFfiType, ffiTypeLong, h]
  | sized signed width => simp [Widened, Scalar.ctype, Scalar.ffiType]
  | float => simp [Widened, Scalar.ctype, Scalar.ffiType]
  | double => simp [Widened, Scalar.ctype, Scalar.ffiType]
  | Object => simp [Widened, Scalar.ctype, Scalar.ffiType]
  | CString => simp [Widened, Scalar.ctype, Scalar.ffiType]

/-- A descriptor is never larger than the type it describes. -/
theorem ffiType_size_le (s : Scalar) : (s.ffiType m).size m ≤ s.size m := by
  cases s with
  | named name =>
    cases name <;> cases h : m.long <;>
      simp [Scalar.size, Scalar.ctype, Scalar.ffiType, Typedef.ownFfiType, Typedef.prototype, ffiTypeLong,
        CType.size, CType.logSize, Word.width, IntWidth.log, h]
  | sized signed width => exact Nat.le_refl _
  | float => exact Nat.le_refl _
  | double => exact Nat.le_refl _
  | Object => exact CType.size_pointer m ▸ m.object_pointer
  | CString => exact Nat.le_refl _

/-- Only a predefined descriptor is initialised from a predefined one. -/
theorem initialized_aggregate {w : Nat} {size : BitVec w} {alignment : Nat}
    {elements : List (FfiType w)} {ft : FfiType w}
    (ready : initialized (.aggregate size alignment elements) = some ft) :
    ∃ size alignment elements, ft = .aggregate size alignment elements := by
  simp only [initialized, initializeAggregate] at ready
  split at ready
  · split at ready
    · cases ready
    · split at ready
      · cases ready
      · exact ⟨_, _, _, (Option.some.inj ready).symm⟩
  · exact ⟨_, _, _, (Option.some.inj ready).symm⟩

/-- **The result buffer.** It holds what `ffi_call` stores and `deref` reads except
for an integer or a pointer type whose `size` is at least `sizeof(long)` but less
than `sizeof(ffi_arg)`, which happens only where `long` is the narrower. -/
theorem result_fits_iff (supported : Supported m) {returnType : RefType}
    (returnable : Returnable m returnType) :
    ResultFits m returnType ↔
      ¬ (Widened m returnType ∧ m.long.bytes ≤ returnType.size m ∧
        returnType.size m < m.ffiArg.bytes) := by
  have read := size_le_resultSize supported returnType
  have widened := ffiArg_le_resultSize_iff (m := m) returnType
  cases returnType with
  | array type fixedLength => exact absurd rfl (returnable.notArray type fixedLength)
  | void =>
    refine iff_of_true (fun rtype ready => ?_) (by simp [Widened])
    simp only [ffiType, ffiTypeVoid, initialized, initializeAggregate] at ready
    split at ready
    · cases ready
    · cases ready
      exact ⟨Nat.zero_le _, read⟩
  | scalar s =>
    have smaller : (s.ffiType m).size m ≤ resultSize m (.scalar s) :=
      (ffiType_size_le s).trans read
    by_cases floating : Widened m (.scalar s)
    · have stores := widened_stores (m := m) ((widened_iff s).mp floating).1
        ((widened_iff s).mp floating).2
      simp only [ResultFits, ffiType, initialized_ctype, Option.some.injEq, forall_eq', stores,
        floating, true_and, ← widened]
      constructor
      · intro fits
        exact (Nat.le_max_left _ _).trans fits.1
      · intro fits
        exact ⟨Nat.max_le.mpr ⟨fits, smaller⟩, read⟩
    · have stores := floating_stores (m := m) (c := s.ffiType m) (by
        rw [widened_iff] at floating
        tauto)
      simp only [ResultFits, ffiType, initialized_ctype, Option.some.injEq, forall_eq', stores,
        floating, false_and, not_false_eq_true, iff_true]
      exact ⟨smaller, read⟩
  | pointer pointee =>
    have pointerFits : m.pointer.bytes ≤ m.ffiArg.bytes := by
      cases supported <;> simp [*, Word.bytes]
    have stores := widened_stores (m := m) (c := .pointer) (by simp) (by simp)
    rw [CType.size_pointer, Nat.max_eq_left pointerFits] at stores
    simp only [ResultFits, ffiType, initialized_ctype, Option.some.injEq, forall_eq', stores,
      Widened, true_and, ← widened]
    constructor
    · exact And.left
    · intro fits
      exact ⟨fits, pointerFits.trans fits⟩
  | struct fields =>
    refine iff_of_true (fun rtype ready => ?_) (by simp [Widened])
    have size := returnable.structSize fields rtype rfl ready
    rw [ffiType] at ready
    obtain ⟨size', alignment, elements, rfl⟩ := initialized_aggregate ready
    exact ⟨size.trans_le read, read⟩

/-- 32-bit targets. -/
def ilp32 : DataModel := naturalModel .four .four .four .w32

theorem int_result_fits_lp64 : ResultFits lp64 (.scalar (.named .int)) :=
  (result_fits_iff (.lp64 rfl rfl rfl) ⟨by simp, by simp⟩).mpr
    fun overrun => absurd overrun.2.1 (by decide)

/-- On 64-bit Windows an `int` result and a pointer to one get four bytes, and
`ffi_call` stores eight. -/
theorem result_overrun :
    ¬ ResultFits llp64 (.scalar (.named .int)) ∧
      ¬ ResultFits llp64 (.pointer (.scalar (.named .int))) := by
  constructor
  · intro fits
    have stored := (fits _ (initialized_ctype (.int true .w32))).1
    exact absurd stored (by decide)
  · intro fits
    have stored := (fits _ (initialized_ctype .pointer)).1
    exact absurd stored (by decide)

end NodeFfi
