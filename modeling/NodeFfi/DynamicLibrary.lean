import NodeFfi.GreedyPatterns
import NodeFfi.PartialOrbits

/-! `lib/dynamic_library.js`: opening a library. Where `dlopen` reports an error for what
looks like a library's name, the file is taken for a linker script and the constructor
starts over with the first file that the script's `GROUP` names. -/
namespace NodeFfi.DynamicLibrary

open GreedyPatterns PartialOrbits Relation

abbrev Text := List Char

/-! ## The two patterns -/

def unspaced (c : Char) : Bool := c ∉ [' ', '\t', '(', ')']

def inSuffix (c : Char) : Bool := c ∉ [' ', '\t', ':', '(', ')']

def blank (c : Char) : Bool := c ∈ [' ', '\t']

/-- `/^(([^ \t()])+\.so([^ \t:()])*):([ \t])*/`. -/
def errorPattern : List Element :=
  [.one unspaced, .many unspaced] ++ literal ['.', 's', 'o'] ++ [.many inSuffix] ++
    literal [':'] ++ [.many blank]

/-- The file in the error message: `err.match(..)[1]`. -/
def reportedFile (err : Text) : Option Text :=
  (matchStart errorPattern err).map fun parts => (parts.take 6).flatten

def inGroup (c : Char) : Bool := c ∉ [' ', ')']

/-- `/GROUP *\( *(([^ )])+)/`. -/
def groupPattern : List Element :=
  literal ['G', 'R', 'O', 'U', 'P'] ++ [.many (· == ' ')] ++ literal ['('] ++
    [.many (· == ' '), .one inGroup, .many inGroup]

/-- The first file in the parentheses of a linker script's `GROUP`. -/
def groupFile (content : Text) : Option Text :=
  (search groupPattern content).map fun parts => (parts.drop 8).flatten

/-- What the parts of an error message are that fits the pattern. -/
theorem errorPattern_cases {parts : List Text} (fits : Fits errorPattern parts) :
    ∃ first front suffix blanks,
      parts = [[first], front, ['.'], ['s'], ['o'], suffix, [':'], blanks] ∧ unspaced first ∧
        (∀ c ∈ front, unspaced c) ∧ ∀ c ∈ suffix, inSuffix c := by
  simp only [errorPattern, literal, List.map_cons, List.map_nil, List.cons_append,
    List.nil_append] at fits
  obtain _ | ⟨unspaced_first, fits⟩ := fits
  obtain _ | _ | ⟨unspaced_front, fits⟩ := fits
  obtain _ | ⟨dot, fits⟩ := fits
  obtain _ | ⟨s, fits⟩ := fits
  obtain _ | ⟨o, fits⟩ := fits
  obtain _ | _ | ⟨suffix, fits⟩ := fits
  obtain _ | ⟨colon, fits⟩ := fits
  obtain _ | _ | ⟨_, fits⟩ := fits
  cases fits
  rw [beq_iff_eq] at dot s o colon
  subst dot s o colon
  exact ⟨_, _, _, _, rfl, unspaced_first, unspaced_front, suffix⟩

/-- Two texts that go on with a colon, one of them followed by a blank, are the same when
the one has no colon, and the other no blank and no colon at its end. -/
theorem eq_of_colon {path name rest text : Text} (plain : ':' ∉ path) (unblank : ' ' ∉ name)
    (last : name.getLast? ≠ some ':')
    (same : name ++ ':' :: rest = path ++ ':' :: ' ' :: text) : name = path := by
  rcases List.append_eq_append_iff.mp same with ⟨more, rfl, onward⟩ | ⟨more, rfl, onward⟩
  · cases more with
    | nil => exact (List.append_nil name).symm
    | cons c more =>
      obtain ⟨rfl, _⟩ := List.cons.inj onward
      exact absurd (List.mem_append_right _ (List.mem_cons_self ..)) plain
  · cases more with
    | nil => exact List.append_nil path
    | cons c more =>
      obtain ⟨rfl, further⟩ := List.cons.inj onward
      cases more with
      | nil => exact absurd List.getLast?_concat last
      | cons c more =>
        obtain ⟨rfl, _⟩ := List.cons.inj further
        exact absurd (List.mem_append_right _ (List.mem_cons_of_mem _ (List.mem_cons_self ..)))
          unblank

theorem ne_of_inSuffix {c : Char} (inside : inSuffix c) : c ≠ ' ' ∧ c ≠ ':' ∧ unspaced c := by
  simp only [inSuffix, unspaced, List.mem_cons, List.not_mem_nil, or_false, not_or,
    decide_eq_true_eq] at *
  tauto

/-- A name that the pattern finds has no blank. -/
theorem unspaced_name {first : Char} {front suffix : Text} (unspaced_first : unspaced first)
    (unspaced_front : ∀ c ∈ front, unspaced c) (in_suffix : ∀ c ∈ suffix, inSuffix c) :
    ' ' ∉ first :: front ++ ['.', 's', 'o'] ++ suffix := by
  have all : ∀ c ∈ first :: front ++ ['.', 's', 'o'] ++ suffix, unspaced c := by
    intro c inside
    rcases List.mem_append.mp inside with inside | inside
    · rcases List.mem_append.mp inside with inside | inside
      · rcases List.mem_cons.mp inside with rfl | inside
        · exact unspaced_first
        · exact unspaced_front c inside
      · simp only [List.mem_cons, List.not_mem_nil, or_false] at inside
        rcases inside with rfl | rfl | rfl <;> rfl
    · exact (ne_of_inSuffix (in_suffix c inside)).2.2
  intro inside
  cases all ' ' inside

/-- Nor does it end in a colon. -/
theorem getLast_name {front suffix : Text} (in_suffix : ∀ c ∈ suffix, inSuffix c) :
    (front ++ ['.', 's', 'o'] ++ suffix).getLast? ≠ some ':' := by
  rcases List.eq_nil_or_concat suffix with rfl | ⟨start, last, rfl⟩
  · simp
  · have own := (ne_of_inSuffix (in_suffix last (by simp))).2.1
    rw [List.concat_eq_append, ← List.append_assoc, List.getLast?_concat]
    exact fun same => own (Option.some.inj same)

/-- **The file in the error message is the path that was opened**, when that has no
blanks, parentheses or colons and a `.so` that is not its beginning. -/
theorem reportedFile_of_plain {first : Char} {front suffix text : Text}
    (plain : ∀ c ∈ first :: front ++ ['.', 's', 'o'] ++ suffix, inSuffix c) :
    reportedFile (first :: front ++ ['.', 's', 'o'] ++ suffix ++ [':', ' '] ++ text) =
      some (first :: front ++ ['.', 's', 'o'] ++ suffix) := by
  have all : ∀ c ∈ first :: front ++ ['.', 's', 'o'] ++ suffix, c ≠ ' ' ∧ c ≠ ':' ∧ unspaced c :=
    fun c inside => ne_of_inSuffix (plain c inside)
  have fits : Fits errorPattern [[first], front, ['.'], ['s'], ['o'], suffix, [':'], [' ']] := by
    have unspaced_first := (all first (by simp)).2.2
    have unspaced_front : ∀ c ∈ front, unspaced c :=
      fun c inside => (all c (by simp [inside])).2.2
    have in_suffix : ∀ c ∈ suffix, inSuffix c := fun c inside => plain c (by simp [inside])
    exact .one unspaced_first (.many unspaced_front (.one rfl (.one rfl (.one rfl
      (.many in_suffix (.one rfl (.many (List.forall_mem_singleton.mpr rfl) .nil)))))))
  have found := matchStart_complete fits text
  obtain ⟨parts, matched⟩ := Option.isSome_iff_exists.mp found
  obtain ⟨fits', rest, start⟩ := matchStart_sound matched
  obtain ⟨c, front', suffix', blanks, rfl, first', unspaced_front', in_suffix'⟩ :=
    errorPattern_cases fits'
  have whole : first :: front ++ ['.', 's', 'o'] ++ suffix ++ [':', ' '] ++ text =
      [[first], front, ['.'], ['s'], ['o'], suffix, [':'], [' ']].flatten ++ text := by simp
  have name : ([[c], front', ['.'], ['s'], ['o'], suffix', [':'], blanks].take 6).flatten =
      c :: front' ++ ['.', 's', 'o'] ++ suffix' := by simp
  have same : c :: front' ++ ['.', 's', 'o'] ++ suffix' ++ ':' :: (blanks ++ rest) =
      first :: front ++ ['.', 's', 'o'] ++ suffix ++ ':' :: ' ' :: text := by simpa using start
  rw [whole, reportedFile, matched, Option.map_some, name]
  apply congrArg some (eq_of_colon ?_ (unspaced_name first' unspaced_front' in_suffix')
    (getLast_name in_suffix') same)
  intro inside
  exact (all ':' inside).2.1 rfl

/-! ## The constructor -/

/-- What `dlerror` says after `dlopen` has failed: a path, and why. -/
structure Failure where
  path : Text
  text : Text
  deriving DecidableEq, Repr

def Failure.message (failure : Failure) : Text := failure.path ++ [':', ' '] ++ failure.text

/-- The files there are, by their contents, which file a path leads to, and what
`dlopen` does with a path and a mode. -/
structure System where
  files : List Text
  resolve : Text → Option (Fin files.length)
  dlopen : Text → Nat → Except Failure Nat
  rtldLazy : Nat

/-- The object that the constructor fills in. -/
structure Library where
  path : Text
  handle : Nat
  deriving DecidableEq, Repr

/-- The exception for an error of the linker, or of reading the file. -/
inductive Exception
  | linking (message : Text)
  | reading (path : Text)
  deriving DecidableEq, Repr

def linkingError (err : Text) : Exception := .linking ("Dynamic Linking Error: ".toList ++ err)

/-- What the body of the constructor comes to: it returns or throws, or has read a
script and calls itself with the path that the script names. -/
inductive Attempt (File : Type)
  | done (outcome : Except Exception Library)
  | follow (file : File) (path : Text)
  deriving DecidableEq

variable (sys : System)

/-- The body of the constructor, up to the call of itself. -/
def attempt (path : Text) (mode : Nat) : Attempt (Fin sys.files.length) :=
  match sys.dlopen path mode with
  | .ok handle => .done (.ok ⟨path, handle⟩)
  | .error failure =>
    let err := failure.message
    match reportedFile err with
    | none => .done (.error (linkingError err))
    | some name =>
      match sys.resolve name with
      | none => .done (.error (.reading name))
      | some file =>
        match groupFile sys.files[file] with
        | none => .done (.error (linkingError err))
        | some next => .follow file next

/-- The constructor, and the files whose `GROUP` it has followed, in order; `none` when
it has called itself `fuel` times and is not done. -/
def dynamicLibrary : Nat → Text → Option Nat →
    Option (Except Exception Library × List (Fin sys.files.length))
  | 0, _, _ => none
  | fuel + 1, path, mode =>
    let mode := mode.getD sys.rtldLazy
    match attempt sys path mode with
    | .done outcome => some (outcome, [])
    | .follow file path =>
      (dynamicLibrary fuel path (some mode)).map fun (outcome, followed) => (outcome, file :: followed)

/-- **Opening comes to an end**: the constructor returns or throws, and has followed the
`GROUP` of no file twice. -/
def Finishes (path : Text) (mode : Option Nat) : Prop :=
  ∃ fuel outcome followed, dynamicLibrary sys fuel path mode = some (outcome, followed) ∧
    followed.Nodup

/-- The file that is read next, after the one whose `GROUP` is followed. -/
def leadsTo (mode : Nat) (file : Fin sys.files.length) : Option (Fin sys.files.length) :=
  (groupFile sys.files[file]).bind fun path =>
    match attempt sys path mode with
    | .done _ => none
    | .follow next _ => some next

/-- Opening the path gets to following the file's `GROUP`, sooner or later. -/
def Follows (path : Text) (mode : Nat) (file : Fin sys.files.length) : Prop :=
  ∃ first next, attempt sys path mode = .follow first next ∧
    ReflTransGen (Leads (leadsTo sys mode)) first file

variable {sys} {path next : Text} {mode : Nat} {file : Fin sys.files.length}

/-- A file is followed to what its `GROUP` names. -/
theorem groupFile_of_follow (follows : attempt sys path mode = .follow file next) :
    groupFile sys.files[file] = some next := by
  unfold attempt at follows
  split at follows
  · cases follows
  · dsimp only at follows
    split at follows
    · cases follows
    · split at follows
      · cases follows
      · split at follows
        · cases follows
        · next named =>
          cases follows
          exact named

theorem leadsTo_of_follow (follows : attempt sys path mode = .follow file next) :
    leadsTo sys mode file =
      match attempt sys next mode with
      | .done _ => none
      | .follow other _ => some other := by
  rw [leadsTo, groupFile_of_follow follows, Option.bind_some]

theorem dynamicLibrary_done {outcome : Except Exception Library} (fuel : Nat)
    (done : attempt sys path mode = .done outcome) :
    dynamicLibrary sys (fuel + 1) path (some mode) = some (outcome, []) := by
  simp only [dynamicLibrary, Option.getD_some, done]

theorem dynamicLibrary_follow (fuel : Nat) (follows : attempt sys path mode = .follow file next) :
    dynamicLibrary sys (fuel + 1) path (some mode) =
      (dynamicLibrary sys fuel next (some mode)).map fun (outcome, followed) =>
        (outcome, file :: followed) := by
  simp only [dynamicLibrary, Option.getD_some, follows]

/-- **The constructor follows an orbit**: it is done when the orbit of files ends. -/
theorem followed_eq_orbit (fuel : Nat) (follows : attempt sys path mode = .follow file next) :
    (dynamicLibrary sys (fuel + 1) path (some mode)).map Prod.snd =
      orbit (leadsTo sys mode) fuel file := by
  induction fuel generalizing path file next with
  | zero =>
    rw [dynamicLibrary_follow 0 follows]
    rfl
  | succ fuel further =>
    rw [dynamicLibrary_follow _ follows]
    have onward := leadsTo_of_follow follows
    cases after : attempt sys next mode with
    | done outcome =>
      rw [after] at onward
      rw [orbit_last onward, dynamicLibrary_done fuel after]
      rfl
    | follow other path' =>
      rw [after] at onward
      rw [orbit_next onward, ← further after, Option.map_map, Option.map_map]
      rfl

/-- The mode is resolved once. -/
theorem dynamicLibrary_mode (fuel : Nat) (path : Text) (mode : Option Nat) :
    dynamicLibrary sys fuel path mode =
      dynamicLibrary sys fuel path (some (mode.getD sys.rtldLazy)) := by
  cases fuel with
  | zero => rfl
  | succ fuel => simp only [dynamicLibrary, Option.getD_some]

theorem finishes_iff_ends (mode : Option Nat) :
    Finishes sys path mode ↔ ∀ first next,
      attempt sys path (mode.getD sys.rtldLazy) = .follow first next →
        Ends (leadsTo sys (mode.getD sys.rtldLazy)) first := by
  constructor
  · rintro ⟨fuel, outcome, followed, finished, _⟩ first next follows
    rw [dynamicLibrary_mode] at finished
    cases fuel with
    | zero => cases finished
    | succ fuel =>
      have ended := followed_eq_orbit fuel follows
      rw [finished] at ended
      exact ⟨fuel, followed, ended.symm⟩
  · intro ends
    cases body : attempt sys path (mode.getD sys.rtldLazy) with
    | done outcome =>
      refine ⟨1, outcome, [], ?_, List.nodup_nil⟩
      rw [dynamicLibrary_mode, dynamicLibrary_done 0 body]
    | follow first next =>
      obtain ⟨fuel, followed, found⟩ := ends first next body
      have ended := followed_eq_orbit fuel body
      rw [found] at ended
      obtain ⟨⟨outcome, _⟩, finished, rfl⟩ := Option.map_eq_some_iff.mp ended
      rw [← dynamicLibrary_mode] at finished
      exact ⟨fuel + 1, outcome, _, finished, orbit_nodup found⟩

/-- **Opening comes to an end exactly if no file whose `GROUP` is followed leads back to
itself.** -/
theorem finishes_iff (sys : System) (path : Text) (mode : Option Nat) :
    Finishes sys path mode ↔ ∀ file, Follows sys path (mode.getD sys.rtldLazy) file →
      ¬ TransGen (Leads (leadsTo sys (mode.getD sys.rtldLazy))) file file := by
  rw [finishes_iff_ends]
  constructor
  · rintro ends file ⟨first, next, follows, reached⟩
    exact ends_iff.mp (ends first next follows) file reached
  · intro acyclic first next follows
    exact ends_iff.mpr fun file reached => acyclic file ⟨first, next, follows, reached⟩

/-- A library that is a linker script, and names itself. -/
def selfNaming : System where
  files := ["GROUP ( /lib/libc.so )".toList]
  resolve := fun path => if path = "/lib/libc.so".toList then some 0 else none
  dlopen := fun path _ => .error ⟨path, "invalid ELF header".toList⟩
  rtldLazy := 1

/-- Opening it follows the one `GROUP` again and again. -/
theorem self_naming_never_finishes : ¬ Finishes selfNaming "/lib/libc.so".toList none := by
  intro finishes
  have itself : leadsTo selfNaming 1 ⟨0, by decide⟩ = some ⟨0, by decide⟩ := by decide
  have ends := (finishes_iff_ends none).mp finishes ⟨0, by decide⟩ "/lib/libc.so".toList (by decide)
  exact ends.no_return (.single itself)

end NodeFfi.DynamicLibrary
