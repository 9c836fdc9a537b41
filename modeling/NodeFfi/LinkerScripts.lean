import NodeFfi.DynamicLibrary
import Mathlib.Data.Set.Finite.Range

/-! What opening a library comes to. A path leads from linker script to linker script to a
file that is none; the constructor goes from message to message instead, reading the file
that it takes each message to name. -/
namespace NodeFfi.DynamicLibrary

open GreedyPatterns PartialOrbits Relation

section
variable (sys : System) (mode : Nat)

/-- `dlerror` names the path that `dlopen` was given. -/
def Reports : Prop := ∀ path mode failure, sys.dlopen path mode = .error failure → failure.path = path

/-- The first file in the `GROUP` of what the path leads to, when that does not open and is
a script that can be read. -/
def scriptNames (path : Text) : Option Text :=
  match sys.dlopen path mode with
  | .ok _ => none
  | .error _ => (sys.resolve path).bind fun file => groupFile (sys.files.get file)

/-- The chain of scripts that starts at a path ends at another. -/
def Chain (path last : Text) : Prop :=
  ReflTransGen (Leads (scriptNames sys mode)) path last ∧ scriptNames sys mode last = none

/-- **What opening a path is to come to**: the library is what the end of the chain opens as
and keeps the path it was asked for; and if the end does not open, the error is its own. -/
def Expected (path : Text) (outcome : Except Exception Library) : Prop :=
  ∃ last, Chain sys mode path last ∧
    match sys.dlopen last mode with
    | .ok handle => outcome = .ok ⟨path, handle⟩
    | .error failure => outcome = .error (linkingError failure.message)

/-- The constructor is done, with the outcome that it is to come to. -/
def ComesOut (path : Text) (mode : Option Nat) : Prop :=
  ∃ fuel outcome followed, dynamicLibrary sys fuel path mode = some (outcome, followed) ∧
    Expected sys (mode.getD sys.rtldLazy) path outcome

/-- The name that the constructor finds in the message for a path that does not open. -/
def namedFile (path : Text) : Option Text :=
  match sys.dlopen path mode with
  | .ok _ => none
  | .error failure => reportedFile failure.message

/-- The path that the constructor goes on with. -/
def takenFrom (path : Text) : Option Text :=
  (namedFile sys mode path).bind fun name => (sys.resolve name).bind fun file => groupFile (sys.files.get file)

/-- The constructor stops at the path, and with the error of the linker: the message names
no file, or one that can be read and has no `GROUP`. -/
structure StopsAt (path : Text) (failure : Failure) : Prop where
  fails : sys.dlopen path mode = .error failure
  nowhere : takenFrom sys mode path = none
  readable : ∀ name ∈ namedFile sys mode path, (sys.resolve name).isSome

/-- The chain of scripts ends at a file that does not open, and that is where the
constructor stops; or it stops at once, with a message that happens to be the same. -/
def Straight (path : Text) : Prop :=
  ∃ last own failure failure', Chain sys mode path last ∧ sys.dlopen last mode = .error failure ∧
    ReflTransGen (Leads (takenFrom sys mode)) path own ∧ StopsAt sys mode own failure' ∧
    (own = last ∨ own = path ∧ failure'.message = failure.message)

end

variable {sys : System} {mode : Nat} {path next last own : Text} {failure failure' : Failure}
  {outcome : Except Exception Library}

/-! ## Where the constructor goes -/

theorem takenFrom_of_follow {file : Fin sys.files.length} (follows : attempt sys path mode = .follow file next) :
    takenFrom sys mode path = some next := by
  unfold attempt at follows
  split at follows
  · cases follows
  · next failed =>
    dsimp only at follows
    split at follows
    · cases follows
    · next named =>
      split at follows
      · cases follows
      · next found =>
        split at follows
        · cases follows
        · next grouped =>
          cases follows
          rw [takenFrom, namedFile, failed]
          simp only [named, found, Option.bind_some]
          exact grouped

theorem takenFrom_of_done (done : attempt sys path mode = .done outcome) : takenFrom sys mode path = none := by
  unfold attempt at done
  rw [takenFrom, namedFile]
  cases opened : sys.dlopen path mode with
  | ok handle => rfl
  | error failure =>
    rw [opened] at done
    dsimp only at done ⊢
    cases named : reportedFile failure.message with
    | none => rfl
    | some name =>
      rw [named] at done
      rw [Option.bind_some]
      dsimp only at done
      cases found : sys.resolve name with
      | none => rfl
      | some file =>
        rw [found] at done
        rw [Option.bind_some]
        dsimp only at done
        cases grouped : groupFile sys.files[file] with
        | none => rfl
        | some next =>
          rw [grouped] at done
          cases done

theorem follow_of_takenFrom (taken : takenFrom sys mode path = some next) :
    ∃ file, attempt sys path mode = .follow file next := by
  cases body : attempt sys path mode with
  | done outcome =>
    rw [takenFrom_of_done body] at taken
    cases taken
  | follow file other =>
    rw [takenFrom_of_follow body] at taken
    cases taken
    exact ⟨file, rfl⟩

/-- **The constructor is done with what it comes to at the end of its own chain.** -/
theorem returns_iff : (∃ fuel followed, dynamicLibrary sys fuel path (some mode) = some (outcome, followed)) ↔
    ∃ own, ReflTransGen (Leads (takenFrom sys mode)) path own ∧ attempt sys own mode = .done outcome := by
  constructor
  · rintro ⟨fuel, followed, returned⟩
    induction fuel generalizing path followed with
    | zero => cases returned
    | succ fuel further =>
      cases body : attempt sys path mode with
      | done outcome' =>
        rw [dynamicLibrary_done fuel body] at returned
        cases returned
        exact ⟨path, .refl, body⟩
      | follow file next =>
        rw [dynamicLibrary_follow fuel body] at returned
        obtain ⟨⟨outcome', followed'⟩, onward, same⟩ := Option.map_eq_some_iff.mp returned
        cases same
        obtain ⟨own, reached, stopped⟩ := further followed' onward
        exact ⟨own, reached.head (takenFrom_of_follow body), stopped⟩
  · rintro ⟨own, reached, stopped⟩
    induction reached using ReflTransGen.head_induction_on with
    | refl => exact ⟨1, [], dynamicLibrary_done 0 stopped⟩
    | head taken _ further =>
      obtain ⟨fuel, followed, onward⟩ := further
      obtain ⟨file, body⟩ := follow_of_takenFrom taken
      refine ⟨fuel + 1, file :: followed, ?_⟩
      rw [dynamicLibrary_follow fuel body, onward]
      rfl

theorem attempt_of_stopsAt (stops : StopsAt sys mode own failure) :
    attempt sys own mode = .done (.error (linkingError failure.message)) := by
  cases body : attempt sys own mode with
  | follow file next =>
    cases stops.nowhere.symm.trans (takenFrom_of_follow body)
  | done outcome =>
    have readable := stops.readable
    unfold attempt at body
    rw [namedFile] at readable
    rw [stops.fails] at body readable
    dsimp only at body readable
    split at body
    · exact body.symm
    · next name named =>
      have found := readable name named
      split at body
      · next missing =>
        rw [missing] at found
        cases found
      · split at body
        · exact body.symm
        · cases body

/-- What it comes to there: the library, the error of the linker, or one of reading. -/
theorem attempt_done_cases (done : attempt sys own mode = .done outcome) :
    (∃ handle, sys.dlopen own mode = .ok handle ∧ outcome = .ok ⟨own, handle⟩) ∨
      (∃ failure, StopsAt sys mode own failure ∧ outcome = .error (linkingError failure.message)) ∨
      ∃ name, outcome = .error (.reading name) := by
  have nowhere := takenFrom_of_done done
  unfold attempt at done
  split at done
  · next handle opened =>
    cases done
    exact .inl ⟨handle, opened, rfl⟩
  · next failure failed =>
    have naming : namedFile sys mode own = reportedFile failure.message := by rw [namedFile, failed]
    dsimp only at done
    split at done
    · next unnamed =>
      cases done
      refine .inr (.inl ⟨failure, ⟨failed, nowhere, ?_⟩, rfl⟩)
      rw [naming, unnamed]
      nofun
    · next name named =>
      split at done
      · cases done
        exact .inr (.inr ⟨name, rfl⟩)
      · next found =>
        split at done
        · cases done
          refine .inr (.inl ⟨failure, ⟨failed, nowhere, ?_⟩, rfl⟩)
          rw [naming, named]
          rintro _ ⟨⟩
          rw [found]
          rfl
        · cases done

/-! ## Messages -/

/-- A name in a `GROUP` has no blank. -/
theorem unspaced_groupFile {content : Text} (named : groupFile content = some next) : ' ' ∉ next := by
  obtain ⟨parts, found, rfl⟩ := Option.map_eq_some_iff.mp named
  have fits := (search_sound found).1
  simp only [groupPattern, literal, List.map_cons, List.map_nil, List.cons_append, List.nil_append] at fits
  obtain _ | ⟨_, fits⟩ := fits
  obtain _ | ⟨_, fits⟩ := fits
  obtain _ | ⟨_, fits⟩ := fits
  obtain _ | ⟨_, fits⟩ := fits
  obtain _ | ⟨_, fits⟩ := fits
  obtain _ | _ | ⟨_, fits⟩ := fits
  obtain _ | ⟨_, fits⟩ := fits
  obtain _ | _ | ⟨_, fits⟩ := fits
  obtain _ | ⟨first, fits⟩ := fits
  obtain _ | _ | ⟨rest, fits⟩ := fits
  cases fits
  simp only [List.drop_succ_cons, List.drop_zero, List.flatten_cons, List.flatten_nil, List.append_nil,
    List.singleton_append, List.mem_cons, not_or]
  constructor
  · rintro rfl
    cases first
  · intro inside
    cases rest ' ' inside

theorem unspaced_taken (taken : takenFrom sys mode path = some next) : ' ' ∉ next := by
  obtain ⟨_, _, onward⟩ := Option.bind_eq_some_iff.mp taken
  obtain ⟨_, _, named⟩ := Option.bind_eq_some_iff.mp onward
  exact unspaced_groupFile named

theorem unspaced_scriptNames (names : scriptNames sys mode path = some next) : ' ' ∉ next := by
  unfold scriptNames at names
  split at names
  · cases names
  · obtain ⟨_, _, named⟩ := Option.bind_eq_some_iff.mp names
    exact unspaced_groupFile named

/-- What is reached is where one starts, or has no blank. -/
theorem unspaced_reached {follow : Text → Option Text} (unspaced : ∀ a b, follow a = some b → ' ' ∉ b)
    (reached : ReflTransGen (Leads follow) path last) : last = path ∨ ' ' ∉ last := by
  cases reached with
  | refl => exact .inl rfl
  | tail _ next => exact .inr (unspaced _ _ next)

/-- Messages for two paths without blanks are the same only for the same path. -/
theorem path_of_message {text text' : Text} (unblank : ' ' ∉ own) (unblank' : ' ' ∉ last)
    (same : own ++ [':', ' '] ++ text = last ++ [':', ' '] ++ text') : own = last := by
  have prefixes : ∀ {name rest : Text}, ' ' ∉ name →
      (name ++ [':', ' '] ++ rest).takeWhile (· ≠ ' ') = name ++ [':'] := by
    intro name rest plain
    have front : ∀ c ∈ name ++ [':'], (decide (c ≠ ' ')) = true := by
      intro c inside
      rcases List.mem_append.mp inside with early | colon
      · exact decide_eq_true fun blank => plain (blank ▸ early)
      · obtain rfl := List.mem_singleton.mp colon
        rfl
    have split : name ++ [':', ' '] ++ rest = (name ++ [':']) ++ ' ' :: rest := by simp
    rw [split, List.takeWhile_append_of_pos front, List.takeWhile_cons_of_neg (by simp), List.append_nil]
  have whole := congrArg (List.takeWhile (· ≠ ' ')) same
  rw [prefixes unblank, prefixes unblank'] at whole
  exact List.append_cancel_right whole

/-! ## Chains -/

/-- No path leads back to itself from script to script. -/
def Acyclic (sys : System) (mode : Nat) : Prop :=
  ∀ path, ¬ TransGen (Leads (scriptNames sys mode)) path path

theorem finite_reached (path : Text) : {last | ReflTransGen (Leads (scriptNames sys mode)) path last}.Finite := by
  have named : {last | ∃ file : Fin sys.files.length, groupFile sys.files[file] = some last}.Finite := by
    apply (Set.finite_range fun file : Fin sys.files.length => (groupFile sys.files[file]).getD []).subset
    rintro last ⟨file, grouped⟩
    exact ⟨file, by simp only [grouped, Option.getD_some]⟩
  apply (named.insert path).subset
  intro last reached
  cases reached with
  | refl => exact .inl rfl
  | tail _ next =>
    right
    unfold Leads scriptNames at next
    split at next
    · cases next
    · obtain ⟨file, _, grouped⟩ := Option.bind_eq_some_iff.mp next
      exact ⟨file, grouped⟩

/-- **Without cycles there is one outcome to come to.** -/
theorem existsUnique_expected (acyclic : Acyclic sys mode) (path : Text) :
    ∃! outcome, Expected sys mode path outcome := by
  obtain ⟨last, reached, ends⟩ := (ends_of_acyclic (finite_reached path) fun b _ => acyclic b).last
  have unique : ∀ last', Chain sys mode path last' → last' = last :=
    fun _ chain' => last_unique chain'.1 chain'.2 reached ends
  cases opens : sys.dlopen last mode with
  | ok handle =>
    refine ⟨.ok ⟨path, handle⟩, ⟨last, ⟨reached, ends⟩, by rw [opens]⟩, ?_⟩
    rintro outcome ⟨last', chain', comes⟩
    rwa [unique last' chain', opens] at comes
  | error failure =>
    refine ⟨.error (linkingError failure.message), ⟨last, ⟨reached, ends⟩, by rw [opens]⟩, ?_⟩
    rintro outcome ⟨last', chain', comes⟩
    rwa [unique last' chain', opens] at comes

/-! ## When it comes out right -/

theorem linkingError_inj {err err' : Text} (same : linkingError err = linkingError err') : err = err' :=
  List.append_cancel_left (Exception.linking.inj same)

/-- Where the constructor stops with the message of the chain's end, it has got to that
end, unless it has not moved at all. -/
theorem own_of_message (reports : Reports sys) (chain : Chain sys mode path last)
    (fails : sys.dlopen last mode = .error failure)
    (reached : ReflTransGen (Leads (takenFrom sys mode)) path own) (stops : StopsAt sys mode own failure')
    (same : failure'.message = failure.message) : own = last ∨ own = path := by
  have named : failure.path = last := reports _ _ _ fails
  have named' : failure'.path = own := reports _ _ _ stops.fails
  rw [Failure.message, Failure.message, named, named'] at same
  rcases unspaced_reached (fun _ _ => unspaced_taken) reached with start | unblank
  · exact .inr start
  · rcases unspaced_reached (fun _ _ => unspaced_scriptNames) chain.1 with rfl | unblank'
    · -- The path passed and `own` have the same message, so the same file is read for both.
      have alike : takenFrom sys mode last = takenFrom sys mode own := by
        rw [takenFrom, takenFrom, namedFile, namedFile, fails, stops.fails]
        simp only [Failure.message, named, named', same]
      rcases reached.cases_head with rfl | ⟨next, taken, _⟩
      · exact .inr rfl
      · cases (alike.trans stops.nowhere).symm.trans taken
    · exact .inl (path_of_message unblank unblank' same)

theorem straight_of_expected (reports : Reports sys) (shut : ∀ handle, sys.dlopen path mode ≠ .ok handle)
    (reached : ReflTransGen (Leads (takenFrom sys mode)) path own)
    (done : attempt sys own mode = .done outcome) (expected : Expected sys mode path outcome) :
    Straight sys mode path := by
  obtain ⟨last, chain, comes⟩ := expected
  rcases attempt_done_cases done with ⟨handle, opened, rfl⟩ | ⟨failure', stops, rfl⟩ | ⟨name, rfl⟩
  · split at comes
    · cases comes
      exact absurd opened (shut handle)
    · cases comes
  · split at comes
    · cases comes
    · next failure fails =>
      have same : failure'.message = failure.message := linkingError_inj (Except.error.inj comes)
      have ends := own_of_message reports chain fails reached stops same
      exact ⟨last, own, failure, failure', chain, fails, reached, stops, ends.imp_right fun start => ⟨start, same⟩⟩
  · split at comes
    · cases comes
    · cases comes

theorem chain_of_opens {handle : Nat} (opens : sys.dlopen path mode = .ok handle) : Chain sys mode path path :=
  ⟨.refl, by rw [scriptNames, opens]⟩

theorem expected_of_opens {handle : Nat} (opens : sys.dlopen path mode = .ok handle) :
    Expected sys mode path (.ok ⟨path, handle⟩) := by
  refine ⟨path, chain_of_opens opens, ?_⟩
  rw [opens]

/-- **Opening a library comes out right** exactly when the path opens at once, or no file of
the chain does and the constructor stops where the chain ends. -/
theorem comesOut_iff (sys : System) (path : Text) (mode : Option Nat) (reports : Reports sys) :
    ComesOut sys path mode ↔
      (∃ handle, sys.dlopen path (mode.getD sys.rtldLazy) = .ok handle) ∨
        Straight sys (mode.getD sys.rtldLazy) path := by
  constructor
  · rintro ⟨fuel, outcome, followed, returned, expected⟩
    rw [dynamicLibrary_mode] at returned
    obtain ⟨own, reached, done⟩ := returns_iff.mp ⟨fuel, followed, returned⟩
    by_cases opens : ∃ handle, sys.dlopen path (mode.getD sys.rtldLazy) = .ok handle
    · exact .inl opens
    · exact .inr (straight_of_expected reports (not_exists.mp opens) reached done expected)
  · rintro (⟨handle, opens⟩ | ⟨last, own, failure, failure', chain, fails, reached, stops, ends⟩)
    · have done : attempt sys path (mode.getD sys.rtldLazy) = .done (.ok ⟨path, handle⟩) := by
        rw [attempt, opens]
      obtain ⟨fuel, followed, returned⟩ := returns_iff.mpr ⟨path, .refl, done⟩
      rw [← dynamicLibrary_mode] at returned
      exact ⟨fuel, _, followed, returned, expected_of_opens opens⟩
    · obtain ⟨fuel, followed, returned⟩ := returns_iff.mpr ⟨own, reached, attempt_of_stopsAt stops⟩
      rw [← dynamicLibrary_mode] at returned
      refine ⟨fuel, _, followed, returned, last, chain, ?_⟩
      have same : failure'.message = failure.message := by
        rcases ends with rfl | ⟨_, same⟩
        · rw [Except.error.inj (stops.fails.symm.trans fails)]
        · exact same
      rw [fails, same]

/-- A path that the error pattern takes whole: no blanks, parentheses or colons, and a `.so`
that is not its beginning. -/
def LibraryName (path : Text) : Prop :=
  ∃ first front suffix, path = first :: front ++ ['.', 's', 'o'] ++ suffix ∧ ∀ c ∈ path, inSuffix c

theorem namedFile_of_libraryName (reports : Reports sys) (named : LibraryName path)
    (fails : sys.dlopen path mode = .error failure) : namedFile sys mode path = some path := by
  obtain ⟨first, front, suffix, split, plain⟩ := named
  rw [namedFile, fails]
  simp only [Failure.message, reports _ _ _ fails]
  subst split
  exact reportedFile_of_plain plain

theorem takenFrom_of_libraryName (reports : Reports sys) (named : LibraryName path) :
    takenFrom sys mode path = scriptNames sys mode path := by
  cases opens : sys.dlopen path mode with
  | ok handle =>
    rw [takenFrom, namedFile, scriptNames, opens]
    rfl
  | error failure =>
    rw [takenFrom, namedFile_of_libraryName reports named opens, scriptNames, opens]
    rfl

theorem unspaced_libraryName (named : LibraryName path) : ' ' ∉ path := by
  obtain ⟨_, _, _, _, plain⟩ := named
  intro inside
  exact (ne_of_inSuffix (plain ' ' inside)).1 rfl

/-- Among library names all that is needed is that the last file is there. -/
theorem straight_iff_of_libraryNames (reports : Reports sys)
    (named : ∀ last, ReflTransGen (Leads (scriptNames sys mode)) path last → LibraryName last) :
    Straight sys mode path ↔ ∃ last failure, Chain sys mode path last ∧
      sys.dlopen last mode = .error failure ∧ (sys.resolve last).isSome := by
  constructor
  · rintro ⟨last, own, failure, failure', chain, fails, reached, stops, ends⟩
    refine ⟨last, failure, chain, fails, ?_⟩
    have name := namedFile_of_libraryName reports (named last chain.1) fails
    rcases ends with rfl | ⟨rfl, same⟩
    · exact stops.readable own name
    · rw [Failure.message, Failure.message, reports _ _ _ fails, reports _ _ _ stops.fails] at same
      obtain rfl := path_of_message (unspaced_libraryName (named _ .refl))
        (unspaced_libraryName (named _ chain.1)) same
      exact stops.readable own name
  · rintro ⟨last, failure, chain, fails, found⟩
    have alike : ∀ {a b}, ReflTransGen (Leads (scriptNames sys mode)) path a →
        Leads (scriptNames sys mode) a b → Leads (takenFrom sys mode) a b := by
      intro a b before next
      exact (takenFrom_of_libraryName reports (named a before)).trans next
    have reached : ReflTransGen (Leads (takenFrom sys mode)) path last := by
      have whole := chain.1
      clear fails found chain
      induction whole with
      | refl => exact .refl
      | tail before next further => exact further.tail (alike before next)
    refine ⟨last, last, failure, failure, chain, fails, reached, ⟨fails, ?_, ?_⟩, .inl rfl⟩
    · rw [takenFrom_of_libraryName reports (named last chain.1), chain.2]
    · rw [namedFile_of_libraryName reports (named last chain.1) fails]
      rintro _ ⟨⟩
      exact found

/-! ## Three libraries -/

/-- `/lib/libc.so` is a script that names `/lib/libm.so`, which is no library. -/
def brokenTarget : System where
  files := ["GROUP ( /lib/libm.so )".toList, "none".toList]
  resolve := fun path =>
    if path = "/lib/libc.so".toList then some 0 else if path = "/lib/libm.so".toList then some 1 else none
  dlopen := fun path _ => .error ⟨path, "invalid ELF header".toList⟩
  rtldLazy := 1

theorem broken_target_comesOut : ComesOut brokenTarget "/lib/libc.so".toList none := by
  have reports : Reports brokenTarget := by
    rintro path mode failure ⟨⟩
    rfl
  apply (comesOut_iff brokenTarget "/lib/libc.so".toList none reports).mpr
  have first : scriptNames brokenTarget 1 "/lib/libc.so".toList = some "/lib/libm.so".toList := by decide
  have taken : takenFrom brokenTarget 1 "/lib/libc.so".toList = some "/lib/libm.so".toList := by decide
  refine .inr ⟨"/lib/libm.so".toList, "/lib/libm.so".toList, _, _, ⟨.single first, by decide⟩, rfl,
    .single taken, ⟨rfl, by decide, by decide⟩, .inl rfl⟩

/-- `/lib/libc.so` is a script that names `/lib/libc.so.6`, which opens. -/
def workingTarget : System where
  files := ["GROUP ( /lib/libc.so.6 )".toList]
  resolve := fun path => if path = "/lib/libc.so".toList then some 0 else none
  dlopen := fun path _ =>
    if path = "/lib/libc.so.6".toList then .ok 7 else .error ⟨path, "invalid ELF header".toList⟩
  rtldLazy := 1

/-- `/lib/libc.so` is not there. -/
def missingLibrary : System where
  files := []
  resolve := fun _ => none
  dlopen := fun path _ => .error ⟨path, "cannot open shared object file".toList⟩
  rtldLazy := 1

/-- A library that a script leads to forgets the path it was asked for, and for one that is
not there the error is that of reading it. -/
theorem wrong_path_and_wrong_error :
    ¬ ComesOut workingTarget "/lib/libc.so".toList none ∧
      ¬ ComesOut missingLibrary "/lib/libc.so".toList none := by
  constructor
  · rintro ⟨fuel, outcome, followed, returned, last, _, comes⟩
    rw [dynamicLibrary_mode] at returned
    obtain ⟨own, reached, done⟩ := returns_iff.mp ⟨fuel, followed, returned⟩
    have taken : takenFrom workingTarget 1 "/lib/libc.so".toList = some "/lib/libc.so.6".toList := by decide
    obtain rfl := last_unique reached (takenFrom_of_done done) (.single taken) (by decide)
    have opened : attempt workingTarget "/lib/libc.so.6".toList 1 =
        .done (.ok ⟨"/lib/libc.so.6".toList, 7⟩) := by decide
    cases opened.symm.trans done
    split at comes
    · have kept : "/lib/libc.so.6".toList = "/lib/libc.so".toList :=
        congrArg Library.path (Except.ok.inj comes)
      exact absurd kept (by decide)
    · cases comes
  · rintro ⟨fuel, outcome, followed, returned, last, _, comes⟩
    rw [dynamicLibrary_mode] at returned
    obtain ⟨own, reached, done⟩ := returns_iff.mp ⟨fuel, followed, returned⟩
    have unread : attempt missingLibrary "/lib/libc.so".toList 1 =
        .done (.error (.reading "/lib/libc.so".toList)) := by decide
    obtain rfl := last_unique reached (takenFrom_of_done done) .refl (takenFrom_of_done unread)
    cases unread.symm.trans done
    split at comes <;> cases comes

end NodeFfi.DynamicLibrary
