import Mathlib.Data.List.Basic

/-! Patterns that are rows of character classes, some of them starred, matched the way
regular expressions are: a star takes as much as it can and gives back what the rest
of the pattern needs. -/
namespace GreedyPatterns

/-- One character of a class, or any number of them. -/
inductive Element
  | one (has : Char → Bool)
  | many (has : Char → Bool)

/-- A pattern that matches exactly this text. -/
def literal (text : List Char) : List Element := text.map fun c => .one (· == c)

/-- A star before what matches the rest of the input; the longest way first. -/
def star (has : Char → Bool) (rest : List Char → Option (List (List Char))) :
    List Char → Option (List (List Char))
  | [] => (rest []).map ([] :: ·)
  | c :: input =>
    let stop := (rest (c :: input)).map ([] :: ·)
    if has c then
      match star has rest input with
      | some (taken :: parts) => some ((c :: taken) :: parts)
      | _ => stop
    else stop

/-- What each element matches, at the start of the input. -/
def matchStart : List Element → List Char → Option (List (List Char))
  | [], _ => some []
  | .one _ :: _, [] => none
  | .one has :: pattern, c :: input =>
    if has c then (matchStart pattern input).map ([c] :: ·) else none
  | .many has :: pattern, input => star has (matchStart pattern) input

/-- The first match that starts anywhere. -/
def search (pattern : List Element) : List Char → Option (List (List Char))
  | [] => matchStart pattern []
  | c :: input => (matchStart pattern (c :: input)).or (search pattern input)

/-- The parts are what the elements may match, one after another. -/
inductive Fits : List Element → List (List Char) → Prop
  | nil : Fits [] []
  | one {has : Char → Bool} {c : Char} {pattern : List Element} {parts : List (List Char)}
      (inside : has c) (fits : Fits pattern parts) : Fits (.one has :: pattern) ([c] :: parts)
  | many {has : Char → Bool} {taken : List Char} {pattern : List Element} {parts : List (List Char)}
      (inside : ∀ c ∈ taken, has c) (fits : Fits pattern parts) :
      Fits (.many has :: pattern) (taken :: parts)

variable {has : Char → Bool} {pattern : List Element} {input : List Char} {parts : List (List Char)}

/-- What a star and the rest after it match. -/
theorem star_sound {rest : List Char → Option (List (List Char))}
    (found : star has rest input = some parts) :
    ∃ taken others after, parts = taken :: others ∧ input = taken ++ after ∧
      (∀ c ∈ taken, has c) ∧ rest after = some others := by
  induction input generalizing parts with
  | nil =>
    obtain ⟨others, matched, rfl⟩ := Option.map_eq_some_iff.mp found
    exact ⟨[], others, [], rfl, rfl, by simp, matched⟩
  | cons c input further =>
    have stopped : (rest (c :: input)).map ([] :: ·) = some parts → ∃ taken others after,
        parts = taken :: others ∧ c :: input = taken ++ after ∧ (∀ c ∈ taken, has c) ∧
          rest after = some others := by
      intro stop
      obtain ⟨others, matched, rfl⟩ := Option.map_eq_some_iff.mp stop
      exact ⟨[], others, c :: input, rfl, rfl, by simp, matched⟩
    unfold star at found
    by_cases inside : has c
    · simp only [inside, if_true] at found
      split at found
      · next taken others longer =>
        obtain ⟨taken', others', after, same, split, all, matched⟩ := further longer
        obtain ⟨rfl, rfl⟩ := List.cons.inj same
        obtain rfl := Option.some.inj found
        exact ⟨c :: taken, others, after, rfl, by rw [split, List.cons_append],
          List.forall_mem_cons.mpr ⟨inside, all⟩, matched⟩
      · exact stopped found
    · simp only [inside] at found
      exact stopped found

/-- **A match is a way to split the start of the input among the elements.** -/
theorem matchStart_sound (found : matchStart pattern input = some parts) :
    Fits pattern parts ∧ parts.flatten <+: input := by
  induction pattern generalizing input parts with
  | nil =>
    obtain rfl := Option.some.inj found
    exact ⟨.nil, List.nil_prefix⟩
  | cons element pattern further =>
    cases element with
    | one has =>
      cases input with
      | nil => cases found
      | cons c input =>
        obtain ⟨inside, found⟩ := Option.ite_none_right_eq_some.mp found
        obtain ⟨others, matched, rfl⟩ := Option.map_eq_some_iff.mp found
        obtain ⟨fits, start⟩ := further matched
        exact ⟨.one inside fits, List.cons_prefix_cons.mpr ⟨rfl, start⟩⟩
    | many has =>
      obtain ⟨taken, others, after, rfl, rfl, all, matched⟩ := star_sound found
      obtain ⟨fits, start⟩ := further matched
      exact ⟨.many all fits, (List.prefix_append_right_inj taken).mpr start⟩

/-- A match that is found somewhere is a way to split a part of the input. -/
theorem search_sound (found : search pattern input = some parts) :
    Fits pattern parts ∧ parts.flatten <:+: input := by
  induction input with
  | nil =>
    obtain ⟨fits, start⟩ := matchStart_sound found
    exact ⟨fits, start.isInfix⟩
  | cons c input further =>
    rcases Option.or_eq_some_iff.mp found with here | ⟨_, later⟩
    · obtain ⟨fits, start⟩ := matchStart_sound here
      exact ⟨fits, start.isInfix⟩
    · obtain ⟨fits, inside⟩ := further later
      exact ⟨fits, inside.trans (List.suffix_cons c input).isInfix⟩

theorem star_complete {rest : List Char → Option (List (List Char))} {taken after : List Char}
    (all : ∀ c ∈ taken, has c) (matched : (rest after).isSome) :
    (star has rest (taken ++ after)).isSome := by
  induction taken with
  | nil =>
    have stops : ((rest after).map ([] :: ·)).isSome := by rwa [Option.isSome_map]
    cases after with
    | nil => exact stops
    | cons c after =>
      rw [List.nil_append, star]
      split
      · split
        · rfl
        · exact stops
      · exact stops
  | cons c taken further =>
    obtain ⟨inside, others⟩ := List.forall_mem_cons.mp all
    obtain ⟨parts, longer⟩ := Option.isSome_iff_exists.mp (further others)
    obtain ⟨_, _, _, rfl, _⟩ := star_sound longer
    rw [List.cons_append, star, if_pos inside, longer]
    rfl

/-- **Whatever can be matched is found**, if perhaps split another way. -/
theorem matchStart_complete (fits : Fits pattern parts) (after : List Char) :
    (matchStart pattern (parts.flatten ++ after)).isSome := by
  induction fits with
  | nil => rfl
  | one inside _ further =>
    rw [List.flatten_cons, List.append_assoc, List.singleton_append, matchStart, if_pos inside,
      Option.isSome_map]
    exact further
  | many all _ further =>
    rw [List.flatten_cons, List.append_assoc, matchStart]
    exact star_complete all further

end GreedyPatterns
