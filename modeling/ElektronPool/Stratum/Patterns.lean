import ElektronPool.Js.Hex
import ElektronPool.Js.Quoted
import ElektronPool.Js.Regex
import ElektronPool.Stratum.Handshake
import Mathlib.Data.List.TakeWhile

/-!
# The regular expressions

Where the source matches a text against an expression, the model reads the text directly. Both come to the same.
-/

namespace ElektronPool.Stratum
set_option autoImplicit false
open Js Regex

def digit : Regex := .one fun c => '0' ≤ c && c ≤ '9'

def char (a : Char) : Regex := .one (· = a)

/-! ## The difficulty in a password -/

/-- `d=(\d+)(?:,|$)`. -/
def optionPattern : Regex :=
  .seq (char 'd') (.seq (char '=') (.seq (.group 1 (.plus digit)) (.alt (char ',') .finish)))

/-- `/(?:^|,)d=(\d+)(?:,|$)/`. -/
def difficultyPattern : Regex := .seq (.alt .start (char ',')) optionPattern

section
variable {read cs : List Char} {captures : ℕ → Option (List Char)}

theorem results_char_seq (a : Char) (r : Regex) (read cs : List Char) (captures : ℕ → Option (List Char)) :
    (Regex.seq (char a) r).results ⟨read, cs, captures⟩ =
      if cs.head? = some a then r.results ⟨a :: read, cs.tail, captures⟩ else [] := by
  cases cs with
  | nil => rfl
  | cons b cs => by_cases same : b = a <;> simp [results, char, same]

theorem digit_ne_comma {c : Char} (is : ('0' ≤ c && c ≤ '9') = true) : c ≠ ',' := by
  rintro rfl
  exact absurd is (by decide)

/-- What is ahead begins with a comma, or there is nothing ahead. -/
theorem results_ends (read cs : List Char) (captures : ℕ → Option (List Char)) :
    ((Regex.alt (char ',') .finish).results ⟨read, cs, captures⟩).head?.map (·.captures 1) =
      if cs.takeWhile (· ≠ ',') = [] then some (captures 1) else none := by
  cases cs with
  | nil => rfl
  | cons a cs => by_cases comma : a = ',' <;> simp [results, char, comma]

/-- The digits that follow are the value of an option if nothing else is in it. -/
theorem results_value (read cs : List Char) (captures : ℕ → Option (List Char)) :
    ((Regex.seq (.group 1 (.plus digit)) (.alt (char ',') .finish)).results ⟨read, cs, captures⟩).head?.map (·.captures 1) =
      (difficultyHint ('d' :: '=' :: cs.takeWhile (· ≠ ','))).map some := by
  have split : cs.takeWhile (fun c => '0' ≤ c && c ≤ '9') ++ cs.dropWhile (fun c => '0' ≤ c && c ≤ '9') = cs :=
    List.takeWhile_append_dropWhile
  have all : ∀ a ∈ cs.takeWhile (fun c => '0' ≤ c && c ≤ '9'), '0' ≤ a && a ≤ '9' := fun a => List.mem_takeWhile_imp
  have ends : ∀ a ∈ (cs.dropWhile fun c => '0' ≤ c && c ≤ '9').head?, ¬('0' ≤ a && a ≤ '9') := by
    intro a first
    have no := List.head?_dropWhile_not (fun c => '0' ≤ c && c ≤ '9') cs
    rw [Option.mem_def.mp first] at no
    simpa using no
  revert split all ends
  generalize cs.takeWhile (fun c => '0' ≤ c && c ≤ '9') = ds
  generalize (cs.dropWhile fun c => '0' ≤ c && c ≤ '9') = after
  rintro rfl all ends
  have fails : ∀ y : MatchState, ∀ a ∈ y.rest.head?, ('0' ≤ a && a ≤ '9') →
      (Regex.alt (char ',') .finish).results y = [] := by
    rintro ⟨behind, _ | ⟨b, ahead⟩, captured⟩ a first is
    · cases first
    · cases first
      simp [results, char, digit_ne_comma is]
  have part : (ds ++ after).takeWhile (· ≠ ',') = ds ++ after.takeWhile (· ≠ ',') :=
    List.takeWhile_append_of_pos fun a member => decide_eq_true (digit_ne_comma (all a member))
  have accepts : (ds ++ after.takeWhile (· ≠ ',') ≠ [] ∧
      (ds ++ after.takeWhile (· ≠ ',')).all (fun c => '0' ≤ c && c ≤ '9') = true) ↔
        ds ≠ [] ∧ after.takeWhile (· ≠ ',') = [] := by
    rw [List.all_append, Bool.and_eq_true, List.all_eq_true, List.all_eq_true]
    rcases after with _ | ⟨a, after⟩
    · simpa using fun _ => all
    · by_cases comma : a = ','
      · simpa [comma] using fun _ => all
      · have other : ¬('0' ≤ a && a ≤ '9') = true := ends a rfl
        rw [List.takeWhile_cons_of_pos (by simp [comma])]
        exact iff_of_false (fun h => other (h.2.2 a List.mem_cons_self)) (fun h => List.cons_ne_nil _ _ h.2)
  rw [digit, results_group_plus_one 1 read captures all ends fails, part, difficultyHint, if_congr accepts rfl rfl]
  by_cases none : ds = []
  · simp [none]
  · rw [if_neg none, results_ends]
    by_cases whole : after.takeWhile (· ≠ ',') = []
    · rw [if_pos whole, if_pos ⟨none, whole⟩, whole, List.append_nil, Function.update_self]
      rfl
    · rw [if_neg whole, if_neg fun h => whole h.2]
      rfl

/-- An option reaches up to the next comma. -/
theorem results_option (read cs : List Char) (captures : ℕ → Option (List Char)) :
    (optionPattern.results ⟨read, cs, captures⟩).head?.map (·.captures 1) =
      (difficultyHint (cs.takeWhile (· ≠ ','))).map some := by
  rw [optionPattern, results_char_seq]
  have other : (∀ rest, cs ≠ 'd' :: '=' :: rest) → difficultyHint (cs.takeWhile (· ≠ ',')) = none := by
    intro other
    unfold difficultyHint
    split
    · rename_i ds part
      have whole : cs.takeWhile (· ≠ ',') ++ cs.dropWhile (· ≠ ',') = cs := List.takeWhile_append_dropWhile
      rw [part] at whole
      exact absurd whole.symm (other _)
    · rfl
  split
  · rename_i d
    obtain ⟨cs, rfl⟩ := List.head?_eq_some_iff.mp d
    rw [List.tail_cons, results_char_seq]
    split
    · rename_i is
      obtain ⟨cs, rfl⟩ := List.head?_eq_some_iff.mp is
      rw [List.tail_cons, results_value]
      rfl
    · rename_i no
      rw [other]
      · rfl
      · rintro rest same
        rw [(List.cons.inj same).2] at no
        exact no rfl
  · rename_i no
    rw [other]
    · rfl
    · rintro rest rfl
      exact no rfl

/-- The parts that follow a comma. -/
def hintsBehind (cs : List Char) : Option (List Char) := (cs.splitOn ',').tail.findSome? difficultyHint

theorem splitOn_comma (cs : List Char) : cs.splitOn ',' = cs.takeWhile (· ≠ ',') :: (cs.splitOn ',').tail := by
  induction cs with
  | nil => rfl
  | cons a cs ih =>
    rw [List.splitOn_cons_eq_if_modifyHead]
    by_cases comma : a = ','
    · simp [comma]
    · rw [if_neg (by simpa using comma), ih]
      simp [comma]

theorem hints_eq (cs : List Char) :
    (cs.splitOn ',').findSome? difficultyHint = (difficultyHint (cs.takeWhile (· ≠ ','))).or (hintsBehind cs) := by
  rw [splitOn_comma, List.findSome?_cons, hintsBehind]
  cases difficultyHint (cs.takeWhile (· ≠ ',')) <;> rfl

theorem hintsBehind_cons (a : Char) (cs : List Char) :
    hintsBehind (a :: cs) = if a = ',' then (cs.splitOn ',').findSome? difficultyHint else hintsBehind cs := by
  rw [hintsBehind, List.splitOn_cons_eq_if_modifyHead]
  by_cases comma : a = ','
  · simp [comma]
  · rw [if_neg (by simpa using comma), if_neg comma, splitOn_comma, hintsBehind, splitOn_comma]
    rfl

/-- An option is at the beginning or follows a comma. -/
theorem results_difficulty (read cs : List Char) (captures : ℕ → Option (List Char)) :
    (difficultyPattern.results ⟨read, cs, captures⟩).head?.map (·.captures 1) =
      ((if read = [] then difficultyHint (cs.takeWhile (· ≠ ',')) else none).or
        (if cs.head? = some ',' then difficultyHint (cs.tail.takeWhile (· ≠ ',')) else none)).map some := by
  have alternatives : difficultyPattern.results ⟨read, cs, captures⟩ =
      (if read = [] then optionPattern.results ⟨read, cs, captures⟩ else []) ++
        (Regex.seq (char ',') optionPattern).results ⟨read, cs, captures⟩ := by
    have start_or_comma : (Regex.alt .start (char ',')).results ⟨read, cs, captures⟩ =
        (if read = [] then [⟨read, cs, captures⟩] else []) ++ (char ',').results ⟨read, cs, captures⟩ := rfl
    rw [difficultyPattern, results, start_or_comma, List.flatMap_append]
    congr 1
    split
    · exact List.flatMap_singleton ..
    · rfl
  rw [alternatives, List.head?_append, Option.map_or, Option.map_or, results_char_seq]
  congr 1
  · split
    · exact results_option ..
    · rfl
  · split
    · exact results_option ..
    · rfl

/-- The match that begins first is in the first option. -/
theorem execFrom_difficulty (read cs : List Char) :
    (difficultyPattern.execFrom read cs).map (·.captures 1) =
      ((if read = [] then difficultyHint (cs.takeWhile (· ≠ ',')) else none).or (hintsBehind cs)).map some := by
  have inside : ∀ x : MatchState, (fun y : MatchState => y.captures 1) ∘ x.capture 0 = fun y => y.captures 1 := by
    intro x
    funext y
    simp [MatchState.capture]
  induction cs generalizing read with
  | nil =>
    rw [execFrom_nil, Option.map_map, inside, results_difficulty]
    simp [hintsBehind, difficultyHint]
  | cons a cs ih =>
    rw [execFrom_cons, Option.map_or, Option.map_map, inside, results_difficulty, ih, ← Option.map_or, hintsBehind_cons]
    by_cases comma : a = ','
    · simp [comma, hints_eq, Option.or_assoc]
    · simp [comma]

/-- **The difficulty in a password.** What the expression captures, by leftmost match with backtracking, is the
digits of the first of the comma-separated parts that is an option `d=…`. -/
theorem startingDiff_eq_match (m : AuthorizationMessage) :
    m.startingDiff =
      ((m.password.bind fun password => (difficultyPattern.exec password.toList).bind (·.captures 1)).map
        fun ds => parseInt 10 (String.ofList ds)).filter (·.isFinite) := by
  have captured : ∀ password : List Char,
      (difficultyPattern.exec password).bind (·.captures 1) = (password.splitOn ',').findSome? difficultyHint := by
    intro password
    have first := execFrom_difficulty [] password
    rw [if_pos rfl, ← hints_eq] at first
    rw [Regex.exec]
    cases found : difficultyPattern.execFrom [] password with
    | none =>
      rw [found] at first
      exact (Option.map_eq_none_iff.mp first.symm).symm
    | some y =>
      rw [found] at first
      obtain ⟨ds, hint, same⟩ := Option.map_eq_some_iff.mp first.symm
      rw [hint, Option.bind_some]
      exact same.symm
  rw [AuthorizationMessage.startingDiff]
  cases m.password with
  | none => rfl
  | some password => rw [Option.bind_some, Option.bind_some, captured]

end

/-! ## The strings in quotes of a line -/

/-- `[^"\\]|\\.`. -/
def quotedCharacter : Regex := .alt (.one fun c => c ≠ '"' ∧ c ≠ '\\') (.seq (char '\\') (.one fun c => !isLineTerminator c))

/-- `/"((?:[^"\\]|\\.)*)"/g`. -/
def quotedPattern : Regex := .seq (char '"') (.seq (.group 1 (.many quotedCharacter)) (char '"'))

section
variable {cs : List Char}

/-- The body of a string is read character by character, a backslash together with the one behind it. -/
theorem runs_quotedBody (read cs : List Char) (captures : ℕ → Option (List Char)) :
    Runs quotedCharacter ⟨read, cs, captures⟩ ⟨(quotedBody cs).1.reverse ++ read, (quotedBody cs).2, captures⟩ := by
  fun_induction quotedBody cs generalizing read with
  | case1 c cs ends =>
    refine .stop ?_
    simp [quotedCharacter, results, groups, char, ends]
  | case2 c cs goes ih =>
    rw [List.reverse_cons, List.reverse_cons, List.append_assoc, List.append_assoc]
    refine .more ?_ ?_ (ih (c :: '\\' :: read))
    · simp [quotedCharacter, results, groups, char, goes]
    · show cs.length < cs.length + 2
      omega
  | case3 c cs single ends =>
    refine .stop ?_
    rcases ends with rfl | rfl
    · rfl
    · cases cs with
      | nil => rfl
      | cons a cs => exact (single a cs rfl rfl).elim
  | case4 c cs _ goes ih =>
    rw [List.reverse_cons, List.append_assoc]
    refine .more ?_ (Nat.lt_succ_self _) (ih (c :: read))
    rw [not_or] at goes
    simp [quotedCharacter, results, groups, char, goes]
  | case5 =>
    exact .stop rfl

/-- A string in quotes is one the expression matches, and it matches it in one way. -/
theorem results_quoted (read cs : List Char) (captures : ℕ → Option (List Char)) :
    quotedPattern.results ⟨read, cs, captures⟩ = (quotedAt cs).toList.map fun body =>
      ⟨'"' :: body.reverse ++ '"' :: read, cs.drop (body.length + 2), Function.update captures 1 (some body)⟩ := by
  have fails : ∀ y : MatchState, quotedCharacter.results (y.clear quotedCharacter.groups) ≠ [] →
      ∀ captures, (char '"').results { y with captures := captures } = [] := by
    rintro ⟨behind, _ | ⟨a, ahead⟩, captured⟩ goes captures
    · rfl
    · have other : a ≠ '"' := by
        rintro rfl
        exact goes rfl
      simp [char, results, other]
  rw [quotedPattern, results_char_seq]
  split
  · rename_i quote
    obtain ⟨cs, rfl⟩ := List.head?_eq_some_iff.mp quote
    obtain ⟨-, whole⟩ := quotedBody_spec cs
    rw [List.tail_cons, (runs_quotedBody ('"' :: read) cs captures).results_group_many 1 fails, quotedAt]
    revert whole
    generalize quotedBody cs = parts
    obtain ⟨body, rest⟩ := parts
    rintro rfl
    have captured : (body ++ rest).take ((body ++ rest).length - rest.length) = body := by
      rw [List.length_append, Nat.add_sub_cancel_right, List.take_left]
    rw [MatchState.capture, captured]
    cases rest with
    | nil => rfl
    | cons a rest =>
      by_cases ends : a = '"'
      · simp [ends, char, results]
      · simp [ends, char, results]
  · rename_i no
    cases cs with
    | nil => rfl
    | cons a cs =>
      have other : a ≠ '"' := by
        rintro rfl
        exact no rfl
      rw [quotedAt_of_ne other]
      rfl

theorem quotedStrings_of_quotedAt {body : List Char} (found : quotedAt cs = some body) :
    quotedStrings cs = body :: quotedStrings (cs.drop (body.length + 2)) := by
  cases cs with
  | nil => cases found
  | cons a cs =>
    rw [quotedStrings, matchAllFrom, found]
    exact congrArg (body :: ·) (matchAllFrom_eq_drop _ cs)

/-- The match that begins first is the first string, and what is behind it is left. -/
theorem execFrom_quoted (read cs : List Char) :
    match quotedPattern.execFrom read cs with
    | none => quotedStrings cs = []
    | some y => ∃ body, y.captures 1 = some body ∧ y.captures 0 ≠ some [] ∧ y.rest.length < cs.length ∧
        quotedStrings cs = body :: quotedStrings y.rest := by
  induction cs generalizing read with
  | nil => rfl
  | cons a cs ih =>
    rw [execFrom_cons, results_quoted]
    cases found : quotedAt (a :: cs) with
    | some body =>
      refine ⟨body, ?_, ?_, ?_, quotedStrings_of_quotedAt found⟩
      · simp [MatchState.capture]
      · simp [MatchState.capture]
        omega
      · show (List.drop (body.length + 2) (a :: cs)).length < (a :: cs).length
        rw [List.length_drop]
        exact Nat.sub_lt (Nat.succ_pos _) (Nat.succ_pos _)
    | none =>
      have next : quotedStrings (a :: cs) = quotedStrings cs := by
        rw [quotedStrings, matchAllFrom, found]
        rfl
      have later := ih (a :: read)
      revert later
      rw [next, Option.toList_none, List.map_nil, List.head?_nil, Option.map_none, Option.none_or]
      cases quotedPattern.execFrom (a :: read) cs with
      | none => exact id
      | some y =>
        rintro ⟨body, captured, nonempty, shorter, strings⟩
        exact ⟨body, captured, nonempty, Nat.lt_succ_of_lt shorter, strings⟩

/-- **The strings in quotes of a line** are what `matchAll` finds, one match after another. -/
theorem quotedStrings_eq_matchAll (line : List Char) :
    (quotedPattern.matchAll line).map (·.captures 1) = (quotedStrings line).map some := by
  suffices enough : ∀ (fuel : ℕ) (read cs : List Char), cs.length < fuel →
      (quotedPattern.iterate fuel read cs).map (·.captures 1) = (quotedStrings cs).map some from
    enough _ [] line (Nat.lt_succ_self _)
  intro fuel
  induction fuel with
  | zero => exact fun read cs short => absurd short (Nat.not_lt_zero _)
  | succ fuel ih =>
    intro read cs short
    have first := execFrom_quoted read cs
    rw [iterate]
    cases found : quotedPattern.execFrom read cs with
    | none =>
      rw [found] at first
      rw [first]
      rfl
    | some y =>
      rw [found] at first
      obtain ⟨body, captured, nonempty, shorter, strings⟩ := first
      rw [strings, List.map_cons, List.map_cons, captured]
      rw [if_neg nonempty, ih y.read y.rest (by omega)]

end

/-! ## A header in hexadecimal -/

/-- `[0-9a-fA-F]`. -/
def isHexDigit (c : Char) : Bool := '0' ≤ c && c ≤ '9' || 'a' ≤ c && c ≤ 'f' || 'A' ≤ c && c ≤ 'F'

/-- `/^[0-9a-fA-F]+$/`. -/
def hexPattern : Regex := .seq .start (.seq (.plus (.one isHexDigit)) .finish)

theorem isHexDigit_eq (c : Char) : isHexDigit c = decide (charValue c < 16) := by
  have le_iff : ∀ a b : Char, a ≤ b ↔ a.toNat ≤ b.toNat := fun _ _ => Iff.rfl
  have e0 : '0'.toNat = 48 := rfl
  have e9 : '9'.toNat = 57 := rfl
  have ea : 'a'.toNat = 97 := rfl
  have ef : 'f'.toNat = 102 := rfl
  have ez : 'z'.toNat = 122 := rfl
  have eA : 'A'.toNat = 65 := rfl
  have eF : 'F'.toNat = 70 := rfl
  have eZ : 'Z'.toNat = 90 := rfl
  simp only [isHexDigit, charValue, le_iff]
  rw [e0, e9, ea, ef, ez, eA, eF, eZ, Bool.eq_iff_iff]
  simp only [Bool.or_eq_true, Bool.and_eq_true, decide_eq_true_eq]
  split_ifs <;> omega

theorem execFrom_hex (a : Char) (read cs : List Char) : hexPattern.execFrom (a :: read) cs = none := by
  induction cs generalizing a read with
  | nil => rfl
  | cons b cs ih =>
    rw [execFrom_cons, ih]
    rfl

/-- The digits are followed by the end, or it is no match. -/
theorem results_hex (cs : List Char) (captures : ℕ → Option (List Char)) :
    (hexPattern.results ⟨[], cs, captures⟩).head?.isSome ↔ cs ≠ [] ∧ ∀ c ∈ cs, isHexDigit c := by
  have start : hexPattern.results ⟨[], cs, captures⟩ =
      ((Regex.plus (.one isHexDigit)).results ⟨[], cs, captures⟩).flatMap Regex.finish.results := List.flatMap_singleton ..
  have split : cs.takeWhile isHexDigit ++ cs.dropWhile isHexDigit = cs := List.takeWhile_append_dropWhile
  have ends : ∀ a ∈ (cs.dropWhile isHexDigit).head?, ¬isHexDigit a := by
    intro a first
    have no := List.head?_dropWhile_not isHexDigit cs
    rw [Option.mem_def.mp first] at no
    simpa using no
  have fails : ∀ y : MatchState, ∀ a ∈ y.rest.head?, isHexDigit a → Regex.finish.results y = [] := by
    rintro ⟨behind, _ | ⟨b, ahead⟩, captured⟩ a first _
    · cases first
    · rfl
  have run : ∀ a ∈ cs.takeWhile isHexDigit, isHexDigit a := fun _ => List.mem_takeWhile_imp
  have longest := flatMap_plus_one [] captures run ends fails
  have all : cs.dropWhile isHexDigit = [] ↔ ∀ c ∈ cs, isHexDigit c := List.dropWhile_eq_nil_iff
  rw [split] at longest
  rw [start, longest]
  by_cases whole : cs.dropWhile isHexDigit = []
  · rw [whole, List.append_nil] at split
    rw [split, whole]
    by_cases empty : cs = []
    · simp [empty]
    · simpa [empty, results] using all.mp whole
  · have not_all : ¬∀ c ∈ cs, isHexDigit c := fun every => whole (all.mpr every)
    refine iff_of_false ?_ fun h => not_all h.2
    split_ifs <;> simp [results, whole]

/-- **A header in hexadecimal.** The expression matches from the beginning to the end or not at all. -/
theorem isHex_eq_match (text : String) : isHex text = (hexPattern.exec text.toList).isSome := by
  have anchored : (hexPattern.exec text.toList).isSome =
      (hexPattern.results ⟨[], text.toList, fun _ => none⟩).head?.isSome := by
    rw [Regex.exec]
    cases text.toList with
    | nil => rfl
    | cons a cs => rw [execFrom_cons, execFrom_hex, Option.or_none, Option.isSome_map]
  rw [anchored, Bool.eq_iff_iff, results_hex, isHex]
  simp [isHexDigit_eq]

end ElektronPool.Stratum
