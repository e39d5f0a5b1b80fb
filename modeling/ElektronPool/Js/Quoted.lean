import ElektronPool.Js.Text

/-!
# Quoted strings in a text

`matchAll` of ECMA-262 for the expression `/"((?:[^"\\]|\\.)*)"/g`: the strings in double
quotes of a text, from left to right, in each of which a backslash takes the character behind it
along. An iteration of the group takes a backslash first or it does not, so that what a body is
made of is settled by its characters, and giving an iteration up never uncovers a quote. The run
as long as possible is therefore the only one to try.
-/

namespace Js

/-- What `.` does not match. -/
def isLineTerminator (c : Char) : Bool := c.toNat ∈ [10, 13, 0x2028, 0x2029]

/-- What `(?:[^"\\]|\\.)*` matches. -/
inductive QuotedBody : List Char → Prop
  | nil : QuotedBody []
  | plain {c : Char} {cs : List Char} : c ≠ '"' → c ≠ '\\' → QuotedBody cs → QuotedBody (c :: cs)
  | escaped {c : Char} {cs : List Char} : isLineTerminator c = false → QuotedBody cs →
      QuotedBody ('\\' :: c :: cs)

/-- `(?:[^"\\]|\\.)*` as far as it goes, and what follows. -/
def quotedBody : List Char → List Char × List Char
  | '\\' :: c :: cs =>
    if isLineTerminator c then ([], '\\' :: c :: cs)
    else ('\\' :: c :: (quotedBody cs).1, (quotedBody cs).2)
  | c :: cs =>
    if c = '"' ∨ c = '\\' then ([], c :: cs)
    else (c :: (quotedBody cs).1, (quotedBody cs).2)
  | [] => ([], [])

/-- `"((?:[^"\\]|\\.)*)"` at the front of a text: what the group captures. -/
def quotedAt : List Char → Option (List Char)
  | '"' :: cs =>
    match quotedBody cs with
    | (body, '"' :: _) => some body
    | _ => none
  | _ => none

/-- The matches from `lastIndex` on, which lies `ahead` characters ahead. -/
def matchAllFrom : ℕ → List Char → List (List Char)
  | _, [] => []
  | ahead + 1, _ :: cs => matchAllFrom ahead cs
  | 0, c :: cs =>
    match quotedAt (c :: cs) with
    | some body => body :: matchAllFrom (body.length + 1) cs
    | none => matchAllFrom 0 cs

/-- The strings in quotes of a text. -/
def quotedStrings (text : List Char) : List (List Char) := matchAllFrom 0 text

theorem quotedBody_plain {c : Char} (quote : c ≠ '"') (backslash : c ≠ '\\') (cs : List Char) :
    quotedBody (c :: cs) = (c :: (quotedBody cs).1, (quotedBody cs).2) := by
  rw [quotedBody.eq_def]
  split
  · rename_i same
    exact absurd (List.cons.inj same).1 backslash
  · rename_i same
    cases same
    rw [if_neg (by simp [quote, backslash])]
  · rename_i same
    cases same

/-- A body in front of a quote is read back. -/
theorem quotedBody_append {body : List Char} (is : QuotedBody body) (rest : List Char) :
    quotedBody (body ++ '"' :: rest) = (body, '"' :: rest) := by
  induction is with
  | nil => rfl
  | plain quote backslash _ ih => rw [List.cons_append, quotedBody_plain quote backslash, ih]
  | escaped same _ ih => rw [List.cons_append, List.cons_append, quotedBody, ih, if_neg (by simp [same])]

/-- What is read is a body, and the text is the body and what follows. -/
theorem quotedBody_spec (cs : List Char) :
    QuotedBody (quotedBody cs).1 ∧ (quotedBody cs).1 ++ (quotedBody cs).2 = cs := by
  fun_induction quotedBody cs with
  | case1 c cs => exact ⟨.nil, rfl⟩
  | case2 c cs same ih => exact ⟨.escaped (by simpa using same) ih.1, by simp [ih.2]⟩
  | case3 c cs => exact ⟨.nil, rfl⟩
  | case4 c cs _ same ih =>
    rw [not_or] at same
    exact ⟨.plain same.1 same.2 ih.1, by simp [ih.2]⟩
  | case5 => exact ⟨.nil, rfl⟩

/-- **A match**: a quote, a body and a quote at the front of the text. -/
theorem quotedAt_eq_some_iff {cs body : List Char} :
    quotedAt cs = some body ↔ QuotedBody body ∧ ∃ rest, cs = '"' :: (body ++ '"' :: rest) := by
  constructor
  · intro found
    unfold quotedAt at found
    split at found
    · rename_i cs
      obtain ⟨is, whole⟩ := quotedBody_spec cs
      split at found
      · rename_i read
        rw [read] at is whole
        cases found
        exact ⟨is, _, by rw [← whole]⟩
      · cases found
    · cases found
  · rintro ⟨is, rest, rfl⟩
    simp only [quotedAt, quotedBody_append is]

/-- Nothing is matched in front of a character that is not a quote. -/
theorem quotedAt_of_ne {c : Char} (other : c ≠ '"') (cs : List Char) : quotedAt (c :: cs) = none := by
  rw [Option.eq_none_iff_forall_ne_some]
  intro body found
  obtain ⟨-, rest, same⟩ := quotedAt_eq_some_iff.1 found
  exact other (List.cons.inj same).1

theorem matchAllFrom_eq_drop (ahead : ℕ) (cs : List Char) :
    matchAllFrom ahead cs = quotedStrings (cs.drop ahead) := by
  induction cs generalizing ahead with
  | nil => simp [matchAllFrom, quotedStrings]
  | cons c cs ih =>
    cases ahead with
    | zero => rfl
    | succ ahead => exact ih ahead

@[simp]
theorem quotedStrings_nil : quotedStrings [] = [] := rfl

theorem quotedStrings_cons_of_ne {c : Char} (other : c ≠ '"') (cs : List Char) :
    quotedStrings (c :: cs) = quotedStrings cs := by
  rw [quotedStrings, matchAllFrom, quotedAt_of_ne other]
  rfl

/-- A string in quotes at the front is the first one. -/
theorem quotedStrings_quoted {body : List Char} (is : QuotedBody body) (rest : List Char) :
    quotedStrings ('"' :: (body ++ '"' :: rest)) = body :: quotedStrings rest := by
  rw [quotedStrings, matchAllFrom, quotedAt_eq_some_iff.2 ⟨is, rest, rfl⟩]
  dsimp only
  rw [matchAllFrom_eq_drop, List.drop_length_add_append]
  rfl

/-- What stands in front of the first quote does not matter. -/
theorem quotedStrings_append_left {before : List Char} (unquoted : '"' ∉ before) (cs : List Char) :
    quotedStrings (before ++ cs) = quotedStrings cs := by
  induction before with
  | nil => rfl
  | cons c before ih =>
    rw [List.mem_cons, not_or] at unquoted
    rw [List.cons_append, quotedStrings_cons_of_ne (Ne.symm unquoted.1), ih unquoted.2]

/-- A match ends in a quote, so it does not reach into a text without one. -/
theorem quotedAt_append {after : List Char} (unquoted : '"' ∉ after) (cs : List Char) :
    quotedAt (cs ++ after) = quotedAt cs := by
  ext body
  rw [quotedAt_eq_some_iff, quotedAt_eq_some_iff]
  refine and_congr_right fun _ => ⟨?_, ?_⟩
  · rintro ⟨rest, same⟩
    rw [← List.cons_append, List.append_eq_append_iff] at same
    rcases same with ⟨more, -, late⟩ | ⟨more, early, late⟩
    · exact absurd (late ▸ List.mem_append_right more List.mem_cons_self) unquoted
    · cases more with
      | nil =>
        rw [List.nil_append] at late
        exact absurd (late ▸ List.mem_cons_self) unquoted
      | cons c more =>
        rw [List.cons_append] at late
        obtain ⟨rfl, -⟩ := List.cons.inj late
        exact ⟨more, early⟩
  · rintro ⟨rest, rfl⟩
    exact ⟨rest ++ after, by simp⟩

/-- Nor does what stands behind the last quote. -/
theorem quotedStrings_append_right {after : List Char} (unquoted : '"' ∉ after) (cs : List Char) :
    quotedStrings (cs ++ after) = quotedStrings cs := by
  suffices from_any : ∀ ahead, matchAllFrom ahead (cs ++ after) = matchAllFrom ahead cs from from_any 0
  induction cs with
  | nil =>
    intro ahead
    have rest : '"' ∉ after.drop ahead := fun quote => unquoted (List.mem_of_mem_drop quote)
    rw [List.nil_append, matchAllFrom_eq_drop, ← List.append_nil (after.drop ahead),
      quotedStrings_append_left rest]
    rfl
  | cons c cs ih =>
    intro ahead
    cases ahead with
    | zero =>
      rw [List.cons_append, matchAllFrom, matchAllFrom, ← List.cons_append, quotedAt_append unquoted]
      cases quotedAt (c :: cs) with
      | none => exact ih 0
      | some body => exact congrArg (body :: ·) (ih (body.length + 1))
    | succ ahead => exact ih ahead

end Js
