import ElektronPool.Js.Buffer

/-!
# Text that comes in pieces

`Buffer.toString()` decodes UTF-8 with a replacement character for every sequence that is cut
short or ill formed. `Decoder` reads one byte after the other; the pieces of a text are decoded
apart without a loss exactly if none of them begins with a byte that the last character of the
one before still expects. `lines` and `remainder` are the complete lines of a text and what
follows them.
-/

namespace Js

/-! ## UTF-8 -/

/-- Between two characters, or inside one: what has been read of the code point, how many bytes
follow the next one, and the range of that one. No character begins in such a range. -/
inductive Decoder where
  | rest
  | within (point more lower upper : ℕ) (low : 0x80 ≤ lower) (high : upper ≤ 0xbf)
  deriving DecidableEq

def replacementChar : Char := Char.ofNat 0xfffd

namespace Decoder

/-- The first byte of a character. -/
def first (byte : BitVec 8) : Decoder × List Char :=
  let b := byte.toNat
  if b < 0x80 then (.rest, [Char.ofNat b])
  else if 0xc2 ≤ b ∧ b ≤ 0xdf then (.within (b - 0xc0) 0 0x80 0xbf (le_refl _) (le_refl _), [])
  else if 0xe0 ≤ b ∧ b ≤ 0xef then
    (.within (b - 0xe0) 1 (if b = 0xe0 then 0xa0 else 0x80) (if b = 0xed then 0x9f else 0xbf)
      (by split <;> omega) (by split <;> omega), [])
  else if 0xf0 ≤ b ∧ b ≤ 0xf4 then
    (.within (b - 0xf0) 2 (if b = 0xf0 then 0x90 else 0x80) (if b = 0xf4 then 0x8f else 0xbf)
      (by split <;> omega) (by split <;> omega), [])
  else (.rest, [replacementChar])

/-- The byte belongs to the character that has begun. -/
def expects (byte : BitVec 8) : Decoder → Bool
  | .rest => false
  | .within _ _ lower upper _ _ => lower ≤ byte.toNat && byte.toNat ≤ upper

/-- One byte. A byte that is not expected ends the character and begins another one. -/
def step (d : Decoder) (byte : BitVec 8) : Decoder × List Char :=
  match d with
  | .rest => first byte
  | .within point more _ _ _ _ =>
    if d.expects byte then
      let point := point * 64 + (byte.toNat - 0x80)
      if more = 0 then (.rest, [Char.ofNat point])
      else (.within point (more - 1) 0x80 0xbf (le_refl _) (le_refl _), [])
    else ((first byte).1, replacementChar :: (first byte).2)

def run : Decoder → Buffer → Decoder × List Char
  | d, [] => (d, [])
  | d, byte :: bytes => ((run (d.step byte).1 bytes).1, (d.step byte).2 ++ (run (d.step byte).1 bytes).2)

/-- What is left of a character at the end. -/
def flush : Decoder → List Char
  | .rest => []
  | .within .. => [replacementChar]

/-- All that is read from here to the end. -/
def text (d : Decoder) (bytes : Buffer) : List Char := (d.run bytes).2 ++ (d.run bytes).1.flush

end Decoder

/-- `toString()`. -/
def utf8 (bytes : Buffer) : List Char := Decoder.rest.text bytes

/-- A character begins in the first piece and goes on in the second. -/
def splitsCharacter (before after : Buffer) : Bool := after.head?.any fun byte => (Decoder.rest.run before).1.expects byte

namespace Decoder

section
variable {d : Decoder} {byte : BitVec 8} {before after bytes : Buffer}

theorem run_append : d.run (before ++ after) =
    (((d.run before).1.run after).1, (d.run before).2 ++ ((d.run before).1.run after).2) := by
  induction before generalizing d with
  | nil => simp [run]
  | cons byte bytes ih => simp [run, ih]

theorem text_cons : d.text (byte :: bytes) = (d.step byte).2 ++ (d.step byte).1.text bytes := by
  simp [text, run]

/-- A byte that is not expected is read as after the end. -/
theorem text_of_not_expects (fresh : after.head?.any d.expects = false) : d.text after = d.flush ++ rest.text after := by
  cases d with
  | rest => simp [flush]
  | within point more lower upper low high =>
    cases after with
    | nil => simp [text, run, flush]
    | cons byte bytes =>
      rw [List.head?_cons, Option.any_some] at fresh
      simp [text_cons, step, fresh, flush]

/-- A byte that is expected begins no character. -/
theorem first_of_expects (expected : d.expects byte = true) : first byte = (.rest, [replacementChar]) := by
  cases d with
  | rest => cases expected
  | within point more lower upper low high =>
    simp only [expects, Bool.and_eq_true, decide_eq_true_eq] at expected
    have bounds : 0x80 ≤ byte.toNat ∧ byte.toNat ≤ 0xbf := by omega
    unfold first
    dsimp only
    rw [if_neg (by omega), if_neg (by omega), if_neg (by omega), if_neg (by omega)]

/-- A byte that is expected is lost where it is read as after the end. -/
theorem text_rest_of_expects (expected : d.expects byte = true) :
    rest.text (byte :: bytes) = replacementChar :: rest.text bytes := by
  rw [text_cons, show rest.step byte = first byte from rfl, first_of_expects expected]
  rfl

theorem length_text_cons (tail : ∀ d : Decoder, (d.text bytes).length ≤ 1 + (rest.text bytes).length)
    (expected : d.expects byte = true) : (d.text (byte :: bytes)).length ≤ 1 + (rest.text bytes).length := by
  cases d with
  | rest => cases expected
  | within point more lower upper low high =>
    rw [text_cons, step, if_pos expected]
    dsimp only
    split
    · rw [List.length_append, List.length_singleton]
    · exact tail _

/-- Inside a character no more is read than after a replacement for it. -/
theorem length_text_le (d : Decoder) (bytes : Buffer) : (d.text bytes).length ≤ 1 + (rest.text bytes).length := by
  induction bytes generalizing d with
  | nil => cases d <;> simp [text, run, flush]
  | cons byte bytes ih =>
    cases expected : d.expects byte with
    | false =>
      rw [text_of_not_expects (by simpa using expected), List.length_append]
      cases d <;> simp [flush]
    | true =>
      have within := length_text_cons ih expected
      rw [text_rest_of_expects expected, List.length_cons]
      omega

/-- The rest of a text is read as after its end exactly if it does not go on with the character. -/
theorem text_eq_iff : d.text after = d.flush ++ rest.text after ↔ after.head?.any d.expects = false := by
  constructor
  · intro same
    cases after with
    | nil => rfl
    | cons byte bytes =>
      rw [List.head?_cons, Option.any_some]
      by_contra expected
      rw [Bool.not_eq_false] at expected
      have shorter := length_text_cons (fun d => length_text_le d bytes) expected
      have begun : d.flush.length = 1 := by
        cases d with
        | rest => cases expected
        | within => rfl
      rw [same, text_rest_of_expects expected, List.length_append, List.length_cons, begun] at shorter
      omega
  · exact text_of_not_expects

end

end Decoder

/-- **Pieces of a text**: decoded apart they give the text exactly if no character is split. -/
theorem utf8_append_iff {before after : Buffer} :
    utf8 (before ++ after) = utf8 before ++ utf8 after ↔ splitsCharacter before after = false := by
  rw [splitsCharacter, ← Decoder.text_eq_iff]
  simp only [utf8, Decoder.text, Decoder.run_append, List.append_assoc, List.append_cancel_left_eq]

/-! ## Lines -/

/-- The complete lines of a text. -/
def lines (text : List Char) : List (List Char) := (text.splitOn '\n').dropLast

/-- What follows the last line. -/
def remainder (text : List Char) : List Char := (text.splitOn '\n').getLastD []

theorem splitOn_append (c : Char) (before after : List Char) : (before ++ after).splitOn c =
    (before.splitOn c).dropLast ++ ((before.splitOn c).getLastD [] ++ after).splitOn c := by
  induction before with
  | nil => simp
  | cons x text ih =>
    obtain ⟨head, tail, parts⟩ := List.exists_cons_of_ne_nil (List.splitOn_ne_nil c text)
    rw [List.cons_append, List.splitOn_cons_eq_if_modifyHead, List.splitOn_cons_eq_if_modifyHead, ih, parts]
    by_cases separator : (x == c) = true
    · simp [separator]
    · cases tail with
      | nil => simp [separator, List.splitOn_cons_eq_if_modifyHead]
      | cons next more => simp [separator]

/-- The lines of a text are those of its pieces, with the remainder of one in front of the next. -/
theorem lines_append (before after : List Char) :
    lines (before ++ after) = lines before ++ lines (remainder before ++ after) := by
  rw [lines, splitOn_append, List.dropLast_append_of_ne_nil (List.splitOn_ne_nil _ _)]
  rfl

theorem remainder_append (before after : List Char) :
    remainder (before ++ after) = remainder (remainder before ++ after) := by
  rw [remainder, splitOn_append, List.getLastD_eq_getLast?,
    List.getLast?_append_of_ne_nil _ (List.splitOn_ne_nil _ _), ← List.getLastD_eq_getLast?]
  rfl

end Js
