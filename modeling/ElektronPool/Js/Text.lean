import ElektronPool.Js.Number
import Mathlib.Tactic.IntervalCases

/-!
# Reading and printing numbers

`parseInt` and `parseFloat` of ECMA-262 on the characters of a string: both skip leading
white space and read the longest numeral they find, so any text may follow it. `parseInt`
in radix 16 also skips a `0x`. `toHex` is `Number.prototype.toString(16)` on a natural
number; `parseInt` reads back what it prints.
-/

namespace Js

/-- `StrWhiteSpaceChar`: white space and line terminators. -/
def isWhiteSpace (c : Char) : Bool :=
  c.toNat ∈ [9, 10, 11, 12, 13, 32, 160, 0x1680, 0x2028, 0x2029, 0x202f, 0x205f, 0x3000, 0xfeff] ||
    (0x2000 ≤ c.toNat && c.toNat ≤ 0x200a)

/-- The value of a digit or letter in radix 36. -/
def charValue (c : Char) : ℕ :=
  if '0' ≤ c ∧ c ≤ '9' then c.toNat - '0'.toNat
  else if 'a' ≤ c ∧ c ≤ 'z' then c.toNat - 'a'.toNat + 10
  else if 'A' ≤ c ∧ c ≤ 'Z' then c.toNat - 'A'.toNat + 10
  else 36

/-- The longest prefix of digits in the radix. -/
def digits (radix : ℕ) (cs : List Char) : List Char := cs.takeWhile fun c => charValue c < radix

def digitsValue (radix : ℕ) (cs : List Char) : ℕ := cs.foldl (fun n c => radix * n + charValue c) 0

/-- An optional sign: is it a minus, and what follows it. -/
def readSign : List Char → Bool × List Char
  | '-' :: cs => (true, cs)
  | '+' :: cs => (false, cs)
  | cs => (false, cs)

/-- The prefix `parseInt` skips in radix 16. -/
def skipHexPrefix : List Char → List Char
  | '0' :: 'x' :: cs => cs
  | '0' :: 'X' :: cs => cs
  | cs => cs

/-- `parseInt(text, radix)` for the radixes 10 and 16. -/
def parseInt (radix : ℕ) (text : String) : Number :=
  let (negative, cs) := readSign (text.toList.dropWhile isWhiteSpace)
  let ds := digits radix (if radix = 16 then skipHexPrefix cs else cs)
  if ds = [] then .nan
  else if negative then (Number.ofNat (digitsValue radix ds)).neg else Number.ofNat (digitsValue radix ds)

/-- What is read is not a number, or a natural number with a sign. -/
theorem parseInt_cases (radix : ℕ) (text : String) : parseInt radix text = .nan ∨
    ∃ n, parseInt radix text = Number.ofNat n ∨ parseInt radix text = (Number.ofNat n).neg := by
  unfold parseInt
  generalize readSign (text.toList.dropWhile isWhiteSpace) = sign
  obtain ⟨negative, cs⟩ := sign
  dsimp only
  generalize digits radix (if radix = 16 then skipHexPrefix cs else cs) = ds
  by_cases none : ds = []
  · exact .inl (if_pos none)
  · refine .inr ⟨digitsValue radix ds, ?_⟩
    rw [if_neg none]
    cases negative
    · exact .inl rfl
    · exact .inr rfl

/-- A positive number that is read is one at least. -/
theorem one_le_of_parseInt {radix : ℕ} {text : String} {q : ℚ} (read : parseInt radix text = .fin q)
    (positive : 0 < q) : 1 ≤ q := by
  have natural : ∀ {n : ℕ} {r : ℚ}, Number.ofNat n = .fin r → r = 0 ∨ 1 ≤ r := by
    intro n r value
    cases n with
    | zero =>
      rw [Number.ofNat, Nat.cast_zero, Number.round_zero] at value
      exact .inl (Number.fin.inj value).symm
    | succ n =>
      have above : (2 : ℚ) ^ (0 : ℤ) ≤ (n + 1 : ℕ) := by
        rw [zpow_zero]
        exact_mod_cast Nat.succ_pos n
      exact .inr ((zpow_zero (2 : ℚ)).symm.trans_le (Number.le_of_round above (by decide) value))
  obtain nan | ⟨n, value | value⟩ := parseInt_cases radix text
  · rw [nan] at read
    cases read
  · rcases natural (value.symm.trans read) with zero | one <;> linarith
  · rw [value] at read
    cases number : Number.ofNat n with
    | nan | inf =>
      rw [number] at read
      cases read
    | fin r =>
      rw [number] at read
      cases read
      rcases natural number with zero | one <;> linarith

/-- What follows `e` in a numeral, or no exponent. -/
def readExponent (cs : List Char) : ℤ :=
  match cs with
  | c :: cs =>
    if c = 'e' ∨ c = 'E' then
      let (negative, cs) := readSign cs
      let value : ℤ := digitsValue 10 (digits 10 cs)
      if negative then -value else value
    else 0
  | [] => 0

/-- `parseFloat(text)` as the exact rational the numeral denotes. -/
def parseFloat (text : String) : Number :=
  let (negative, cs) := readSign (text.toList.dropWhile isWhiteSpace)
  if "Infinity".toList.isPrefixOf cs then .inf negative else
    let whole := digits 10 cs
    let rest := cs.drop whole.length
    let fraction := match rest with
      | '.' :: cs => digits 10 cs
      | _ => []
    if whole = [] ∧ fraction = [] then .nan else
      let point := match rest with
        | '.' :: cs => cs.drop fraction.length
        | cs => cs
      let value : ℚ := digitsValue 10 (whole ++ fraction) / 10 ^ fraction.length * 10 ^ readExponent point
      .fin (if negative then -value else value)

/-- A setting that is absent is `undefined`, which is read as that word. -/
def parseIntSetting (radix : ℕ) (text : Option String) : Number := parseInt radix (text.getD "undefined")

/-- Number.prototype.toString(16). -/
def toHex (n : ℕ) : String := String.ofList (Nat.toDigits 16 n)

theorem charValue_digitChar {n : ℕ} (h : n < 16) : charValue n.digitChar = n := by
  interval_cases n <;> decide

theorem digitsValue_append (radix : ℕ) (cs : List Char) (c : Char) :
    digitsValue radix (cs ++ [c]) = radix * digitsValue radix cs + charValue c := by
  simp [digitsValue]

/-- The digits printed are digits, and denote the number. -/
theorem digitsValue_toDigits_of_base {base : ℕ} (more : 1 < base) (letters : base ≤ 16) (n : ℕ) :
    digitsValue base (Nat.toDigits base n) = n ∧ ∀ c ∈ Nat.toDigits base n, charValue c < base := by
  induction n using Nat.strongRecOn with
  | ind n ih =>
    by_cases small : n < base
    · rw [Nat.toDigits_of_lt_base small]
      simp [digitsValue, charValue_digitChar (small.trans_le letters), small]
    · have large : base ≤ n := by omega
      have last : n % base < base := Nat.mod_lt _ (by omega)
      obtain ⟨value, inRange⟩ := ih (n / base) (Nat.div_lt_self (by omega) more)
      rw [Nat.toDigits_of_base_le more large]
      constructor
      · rw [digitsValue_append, value, charValue_digitChar (last.trans_le letters)]
        exact Nat.div_add_mod n base
      · intro c member
        rcases List.mem_append.mp member with old | new
        · exact inRange c old
        · rw [List.mem_singleton.mp new, charValue_digitChar (last.trans_le letters)]
          exact last

theorem digitsValue_toDigits (n : ℕ) :
    digitsValue 16 (Nat.toDigits 16 n) = n ∧ ∀ c ∈ Nat.toDigits 16 n, charValue c < 16 :=
  digitsValue_toDigits_of_base (by decide) (by decide) n

/-- `toString(16)` prints different numbers differently. -/
theorem toHex_injective : Function.Injective toHex := by
  intro m n same
  have digits := congrArg String.toList same
  simp only [toHex, String.toList_ofList] at digits
  rw [← (digitsValue_toDigits m).1, ← (digitsValue_toDigits n).1, digits]

end Js
