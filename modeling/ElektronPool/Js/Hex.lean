import ElektronPool.Js.Buffer
import ElektronPool.Js.Text

/-!
# Buffers in hexadecimal

`buffer.toString('hex')` and `Buffer.from(text, 'hex')`. The second reads pairs of digits, large or small,
up to the first pair that is none; it reads back what the first has printed.
-/

namespace Js

/-- The two digits of a byte. -/
def hexPair (byte : BitVec 8) : List Char := [Nat.digitChar (byte.toNat / 16), Nat.digitChar (byte.toNat % 16)]

def printHex (bytes : Buffer) : String := String.ofList (bytes.flatMap hexPair)

def readHexPairs : List Char → Buffer
  | high :: low :: rest =>
    if charValue high < 16 ∧ charValue low < 16 then
      BitVec.ofNat 8 (16 * charValue high + charValue low) :: readHexPairs rest
    else []
  | _ => []

def readHex (text : String) : Buffer := readHexPairs text.toList

/-- `/^[0-9a-fA-F]+$/`. -/
def isHex (text : String) : Bool := text ≠ "" && text.toList.all fun c => charValue c < 16

theorem charValue_hexPair {byte : BitVec 8} {c : Char} (member : c ∈ hexPair byte) : charValue c < 16 := by
  have bound := byte.isLt
  simp only [hexPair, List.mem_cons, List.not_mem_nil, or_false] at member
  rcases member with rfl | rfl
  · rw [charValue_digitChar (by omega)]
    omega
  · rw [charValue_digitChar (by omega)]
    omega

theorem readHexPairs_hexPair (byte : BitVec 8) (rest : List Char) :
    readHexPairs (hexPair byte ++ rest) = byte :: readHexPairs rest := by
  have bound := byte.isLt
  have high : charValue (Nat.digitChar (byte.toNat / 16)) = byte.toNat / 16 := charValue_digitChar (by omega)
  have low : charValue (Nat.digitChar (byte.toNat % 16)) = byte.toNat % 16 := charValue_digitChar (by omega)
  simp only [hexPair, List.cons_append, List.nil_append, readHexPairs, high, low]
  rw [if_pos (by omega), Nat.div_add_mod, BitVec.ofNat_toNat, BitVec.setWidth_eq]

/-- **Round trip**: what is printed is read back. -/
theorem readHex_printHex (bytes : Buffer) : readHex (printHex bytes) = bytes := by
  rw [readHex, printHex, String.toList_ofList]
  induction bytes with
  | nil => rfl
  | cons byte bytes ih => rw [List.flatMap_cons, readHexPairs_hexPair, ih]

theorem isHex_printHex {bytes : Buffer} (nonempty : bytes ≠ []) : isHex (printHex bytes) = true := by
  obtain ⟨byte, rest, rfl⟩ := List.exists_cons_of_ne_nil nonempty
  rw [isHex, Bool.and_eq_true, decide_eq_true_eq, List.all_eq_true]
  constructor
  · intro empty
    have none := congrArg String.toList empty
    rw [printHex, String.toList_ofList, List.flatMap_cons] at none
    cases none
  · intro c member
    rw [printHex, String.toList_ofList] at member
    obtain ⟨b, -, digit⟩ := List.mem_flatMap.mp member
    exact decide_eq_true (charValue_hexPair digit)

end Js
