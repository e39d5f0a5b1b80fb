import ElektronPool.Js.Number

/-!
# Buffers

A `Buffer` is a list of bytes. `writeInt32LE` and `writeUInt32LE` throw on a number out of
range and write `NaN` as zero; what they write is a 32-bit word, least significant byte
first.
-/

namespace Js

abbrev Buffer := List (BitVec 8)

/-- The `width` low bytes of a number, least significant first. -/
def leBytes : ℕ → ℕ → Buffer
  | 0, _ => []
  | width + 1, value => BitVec.ofNat 8 value :: leBytes width (value / 256)

/-- A buffer read as one little-endian number. -/
def leValue (bytes : Buffer) : ℕ := bytes.foldr (fun byte value => byte.toNat + 256 * value) 0

@[simp] theorem length_leBytes (width value : ℕ) : (leBytes width value).length = width := by
  induction width generalizing value with
  | zero => rfl
  | succ width ih => simp [leBytes, ih]

/-- Reading back what was written. -/
theorem leValue_leBytes (width value : ℕ) : leValue (leBytes width value) = value % 256 ^ width := by
  induction width generalizing value with
  | zero => simp [leBytes, leValue, Nat.mod_one]
  | succ width ih =>
    have rest : leValue (leBytes width (value / 256)) = value / 256 % 256 ^ width := ih (value / 256)
    have first : (BitVec.ofNat 8 value).toNat = value % 256 := BitVec.toNat_ofNat value 8
    show (BitVec.ofNat 8 value).toNat + 256 * leValue (leBytes width (value / 256)) = value % 256 ^ (width + 1)
    rw [first, rest, Nat.pow_succ, Nat.mul_comm (256 ^ width) 256, Nat.mod_mul]

/-- The bytes of a 32-bit word. -/
def wordBytes (word : BitVec 32) : Buffer := leBytes 4 word.toNat

theorem wordBytes_injective : Function.Injective wordBytes := by
  intro v w same
  have values := congrArg leValue same
  simp only [wordBytes, leValue_leBytes] at values
  apply BitVec.eq_of_toNat_eq
  have := v.isLt
  have := w.isLt
  omega

/-- The word an integer write puts into the buffer, `none` where it throws. -/
def writtenWord (min max : ℚ) : Number → Option (BitVec 32)
  | .nan => some 0
  | .inf _ => none
  | .fin q => if min ≤ q ∧ q ≤ max then some (Number.toInt32 (.fin q)) else none

def writeInt32LE (value : Number) : Option (BitVec 32) := writtenWord (-2147483648) 2147483647 value

def writeUInt32LE (value : Number) : Option (BitVec 32) := writtenWord 0 4294967295 value

/-- A write that does not throw writes the number modulo `2^32`. -/
theorem eq_toInt32_of_writtenWord {min max : ℚ} {value : Number} {word : BitVec 32}
    (written : writtenWord min max value = some word) : word = value.toInt32 := by
  cases value with
  | nan => exact (Option.some.inj written).symm
  | inf negative => cases written
  | fin q =>
    simp only [writtenWord] at written
    split at written
    · exact (Option.some.inj written).symm
    · cases written

/-! ## Writes at an offset -/

/-- `Buffer.alloc`. -/
def alloc (size : ℕ) : Buffer := List.replicate size 0

/-- `bytes.copy(buffer, offset)`: what does not fit is left out. -/
def copyTo (buffer : Buffer) (offset : ℕ) (bytes : Buffer) : Buffer :=
  buffer.take offset ++ bytes.take (buffer.length - offset) ++ buffer.drop (offset + bytes.length)

/-- A write right behind what has been written so far. -/
theorem copyTo_alloc {offset room : ℕ} {written bytes : Buffer} (next : written.length = offset)
    (fits : bytes.length ≤ room) :
    copyTo (written ++ alloc room) offset bytes = (written ++ bytes) ++ alloc (room - bytes.length) := by
  subst next
  have before : (written ++ alloc room).take written.length = written := by simp
  have room_left : (written ++ alloc room).length - written.length = room := by simp [alloc]
  have behind : (written ++ alloc room).drop (written.length + bytes.length) = alloc (room - bytes.length) := by
    simp [alloc, List.drop_append]
  rw [copyTo, before, room_left, behind, List.take_of_length_le fits]

/-- A word's own value is in the range of the unsigned write. -/
@[simp] theorem writeUInt32LE_toNat (word : BitVec 32) : writeUInt32LE (.fin word.toNat) = some word := by
  have below : (word.toNat : ℚ) ≤ 4294967295 := by
    have := word.isLt
    exact_mod_cast (by omega : word.toNat ≤ 4294967295)
  rw [writeUInt32LE, writtenWord, if_pos ⟨Nat.cast_nonneg _, below⟩]
  rw [Number.toInt32_natCast, BitVec.ofNat_toNat, BitVec.setWidth_eq]

end Js
