import ElektronPool.Js.Buffer

/-!
# Numbers in a script

A script number is little-endian, with a sign in the top bit of its last byte; the minimal
encoding has no byte more than that takes. `CScript() << n` has an opcode of its own for each of
the numbers up to 16 and pushes the bytes of the others.
-/

namespace Bitcoin
set_option autoImplicit false
open Js

/-- The bytes of a number up to the one that leaves room for the sign. -/
def signedBytes (n : ℕ) : Buffer :=
  if n < 0x80 then [BitVec.ofNat 8 n] else BitVec.ofNat 8 n :: signedBytes (n / 256)
termination_by n
decreasing_by omega

/-- The minimal script number of `n`. -/
def scriptNum (n : ℕ) : Buffer := if n = 0 then [] else signedBytes n

/-- `CScript << data`: the length comes first, behind an opcode that says how wide it is unless it
is small. -/
def pushData (data : Buffer) : Buffer :=
  if data.length < 0x4c then BitVec.ofNat 8 data.length :: data
  else if data.length ≤ 0xff then 0x4c :: (leBytes 1 data.length ++ data)
  else if data.length ≤ 0xffff then 0x4d :: (leBytes 2 data.length ++ data)
  else 0x4e :: (leBytes 4 data.length ++ data)

/-- `CScript << n`, with `OP_0` and `OP_1` to `OP_16`. -/
def pushNumber (n : ℕ) : Buffer :=
  if n = 0 then [0x00] else if n ≤ 16 then [BitVec.ofNat 8 (0x50 + n)] else pushData (scriptNum n)

/-- The scriptSig of a coinbase at a height: `CScript() << height`, of two bytes at least. -/
def heightScript (height : ℕ) : Buffer :=
  if (pushNumber height).length < 2 then pushNumber height ++ [0x00] else pushNumber height

/-- A number below half of `256 ^ k` has room for its sign in `k` bytes, and no other has. -/
theorem length_signedBytes_le_iff {k : ℕ} (positive : 0 < k) (n : ℕ) :
    (signedBytes n).length ≤ k ↔ 2 * n < 256 ^ k := by
  induction n using Nat.strongRecOn generalizing k with
  | ind n ih =>
    obtain ⟨k, rfl⟩ : ∃ j, k = j + 1 := ⟨k - 1, by omega⟩
    have one_le : 1 ≤ 256 ^ k := Nat.one_le_pow _ _ (by omega)
    rw [signedBytes, Nat.pow_succ]
    split
    · rename_i small
      have bound : 2 * n < 256 ^ k * 256 := by omega
      simp [bound]
    · rename_i big
      rw [List.length_cons, Nat.add_le_add_iff_right]
      cases k with
      | zero =>
        have never : (signedBytes (n / 256)).length ≠ 0 := by
          rw [signedBytes]
          split <;> simp
        omega
      | succ k =>
        rw [ih (n / 256) (by omega) (by omega), Nat.pow_succ]
        omega

theorem length_scriptNum_le_iff {k : ℕ} (positive : 0 < k) (n : ℕ) :
    (scriptNum n).length ≤ k ↔ 2 * n < 256 ^ k := by
  rw [scriptNum]
  split
  · rename_i zero
    have one_le : 1 ≤ 256 ^ k := Nat.one_le_pow _ _ (by omega)
    simp [zero]
  · exact length_signedBytes_le_iff positive n

/-- Reading back what was written. -/
theorem leValue_scriptNum (n : ℕ) : leValue (scriptNum n) = n := by
  have signed : ∀ n, leValue (signedBytes n) = n := by
    intro n
    induction n using Nat.strongRecOn with
    | ind n ih =>
      rw [signedBytes]
      split
      · rename_i small
        simp only [leValue, List.foldr_cons, List.foldr_nil, BitVec.toNat_ofNat]
        omega
      · have rest := ih (n / 256) (by omega)
        simp only [leValue] at rest
        simp only [leValue, List.foldr_cons, rest, BitVec.toNat_ofNat]
        omega
  rw [scriptNum]
  split
  · rename_i zero
    rw [zero]
    rfl
  · exact signed n

theorem scriptNum_injective : Function.Injective scriptNum := fun m n same => by
  rw [← leValue_scriptNum m, same, leValue_scriptNum]

theorem scriptNum_ne_nil {n : ℕ} (positive : 0 < n) : scriptNum n ≠ [] := by
  intro none
  have value := leValue_scriptNum n
  rw [none] at value
  change 0 = n at value
  omega

/-- A minimal number does not end in a zero byte of its own. -/
theorem scriptNum_ne_zero {n : ℕ} (nonzero : n ≠ 0) : scriptNum n ≠ [0] := by
  intro same
  have value := leValue_scriptNum n
  rw [same] at value
  exact nonzero value.symm

/-- A push with an opcode for the width is longer than the data behind one byte. -/
theorem pushData_eq_iff (data : Buffer) :
    pushData data = BitVec.ofNat 8 data.length :: data ↔ data.length < 0x4c := by
  constructor
  · intro same
    by_contra long
    have longer := congrArg List.length same
    rw [pushData, if_neg long] at longer
    split at longer
    · simp at longer
    · split at longer <;> simp at longer
  · intro short
    rw [pushData, if_pos short]

/-- When the number behind its length in one byte is what a script pushes, apart from `OP_0`. -/
theorem pushNumber_eq_iff {n : ℕ} (positive : 0 < n) :
    pushNumber n = BitVec.ofNat 8 (scriptNum n).length :: scriptNum n ↔ 16 < n ∧ 2 * n < 256 ^ 75 := by
  have length : (scriptNum n).length < 0x4c ↔ 2 * n < 256 ^ 75 := by
    rw [Nat.lt_succ_iff, length_scriptNum_le_iff (by omega)]
  rw [pushNumber, if_neg (by omega)]
  split
  · rename_i opcode
    have bytes := scriptNum_ne_nil positive
    have other : [BitVec.ofNat 8 (0x50 + n)] ≠ BitVec.ofNat 8 (scriptNum n).length :: scriptNum n := by
      intro same
      exact bytes (List.cons.inj same).2.symm
    simp only [other, false_iff]
    omega
  · rename_i above
    rw [pushData_eq_iff, length]
    omega

theorem two_le_length_pushData {data : Buffer} (nonempty : data ≠ []) : 2 ≤ (pushData data).length := by
  have bytes := List.length_pos_iff.mpr nonempty
  rw [pushData]
  split
  · rw [List.length_cons]
    omega
  · split
    · simp
    · split <;> simp <;> omega

/-- Only an opcode leaves a script of one byte. -/
theorem heightScript_of_lt {height : ℕ} (above : 16 < height) : heightScript height = pushNumber height := by
  have two_bytes := two_le_length_pushData (scriptNum_ne_nil (show 0 < height by omega))
  have pushed : pushNumber height = pushData (scriptNum height) := by
    rw [pushNumber, if_neg (by omega), if_neg (by omega)]
  rw [heightScript, if_neg (by rw [pushed]; omega)]

/-- An opcode, and the `OP_0` behind it. -/
theorem heightScript_of_le {height : ℕ} (positive : 0 < height) (opcode : height ≤ 16) :
    heightScript height = [BitVec.ofNat 8 (0x50 + height), 0x00] := by
  have pushed : pushNumber height = [BitVec.ofNat 8 (0x50 + height)] := by
    rw [pushNumber, if_neg (by omega), if_pos opcode]
  rw [heightScript, pushed, if_pos (by simp), List.singleton_append]

end Bitcoin
