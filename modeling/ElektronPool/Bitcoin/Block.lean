import ElektronPool.Js.Buffer

/-!
# Blocks, transactions and targets

The wire formats of Bitcoin as far as a pool meets them: the 80 bytes of a block header,
which determine every field they were written from (`header_inj`), the two serialisations
of a transaction, and the target that the compact `bits` encode.
-/

namespace Bitcoin
set_option autoImplicit false
open Js

/-- 32 bytes, in the order in which they stand in a header. -/
structure Hash where
  bytes : Buffer
  length_eq : bytes.length = 32
  deriving DecidableEq

namespace Hash

/-- The number a hash denotes when it is compared with a target. -/
def value (h : Hash) : ℕ := leValue h.bytes

def reverse (h : Hash) : Hash := ⟨h.bytes.reverse, by rw [List.length_reverse, h.length_eq]⟩

def zero : Hash := ⟨List.replicate 32 0, rfl⟩

/-- The hash whose hex digits are those of a number. -/
def ofHex (n : ℕ) : Hash := ⟨(leBytes 32 n).reverse, by rw [List.length_reverse, length_leBytes]⟩

end Hash

/-! ## Transactions -/

structure TxIn where
  hash : Hash
  index : BitVec 32
  script : Buffer
  sequence : BitVec 32
  witness : List Buffer
  deriving DecidableEq

structure TxOut where
  script : Buffer
  value : ℤ
  deriving DecidableEq

structure Transaction where
  version : BitVec 32
  ins : List TxIn
  outs : List TxOut
  locktime : ℤ
  deriving DecidableEq

/-- A CompactSize number. -/
def compactSize (n : ℕ) : Buffer :=
  if n < 0xfd then leBytes 1 n
  else if n ≤ 0xffff then 0xfd :: leBytes 2 n
  else if n ≤ 0xffffffff then 0xfe :: leBytes 4 n
  else 0xff :: leBytes 8 n

/-- Bytes behind their length. -/
def varSlice (bytes : Buffer) : Buffer := compactSize bytes.length ++ bytes

namespace Transaction

/-- The numbers fit their fields, so that serialising does not fail. -/
def InRange (tx : Transaction) : Prop :=
  (∀ out ∈ tx.outs, 0 ≤ out.value ∧ out.value < 2 ^ 53) ∧ 0 ≤ tx.locktime ∧ tx.locktime < 2 ^ 32

instance (tx : Transaction) : Decidable tx.InRange :=
  inferInstanceAs (Decidable ((∀ out ∈ tx.outs, 0 ≤ out.value ∧ out.value < 2 ^ 53) ∧
    0 ≤ tx.locktime ∧ tx.locktime < 2 ^ 32))

def body (tx : Transaction) : Buffer :=
  compactSize tx.ins.length ++
    tx.ins.flatMap (fun i => i.hash.bytes ++ wordBytes i.index ++ varSlice i.script ++ wordBytes i.sequence) ++
    compactSize tx.outs.length ++ tx.outs.flatMap (fun o => leBytes 8 o.value.toNat ++ varSlice o.script)

def witnesses (tx : Transaction) : Buffer :=
  tx.ins.flatMap fun i => compactSize i.witness.length ++ i.witness.flatMap varSlice

/-- Without witnesses: the bytes the transaction id is the hash of. -/
def baseBytes (tx : Transaction) : Buffer := wordBytes tx.version ++ tx.body ++ leBytes 4 tx.locktime.toNat

/-- With witnesses, when there are any. -/
def bytes (tx : Transaction) : Buffer :=
  if tx.ins.all (fun i => i.witness.isEmpty) then tx.baseBytes
  else wordBytes tx.version ++ [0, 1] ++ tx.body ++ tx.witnesses ++ leBytes 4 tx.locktime.toNat

end Transaction

/-! ## Headers -/

/-- The 80 bytes of a header, `none` where a number does not fit its field. -/
def header (version : Number) (prevHash merkleRoot : Hash) (timestamp bits nonce : Number) : Option Buffer := do
  let version ← writeInt32LE version
  let timestamp ← writeUInt32LE timestamp
  let bits ← writeUInt32LE bits
  let nonce ← writeUInt32LE nonce
  return wordBytes version ++ prevHash.bytes ++ merkleRoot.bytes ++ wordBytes timestamp ++ wordBytes bits ++
    wordBytes nonce

section
variable {version version' timestamp timestamp' bits bits' nonce nonce' : Number}
  {prevHash prevHash' merkleRoot merkleRoot' : Hash} {h : Buffer}

/-- What a header that could be written consists of. -/
theorem header_eq_some (written : header version prevHash merkleRoot timestamp bits nonce = some h) :
    ∃ v t b n, writeInt32LE version = some v ∧ writeUInt32LE timestamp = some t ∧ writeUInt32LE bits = some b ∧
      writeUInt32LE nonce = some n ∧
      h = wordBytes v ++ prevHash.bytes ++ merkleRoot.bytes ++ wordBytes t ++ wordBytes b ++ wordBytes n := by
  obtain ⟨v, version_eq, rest⟩ := Option.bind_eq_some_iff.mp written
  obtain ⟨t, timestamp_eq, rest⟩ := Option.bind_eq_some_iff.mp rest
  obtain ⟨b, bits_eq, rest⟩ := Option.bind_eq_some_iff.mp rest
  obtain ⟨n, nonce_eq, rest⟩ := Option.bind_eq_some_iff.mp rest
  exact ⟨v, t, b, n, version_eq, timestamp_eq, bits_eq, nonce_eq, (Option.some.inj rest).symm⟩

/-- A header determines every field. -/
theorem header_inj (written : header version prevHash merkleRoot timestamp bits nonce = some h)
    (written' : header version' prevHash' merkleRoot' timestamp' bits' nonce' = some h) :
    writeInt32LE version = writeInt32LE version' ∧ prevHash = prevHash' ∧ merkleRoot = merkleRoot' ∧
      writeUInt32LE timestamp = writeUInt32LE timestamp' ∧ writeUInt32LE bits = writeUInt32LE bits' ∧
      writeUInt32LE nonce = writeUInt32LE nonce' := by
  obtain ⟨v, t, b, n, version_eq, timestamp_eq, bits_eq, nonce_eq, rfl⟩ := header_eq_some written
  obtain ⟨v', t', b', n', version_eq', timestamp_eq', bits_eq', nonce_eq', same⟩ := header_eq_some written'
  obtain ⟨same, nonce_same⟩ := List.append_inj same (by simp [wordBytes, Hash.length_eq])
  obtain ⟨same, bits_same⟩ := List.append_inj same (by simp [wordBytes, Hash.length_eq])
  obtain ⟨same, timestamp_same⟩ := List.append_inj same (by simp [wordBytes, Hash.length_eq])
  obtain ⟨same, root_same⟩ := List.append_inj same (by simp [wordBytes, Hash.length_eq])
  obtain ⟨version_same, prev_same⟩ := List.append_inj same (by simp [wordBytes])
  rw [version_eq, version_eq', timestamp_eq, timestamp_eq', bits_eq, bits_eq', nonce_eq, nonce_eq',
    wordBytes_injective version_same, wordBytes_injective timestamp_same, wordBytes_injective bits_same,
    wordBytes_injective nonce_same]
  refine ⟨rfl, ?_, ?_, rfl, rfl, rfl⟩
  · cases prevHash
    cases prevHash'
    exact Hash.mk.injEq .. ▸ prev_same
  · cases merkleRoot
    cases merkleRoot'
    exact Hash.mk.injEq .. ▸ root_same

end

/-- A block. -/
structure Block where
  version : Number
  prevHash : Hash
  merkleRoot : Hash
  timestamp : Number
  bits : BitVec 32
  nonce : Number
  transactions : List Transaction

def Block.header (b : Block) : Option Buffer :=
  Bitcoin.header b.version b.prevHash b.merkleRoot b.timestamp (.fin b.bits.toNat) b.nonce

/-! ## Targets -/

/-- The low 23 bits. -/
def mantissa (bits : BitVec 32) : ℕ := bits.toNat % 2 ^ 23

/-- The top byte. -/
def exponent (bits : BitVec 32) : ℕ := bits.toNat / 2 ^ 24

/-- The target that `bits` encode. -/
def target (bits : BitVec 32) : ℕ :=
  if exponent bits ≤ 3 then mantissa bits / 256 ^ (3 - exponent bits)
  else mantissa bits * 256 ^ (exponent bits - 3)

/-- Rounding the target down makes no difference to whole numbers. -/
theorem le_target_iff {n : ℕ} {bits : BitVec 32} :
    n ≤ target bits ↔ (n : ℚ) ≤ mantissa bits * 256 ^ ((exponent bits : ℤ) - 3) := by
  unfold target
  split
  · rename_i small
    have positive : (0 : ℚ) < 256 ^ (3 - exponent bits) := by positivity
    have scale : (256 : ℚ) ^ ((exponent bits : ℤ) - 3) = (256 ^ (3 - exponent bits))⁻¹ := by
      rw [← zpow_natCast, ← zpow_neg, Nat.cast_sub small]
      congr 1
      omega
    rw [Nat.le_div_iff_mul_le (by positivity), scale, ← div_eq_mul_inv, le_div_iff₀ positive]
    norm_cast
  · have scale : (256 : ℚ) ^ ((exponent bits : ℤ) - 3) = 256 ^ (exponent bits - 3) := by
      rw [← zpow_natCast, Nat.cast_sub (by omega)]
      rfl
    rw [scale]
    norm_cast

end Bitcoin
