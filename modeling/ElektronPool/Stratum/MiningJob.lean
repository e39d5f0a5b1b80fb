import ElektronPool.Js.Text
import ElektronPool.Stratum.Difficulty

/-!
# MiningJob

A job is a frozen coinbase transaction and version on top of a template. Everything the
pool calls in bitcoinjs-lib and merkle-lib is a field of `Packages`. Hex texts of the node
are taken decoded, and the extranonces, which `buildHeaderBuffer` and `copyAndUpdateBlock`
never read, are not passed.
-/

namespace ElektronPool.Stratum
set_option autoImplicit false
open Js Bitcoin

/-- The networks of `elektron-network.ts` and of bitcoinjs-lib. -/
inductive Network where
  | elektronMainnet
  | elektronRegtest
  | bitcoin
  | testnet
  | regtest
  deriving DecidableEq

/-- The third-party functions, `none` where they throw. `serialize` is `__toBuffer()`, which
leaves the witnesses out. -/
structure Packages where
  hash256 : Buffer → Hash
  toOutputScript : Network → String → Option Buffer
  encodeNumber : ℕ → Buffer
  compileReturn : Buffer → Buffer
  serialize : Transaction → Option Buffer
  toBuffer : Transaction → Option Buffer
  fromBuffer : Buffer → Option Transaction
  weight : Transaction → ℕ
  blockWeight : List Transaction → ℕ
  blockToBuffer : Block → Option Buffer
  witnessMerkleRoot : List Transaction → Hash
  merkle : List Hash → List Hash
  merkleProof : List Hash → Hash → List (Option Hash)

/-! ## Templates -/

/-- The block of a template, without the placeholder header fields. -/
structure TemplateBlock where
  version : BitVec 32
  prevHash : Hash
  timestamp : ℤ
  bits : BitVec 32
  transactions : List Transaction
  witnessCommit : Option Hash

structure BlockData where
  id : String
  creation : ℤ
  coinbasevalue : ℕ
  networkDifficulty : Number
  height : ℕ
  clearJobs : Bool

/-- `IJobTemplate`. The network difficulty is that of the template's own bits. -/
structure JobTemplate where
  block : TemplateBlock
  merkleBranch : List Hash
  coinbaseRequiredOutputs : List TxOut
  coinbaseScriptSigPrefix : Option Buffer
  blockData : BlockData
  networkDifficulty_eq : blockData.networkDifficulty = calculateNetworkDifficulty block.bits

/-! ## The coinbase transaction -/

def maxBlockWeight : ℕ := 4000000

structure AddressObject where
  address : String
  percent : ℚ

section
variable (P : Packages) (network : Network)

/-- An address that does not decode is paid to the empty script. -/
def getPaymentScript (address : String) : Buffer := (P.toOutputScript network address).getD []

def payoutAmount (reward : ℕ) (recipient : AddressObject) : ℤ := ⌊recipient.percent / 100 * reward⌋

/-- The first output also takes what the rounding left. -/
def createCoinbaseTransaction (addresses : List AddressObject) (reward : ℕ) : Option Transaction :=
  let outs : List TxOut := addresses.map fun r => ⟨getPaymentScript P network r.address, payoutAmount reward r⟩
  match outs with
  | [] => none
  | first :: rest =>
    let rewardBalance : ℤ := reward - (addresses.map (payoutAmount reward)).sum
    some {
      version := 2
      ins := [⟨.zero, 0xffffffff, [], 0xfffffffe, [Hash.zero.bytes]⟩]
      outs := { first with value := first.value + rewardBalance } :: rest
      locktime := 0 }

/-- The prefix of the template, or the encoded height behind its length. -/
def scriptSig (t : JobTemplate) : Buffer :=
  let heightEncoded := P.encodeNumber t.blockData.height
  let fallback := BitVec.ofNat 8 heightEncoded.length :: heightEncoded
  match t.coinbaseScriptSigPrefix with
  | some (b :: rest) => b :: rest
  | _ => if fallback.length < 2 then fallback ++ [0] else fallback

/-- The outputs behind the payout: those the template requires, or the witness commitment. -/
def requiredOutputs (t : JobTemplate) : List TxOut :=
  match t.coinbaseRequiredOutputs, t.block.witnessCommit with
  | out :: rest, _ => out :: rest
  | [], some commit => [⟨P.compileReturn ([0xaa, 0x21, 0xa9, 0xed] ++ commit.bytes), 0⟩]
  | [], none => []

/-- The coinbase transaction of a job. -/
def coinbaseTransaction (payoutInformation : List AddressObject) (t : JobTemplate) : Option Transaction :=
  (createCoinbaseTransaction P network payoutInformation t.blockData.coinbasevalue).map fun tx =>
    { tx with
      locktime := (t.blockData.height : ℤ) - 1
      ins := tx.ins.map fun i => { i with script := scriptSig P t }
      outs := tx.outs ++ requiredOutputs P t }

end

/-! ## The job -/

/-- A job. Its two coinbase parts are the coinbase without witness, cut in two. -/
structure MiningJob (P : Packages) where
  jobId : String
  jobTemplateId : String
  jobVersion : BitVec 32
  creation : ℤ
  coinbaseTransaction : Transaction
  coinbasePart1 : Buffer
  coinbasePart2 : Buffer
  merkleBranch : List Hash
  parts_eq : P.serialize coinbaseTransaction = some (coinbasePart1 ++ coinbasePart2)

namespace MiningJob
variable {P : Packages}

/-- The constructor, `none` where it throws: no payout address, too much weight, a number that
does not fit its field. -/
def new (P : Packages) (network : Network) (jobId : String) (payoutInformation : List AddressObject)
    (t : JobTemplate) (nowMs : ℤ) : Option (MiningJob P) :=
  (Stratum.coinbaseTransaction P network payoutInformation t).bind fun tx =>
    if maxBlockWeight < P.weight tx + P.blockWeight t.block.transactions then none
    else
      let coinbaseSplitOffset := 41 + 1 + (scriptSig P t).length
      match serialized : P.serialize tx with
      | none => none
      | some full => some {
          jobId := jobId
          jobTemplateId := t.blockData.id
          jobVersion := t.block.version
          creation := nowMs
          coinbaseTransaction := tx
          coinbasePart1 := full.take coinbaseSplitOffset
          coinbasePart2 := full.drop coinbaseSplitOffset
          merkleBranch := t.merkleBranch
          parts_eq := by rw [serialized, List.take_append_drop] }

/-- When the constructor does not throw. -/
theorem isSome_new {network : Network} {jobId : String} {payoutInformation : List AddressObject} {t : JobTemplate}
    {nowMs : ℤ} : (new P network jobId payoutInformation t nowMs).isSome =
      (Stratum.coinbaseTransaction P network payoutInformation t).any fun tx =>
        !decide (maxBlockWeight < P.weight tx + P.blockWeight t.block.transactions) && (P.serialize tx).isSome := by
  unfold new
  cases Stratum.coinbaseTransaction P network payoutInformation t with
  | none => rfl
  | some tx =>
    simp only [Option.bind_some, Option.any_some]
    split
    · rename_i heavy
      simp [heavy]
    · rename_i light
      split <;> simp_all

/-- What a job keeps of its template. -/
theorem new_eq_some {network : Network} {jobId : String} {payoutInformation : List AddressObject} {t : JobTemplate}
    {nowMs : ℤ} {job : MiningJob P} (built : new P network jobId payoutInformation t nowMs = some job) :
    job.jobId = jobId ∧ job.jobTemplateId = t.blockData.id ∧ job.jobVersion = t.block.version ∧
      job.creation = nowMs ∧ job.merkleBranch = t.merkleBranch := by
  obtain ⟨tx, -, rest⟩ := Option.bind_eq_some_iff.mp built
  split at rest
  · cases rest
  · dsimp only at rest
    split at rest
    · cases rest
    · cases rest
      exact ⟨rfl, rfl, rfl, rfl, rfl⟩

/-- The two parts of a job's coinbase make up the coinbase of its template. -/
theorem parts_of_new {network : Network} {jobId : String} {payoutInformation : List AddressObject} {t : JobTemplate}
    {nowMs : ℤ} {job : MiningJob P} (built : new P network jobId payoutInformation t nowMs = some job) :
    (Stratum.coinbaseTransaction P network payoutInformation t).bind P.serialize =
      some (job.coinbasePart1 ++ job.coinbasePart2) := by
  obtain ⟨tx, made, rest⟩ := Option.bind_eq_some_iff.mp built
  split at rest
  · cases rest
  · dsimp only at rest
    split at rest
    · cases rest
    · rename_i full serialized
      cases rest
      rw [made, Option.bind_some]
      exact serialized.trans (congrArg some (List.take_append_drop _ full).symm)

/-- `calculateMerkleRootHash`. -/
def calculateMerkleRootHash (P : Packages) (newRoot : Hash) (merkleBranches : List Hash) : Hash :=
  merkleBranches.foldl (fun root branch => P.hash256 (root.bytes ++ branch.bytes)) newRoot

/-- The Merkle root of every header of the job. -/
def merkleRoot (job : MiningJob P) : Hash :=
  calculateMerkleRootHash P (P.hash256 (job.coinbasePart1 ++ job.coinbasePart2)) job.merkleBranch

/-- The job's version with the submitted version bits. Any mask but zero makes it a signed
32-bit number, a mask that is not a number included. -/
def maskedVersion (jobVersion : BitVec 32) (versionMask : Number) : Number :=
  if versionMask = .fin 0 then .fin jobVersion.toNat
  else .fin (jobVersion ^^^ versionMask.toInt32).toInt

/-- `buildHeaderBuffer`. -/
def buildHeaderBuffer (job : MiningJob P) (t : JobTemplate) (versionMask nonce timestamp : Number) : Option Buffer :=
  header (maskedVersion job.jobVersion versionMask) t.block.prevHash job.merkleRoot timestamp
    (.fin t.block.bits.toNat) nonce

def cloneCoinbaseTransaction (job : MiningJob P) : Option Transaction :=
  (P.toBuffer job.coinbaseTransaction).bind P.fromBuffer

/-- `tx.getHash(false)`. -/
def getHash (P : Packages) (tx : Transaction) : Option Hash := (P.serialize tx).map P.hash256

/-- `copyAndUpdateBlock`. -/
def copyAndUpdateBlock (job : MiningJob P) (t : JobTemplate) (versionMask nonce timestamp : Number) :
    Option Block :=
  job.cloneCoinbaseTransaction.bind fun coinbase =>
    (getHash P coinbase).map fun coinbaseHash => {
      version := maskedVersion job.jobVersion versionMask
      prevHash := t.block.prevHash
      merkleRoot := calculateMerkleRootHash P coinbaseHash job.merkleBranch
      timestamp := timestamp
      bits := t.block.bits
      nonce := nonce
      transactions := coinbase :: t.block.transactions.tail }

/-- The version word of a header is the job's version with the mask's bits flipped. -/
theorem eq_xor_of_writeInt32LE {jobVersion word : BitVec 32} {versionMask : Number}
    (written : writeInt32LE (maskedVersion jobVersion versionMask) = some word) :
    word = jobVersion ^^^ versionMask.toInt32 := by
  have number := eq_toInt32_of_writtenWord written
  unfold maskedVersion at number
  split at number
  · rename_i zero
    have nothing : versionMask.toInt32 = 0#32 := by
      rw [zero]
      exact_mod_cast Number.toInt32_natCast 0
    rw [number, nothing, Number.toInt32_natCast, BitVec.ofNat_toNat, BitVec.setWidth_eq, BitVec.xor_zero]
  · rw [number, Number.toInt32_intCast, BitVec.ofInt_toInt]

/-- Two headers are the same exactly in these parts. -/
theorem buildHeaderBuffer_inj {job job' : MiningJob P} {t t' : JobTemplate}
    {versionMask versionMask' nonce nonce' timestamp timestamp' : Number} {h : Buffer}
    (built : job.buildHeaderBuffer t versionMask nonce timestamp = some h)
    (built' : job'.buildHeaderBuffer t' versionMask' nonce' timestamp' = some h) :
    t.block.prevHash = t'.block.prevHash ∧ t.block.bits = t'.block.bits ∧ job.merkleRoot = job'.merkleRoot ∧
      job.jobVersion ^^^ versionMask.toInt32 = job'.jobVersion ^^^ versionMask'.toInt32 ∧
      writeUInt32LE timestamp = writeUInt32LE timestamp' ∧ writeUInt32LE nonce = writeUInt32LE nonce' := by
  obtain ⟨word, -, -, -, version, -⟩ := header_eq_some built
  obtain ⟨sameVersion, prevHash, root, time, bits, sameNonce⟩ := header_inj built built'
  rw [writeUInt32LE_toNat, writeUInt32LE_toNat] at bits
  rw [version] at sameVersion
  rw [← eq_xor_of_writeInt32LE version, ← eq_xor_of_writeInt32LE sameVersion.symm]
  exact ⟨prevHash, Option.some.inj bits, root, rfl, time, sameNonce⟩

/-- **The block that is submitted has the header that was checked**: the two are built apart,
one from the coinbase parts and one from a copy of the coinbase. -/
theorem header_copyAndUpdateBlock {job : MiningJob P} (t : JobTemplate) (versionMask nonce timestamp : Number)
    (clones : job.cloneCoinbaseTransaction = some job.coinbaseTransaction) :
    ∃ block, job.copyAndUpdateBlock t versionMask nonce timestamp = some block ∧
      block.header = job.buildHeaderBuffer t versionMask nonce timestamp := by
  have hashed : getHash P job.coinbaseTransaction = some (P.hash256 (job.coinbasePart1 ++ job.coinbasePart2)) := by
    rw [getHash, job.parts_eq, Option.map_some]
  rw [copyAndUpdateBlock, clones, Option.bind_some, hashed, Option.map_some]
  exact ⟨_, rfl, rfl⟩

/-! ## mining.notify -/

/-- Every four bytes the other way round. -/
def swapEndianWords : Buffer → Buffer
  | a :: b :: c :: d :: rest => d :: c :: b :: a :: swapEndianWords rest
  | rest => rest

end MiningJob

/-- A `mining.notify` message, with the height of its template. -/
structure Notify where
  jobId : String
  prevHash : Buffer
  coinbasePart1 : Buffer
  coinbasePart2 : Buffer
  merkleBranch : List Hash
  version : String
  bits : String
  timestamp : String
  clearJobs : Bool
  height : ℕ
  deriving DecidableEq

def MiningJob.response {P : Packages} (job : MiningJob P) (t : JobTemplate) : Notify where
  jobId := job.jobId
  prevHash := swapEndianWords t.block.prevHash.bytes
  coinbasePart1 := job.coinbasePart1
  coinbasePart2 := job.coinbasePart2
  merkleBranch := t.merkleBranch
  version := toHex job.jobVersion.toNat
  bits := toHex t.block.bits.toNat
  timestamp := toHex t.block.timestamp.toNat
  clearJobs := t.blockData.clearJobs
  height := t.blockData.height

end ElektronPool.Stratum
