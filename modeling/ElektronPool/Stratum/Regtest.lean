import ElektronPool.Stratum.System

/-!
# The packages with the standard formats

`Packages.standard` serialises as Bitcoin does, for blocks whose only transaction is the
coinbase; hashing, address decoding and parsing are still open. `regtest` fills these in by
tables, with the double SHA-256 values of the few buffers that the concrete runs hash.
-/

namespace ElektronPool.Stratum
set_option autoImplicit false
open Js Bitcoin Async

/-- The minimal script number of a height. -/
def scriptNumber (n : ℕ) : Buffer :=
  if n = 0 then [] else if n < 0x80 then leBytes 1 n else if n < 0x8000 then leBytes 2 n
  else if n < 0x800000 then leBytes 3 n else if n < 0x80000000 then leBytes 4 n else leBytes 5 n

def Packages.standard (hash256 : Buffer → Hash) (toOutputScript : Network → String → Option Buffer)
    (fromBuffer : Buffer → Option Transaction) : Packages where
  hash256 := hash256
  toOutputScript := toOutputScript
  encodeNumber := scriptNumber
  compileReturn data := 0x6a :: (leBytes 1 data.length ++ data)
  serialize tx := if tx.InRange then some tx.baseBytes else none
  toBuffer tx := if tx.InRange then some tx.bytes else none
  fromBuffer := fromBuffer
  weight tx := 3 * tx.baseBytes.length + tx.bytes.length
  blockWeight txs :=
    let frame := 80 + (compactSize txs.length).length
    3 * (frame + (txs.map (·.baseBytes.length)).sum) + (frame + (txs.map (·.bytes.length)).sum)
  blockToBuffer b := b.header.map (· ++ (compactSize b.transactions.length ++ b.transactions.flatMap Transaction.bytes))
  witnessMerkleRoot _ := hash256 (Hash.zero.bytes ++ Hash.zero.bytes)
  merkle leaves := leaves
  merkleProof tree _ := tree.map some

/-- A serialised block is its header and then its transactions. -/
def Packages.HeaderFirst (P : Packages) : Prop := ∀ b : Block, ∃ body, P.blockToBuffer b = b.header.map (· ++ body)

theorem Packages.headerFirst_standard (hash256 : Buffer → Hash) (toOutputScript : Network → String → Option Buffer)
    (fromBuffer : Buffer → Option Transaction) :
    (Packages.standard hash256 toOutputScript fromBuffer).HeaderFirst :=
  fun _ => ⟨_, rfl⟩

/-! ## A pool on regtest -/

namespace Regtest

def config : StratumConfig := ⟨some "bcrt1qqypqxpq9qcrsszg2pvxq6rs0zqg3yyc5phstwt", some "regtest", false, true⟩

/-- The output script of the pool wallet. -/
def walletScript : Buffer := [0x00, 0x14] ++ (leBytes 20 0x0102030405060708090a0b0c0d0e0f1011121314).reverse

/-- The reply of the node at a height. -/
def template (height : ℕ) : BlockTemplate where
  version := 0x20000000
  previousblockhash := .ofHex 0x0f9188f13cb7b2c71f2a335e3a4fc328bf5beb436012afca590b1a11466e2206
  mintime := 1699999000
  bits := 0x207fffff
  height := height
  coinbasevalue := 5000000000
  transactions := []
  coinbaseRequiredOutputs := [⟨[0x6a, 0x04, 0x01, 0x02, 0x03, 0x04], 0⟩]
  coinbaseScriptSigPrefix := some [0x01, BitVec.ofNat 8 height]

/-- The coinbase of every job at a height. -/
def coinbase (height : ℕ) : Transaction where
  version := 2
  ins := [⟨.zero, 0xffffffff, [0x01, BitVec.ofNat 8 height], 0xfffffffe, [Hash.zero.bytes]⟩]
  outs := [⟨walletScript, 5000000000⟩, ⟨[0x6a, 0x04, 0x01, 0x02, 0x03, 0x04], 0⟩]
  locktime := (height : ℤ) - 1

/-- The 76 bytes of the header of height 101 at 1700000000, before the nonce. -/
def headerStart : Buffer :=
  (leBytes 76 0x0000002006226e46111a0b59caaf126043eb5bbf28c34f3a5e332a1fc7b2b73cf188910f07020b96e165eb6a3d457ba8ec151bd733b335e6345bfb3fd6459d7a4ed1a21a00f15365ffff7f20).reverse

/-- Double SHA-256 of the buffers that are hashed in the runs. -/
def hashes : OrderedMap Buffer Hash := [
  (placeholderCoinbase.baseBytes, .ofHex 0x489fa5486305fc785acc1ca3d0116161918ade45d00a08572f2b01e2a527e11a),
  (List.replicate 64 0, .ofHex 0xe2f61c3f71d1defd3fa999dfa36953755c690689799962b48bebd836974e8cf9),
  ((coinbase 101).baseBytes, .ofHex 0x07020b96e165eb6a3d457ba8ec151bd733b335e6345bfb3fd6459d7a4ed1a21a),
  (headerStart ++ [2, 0, 0, 0], .ofHex 0xc7ed66b556c6c2edae5da07fa87ada96a6ba6c6c611cfce9afb969f27fe9561b),
  (headerStart ++ [4, 0, 0, 0], .ofHex 0xf977d7e5c9d53d039ab36e0045d1cb5b340c3cf0b53e3ddd1f0b4a08b96f4604)]

def packages : Packages :=
  .standard (fun bytes => (hashes.get bytes).getD .zero)
    (fun network address => if (network, some address) = (.elektronRegtest, config.poolWalletAddress) then
      some walletScript else none)
    (fun bytes => [coinbase 100, coinbase 101].find? fun tx => tx.bytes = bytes)

/-- A session with this difficulty is sent job 1, at height 101. -/
def mining (difficulty : Number) : List (Event (Call packages) Answer) :=
  [.start (.connect "01"), .resume 0 (.ran 0), .start (.authorize 0 ⟨"bcrt1qminer", "one"⟩), .resume 1 (.ran 0),
    .start (.setDifficulty 0 difficulty), .resume 2 (.ran 0),
    .start (.refreshMiningJob 0 true), .resume 3 (.ran 0), .resume 3 (.template (template 101) 1700000000000),
    .resume 3 (.written true 1700000000000)]

/-- A submission for job 1. -/
def submission (nonce : String) : MiningSubmitMessage where
  userId := "bcrt1qminer.one"
  jobId := "1"
  extraNonce2 := ""
  ntime := "6553f100"
  nonce := nonce
  versionMask := "0"

/-- A session with a low difficulty sends two submissions. -/
def twoShares (first second : MiningSubmitMessage) : List (Event (Call packages) Answer) :=
  mining (.fin (1 / 10 ^ 10)) ++
    [.start (.submit 0 first), .resume 4 (.ran 1700000001000), .resume 4 (.written true 1700000001000),
      .resume 4 (.recorded true),
      .start (.submit 0 second), .resume 5 (.ran 1700000002000), .resume 5 (.written true 1700000002000),
      .resume 5 (.recorded true)]

/-- Two sessions work at height 100. -/
def twoSessions : List (Event (Call packages) Answer) :=
  [.start (.connect "01"), .resume 0 (.ran 0), .start (.authorize 0 ⟨"bcrt1qminer", "one"⟩), .resume 1 (.ran 0),
    .start (.connect "02"), .resume 2 (.ran 0), .start (.authorize 1 ⟨"bcrt1qminer", "two"⟩), .resume 3 (.ran 0),
    .start (.refreshMiningJob 0 true), .resume 4 (.ran 0), .resume 4 (.template (template 100) 1700000000000),
    .start (.refreshMiningJob 1 true), .resume 5 (.ran 0), .resume 5 (.template (template 100) 1700000000000)]

/-- The first session refreshes its template, as handler number `k`. -/
def refresh (k height : ℕ) (nowMs : ℤ) : List (Event (Call packages) Answer) :=
  [.start (.refreshMiningJob 0 true), .resume k (.ran 0), .resume k (.template (template height) nowMs)]

/-- The second session sends work from the template it has, as handler number `k`. -/
def localRefresh (k : ℕ) : Event (Call packages) Answer := .resume k (.ran 1700000001000)

/-- Every await behind a block that the node took, with Telegram and without a subscriber. -/
def allReturn (nowMs : ℤ) : List Answer :=
  [.returned .save nowMs, .subscribers 0, .returned .resetBestDifficultyAndShares nowMs,
    .returned .reportBlockFound nowMs, .returned .processBlockFound nowMs, .returned .ensureClientEntity nowMs,
    .returned .addShares nowMs, .returned (.heartbeat nowMs) nowMs, .returned .sessionBestDifficulty nowMs,
    .returned .addressBestDifficulty nowMs]

end Regtest

end ElektronPool.Stratum
