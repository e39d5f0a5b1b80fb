import ElektronPool.Bitcoin.Merkle
import ElektronPool.Stratum.Regtest

/-!
# The Merkle branch of a template

`buildTemplateFor` carves the branch out of the proof of a placeholder coinbase, and every job
of the template folds its own coinbase with it. What merkle-lib does is an assumption,
`MerkleLib`; the branch is then that of the first leaf, which no placeholder is part of.
-/

namespace ElektronPool.Stratum
set_option autoImplicit false
open Js Bitcoin

variable {P : Packages}

/-- The hash of two nodes. -/
def Packages.hashPair (P : Packages) (left right : Hash) : Hash := P.hash256 (left.bytes ++ right.bytes)

/-- What merkle-lib does: a tree is laid out level by level from the leaves to the root, and the
proof of a leaf is that of its first occurrence. -/
structure Packages.MerkleLib (P : Packages) : Prop where
  merkle : ∀ leaves, leaves ≠ [] → P.merkle leaves = Merkle.tree P.hashPair leaves
  merkleProof : ∀ leaves, ∀ leaf ∈ leaves,
    P.merkleProof (Merkle.tree P.hashPair leaves) leaf = Merkle.proof (Merkle.levels P.hashPair leaves) (leaves.idxOf leaf)

/-- What `buildTemplateFor` carves out of the proof of the first transaction. -/
def carvedBranch (P : Packages) (transactionBuffers : List Hash) : Option (List Hash) :=
  transactionBuffers.head?.map fun first =>
    ((P.merkleProof (P.merkle transactionBuffers) first).filterMap id).dropLast.drop 1

/-- The branch does not depend on the first transaction. -/
theorem carvedBranch_cons (lib : P.MerkleLib) (first : Hash) (txids : List Hash) :
    carvedBranch P (first :: txids) = some (Merkle.firstBranch P.hashPair txids) := by
  have place : (first :: txids).idxOf first = 0 := List.idxOf_cons_self
  rw [carvedBranch, List.head?_cons, Option.map_some, lib.merkle _ (List.cons_ne_nil first txids),
    lib.merkleProof _ _ List.mem_cons_self, place, Merkle.carve_proof]

/-- The transactions of a template, read and hashed, behind the placeholder. -/
theorem templateTransactions_eq_some {blockTemplate : BlockTemplate} {transactions : List Transaction}
    {merkleBranch : List Hash} (read : templateTransactions P blockTemplate = some (transactions, merkleBranch)) :
    ∃ parsed placeholderHash txids, blockTemplate.transactions.mapM P.fromBuffer = some parsed ∧
      transactions = placeholderCoinbase :: parsed ∧ parsed.mapM (MiningJob.getHash P) = some txids ∧
      carvedBranch P (placeholderHash :: txids) = some merkleBranch := by
  obtain ⟨parsed, parsed_eq, rest⟩ := Option.bind_eq_some_iff.mp read
  obtain ⟨hashes, hashes_eq, rest⟩ := Option.bind_eq_some_iff.mp rest
  obtain ⟨first, first_eq, rest⟩ := Option.bind_eq_some_iff.mp rest
  rw [List.mapM_cons] at hashes_eq
  obtain ⟨placeholderHash, -, hashes_eq⟩ := Option.bind_eq_some_iff.mp hashes_eq
  obtain ⟨txids, txids_eq, hashes_eq⟩ := Option.bind_eq_some_iff.mp hashes_eq
  cases hashes_eq
  cases rest
  refine ⟨parsed, placeholderHash, txids, parsed_eq, rfl, txids_eq, ?_⟩
  rw [carvedBranch, first_eq, Option.map_some]

/-- The template that was built has the transactions and the branch that were read. -/
theorem templateTransactions_of_built {s : JobsService P} {coinbaseAddress : String} {blockTemplate : BlockTemplate}
    {nowMs : ℤ} {t : JobTemplate} (built : (s.buildTemplateFor coinbaseAddress blockTemplate nowMs).2 = some t) :
    templateTransactions P blockTemplate = some (t.block.transactions, t.merkleBranch) := by
  unfold JobsService.buildTemplateFor at built
  dsimp only at built
  split at built
  · cases built
  · rename_i transactions merkleBranch read
    cases built
    exact read

/-- **The branch of a template leads every coinbase to the Merkle root of the block**, and would
be the same with any other placeholder. -/
theorem root_of_merkleBranch (lib : P.MerkleLib) {s : JobsService P} {coinbaseAddress : String}
    {blockTemplate : BlockTemplate} {nowMs : ℤ} {t : JobTemplate}
    (built : (s.buildTemplateFor coinbaseAddress blockTemplate nowMs).2 = some t) :
    ∃ transactions txids, blockTemplate.transactions.mapM P.fromBuffer = some transactions ∧
      t.block.transactions.tail = transactions ∧ transactions.mapM (MiningJob.getHash P) = some txids ∧
      (∀ coinbaseHash, Merkle.root P.hashPair (coinbaseHash :: txids) =
        some (MiningJob.calculateMerkleRootHash P coinbaseHash t.merkleBranch)) ∧
      ∀ placeholderHash, carvedBranch P (placeholderHash :: txids) = some t.merkleBranch := by
  obtain ⟨parsed, placeholderHash, txids, parsed_eq, transactions_eq, txids_eq, carved⟩ :=
    templateTransactions_eq_some (templateTransactions_of_built built)
  rw [carvedBranch_cons lib, Option.some.injEq] at carved
  refine ⟨parsed, txids, parsed_eq, by rw [transactions_eq, List.tail_cons], txids_eq, fun coinbaseHash => ?_,
    fun other => ?_⟩
  · rw [Merkle.root_cons, carved]
    rfl
  · rw [carvedBranch_cons lib, carved]

/-- merkle-lib on top of other packages: it finds the leaves of a tree again from its size. -/
def Packages.withMerkleLib (P : Packages) : Packages where
  __ := P
  merkle leaves := Merkle.tree P.hashPair leaves
  merkleProof nodes leaf := Merkle.proof (Merkle.levels P.hashPair (Merkle.leavesOf nodes)) (nodes.idxOf leaf)

theorem Packages.merkleLib_withMerkleLib (P : Packages) : P.withMerkleLib.MerkleLib where
  merkle _ _ := rfl
  merkleProof leaves leaf member := by
    obtain ⟨above, split⟩ := Merkle.leaves_prefix_tree P.hashPair leaves
    have place : (Merkle.tree P.hashPair leaves).idxOf leaf = leaves.idxOf leaf := by
      rw [split, List.idxOf_append_of_mem member]
    change Merkle.proof (Merkle.levels P.hashPair (Merkle.leavesOf (Merkle.tree P.hashPair leaves)))
      ((Merkle.tree P.hashPair leaves).idxOf leaf) = _
    rw [Merkle.leavesOf_tree, place]
    rfl

/-- A template with two transactions, so that the level of the leaves is of odd width. -/
theorem root_of_merkleBranch_three_leaves :
    let P := Regtest.packages.withMerkleLib
    let blockTemplate := { Regtest.template 102 with
      transactions := [(Regtest.coinbase 100).bytes, (Regtest.coinbase 101).bytes] }
    ∃ t, ((JobsService.empty : JobsService P).buildTemplateFor "bcrt1qpool" blockTemplate 1700000000000).2 = some t ∧
      ∃ transactions txids, blockTemplate.transactions.mapM P.fromBuffer = some transactions ∧
        t.block.transactions.tail = transactions ∧ transactions.mapM (MiningJob.getHash P) = some txids ∧
        (∀ coinbaseHash, Merkle.root P.hashPair (coinbaseHash :: txids) =
          some (MiningJob.calculateMerkleRootHash P coinbaseHash t.merkleBranch)) ∧
        ∀ placeholderHash, carvedBranch P (placeholderHash :: txids) = some t.merkleBranch :=
  ⟨_, rfl, root_of_merkleBranch Regtest.packages.merkleLib_withMerkleLib rfl⟩

end ElektronPool.Stratum
