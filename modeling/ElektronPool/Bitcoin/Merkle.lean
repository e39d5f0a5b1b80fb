import Mathlib.Order.Monotone.Basic

/-!
# Merkle trees of Bitcoin

A level of odd width pairs its last node with itself. The nodes are of any type, the hash of
a pair of them is `f`. A tree is the list of its levels from the leaves to the root, the
proof of a leaf lists the pairs of nodes on its path.
-/

namespace Bitcoin.Merkle
set_option autoImplicit false

variable {α : Type}

/-- The level above. -/
def derive (f : α → α → α) : List α → List α
  | [] => []
  | [x] => [f x x]
  | x :: y :: rest => f x y :: derive f rest

theorem length_derive (f : α → α → α) (level : List α) : (derive f level).length = (level.length + 1) / 2 := by
  induction level using derive.induct with
  | case1 => simp [derive]
  | case2 x => simp [derive]
  | case3 x y rest ih =>
    simp only [derive, List.length_cons, ih]
    omega

/-- The Merkle root, `none` for no leaves. -/
def root (f : α → α → α) : List α → Option α
  | [] => none
  | [x] => some x
  | x :: y :: rest => root f (f x y :: derive f rest)
termination_by leaves => leaves.length
decreasing_by
  simp only [List.length_cons, length_derive]
  omega

/-- The levels from the leaves to the root. -/
def levels (f : α → α → α) : List α → List (List α)
  | [] => []
  | [x] => [[x]]
  | x :: y :: rest => (x :: y :: rest) :: levels f (f x y :: derive f rest)
termination_by leaves => leaves.length
decreasing_by
  simp only [List.length_cons, length_derive]
  omega

/-- The tree, level by level. -/
def tree (f : α → α → α) (leaves : List α) : List α := (levels f leaves).flatten

/-! ## The proof of a leaf -/

/-- The left node of the pair that the node at `index` is in. -/
def leftOf (level : List α) (index : ℕ) : Option α := level[index - index % 2]?

/-- The right node of that pair: the left one again where the level ends. -/
def rightOf (level : List α) (index : ℕ) : Option α := level[index - index % 2 + 1]?.or (leftOf level index)

/-- Above the leaves: of each pair only the node that is not on the path, then the root. -/
def proofAbove : List (List α) → ℕ → List (Option α)
  | [], _ => []
  | [top], _ => [top.head?]
  | level :: next :: above, index =>
    (if index % 2 = 0 then [none, rightOf level index] else [leftOf level index, none])
      ++ proofAbove (next :: above) (index / 2)

/-- The proof of the leaf at `index`: both nodes of its pair, then what is above. -/
def proof : List (List α) → ℕ → List (Option α)
  | [], _ => []
  | [top], _ => [top.head?]
  | leaves :: next :: above, index =>
    [leftOf leaves index, rightOf leaves index] ++ proofAbove (next :: above) (index / 2)

/-! ## The first leaf -/

/-- The siblings of the first leaf, from the leaves behind it. -/
def firstBranch (f : α → α → α) : List α → List α
  | [] => []
  | y :: rest => y :: firstBranch f (derive f rest)
termination_by behind => behind.length
decreasing_by
  simp only [List.length_cons, length_derive]
  omega

/-- **Folding the first leaf with its siblings gives the root.** -/
theorem root_cons (f : α → α → α) (x : α) (behind : List α) :
    root f (x :: behind) = some ((firstBranch f behind).foldl f x) := by
  induction behind using firstBranch.induct f generalizing x with
  | case1 => rw [root, firstBranch, List.foldl_nil]
  | case2 y rest ih => rw [root, firstBranch, List.foldl_cons, ih]

/-- The levels are never none, and the first one is the leaves. -/
theorem levels_cons (f : α → α → α) (x : α) (behind : List α) :
    ∃ above, levels f (x :: behind) = (x :: behind) :: above := by
  cases behind with
  | nil => exact ⟨[], by rw [levels]⟩
  | cons y rest => exact ⟨levels f (f x y :: derive f rest), by rw [levels]⟩

/-- What is not null above the leaves on the path of the first leaf. -/
theorem filterMap_proofAbove (f : α → α → α) (x : α) (behind : List α) :
    ∃ top, (proofAbove (levels f (x :: behind)) 0).filterMap id = firstBranch f behind ++ [top] := by
  induction behind using firstBranch.induct f generalizing x with
  | case1 => exact ⟨x, by rw [levels, firstBranch]; rfl⟩
  | case2 y rest ih =>
    obtain ⟨top, above⟩ := ih (f x y)
    obtain ⟨higher, split⟩ := levels_cons f (f x y) (derive f rest)
    refine ⟨top, ?_⟩
    rw [split] at above
    rw [levels, firstBranch, split, proofAbove, if_pos (Nat.zero_mod 2), List.filterMap_append, Nat.zero_div, above]
    rfl

/-- **The branch of the first leaf can be carved out of its proof**: without the nulls, the
root and the leaf itself. -/
theorem carve_proof (f : α → α → α) (x : α) (behind : List α) :
    (((proof (levels f (x :: behind)) 0).filterMap id).dropLast).drop 1 = firstBranch f behind := by
  cases behind with
  | nil =>
    rw [levels, firstBranch]
    rfl
  | cons y rest =>
    obtain ⟨top, above⟩ := filterMap_proofAbove f (f x y) (derive f rest)
    obtain ⟨higher, split⟩ := levels_cons f (f x y) (derive f rest)
    rw [split] at above
    rw [levels, firstBranch, split, proof, List.filterMap_append, Nat.zero_div, above, ← List.append_assoc,
      List.dropLast_concat]
    rfl

/-! ## The leaves of a tree -/

/-- How many nodes a tree over so many leaves has. -/
def nodeCount : ℕ → ℕ
  | 0 => 0
  | 1 => 1
  | n + 2 => n + 2 + nodeCount ((n + 3) / 2)

theorem length_tree (f : α → α → α) (leaves : List α) : (tree f leaves).length = nodeCount leaves.length := by
  induction leaves using levels.induct f with
  | case1 => simp [tree, levels, nodeCount]
  | case2 x => simp [tree, levels, nodeCount]
  | case3 x y rest ih =>
    have width : (f x y :: derive f rest).length = (rest.length + 3) / 2 := by
      rw [List.length_cons, length_derive]
      omega
    rw [tree] at ih
    rw [tree, levels, List.flatten_cons, List.length_append, ih, width]
    simp only [List.length_cons, nodeCount]

theorem nodeCount_strictMono : StrictMono nodeCount := by
  refine strictMono_nat_of_lt_succ fun n => ?_
  induction n using Nat.strong_induction_on with
  | _ n ih =>
    match n with
    | 0 => simp [nodeCount]
    | 1 => simp [nodeCount]
    | n + 2 =>
      have next : nodeCount ((n + 3) / 2) ≤ nodeCount ((n + 1 + 3) / 2) := by
        obtain same | later : (n + 1 + 3) / 2 = (n + 3) / 2 ∨ (n + 1 + 3) / 2 = (n + 3) / 2 + 1 := by omega
        · rw [same]
        · rw [later]
          exact (ih _ (by omega)).le
      rw [nodeCount, nodeCount]
      omega

/-- The leaves of a tree: its first nodes, as many as a tree of its size has leaves. -/
def leavesOf (nodes : List α) : List α :=
  nodes.take (((List.range (nodes.length + 1)).find? fun n => nodeCount n = nodes.length).getD 0)

theorem leaves_prefix_tree (f : α → α → α) (leaves : List α) : ∃ above, tree f leaves = leaves ++ above := by
  cases leaves with
  | nil => exact ⟨[], by rw [tree, levels]; rfl⟩
  | cons x behind =>
    obtain ⟨above, split⟩ := levels_cons f x behind
    exact ⟨above.flatten, by rw [tree, split, List.flatten_cons]⟩

theorem leavesOf_tree (f : α → α → α) (leaves : List α) : leavesOf (tree f leaves) = leaves := by
  obtain ⟨above, split⟩ := leaves_prefix_tree f leaves
  have inside : leaves.length < (tree f leaves).length + 1 := by
    rw [split, List.length_append]
    omega
  have found : (List.range ((tree f leaves).length + 1)).find?
      (fun n => nodeCount n = (tree f leaves).length) = some leaves.length := by
    rw [List.find?_range_eq_some]
    refine ⟨by rw [length_tree, decide_eq_true_eq], List.mem_range.mpr inside, fun k smaller => ?_⟩
    rw [length_tree, Bool.not_eq_true', decide_eq_false_iff_not]
    exact (nodeCount_strictMono smaller).ne
  rw [leavesOf, found, Option.getD_some, split, List.take_left]

end Bitcoin.Merkle
