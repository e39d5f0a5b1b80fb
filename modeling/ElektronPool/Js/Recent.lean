import ElektronPool.Js.OrderedMap
import Mathlib.Data.List.Dedup

/-!
# Maps that forget

A map from keys to the time each was last set at, from which what is older than the time to live is
deleted now and then. Whether a key is still there depends on when the last deletion was; after a deletion
at the present time it is there exactly if it has been set within the time to live
(`Remembers.isSome_get_prune_iff`).
-/

namespace Js

variable {κ : Type*}

namespace OrderedMap

/-- Delete the entries older than the cutoff. -/
def prune (cutoff : ℤ) (m : OrderedMap κ ℤ) : OrderedMap κ ℤ := m.filter fun e => ¬ e.2 < cutoff

theorem mem_prune {cutoff : ℤ} {m : OrderedMap κ ℤ} {e : κ × ℤ} : e ∈ m.prune cutoff ↔ e ∈ m ∧ cutoff ≤ e.2 := by
  simp [prune]

/-- What the map still knows, for what has been set so far: nothing else, and all of it that is not
older than the cutoff. -/
structure Remembers [DecidableEq κ] (m : OrderedMap κ ℤ) (log : List (κ × ℤ)) (cutoff : ℤ) : Prop where
  keys : (m.map Prod.fst).Nodup
  entries : ∀ e ∈ m, e ∈ log
  recent : ∀ e ∈ log, cutoff ≤ e.2 → ∃ time, m.get e.1 = some time ∧ e.2 ≤ time

variable [DecidableEq κ] {m : OrderedMap κ ℤ} {log : List (κ × ℤ)} {cutoff cutoff' time : ℤ} {key : κ}

theorem remembers_empty (cutoff : ℤ) : Remembers ([] : OrderedMap κ ℤ) [] cutoff where
  keys := List.nodup_nil
  entries _ member := absurd member List.not_mem_nil
  recent _ member := absurd member List.not_mem_nil

theorem Remembers.later (remembers : m.Remembers log cutoff) (le : cutoff ≤ cutoff') : m.Remembers log cutoff' where
  keys := remembers.keys
  entries := remembers.entries
  recent e member young := remembers.recent e member (le.trans young)

/-- Times only grow, so that the entry of a key is its latest. -/
theorem Remembers.set (remembers : m.Remembers log cutoff) (past : ∀ e ∈ log, e.2 ≤ time) :
    (m.set key time).Remembers (log ++ [(key, time)]) cutoff where
  keys := nodup_keys_setWith remembers.keys
  entries e member := by
    rcases mem_setWith member with old | ⟨previous, -, rfl⟩
    · exact List.mem_append_left _ (remembers.entries e old)
    · exact List.mem_append_right _ List.mem_cons_self
  recent e member young := by
    by_cases same : e.1 = key
    · refine ⟨time, by rw [get_set, if_pos same], ?_⟩
      rcases List.mem_append.mp member with old | new
      · exact past e old
      · rw [List.mem_singleton.mp new]
    · rcases List.mem_append.mp member with old | new
      · obtain ⟨at_, known, le⟩ := remembers.recent e old young
        exact ⟨at_, by rw [get_set, if_neg same, known], le⟩
      · exact absurd (congrArg Prod.fst (List.mem_singleton.mp new)) same

theorem Remembers.prune (remembers : m.Remembers log cutoff) : (m.prune cutoff).Remembers log cutoff where
  keys := remembers.keys.sublist (List.filter_sublist.map Prod.fst)
  entries e member := remembers.entries e (mem_prune.mp member).1
  recent e member young := by
    obtain ⟨time, known, le⟩ := remembers.recent e member young
    exact ⟨time, get_filter known (by simpa using young.trans le), le⟩

/-- After a deletion a key is there exactly if it has been set recently. -/
theorem Remembers.isSome_get_prune_iff (remembers : m.Remembers log cutoff) :
    ((m.prune cutoff).get key).isSome = true ↔ ∃ e ∈ log, e.1 = key ∧ cutoff ≤ e.2 := by
  rw [Option.isSome_iff_exists]
  constructor
  · rintro ⟨time, known⟩
    obtain ⟨member, young⟩ := mem_prune.mp (mem_of_get known)
    exact ⟨_, remembers.entries _ member, rfl, young⟩
  · rintro ⟨e, member, rfl, young⟩
    obtain ⟨time, known, -⟩ := remembers.prune.recent e member young
    exact ⟨time, known⟩

end OrderedMap

end Js
