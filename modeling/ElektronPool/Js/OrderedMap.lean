import Mathlib.Algebra.Order.Group.Int
import Mathlib.Algebra.BigOperators.Group.List.Basic
import Mathlib.Tactic.Ring

/-!
# `Map` and object literals as association lists

Entries in insertion order. `setWith` is `map.set(key, f(map.get(key)))`: an entry that
exists is replaced where it stands, a new one goes last.
-/

namespace Js

variable {κ β : Type*} [DecidableEq κ]

abbrev OrderedMap (κ β : Type*) := List (κ × β)

namespace OrderedMap

def setWith (key : κ) (f : Option β → β) : OrderedMap κ β → OrderedMap κ β
  | [] => [(key, f none)]
  | (k, v) :: rest => if k = key then (k, f (some v)) :: rest else (k, v) :: setWith key f rest

/-- `map.get(key)`. -/
def get (m : OrderedMap κ β) (key : κ) : Option β := List.lookup key m

/-- `map.set(key, value)`. -/
def set (m : OrderedMap κ β) (key : κ) (value : β) : OrderedMap κ β := setWith key (fun _ => value) m

/-- `map.delete(key)`. -/
def erase (m : OrderedMap κ β) (key : κ) : OrderedMap κ β := m.filter fun e => e.1 ≠ key

theorem get_cons (k key : κ) (v : β) (m : OrderedMap κ β) :
    get ((k, v) :: m) key = if key = k then some v else m.get key := by
  by_cases same : key = k
  · simp [get, same]
  · simp [get, List.lookup_cons, same, beq_false_of_ne same]

theorem get_set (key key' : κ) (value : β) (m : OrderedMap κ β) :
    (m.set key value).get key' = if key' = key then some value else m.get key' := by
  induction m with
  | nil => simp [set, setWith, get_cons]
  | cons entry rest ih =>
    obtain ⟨k, v⟩ := entry
    rw [set, setWith]
    by_cases same : k = key
    · subst same
      simp only [if_true, get_cons]
      split <;> rfl
    · simp only [if_neg same, get_cons]
      have rest_eq : (setWith key (fun _ => value) rest).get key' = _ := ih
      rw [rest_eq]
      by_cases here : key' = k
      · subst here
        simp [same]
      · simp [here]

theorem get_erase (key key' : κ) (m : OrderedMap κ β) :
    (m.erase key).get key' = if key' = key then none else m.get key' := by
  induction m with
  | nil => simp [erase, get]
  | cons entry rest ih =>
    obtain ⟨k, v⟩ := entry
    by_cases same : k = key
    · subst same
      have skipped : erase ((k, v) :: rest) k = erase rest k := by simp [erase]
      rw [skipped, ih, get_cons]
      split <;> rfl
    · have kept : erase ((k, v) :: rest) key = (k, v) :: erase rest key := by simp [erase, same]
      rw [kept, get_cons, get_cons, ih]
      by_cases here : key' = k
      · subst here
        simp [same]
      · simp [here]

theorem get_eq_none {m : OrderedMap κ β} {key : κ} (fresh : key ∉ m.map Prod.fst) : m.get key = none := by
  apply List.lookup_eq_none_iff.mpr
  intro entry member
  simpa using fun same : key = entry.1 => fresh (same ▸ List.mem_map_of_mem member)

theorem mem_of_get {m : OrderedMap κ β} {key : κ} {value : β} (found : m.get key = some value) : (key, value) ∈ m := by
  induction m with
  | nil => cases found
  | cons entry rest ih =>
    rw [get_cons entry.1 key entry.2 rest] at found
    split at found
    · rename_i same
      cases found
      rw [same]
      exact List.mem_cons_self
    · exact List.mem_cons_of_mem _ (ih found)

theorem get_of_mem {m : OrderedMap κ β} {key : κ} {value : β} (nodup : (m.map Prod.fst).Nodup)
    (member : (key, value) ∈ m) : m.get key = some value := by
  induction m with
  | nil => cases member
  | cons entry rest ih =>
    obtain ⟨fresh, tail⟩ := List.nodup_cons.mp nodup
    rcases List.mem_cons.mp member with rfl | later
    · rw [get_cons, if_pos rfl]
    · have different : key ≠ entry.1 := fun same => fresh (same ▸ List.mem_map_of_mem later)
      rw [get_cons entry.1 key entry.2 rest, if_neg different, ih tail later]

/-- Two maps with the same values differ in their order only. -/
theorem perm_of_get_eq {m m' : OrderedMap κ β} (nodup : (m.map Prod.fst).Nodup) (nodup' : (m'.map Prod.fst).Nodup)
    (same : ∀ key, m.get key = m'.get key) : m.Perm m' := by
  have entries : ∀ l : OrderedMap κ β, (l.map Prod.fst).Nodup → l.Nodup := fun l distinct =>
    List.Pairwise.of_map Prod.fst (fun _ _ different same => different (congrArg Prod.fst same)) distinct
  apply (List.perm_ext_iff_of_nodup (entries m nodup) (entries m' nodup')).mpr
  rintro ⟨key, value⟩
  constructor
  · intro member
    exact mem_of_get ((same key).symm.trans (get_of_mem nodup member))
  · intro member
    exact mem_of_get ((same key).trans (get_of_mem nodup' member))

/-- What is kept can be looked up as before. -/
theorem get_filter {m : OrderedMap κ β} {key : κ} {value : β} {keep : κ × β → Bool}
    (found : m.get key = some value) (kept : keep (key, value) = true) : get (m.filter keep) key = some value := by
  induction m with
  | nil => cases found
  | cons entry rest ih =>
    obtain ⟨k, v⟩ := entry
    rw [get_cons] at found
    by_cases same : key = k
    · rw [if_pos same] at found
      cases found
      rw [List.filter_cons_of_pos (same ▸ kept), get_cons, if_pos same]
    · rw [if_neg same] at found
      rw [List.filter_cons]
      split
      · rw [get_cons, if_neg same]
        exact ih found
      · exact ih found

theorem setWith_of_not_mem {key : κ} {f : Option β → β} {m : OrderedMap κ β}
    (fresh : key ∉ m.map Prod.fst) : setWith key f m = m ++ [(key, f none)] := by
  induction m with
  | nil => rfl
  | cons entry rest ih =>
    obtain ⟨k, v⟩ := entry
    simp only [List.map_cons, List.mem_cons, not_or] at fresh
    simp [setWith, Ne.symm fresh.1, ih fresh.2]

theorem mem_keys_setWith {key k : κ} {f : Option β → β} {m : OrderedMap κ β} :
    k ∈ (setWith key f m).map Prod.fst ↔ k = key ∨ k ∈ m.map Prod.fst := by
  induction m with
  | nil => simp [setWith]
  | cons entry rest ih =>
    obtain ⟨k', v⟩ := entry
    by_cases same : k' = key
    · simp [setWith, same]
    · simp only [setWith, if_neg same, List.map_cons, List.mem_cons, ih]
      tauto

/-- An entry after `setWith` is an old one, or the new one made from the old one. -/
theorem mem_setWith {key : κ} {f : Option β → β} {m : OrderedMap κ β} {e : κ × β} (member : e ∈ setWith key f m) :
    e ∈ m ∨ ∃ previous : Option β, (∀ v, previous = some v → (key, v) ∈ m) ∧ e = (key, f previous) := by
  induction m with
  | nil => exact .inr ⟨none, by simp, by simpa [setWith] using member⟩
  | cons entry rest ih =>
    obtain ⟨k, v⟩ := entry
    by_cases same : k = key
    · subst same
      simp only [setWith, if_true, List.mem_cons] at member
      rcases member with rfl | later
      · exact .inr ⟨some v, by simp, rfl⟩
      · exact .inl (List.mem_cons_of_mem _ later)
    · simp only [setWith, if_neg same, List.mem_cons] at member
      rcases member with rfl | later
      · exact .inl List.mem_cons_self
      · rcases ih later with old | ⟨previous, was, now⟩
        · exact .inl (List.mem_cons_of_mem _ old)
        · exact .inr ⟨previous, fun v eq => List.mem_cons_of_mem _ (was v eq), now⟩

/-- Keys stay distinct. -/
theorem nodup_keys_setWith {key : κ} {f : Option β → β} {m : OrderedMap κ β}
    (nodup : (m.map Prod.fst).Nodup) : ((setWith key f m).map Prod.fst).Nodup := by
  induction m with
  | nil => simp [setWith]
  | cons entry rest ih =>
    obtain ⟨k, v⟩ := entry
    obtain ⟨fresh, tail⟩ := List.nodup_cons.mp nodup
    by_cases same : k = key
    · simpa [setWith, same] using nodup
    · simp only [setWith, if_neg same, List.map_cons]
      refine List.nodup_cons.mpr ⟨?_, ih tail⟩
      rw [mem_keys_setWith]
      exact not_or.mpr ⟨same, fresh⟩

/-- Setting distinct fresh keys in turn lists them in turn. -/
theorem foldl_set_of_nodup (m entries : OrderedMap κ β)
    (nodup : ((m ++ entries).map Prod.fst).Nodup) :
    entries.foldl (fun acc e => acc.set e.1 e.2) m = m ++ entries := by
  induction entries generalizing m with
  | nil => simp
  | cons e rest ih =>
    have fresh : e.1 ∉ m.map Prod.fst := by
      rw [List.map_append, List.map_cons] at nodup
      intro member
      exact (List.nodup_append.mp nodup).2.2 _ member _ List.mem_cons_self rfl
    rw [List.foldl_cons, set, setWith_of_not_mem fresh, ih _ (by simpa using nodup)]
    simp

/-- Adding to one entry adds to every sum of entries that it is in. -/
theorem sum_filter_setWith_add {key : κ} {amount : ℤ} {m : OrderedMap κ ℤ} (keep : κ → Bool) :
    (((setWith key (fun old => old.getD 0 + amount) m).filter fun e => keep e.1).map Prod.snd).sum =
      ((m.filter fun e => keep e.1).map Prod.snd).sum + if keep key then amount else 0 := by
  induction m with
  | nil => cases kept : keep key <;> simp [setWith, kept]
  | cons entry rest ih =>
    obtain ⟨k, v⟩ := entry
    by_cases same : k = key
    · subst same
      cases kept : keep k <;> simp [setWith, kept]
      ring
    · simp only [setWith, if_neg same, List.filter_cons]
      split
      · simp only [List.map_cons, List.sum_cons, ih]
        ring
      · exact ih

end OrderedMap

end Js
