import ElektronPool.Async.Pool

/-!
# The history of each call

Beside a run of a pool, one list for each call: what it made of the answers it got, one after
another. What a call's place says of its history is kept by its own resumptions
alone, so it holds in every interleaving (`Pool.fits_of_recorded`).
-/

namespace Async.Pool

variable {σ τ α β : Type*}

/-- A new call has no history; a resumption adds what it notes to the history of its call. -/
def recordHistories (note : τ → α → Option β) (histories : List (List β)) (p : Pool σ τ) (e : Event τ α)
    (_ : Pool σ τ) : List (List β) :=
  match e with
  | .start _ => histories ++ [[]]
  | .resume k a => histories.set k (histories.getD k [] ++ (p.calls[k]?.bind (note · a)).toList)

/-- Every call fits its history. -/
structure Fits (fits : τ → List β → Prop) (p : Pool σ τ) (histories : List (List β)) : Prop where
  length : histories.length = p.calls.length
  each : ∀ k t, p.calls[k]? = some t → fits t (histories.getD k [])

variable {entry : τ → Bool} {resume : σ → τ → α → Option (σ × τ)} {note : τ → α → Option β}
  {fits : τ → List β → Prop} {p p' : Pool σ τ} {e : Event τ α} {histories : List (List β)}

theorem fits_step (begins : ∀ t, entry t = true → fits t [])
    (goes_on : ∀ s t a s' t' h, fits t h → resume s t a = some (s', t') → fits t' (h ++ (note t a).toList))
    (h : Fits fits p histories) (moved : step entry resume p e = some p') :
    Fits fits p' (recordHistories note histories p e p') := by
  cases e with
  | start t =>
    obtain ⟨start, rfl⟩ := start_cases moved
    refine ⟨?_, fun k u found => ?_⟩
    · simp [recordHistories, h.length]
    · rcases getElem?_concat_some found with old | ⟨rfl, rfl⟩
      · have bound : k < histories.length := h.length ▸ (List.getElem?_eq_some_iff.mp old).1
        have same : (histories ++ [[]]).getD k [] = histories.getD k [] := by
          rw [List.getD_eq_getElem?_getD, List.getElem?_append_left bound, ← List.getD_eq_getElem?_getD]
        simpa only [recordHistories, same] using h.each k u old
      · have empty : (histories ++ [[]]).getD p.calls.length [] = [] := by
          rw [← h.length, List.getD_eq_getElem?_getD, List.getElem?_concat_length, Option.getD_some]
        simpa only [recordHistories, empty] using begins u start
  | resume i a =>
    obtain ⟨t, s', t', at_i, resumed, rfl⟩ := resume_cases moved
    refine ⟨?_, fun k u found => ?_⟩
    · simp [recordHistories, h.length]
    · have noted : recordHistories note histories p (.resume i a) ⟨s', p.calls.set i t'⟩ =
          histories.set i (histories.getD i [] ++ (note t a).toList) := by
        rw [recordHistories, at_i, Option.bind_some]
      rw [noted]
      rcases getElem?_set_some found with ⟨rfl, rfl⟩ | ⟨other, old⟩
      · have bound : i < histories.length := h.length ▸ (List.getElem?_eq_some_iff.mp at_i).1
        have here : (histories.set i (histories.getD i [] ++ (note t a).toList)).getD i [] =
            histories.getD i [] ++ (note t a).toList := by
          rw [List.getD_eq_getElem?_getD, List.getElem?_set_self bound, Option.getD_some]
        rw [here]
        exact goes_on _ _ _ _ _ _ (h.each i t at_i) resumed
      · have there : (histories.set i (histories.getD i [] ++ (note t a).toList)).getD k [] = histories.getD k [] := by
          rw [List.getD_eq_getElem?_getD, List.getElem?_set_ne other, ← List.getD_eq_getElem?_getD]
        rw [there]
        exact h.each k u old

/-- **What a call's own resumptions keep between its place and its history holds in every run.** -/
theorem fits_of_recorded {ok : Pool σ τ × List (List β) → Event τ α → Prop} {s₀ : σ}
    (begins : ∀ t, entry t = true → fits t [])
    (goes_on : ∀ s t a s' t' h, fits t h → resume s t a = some (s', t') → fits t' (h ++ (note t a).toList))
    (run : Reaches (recording (step entry resume) (recordHistories note)) ok (⟨s₀, []⟩, []) (p, histories)) :
    Fits fits p histories := by
  apply run.invariant_recording
  · exact ⟨rfl, fun k t found => by simp at found⟩
  · intro p histories e p' holds _ moved
    exact fits_step begins goes_on holds moved

end Async.Pool
