import Mathlib.Logic.Relation

/-!
# Runs of a system that moves by events

A system is a partial function `step : σ → ε → Option σ`: `none` where the event cannot
happen in the state. `Reaches step ok s₀ s` is a run from `s₀` to `s` all of whose steps
meet the condition `ok`; a condition-free run has `Reaches step Always s₀ s`. Safety
claims are `Reaches.invariant` away from one step lemma. `runWhere` executes a list of
events with the condition checked at every step, so a concrete run is one evaluation.
-/

namespace Async

variable {σ ε : Type*}

/-- No condition on a step. -/
def Always (_ : σ) (_ : ε) : Prop := True

instance (s : σ) (e : ε) : Decidable (Always s e) := inferInstanceAs (Decidable True)

/-- `s` is reached from `s₀` by steps that all meet `ok`. -/
inductive Reaches (step : σ → ε → Option σ) (ok : σ → ε → Prop) (s₀ : σ) : σ → Prop
  | start : Reaches step ok s₀ s₀
  | next {s s' : σ} (e : ε) : Reaches step ok s₀ s → ok s e → step s e = some s' →
      Reaches step ok s₀ s'

section
variable {step : σ → ε → Option σ} {ok ok' : σ → ε → Prop} {s₀ s s' : σ}

/-- A predicate that holds at the start and survives every allowed step holds in every
state reached. -/
theorem Reaches.invariant {Inv : σ → Prop} (reached : Reaches step ok s₀ s) (init : Inv s₀)
    (preserved : ∀ s e s', Inv s → ok s e → step s e = some s' → Inv s') : Inv s := by
  induction reached with
  | start => exact init
  | next e _ allowed moved ih => exact preserved _ e _ ih allowed moved

/-- An invariant of the run may be used to weaken the condition of its steps. -/
theorem Reaches.weaken (reached : Reaches step ok s₀ s) (Inv : σ → Prop) (init : Inv s₀)
    (preserved : ∀ s e s', Inv s → ok s e → step s e = some s' → Inv s')
    (implies : ∀ s e, Inv s → ok s e → ok' s e) : Reaches step ok' s₀ s ∧ Inv s := by
  induction reached with
  | start => exact ⟨.start, init⟩
  | next e _ allowed moved ih =>
    exact ⟨.next e ih.1 (implies _ e ih.2 allowed) moved, preserved _ e _ ih.2 allowed moved⟩

theorem Reaches.mono (reached : Reaches step ok s₀ s) (implies : ∀ s e, ok s e → ok' s e) :
    Reaches step ok' s₀ s :=
  (reached.weaken (fun _ => True) trivial (fun _ _ _ _ _ _ => trivial)
    (fun s e _ => implies s e)).1

theorem Reaches.trans {s₁ : σ} (first : Reaches step ok s₀ s₁) (second : Reaches step ok s₁ s) :
    Reaches step ok s₀ s := by
  induction second with
  | start => exact first
  | next e _ allowed moved ih => exact .next e ih allowed moved

end

/-- Execute `es`, checking `ok` before every step. -/
def runWhere (step : σ → ε → Option σ) (ok : σ → ε → Prop) [∀ s e, Decidable (ok s e)] :
    σ → List ε → Option σ
  | s, [] => some s
  | s, e :: es => if ok s e then (step s e).bind (runWhere step ok · es) else none

/-- What the events of a run do, in order. -/
def history {δ : Type*} (step : σ → ε → Option σ) (effect : σ → ε → List δ) : σ → List ε → List δ
  | _, [] => []
  | s, e :: es => effect s e ++ (step s e).elim [] fun s' => history step effect s' es

/-- A part of the state that changes by these effects only. -/
theorem foldl_history {δ γ : Type*} {step : σ → ε → Option σ} {effect : σ → ε → List δ} {part : σ → γ}
    {apply : γ → δ → γ} (each : ∀ s e s', step s e = some s' → part s' = (effect s e).foldl apply (part s))
    {es : List ε} {s s' : σ} (run : runWhere step Always s es = some s') :
    part s' = (history step effect s es).foldl apply (part s) := by
  induction es generalizing s with
  | nil =>
    cases run
    rfl
  | cons e es ih =>
    rw [runWhere, if_pos (show Always s e from trivial)] at run
    obtain ⟨mid, moved, rest⟩ := Option.bind_eq_some_iff.mp run
    rw [ih rest, each s e mid moved, history, moved, ← List.foldl_append]
    rfl

/-- An executed run is a run. -/
theorem reaches_of_runWhere {step : σ → ε → Option σ} {ok : σ → ε → Prop}
    [∀ s e, Decidable (ok s e)] {es : List ε} :
    ∀ {s₀ s : σ}, runWhere step ok s₀ es = some s → Reaches step ok s₀ s := by
  induction es with
  | nil =>
    intro s₀ s run
    cases run
    exact .start
  | cons e es ih =>
    intro s₀ s run
    simp only [runWhere] at run
    split at run
    · rename_i allowed
      obtain ⟨mid, moved, rest⟩ := Option.bind_eq_some_iff.mp run
      exact (Reaches.next e .start allowed moved).trans (ih rest)
    · cases run

/-- A list of events that leads to a state with property `q`, by one evaluation. -/
theorem exists_reaches (step : σ → ε → Option σ) (ok : σ → ε → Prop) [∀ s e, Decidable (ok s e)] (s₀ : σ)
    (es : List ε) (q : σ → Prop) [DecidablePred q]
    (evaluated : (runWhere step ok s₀ es).any (fun s => decide (q s)) = true) : ∃ s, Reaches step ok s₀ s ∧ q s := by
  obtain ⟨s, run, holds⟩ := (Option.any_eq_true ..).mp evaluated
  exact ⟨s, reaches_of_runWhere run, of_decide_eq_true holds⟩

/-! ## A record beside the state -/

/-- The system together with a record of what has happened, which no step reads. -/
def recording {γ : Type*} (step : σ → ε → Option σ) (record : γ → σ → ε → σ → γ) (q : σ × γ) (e : ε) : Option (σ × γ) :=
  (step q.1 e).map fun s' => (s', record q.2 q.1 e s')

section
variable {γ : Type*} {step : σ → ε → Option σ} {record : γ → σ → ε → σ → γ} {ok : σ → ε → Prop} {s₀ s : σ}

theorem recording_eq_some {q q' : σ × γ} {e : ε} :
    recording step record q e = some q' ↔ step q.1 e = some q'.1 ∧ q'.2 = record q.2 q.1 e q'.1 := by
  obtain ⟨s', g'⟩ := q'
  rw [recording, Option.map_eq_some_iff]
  constructor
  · rintro ⟨_, moved, same⟩
    cases same
    exact ⟨moved, rfl⟩
  · rintro ⟨moved, same⟩
    exact ⟨s', moved, by rw [← same]⟩

/-- The invariant rule for a state and its record. -/
theorem Reaches.invariant_recording {ok : σ × γ → ε → Prop} {Inv : σ → γ → Prop} {g₀ g : γ}
    (reached : Reaches (recording step record) ok (s₀, g₀) (s, g)) (init : Inv s₀ g₀)
    (preserved : ∀ s g e s', Inv s g → ok (s, g) e → step s e = some s' → Inv s' (record g s e s')) : Inv s g := by
  have holds : ∀ q, Reaches (Async.recording step record) ok (s₀, g₀) q → Inv q.1 q.2 := by
    intro q reached
    apply reached.invariant
    · exact init
    · intro q e q' inv allowed moved
      obtain ⟨stepped, recorded⟩ := recording_eq_some.mp moved
      rw [recorded]
      exact preserved q.1 q.2 e q'.1 inv allowed stepped
  exact holds _ reached

/-- The same run with less recorded, or with the record put another way. -/
theorem Reaches.map_recording {δ : Type*} {record' : δ → σ → ε → σ → δ} {ok : σ → ε → Prop} {g₀ : γ} {q : σ × γ}
    (f : γ → δ) (each : ∀ g s e s', f (record g s e s') = record' (f g) s e s')
    (reached : Reaches (recording step record) (fun q e => ok q.1 e) (s₀, g₀) q) :
    Reaches (recording step record') (fun q e => ok q.1 e) (s₀, f g₀) (q.1, f q.2) := by
  induction reached with
  | start => exact .start
  | next e _ allowed moved ih =>
    obtain ⟨stepped, recorded⟩ := recording_eq_some.mp moved
    refine .next e ih allowed (recording_eq_some.mpr ⟨stepped, ?_⟩)
    rw [recorded, each]

end

end Async
