import ElektronPool.Async.Run
import Mathlib.Algebra.BigOperators.Group.List.Basic
import Mathlib.Tactic.Abel

/-!
# Asynchronous calls over a shared state

A call in progress stands at an await. `resume s t a` runs it from there, with answer
`a`, to its next await: the new shared state and where the call stands then, or `none`
where no such answer can arrive. A pool is a shared state with any number of calls in
progress; an event starts a call or resumes one of them, so a run of the pool is an
interleaving of the calls at their awaits.

One call as it runs amid the others is `amid`: the state may be any when an answer arrives,
and what counts is what the call itself appends to a log (`appended`).

`Pool.step_cases` says once what an event does. From it come the two rules used to prove
facts about every interleaving: `Pool.total_step` for what is said of the shared state and of
the sum of what the calls hold, and `Outline` for assertions on the single calls and
on the pairs of them (Owicki and Gries).
-/

namespace Async

/-! ## Lists of calls -/

section
variable {τ : Type*} {l : List τ} {i j : ℕ} {t u : τ}

/-- One call has gone on: it is at its own index, and the others are where they were. -/
theorem getElem?_set_some (found : (l.set i t)[j]? = some u) : (i = j ∧ u = t) ∨ (i ≠ j ∧ l[j]? = some u) := by
  rw [List.getElem?_set] at found
  split at found
  · split at found
    · exact .inl ⟨‹_›, (Option.some.inj found).symm⟩
    · cases found
  · exact .inr ⟨‹_›, found⟩

/-- One call has been made: it is the last. -/
theorem getElem?_concat_some (found : (l ++ [t])[j]? = some u) : l[j]? = some u ∨ (j = l.length ∧ u = t) := by
  rw [List.getElem?_append] at found
  split at found
  · exact .inl found
  · rw [List.getElem?_singleton] at found
    split at found
    · exact .inr ⟨by omega, (Option.some.inj found).symm⟩
    · cases found

/-- A call with those before it and those behind it. -/
theorem take_append_cons_drop (found : l[i]? = some t) : l = l.take i ++ t :: l.drop (i + 1) := by
  obtain ⟨bound, rfl⟩ := List.getElem?_eq_some_iff.mp found
  rw [List.getElem_cons_drop, List.take_append_drop]

end

structure Pool (σ τ : Type*) where
  shared : σ
  calls : List τ

inductive Event (τ α : Type*) where
  | start (call : τ)
  | resume (index : ℕ) (answer : α)
  deriving DecidableEq

/-- One call on its own, resumed with the answers in turn. -/
def drive {σ τ α : Type*} (resume : σ → τ → α → Option (σ × τ)) (s : σ) (t : τ) : List α → Option (σ × τ)
  | [] => some (s, t)
  | a :: answers => (resume s t a).bind fun r => drive resume r.1 r.2 answers

section
variable {σ τ α β : Type*} {resume : σ → τ → α → Option (σ × τ)} {log : σ → List β} {s s' : σ} {t t' : τ}
  {a : α} {rest answers : List (σ × α)} {changes : List (σ × σ)}

theorem drive_append {first second : List α} : drive resume s t (first ++ second) =
    (drive resume s t first).bind fun r => drive resume r.1 r.2 second := by
  induction first generalizing s t with
  | nil => rfl
  | cons a first ih => simp only [List.cons_append, drive, ih, Option.bind_assoc]

/-- One call resumed with the answers in turn, each time in the state the other calls have left
behind: its changes to the state, and where it stands in the end. -/
def amid (resume : σ → τ → α → Option (σ × τ)) (t : τ) : List (σ × α) → Option (List (σ × σ) × τ)
  | [] => some ([], t)
  | (s, a) :: rest => (resume s t a).bind fun r => (amid resume r.2 rest).map fun q => ((s, r.1) :: q.1, q.2)

/-- The resumptions of a call that no other one comes between. -/
def alone (resume : σ → τ → α → Option (σ × τ)) (s : σ) (t : τ) : List α → List (σ × α)
  | [] => []
  | a :: answers => (s, a) :: (resume s t a).elim [] fun r => alone resume r.1 r.2 answers

/-- What the changes append to a log. -/
def appended (log : σ → List β) (changes : List (σ × σ)) : List β :=
  changes.flatMap fun change => (log change.2).drop (log change.1).length

theorem amid_cons : amid resume t ((s, a) :: rest) = some (changes, t') ↔ ∃ s₁ t₁ later,
    resume s t a = some (s₁, t₁) ∧ amid resume t₁ rest = some (later, t') ∧ changes = (s, s₁) :: later := by
  constructor
  · intro run
    obtain ⟨⟨s₁, t₁⟩, resumed, mapped⟩ := Option.bind_eq_some_iff.mp run
    obtain ⟨⟨later, last⟩, remaining, same⟩ := Option.map_eq_some_iff.mp mapped
    cases same
    exact ⟨s₁, t₁, later, resumed, remaining, rfl⟩
  · rintro ⟨s₁, t₁, later, resumed, run, rfl⟩
    rw [amid, resumed, Option.bind_some, run, Option.map_some]

/-- A call that nothing resumes stays where it is. -/
theorem amid_of_stuck (stuck : ∀ s a, resume s t a = none) (run : amid resume t answers = some (changes, t')) :
    answers = [] ∧ changes = [] ∧ t' = t := by
  cases answers with
  | nil =>
    cases run
    exact ⟨rfl, rfl, rfl⟩
  | cons w rest =>
    obtain ⟨s₁, t₁, later, resumed, -⟩ := amid_cons.mp run
    rw [stuck] at resumed
    cases resumed

/-- What every resumption keeps of the place of a call. -/
theorem amid_invariant {Inv : τ → Prop} (kept : ∀ s t a s' t', Inv t → resume s t a = some (s', t') → Inv t')
    (init : Inv t) (run : amid resume t answers = some (changes, t')) : Inv t' := by
  induction answers generalizing t changes with
  | nil =>
    cases run
    exact init
  | cons w rest ih =>
    obtain ⟨s₁, t₁, later, resumed, remaining, rfl⟩ := amid_cons.mp run
    exact ih (kept _ _ _ _ _ init resumed) remaining

theorem appended_cons_of_append {added : List β} (grows : log s' = log s ++ added) :
    appended log ((s, s') :: changes) = added ++ appended log changes := by
  rw [appended, List.flatMap_cons, grows, List.drop_left]
  rfl

theorem appended_cons_of_eq (same : log s' = log s) : appended log ((s, s') :: changes) = appended log changes := by
  have grows : log s' = log s ++ [] := by rw [same, List.append_nil]
  rw [appended_cons_of_append grows, List.nil_append]

/-- A call at a place from which nothing is logged. -/
theorem appended_eq_nil {silent : τ → Prop}
    (quiet : ∀ s t a s' t', silent t → resume s t a = some (s', t') → log s' = log s ∧ silent t')
    (is_silent : silent t) (run : amid resume t answers = some (changes, t')) : appended log changes = [] := by
  induction answers generalizing t changes with
  | nil =>
    cases run
    rfl
  | cons w rest ih =>
    obtain ⟨s₁, t₁, later, resumed, remaining, rfl⟩ := amid_cons.mp run
    obtain ⟨same, still⟩ := quiet _ _ _ _ _ is_silent resumed
    rw [appended_cons_of_eq same]
    exact ih still remaining

end

namespace Pool
variable {σ τ α : Type*}

/-- One event. Only a call that stands at its beginning can be started. -/
def step (entry : τ → Bool) (resume : σ → τ → α → Option (σ × τ)) (p : Pool σ τ) :
    Event τ α → Option (Pool σ τ)
  | .start t => if entry t then some ⟨p.shared, p.calls ++ [t]⟩ else none
  | .resume k a =>
    p.calls[k]?.bind fun t => (resume p.shared t a).map fun r => ⟨r.1, p.calls.set k r.2⟩

variable {entry : τ → Bool} {resume : σ → τ → α → Option (σ × τ)} {p p' : Pool σ τ} {e : Event τ α}

/-- The start of a call. -/
theorem start_cases {t : τ} (moved : step entry resume p (.start t) = some p') :
    entry t = true ∧ p' = ⟨p.shared, p.calls ++ [t]⟩ := by
  simp only [step] at moved
  split at moved
  · exact ⟨‹_›, (Option.some.inj moved).symm⟩
  · cases moved

/-- The resumption of one call, by its index. -/
theorem resume_cases {k : ℕ} {a : α} (moved : step entry resume p (.resume k a) = some p') :
    ∃ t s' t', p.calls[k]? = some t ∧ resume p.shared t a = some (s', t') ∧ p' = ⟨s', p.calls.set k t'⟩ := by
  obtain ⟨t, at_k, rest⟩ := Option.bind_eq_some_iff.mp moved
  obtain ⟨⟨s', t'⟩, resumed, rfl⟩ := Option.map_eq_some_iff.mp rest
  exact ⟨t, s', t', at_k, resumed, rfl⟩

/-- What one event does to a pool. -/
theorem step_cases (moved : step entry resume p e = some p') :
    (∃ t, e = .start t ∧ entry t = true ∧ p' = ⟨p.shared, p.calls ++ [t]⟩) ∨
    ∃ before t after a s' t', e = .resume before.length a ∧ p.calls = before ++ t :: after ∧
      resume p.shared t a = some (s', t') ∧ p' = ⟨s', before ++ t' :: after⟩ := by
  cases e with
  | start t =>
    obtain ⟨begins, rfl⟩ := start_cases moved
    exact .inl ⟨t, rfl, begins, rfl⟩
  | resume k a =>
    obtain ⟨t, s', t', at_k, resumed, rfl⟩ := resume_cases moved
    obtain ⟨bound, -⟩ := List.getElem?_eq_some_iff.mp at_k
    refine .inr ⟨p.calls.take k, t, p.calls.drop (k + 1), a, s', t', ?_, take_append_cons_drop at_k, resumed, ?_⟩
    · rw [List.length_take, Nat.min_eq_left (Nat.le_of_lt bound)]
    · rw [List.set_eq_take_append_cons_drop, if_pos bound]

/-- A condition on events: on a call that is made beside those in progress, and on an answer
that arrives for one call beside the others. -/
def Allowed (begins : List τ → τ → Prop) (continues : σ → List τ → τ → α → Prop) (p : Pool σ τ) :
    Event τ α → Prop
  | .start t => begins p.calls t
  | .resume k a => ∀ t ∈ p.calls[k]?, continues p.shared (p.calls.eraseIdx k) t a

instance {begins : List τ → τ → Prop} {continues : σ → List τ → τ → α → Prop}
    [∀ calls t, Decidable (begins calls t)] [∀ s others t a, Decidable (continues s others t a)] :
    ∀ (p : Pool σ τ) (e : Event τ α), Decidable (Allowed begins continues p e)
  | p, .start t => inferInstanceAs (Decidable (begins p.calls t))
  | p, .resume k a => inferInstanceAs (Decidable (∀ t ∈ p.calls[k]?, continues p.shared (p.calls.eraseIdx k) t a))

theorem Allowed.mono {begins begins' : List τ → τ → Prop} {continues continues' : σ → List τ → τ → α → Prop}
    (allowed : Allowed begins continues p e) (starts : ∀ calls t, begins calls t → begins' calls t)
    (goes_on : ∀ s others t a, continues s others t a → continues' s others t a) : Allowed begins' continues' p e := by
  cases e with
  | start t => exact starts _ _ allowed
  | resume k a => exact fun t at_k => goes_on _ _ _ _ (allowed t at_k)

theorem Allowed.continues {begins : List τ → τ → Prop} {continues : σ → List τ → τ → α → Prop}
    {before after : List τ} {t : τ} {a : α} (allowed : Allowed begins continues p (.resume before.length a))
    (calls : p.calls = before ++ t :: after) : continues p.shared (before ++ after) t a := by
  have here := allowed t (by simp [calls])
  rwa [calls, List.eraseIdx_append_of_length_le (by simp), Nat.sub_self, List.eraseIdx_cons_zero] at here

/-- What is said of the shared state and of the sum of what the calls hold survives an event that
keeps it for the shares of one call and of the rest. -/
theorem total_step {M : Type*} [AddCommMonoid M] {held : τ → M} (within : σ → M → Prop)
    (begins : ∀ t, entry t = true → held t = 0)
    (moves : ∀ t ∈ p.calls, ∀ k a s' t' rest, e = .resume k a → resume p.shared t a = some (s', t') →
      within p.shared (held t + rest) → within s' (held t' + rest))
    (holds : within p.shared (p.calls.map held).sum) (moved : step entry resume p e = some p') :
    within p'.shared (p'.calls.map held).sum := by
  obtain ⟨t, -, start, rfl⟩ | ⟨before, t, after, a, s', t', rfl, calls, resumed, rfl⟩ := step_cases moved
  · simpa [begins t start] using holds
  · have aside : ∀ u, ((before ++ u :: after).map held).sum = held u + ((before.map held).sum + (after.map held).sum) := by
      intro u
      simp only [List.map_append, List.map_cons, List.sum_append, List.sum_cons]
      abel
    rw [calls, aside] at holds
    rw [aside]
    exact moves t (by simp [calls]) _ a s' t' _ rfl resumed holds

/-- A quantity that no call creates or destroys is the same after every event. -/
theorem sum_step {M : Type*} [AddCommMonoid M] {shared : σ → M} {held : τ → M}
    (begins : ∀ t, entry t = true → held t = 0)
    (moves : ∀ t ∈ p.calls, ∀ k a s' t', e = .resume k a → resume p.shared t a = some (s', t') →
      shared s' + held t' = shared p.shared + held t)
    (moved : step entry resume p e = some p') :
    shared p'.shared + (p'.calls.map held).sum = shared p.shared + (p.calls.map held).sum := by
  refine total_step (fun s total => shared s + total = shared p.shared + (p.calls.map held).sum) begins ?_
    rfl moved
  intro t member k a s' t' rest is_resume resumed same
  rw [← add_assoc] at same ⊢
  rw [moves t member k a s' t' is_resume resumed]
  exact same

end Pool

/-- A proof outline of every call at once: an assertion on the shared state, one on each
call and one on each two calls. -/
structure Outline (σ τ : Type*) where
  shared : σ → Prop
  call : σ → τ → Prop
  pair : σ → τ → τ → Prop
  symm : ∀ s t u, pair s t u → pair s u t

namespace Outline
variable {σ τ α : Type*}

/-- The outline holds of a pool. -/
structure Holds (o : Outline σ τ) (p : Pool σ τ) : Prop where
  shared : o.shared p.shared
  calls : ∀ t ∈ p.calls, o.call p.shared t
  pairs : p.calls.Pairwise (o.pair p.shared)

/-- What the outline says of the calls beside one of them. -/
theorem Holds.beside {o : Outline σ τ} {p : Pool σ τ} (h : o.Holds p) {k : ℕ} {t : τ} (at_k : t ∈ p.calls[k]?) :
    ∀ u ∈ p.calls.eraseIdx k, o.pair p.shared t u := by
  have pairs := h.pairs
  rw [take_append_cons_drop at_k] at pairs
  obtain ⟨-, tail, cross⟩ := List.pairwise_append.mp pairs
  intro u member
  rw [List.eraseIdx_eq_take_drop_succ] at member
  rcases List.mem_append.mp member with left | right
  · exact o.symm _ _ _ (cross u left _ List.mem_cons_self)
  · exact (List.pairwise_cons.mp tail).1 u right

/-- What has to be shown of the resumption of call `t` beside the others: it keeps its own
assertions and those of every other call. -/
structure Stable (o : Outline σ τ) (s s' : σ) (t t' : τ) (others : List τ) : Prop where
  shared : o.shared s'
  own : o.call s' t'
  other : ∀ u ∈ others, o.call s' u
  ownPair : ∀ u ∈ others, o.pair s' t' u
  otherPair : ∀ u v, u ∈ others → v ∈ others → o.pair s u v → o.pair s' u v

variable {o : Outline σ τ} {entry : τ → Bool} {resume : σ → τ → α → Option (σ × τ)}
  {p p' : Pool σ τ} {e : Event τ α}

/-- **The interleaving rule**: if a new call meets its assertions, and every resumption is
stable beside the other calls, the outline survives every event. -/
theorem Holds.step (h : o.Holds p)
    (begins : ∀ t, e = .start t → entry t = true →
      o.call p.shared t ∧ ∀ u ∈ p.calls, o.pair p.shared t u)
    (stable : ∀ before t after a s' t', e = .resume before.length a → p.calls = before ++ t :: after →
      resume p.shared t a = some (s', t') → o.call p.shared t →
      (∀ u ∈ before ++ after, o.call p.shared u ∧ o.pair p.shared t u) →
      o.Stable p.shared s' t t' (before ++ after))
    (moved : Pool.step entry resume p e = some p') : o.Holds p' := by
  obtain ⟨t, rfl, start, rfl⟩ | ⟨before, t, after, a, s', t', rfl, calls, resumed, rfl⟩ :=
    Pool.step_cases moved
  · obtain ⟨own, others⟩ := begins t rfl start
    refine ⟨h.shared, ?_, ?_⟩
    · intro u member
      rcases List.mem_append.mp member with old | new
      · exact h.calls u old
      · rw [List.mem_singleton.mp new]
        exact own
    · refine List.pairwise_append.mpr ⟨h.pairs, List.pairwise_singleton _ _, ?_⟩
      intro u member v single
      rw [List.mem_singleton.mp single]
      exact o.symm _ _ _ (others u member)
  · have pairs := h.pairs
    have held := h.calls
    rw [calls] at pairs held
    obtain ⟨first, second, cross⟩ := List.pairwise_append.mp pairs
    obtain ⟨ahead, second⟩ := List.pairwise_cons.mp second
    have beside : ∀ u ∈ before ++ after, o.call p.shared u ∧ o.pair p.shared t u := by
      intro u member
      rcases List.mem_append.mp member with left | right
      · exact ⟨held u (by simp [left]), o.symm _ _ _ (cross u left t List.mem_cons_self)⟩
      · exact ⟨held u (by simp [right]), ahead u right⟩
    have s := stable before t after a s' t' rfl calls resumed (held t (by simp)) beside
    refine ⟨s.shared, ?_, List.pairwise_append.mpr ⟨?_, List.pairwise_cons.mpr ⟨?_, ?_⟩, ?_⟩⟩
    · intro u member
      rcases List.mem_append.mp member with left | right
      · exact s.other u (List.mem_append_left _ left)
      · rcases List.mem_cons.mp right with rfl | right
        · exact s.own
        · exact s.other u (List.mem_append_right _ right)
    · exact first.imp_of_mem fun a b =>
        s.otherPair _ _ (List.mem_append_left _ a) (List.mem_append_left _ b)
    · exact fun u right => s.ownPair u (List.mem_append_right _ right)
    · exact second.imp_of_mem fun a b =>
        s.otherPair _ _ (List.mem_append_right _ a) (List.mem_append_right _ b)
    · intro u left v right
      rcases List.mem_cons.mp right with rfl | right
      · exact o.symm _ _ _ (s.ownPair u (List.mem_append_left _ left))
      · exact s.otherPair u v (List.mem_append_left _ left) (List.mem_append_right _ right)
          (cross u left v (List.mem_cons_of_mem _ right))

end Outline

end Async
