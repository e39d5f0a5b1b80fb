import ElektronPool.Async.Pool
import Mathlib.Logic.Function.Basic

/-!
# Calls that wait for calls

Two pools, an outer and an inner one. An outer call may make an inner one on its way to an
await, and waits there until the inner call has ended; what it is answered depends on how
that ended. The inner call ends and the outer one goes on in one event, as promises do.
Inner calls that are not made from outside start on their own.

`Moves` says once what an event does. Each pool runs as it does alone (`reaches_outer`,
`reaches_inner`), and a call that waits does so for a call that was made for it
(`Linked`).
-/

namespace Async

/-- The two pools, and the inner call that each outer one has made last. -/
structure Nested (σ τ σ' τ' : Type*) where
  outer : Pool σ τ
  inner : Pool σ' τ'
  waitsFor : ℕ → Option ℕ

inductive NestedEvent (τ α τ' α' : Type*) where
  | outer (event : Event τ α)
  | inner (event : Event τ' α')
  | reply (index : ℕ) (innerAnswer : α') (answer : α)
  deriving DecidableEq

/-- How outer calls use inner ones. `calls a t` is what an outer call makes on its way to `t`, with answer `a`;
`ends u u'` says that a call goes from `u` to its end, and `answers a' u' a` that its last answer `a'`, with which it
has come to `u'`, means `a` to the call that waits. -/
structure Interface (τ α τ' α' : Type*) where
  calls : α → τ → Option τ'
  waits : τ → Bool
  own : τ' → Bool
  ends : τ' → τ' → Bool
  answers : α' → τ' → α → Bool

namespace Nested
variable {σ τ α σ' τ' α' : Type*}

/-- An outer call that has come to `t` makes its inner call, if it makes one. -/
def call (I : Interface τ α τ' α') (w : Nested σ τ σ' τ') (i : ℕ) (a : α) (t : τ) : Nested σ τ σ' τ' :=
  match I.calls a t with
  | none => w
  | some u => ⟨w.outer, ⟨w.inner.shared, w.inner.calls ++ [u]⟩, Function.update w.waitsFor i (some w.inner.calls.length)⟩

section
variable (I : Interface τ α τ' α') (entry : τ → Bool) (resume : σ → τ → α → Option (σ × τ)) (entry' : τ' → Bool)
  (resume' : σ' → τ' → α' → Option (σ' × τ'))

/-- One event. An outer call that waits goes on by a reply only, and a reply ends the inner call. -/
def step (w : Nested σ τ σ' τ') : NestedEvent τ α τ' α' → Option (Nested σ τ σ' τ')
  | .outer (.start t) => if entry t then some { w with outer := ⟨w.outer.shared, w.outer.calls ++ [t]⟩ } else none
  | .outer (.resume i a) => w.outer.calls[i]?.bind fun t =>
    if I.waits t then none
    else (resume w.outer.shared t a).map fun r => call I { w with outer := ⟨r.1, w.outer.calls.set i r.2⟩ } i a r.2
  | .inner (.start u) =>
    if I.own u ∧ entry' u then some { w with inner := ⟨w.inner.shared, w.inner.calls ++ [u]⟩ } else none
  | .inner (.resume j a') => w.inner.calls[j]?.bind fun u => (resume' w.inner.shared u a').bind fun r' =>
    if I.ends u r'.2 then none else some { w with inner := ⟨r'.1, w.inner.calls.set j r'.2⟩ }
  | .reply i a' a => w.outer.calls[i]?.bind fun t => (w.waitsFor i).bind fun j => w.inner.calls[j]?.bind fun u =>
    (resume' w.inner.shared u a').bind fun r' => (resume w.outer.shared t a).bind fun r =>
      if I.waits t ∧ I.ends u r'.2 ∧ I.answers a' r'.2 a then
        some (call I ⟨⟨r.1, w.outer.calls.set i r.2⟩, ⟨r'.1, w.inner.calls.set j r'.2⟩, w.waitsFor⟩ i a r.2)
      else none

/-- What an event does. -/
inductive Moves (w : Nested σ τ σ' τ') : NestedEvent τ α τ' α' → Nested σ τ σ' τ' → Prop
  | outerStart {t : τ} (starts : entry t = true) :
      Moves w (.outer (.start t)) { w with outer := ⟨w.outer.shared, w.outer.calls ++ [t]⟩ }
  | outerResume {i : ℕ} {a : α} {t t' : τ} {s' : σ} (at_i : w.outer.calls[i]? = some t) (free : I.waits t = false)
      (resumed : resume w.outer.shared t a = some (s', t')) :
      Moves w (.outer (.resume i a)) (call I { w with outer := ⟨s', w.outer.calls.set i t'⟩ } i a t')
  | innerStart {u : τ'} (own : I.own u = true) (starts : entry' u = true) :
      Moves w (.inner (.start u)) { w with inner := ⟨w.inner.shared, w.inner.calls ++ [u]⟩ }
  | innerResume {j : ℕ} {a' : α'} {u u' : τ'} {r' : σ'} (at_j : w.inner.calls[j]? = some u)
      (resumed : resume' w.inner.shared u a' = some (r', u')) (goes_on : I.ends u u' = false) :
      Moves w (.inner (.resume j a')) { w with inner := ⟨r', w.inner.calls.set j u'⟩ }
  | reply {i j : ℕ} {a : α} {a' : α'} {t t' : τ} {s' : σ} {u u' : τ'} {r' : σ'} (at_i : w.outer.calls[i]? = some t)
      (waits : I.waits t = true) (link : w.waitsFor i = some j) (at_j : w.inner.calls[j]? = some u)
      (ended : resume' w.inner.shared u a' = some (r', u')) (ends : I.ends u u' = true)
      (answers : I.answers a' u' a = true) (resumed : resume w.outer.shared t a = some (s', t')) :
      Moves w (.reply i a' a)
        (call I ⟨⟨s', w.outer.calls.set i t'⟩, ⟨r', w.inner.calls.set j u'⟩, w.waitsFor⟩ i a t')

variable {I entry resume entry' resume'} {w w' : Nested σ τ σ' τ'} {e : NestedEvent τ α τ' α'}

theorem moves_of_step (moved : step I entry resume entry' resume' w e = some w') :
    Moves I entry resume entry' resume' w e w' := by
  unfold step at moved
  split at moved
  · split at moved
    · exact Option.some.inj moved ▸ .outerStart ‹_›
    · cases moved
  · obtain ⟨t, at_i, moved⟩ := Option.bind_eq_some_iff.mp moved
    split at moved
    · cases moved
    · obtain ⟨⟨s', t'⟩, resumed, rfl⟩ := Option.map_eq_some_iff.mp moved
      exact .outerResume at_i (Bool.not_eq_true _ ▸ ‹_›) resumed
  · split at moved
    · rename_i both
      exact Option.some.inj moved ▸ .innerStart both.1 both.2
    · cases moved
  · obtain ⟨u, at_j, moved⟩ := Option.bind_eq_some_iff.mp moved
    obtain ⟨⟨r', u'⟩, resumed, moved⟩ := Option.bind_eq_some_iff.mp moved
    split at moved
    · cases moved
    · exact Option.some.inj moved ▸ .innerResume at_j resumed (Bool.not_eq_true _ ▸ ‹_›)
  · obtain ⟨t, at_i, moved⟩ := Option.bind_eq_some_iff.mp moved
    obtain ⟨j, link, moved⟩ := Option.bind_eq_some_iff.mp moved
    obtain ⟨u, at_j, moved⟩ := Option.bind_eq_some_iff.mp moved
    obtain ⟨⟨r', u'⟩, ended, moved⟩ := Option.bind_eq_some_iff.mp moved
    obtain ⟨⟨s', t'⟩, resumed, moved⟩ := Option.bind_eq_some_iff.mp moved
    split at moved
    · rename_i all
      exact Option.some.inj moved ▸ .reply at_i all.1 link at_j ended all.2.1 all.2.2 resumed
    · cases moved

/-! ## Each pool for itself -/

variable {i : ℕ} {a : α} {t : τ}

@[simp] theorem outer_call : (call I w i a t).outer = w.outer := by
  unfold call
  split <;> rfl

theorem call_of_none (silent : I.calls a t = none) : call I w i a t = w := by
  unfold call
  rw [silent]

/-- The inner call that an event resumes, with its answer. -/
def resumption (w : Nested σ τ σ' τ') : NestedEvent τ α τ' α' → Option (τ' × α')
  | .inner (.resume j a') => w.inner.calls[j]?.map fun u => (u, a')
  | .reply i a' _ => (w.waitsFor i).bind fun j => w.inner.calls[j]?.map fun u => (u, a')
  | _ => none

/-- A condition on the outer pool, and one on the inner pool. -/
def OnOuter (ok : Pool σ τ → Event τ α → Prop) (w : Nested σ τ σ' τ') : NestedEvent τ α τ' α' → Prop
  | .outer e => ok w.outer e
  | .inner _ => True
  | .reply i _ a => ok w.outer (.resume i a)

def OnInner (ok' : Pool σ' τ' → Event τ' α' → Prop) (w : Nested σ τ σ' τ') : NestedEvent τ α τ' α' → Prop
  | .outer _ => True
  | .inner e => ok' w.inner e
  | .reply i a' _ => ∀ j ∈ w.waitsFor i, ok' w.inner (.resume j a')

instance (ok' : Pool σ' τ' → Event τ' α' → Prop) [∀ p e, Decidable (ok' p e)] (w : Nested σ τ σ' τ') :
    DecidablePred (fun e : NestedEvent τ α τ' α' => OnInner ok' w e)
  | .outer _ => .isTrue trivial
  | .inner e => inferInstanceAs (Decidable (ok' w.inner e))
  | .reply i a' _ => inferInstanceAs (Decidable (∀ j ∈ w.waitsFor i, ok' w.inner (.resume j a')))

theorem step_of_resume {p : Pool σ τ} {s' : σ} {t' : τ} (at_i : p.calls[i]? = some t)
    (resumed : resume p.shared t a = some (s', t')) :
    Pool.step entry resume p (.resume i a) = some ⟨s', p.calls.set i t'⟩ := by
  rw [Pool.step, at_i, Option.bind_some, resumed, Option.map_some]

/-- The outer pool makes a step of its own, or none. -/
theorem reaches_outer {ok : Pool σ τ → Event τ α → Prop} (moves : Moves I entry resume entry' resume' w e w')
    (allowed : OnOuter ok w e) : Reaches (Pool.step entry resume) ok w.outer w'.outer := by
  cases moves with
  | outerStart starts => exact .next _ .start allowed (if_pos starts)
  | outerResume at_i free resumed =>
    rw [outer_call]
    exact .next _ .start allowed (step_of_resume at_i resumed)
  | innerStart | innerResume => exact .start
  | reply at_i waits link at_j ended ends answers resumed =>
    rw [outer_call]
    exact .next _ .start allowed (step_of_resume at_i resumed)

/-- The start of the call that an outer call makes, if it makes one. -/
theorem reaches_call {ok' : Pool σ' τ' → Event τ' α' → Prop} {outer : Pool σ τ} {inner : Pool σ' τ'}
    {waitsFor : ℕ → Option ℕ} (starts : ∀ a t u, I.calls a t = some u → entry' u = true)
    (always : ∀ p a t u, I.calls a t = some u → ok' p (.start u)) :
    Reaches (Pool.step entry' resume') ok' inner (call I ⟨outer, inner, waitsFor⟩ i a t).inner := by
  unfold call
  split
  · exact .start
  · rename_i made
    exact .next _ .start (always _ _ _ _ made) (if_pos (starts _ _ _ made))

/-- The inner pool makes steps of its own. -/
theorem reaches_inner {ok' : Pool σ' τ' → Event τ' α' → Prop} (moves : Moves I entry resume entry' resume' w e w')
    (starts : ∀ a t u, I.calls a t = some u → entry' u = true)
    (always : ∀ p a t u, I.calls a t = some u → ok' p (.start u)) (allowed : OnInner ok' w e) :
    Reaches (Pool.step entry' resume') ok' w.inner w'.inner := by
  cases moves with
  | outerStart => exact .start
  | outerResume => exact reaches_call starts always
  | innerStart own begins => exact .next _ .start allowed (if_pos begins)
  | innerResume at_j resumed => exact .next _ .start allowed (step_of_resume at_j resumed)
  | reply at_i waits link at_j ended =>
    exact (Reaches.next _ .start (allowed _ link) (step_of_resume at_j ended)).trans (reaches_call starts always)

/-! ## Whom a call waits for -/

/-- An outer call that waits does so for an inner one that serves it, and each for another. -/
structure Linked (I : Interface τ α τ' α') (serves : τ → τ' → Prop) (w : Nested σ τ σ' τ') : Prop where
  made : ∀ i j, w.waitsFor i = some j → j < w.inner.calls.length
  apart : ∀ i i' j, w.waitsFor i = some j → w.waitsFor i' = some j → i = i'
  serves : ∀ i t, w.outer.calls[i]? = some t → I.waits t = true →
    ∃ j u, w.waitsFor i = some j ∧ w.inner.calls[j]? = some u ∧ serves t u

/-- What is relied on: a call waits only where it has made an inner one, which serves it until it ends. -/
structure Serving (I : Interface τ α τ' α') (entry : τ → Bool) (resume : σ → τ → α → Option (σ × τ))
    (resume' : σ' → τ' → α' → Option (σ' × τ')) (serves : τ → τ' → Prop) : Prop where
  starts : ∀ t, entry t = true → I.waits t = false
  waiting : ∀ s t a s' t', resume s t a = some (s', t') → I.waits t' = true → ∃ u, I.calls a t' = some u
  made : ∀ a t u, I.calls a t = some u → serves t u
  keeps : ∀ s t u a' s' u', serves t u → resume' s u a' = some (s', u') → I.ends u u' = false → serves t u'

variable {serves : τ → τ' → Prop}

theorem linked_nil (serves : τ → τ' → Prop) (s : σ) (s' : σ') :
    Linked I serves ⟨⟨s, []⟩, ⟨s', []⟩, fun _ => none⟩ where
  made _ _ link := by cases link
  apart _ _ _ link := by cases link
  serves _ _ at_i := by cases at_i

/-- The outer call has gone on, and the inner pool with it. -/
theorem Linked.call {p : Pool σ τ} {inner : Pool σ' τ'} {t' : τ}
    (serving : ∀ a t u, I.calls a t = some u → serves t u) (h : Linked I serves w)
    (length : inner.calls.length = w.inner.calls.length) (calls : p.calls = w.outer.calls.set i t')
    (waits : I.waits t' = true → ∃ u, I.calls a t' = some u)
    (others : ∀ k t j u, k ≠ i → w.outer.calls[k]? = some t → w.waitsFor k = some j → w.inner.calls[j]? = some u →
      serves t u → ∃ u', inner.calls[j]? = some u' ∧ serves t u') :
    Linked I serves (Nested.call I ⟨p, inner, w.waitsFor⟩ i a t') := by
  unfold Nested.call
  split
  · rename_i none_made
    refine ⟨fun k j link => length ▸ h.made k j link, h.apart, fun k t at_k waiting => ?_⟩
    rcases getElem?_set_some (calls ▸ at_k) with ⟨rfl, rfl⟩ | ⟨other, old⟩
    · obtain ⟨u, made⟩ := waits waiting
      rw [made] at none_made
      cases none_made
    · obtain ⟨j, u, link, at_j, served⟩ := h.serves k t old waiting
      obtain ⟨u', at_j', still⟩ := others k t j u (Ne.symm other) old link at_j served
      exact ⟨j, u', link, at_j', still⟩
  · rename_i u made
    have before : ∀ k j, Function.update w.waitsFor i (some inner.calls.length) k = some j →
        k = i ∧ j = inner.calls.length ∨ k ≠ i ∧ w.waitsFor k = some j := by
      intro k j link
      rcases eq_or_ne k i with rfl | other
      · rw [Function.update_self] at link
        exact .inl ⟨rfl, (Option.some.inj link).symm⟩
      · rw [Function.update_of_ne other] at link
        exact .inr ⟨other, link⟩
    have old_lt : ∀ k j, w.waitsFor k = some j → j < inner.calls.length := fun k j link => length ▸ h.made k j link
    refine ⟨fun k j link => ?_, fun k k' j link link' => ?_, fun k t at_k waiting => ?_⟩
    · rw [List.length_append, List.length_singleton]
      obtain ⟨-, rfl⟩ | ⟨-, old⟩ := before k j link
      · exact Nat.lt_succ_self _
      · exact (old_lt k j old).trans (Nat.lt_succ_self _)
    · obtain ⟨here, is_new⟩ | ⟨-, old⟩ := before k j link <;> obtain ⟨here', is_new'⟩ | ⟨-, old'⟩ := before k' j link'
      · exact here.trans here'.symm
      · exact absurd (old_lt k' j old') (is_new ▸ lt_irrefl _)
      · exact absurd (old_lt k j old) (is_new' ▸ lt_irrefl _)
      · exact h.apart k k' j old old'
    · rcases getElem?_set_some (calls ▸ at_k) with ⟨rfl, rfl⟩ | ⟨other, old⟩
      · refine ⟨inner.calls.length, u, Function.update_self .., ?_, serving _ _ _ made⟩
        exact List.getElem?_concat_length
      · obtain ⟨j, u', link, at_j, served⟩ := h.serves k t old waiting
        obtain ⟨u'', at_j', still⟩ := others k t j u' (Ne.symm other) old link at_j served
        refine ⟨j, u'', (Function.update_of_ne (Ne.symm other) ..).trans link, ?_, still⟩
        exact (List.getElem?_append_left (List.getElem?_eq_some_iff.mp at_j').1).trans at_j'

/-- **What waits is served**: every event keeps the links. -/
theorem linked_step (serving : Serving I entry resume resume' serves) (h : Linked I serves w)
    (moves : Moves I entry resume entry' resume' w e w') : Linked I serves w' := by
  cases moves with
  | outerStart starts =>
    refine ⟨h.made, h.apart, fun k t at_k waiting => ?_⟩
    rcases getElem?_concat_some at_k with old | ⟨rfl, rfl⟩
    · exact h.serves k t old waiting
    · rw [serving.starts _ starts] at waiting
      cases waiting
  | outerResume at_i free resumed =>
    exact h.call serving.made rfl rfl (serving.waiting _ _ _ _ _ resumed)
      fun k t j u _ _ _ at_j served => ⟨u, at_j, served⟩
  | innerStart =>
    refine ⟨fun k j link => ?_, h.apart, fun k t at_k waiting => ?_⟩
    · rw [List.length_append, List.length_singleton]
      exact (h.made k j link).trans (Nat.lt_succ_self _)
    · obtain ⟨j, u, link, at_j, served⟩ := h.serves k t at_k waiting
      exact ⟨j, u, link, (List.getElem?_append_left (h.made k j link)).trans at_j, served⟩
  | @innerResume j a' u u' r' at_j resumed goes_on =>
    refine ⟨fun k j link => ?_, h.apart, fun k t at_k waiting => ?_⟩
    · rw [List.length_set]
      exact h.made k j link
    · obtain ⟨j', v, link, at_j', served⟩ := h.serves k t at_k waiting
      rcases eq_or_ne j j' with rfl | other
      · cases at_j.symm.trans at_j'
        exact ⟨j, u', link, List.getElem?_set_self (h.made k j link), serving.keeps _ _ _ _ _ _ served resumed goes_on⟩
      · exact ⟨j', v, link, (List.getElem?_set_ne other).trans at_j', served⟩
  | reply at_i waits link at_j ended ends answers resumed =>
    refine h.call serving.made (List.length_set ..) rfl (serving.waiting _ _ _ _ _ resumed)
      fun k t j' u other _ link' at_j' served => ?_
    have apart : _ ≠ j' := fun same => other (h.apart k _ j' link' (same ▸ link))
    exact ⟨u, (List.getElem?_set_ne apart).trans at_j', served⟩

end

end Nested

end Async
