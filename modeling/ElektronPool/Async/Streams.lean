import Mathlib.Data.List.Basic
import Mathlib.Data.List.Forall2
import Mathlib.Data.List.Induction
import Mathlib.Order.Lattice

/-!
# Shared streams

A stream with a current value that any number of subscribers share: who subscribes is told the current value and
then every later one. `SharedReplay` is the pipe that does this with a replay buffer which exists only while somebody
is subscribed; `Following` is what a subscriber gets. `maxima` are the entries of a list that exceed all before them.
-/

namespace Async

variable {α : Type*}

/-! ## Running maxima -/

section
variable (key : α → ℕ)

/-- The greatest key, and no less than the floor. -/
def top (floor : ℕ) (l : List α) : ℕ := l.foldl (fun best a => max best (key a)) floor

/-- The entries whose key exceeds the floor and all keys before it. -/
def maxima : ℕ → List α → List α
  | _, [] => []
  | floor, a :: l => if floor < key a then a :: maxima (key a) l else maxima floor l

variable {key} {floor : ℕ} {l : List α} {a : α}

theorem le_top (floor : ℕ) (l : List α) : floor ≤ top key floor l := by
  induction l generalizing floor with
  | nil => exact le_refl floor
  | cons a l ih => exact (le_max_left floor (key a)).trans (ih (max floor (key a)))

theorem key_le_top (member : a ∈ l) : key a ≤ top key floor l := by
  induction l generalizing floor with
  | nil => cases member
  | cons b l ih =>
    rcases List.mem_cons.mp member with rfl | later
    · exact (le_max_right floor (key a)).trans (le_top _ l)
    · exact ih later

theorem top_append (floor : ℕ) (l : List α) (a : α) : top key floor (l ++ [a]) = max (top key floor l) (key a) := by
  rw [top, List.foldl_append]
  rfl

/-- One more entry is a maximum if it exceeds all others. -/
theorem maxima_append (floor : ℕ) (l : List α) (a : α) :
    maxima key floor (l ++ [a]) = maxima key floor l ++ if top key floor l < key a then [a] else [] := by
  induction l generalizing floor with
  | nil => rfl
  | cons b l ih =>
    rw [List.cons_append, maxima, maxima]
    by_cases more : floor < key b
    · have above : top key floor (b :: l) = top key (key b) l := by
        rw [top, List.foldl_cons, max_eq_right more.le]
        rfl
      rw [if_pos more, if_pos more, ih, above, List.cons_append]
    · have below : top key floor (b :: l) = top key floor l := by
        rw [top, List.foldl_cons, max_eq_left (not_lt.mp more)]
        rfl
      rw [if_neg more, if_neg more, ih, below]

theorem maxima_extends (floor : ℕ) (l l' : List α) : maxima key floor l <+: maxima key floor (l ++ l') := by
  induction l' using List.reverseRecOn with
  | nil => simp
  | append_singleton l' a ih =>
    rw [← List.append_assoc, maxima_append]
    exact ih.trans (List.prefix_append ..)

theorem lt_of_mem_maxima (member : a ∈ maxima key floor l) : floor < key a := by
  induction l generalizing floor with
  | nil => cases member
  | cons b l ih =>
    rw [maxima] at member
    split at member
    · rename_i more
      rcases List.mem_cons.mp member with rfl | later
      · exact more
      · exact more.trans (ih later)
    · exact ih member

theorem maxima_sorted (floor : ℕ) (l : List α) : (maxima key floor l).Pairwise (key · < key ·) := by
  induction l generalizing floor with
  | nil => exact .nil
  | cons a l ih =>
    rw [maxima]
    split
    · exact .cons (fun b member => lt_of_mem_maxima member) (ih _)
    · exact ih _

/-- The last maximum is the greatest entry, unless none exceeds the floor. -/
theorem top_eq (floor : ℕ) (l : List α) : top key floor l = ((maxima key floor l).getLast?.map key).getD floor := by
  induction l using List.reverseRecOn with
  | nil => rfl
  | append_singleton l a ih =>
    rw [top_append, maxima_append]
    by_cases more : top key floor l < key a
    · rw [if_pos more, max_eq_right more.le, List.getLast?_concat]
      rfl
    · rw [if_neg more, max_eq_left (not_lt.mp more), List.append_nil, ih]

end

/-! ## What is heard from some point on -/

/-- A stretch of a list: what was before it, and what came in it so far. -/
structure Window (α : Type*) where
  before : List α
  after : List α
  isOpen : Bool
  deriving DecidableEq

namespace Window

def extend (a : α) (w : Window α) : Window α := if w.isOpen then { w with after := w.after ++ [a] } else w

/-- The maxima from the one in force at the beginning on. -/
def hears (key : α → ℕ) (floor : ℕ) (w : Window α) : List α :=
  (maxima key floor (w.before ++ w.after)).drop ((maxima key floor w.before).length - 1)

variable {key : α → ℕ} {floor : ℕ}

theorem hears_extend {w : Window α} (isOpen : w.isOpen = true) (a : α) :
    (w.extend a).hears key floor =
      w.hears key floor ++ if top key floor (w.before ++ w.after) < key a then [a] else [] := by
  have known : (maxima key floor w.before).length ≤ (maxima key floor (w.before ++ w.after)).length :=
    (maxima_extends ..).length_le
  have longer : w.extend a = ⟨w.before, w.after ++ [a], w.isOpen⟩ := if_pos isOpen
  rw [longer, hears, hears, ← List.append_assoc, maxima_append, List.drop_append_of_le_length]
  exact (Nat.sub_le ..).trans known

theorem hears_begin (l : List α) : hears key floor ⟨l, [], true⟩ = (maxima key floor l).getLast?.toList := by
  rw [hears, List.append_nil]
  generalize maxima key floor l = m
  cases m using List.reverseRecOn with
  | nil => rfl
  | append_singleton m a => simp

/-- Somebody who listens has heard the greatest. -/
theorem getLast?_hears (w : Window α) :
    (w.hears key floor).getLast? = (maxima key floor (w.before ++ w.after)).getLast? := by
  have known : (maxima key floor w.before).length ≤ (maxima key floor (w.before ++ w.after)).length :=
    (maxima_extends ..).length_le
  rw [hears, List.getLast?_drop]
  split
  · rename_i none
    have empty : maxima key floor (w.before ++ w.after) = [] := List.length_eq_zero_iff.mp (by omega)
    rw [empty]
    rfl
  · rfl

end Window

/-! ## The pipe -/

/-- A subscriber, and the values its callback was called with. -/
structure Subscriber (α : Type*) where
  active : Bool
  received : List α
  deriving DecidableEq

/-- `new BehaviorSubject(undefined).pipe(filter(v => v != null), shareReplay({ refCount: true, bufferSize: 1 }))`.
The subject that replays, with its buffer, is there while somebody is subscribed. -/
structure SharedReplay (α : Type*) where
  value : Option α
  replay : Option (Option α)
  subscribers : List (Subscriber α)
  deriving DecidableEq

def Subscriber.receive (a : α) (s : Subscriber α) : Subscriber α :=
  if s.active then { s with received := s.received ++ [a] } else s

namespace SharedReplay

def empty : SharedReplay α := ⟨none, none, []⟩

def next (a : α) (s : SharedReplay α) : SharedReplay α where
  value := some a
  replay := s.replay.map fun _ => some a
  subscribers := if s.replay.isSome then s.subscribers.map (Subscriber.receive a) else s.subscribers

/-- The first subscriber connects to the source, which has the current value; the others get the buffer. -/
def subscribe (s : SharedReplay α) : SharedReplay α :=
  let buffer := s.replay.getD s.value
  { s with replay := some buffer, subscribers := s.subscribers ++ [⟨true, buffer.toList⟩] }

/-- With the last subscriber the buffer goes. -/
def unsubscribe (k : ℕ) (s : SharedReplay α) : SharedReplay α :=
  let subscribers := s.subscribers.modify k fun s => { s with active := false }
  { s with replay := if subscribers.any (·.active) then s.replay else none, subscribers := subscribers }

/-- The buffer is the current value, and is there as long as it is needed. -/
def Connected (s : SharedReplay α) : Prop :=
  s.replay = if s.subscribers.any (·.active) then some s.value else none

variable {s : SharedReplay α} {a : α}

theorem connected_empty : Connected (empty : SharedReplay α) := rfl

theorem active_receive (a : α) (s : Subscriber α) : (s.receive a).active = s.active := by
  unfold Subscriber.receive
  split <;> rfl

/-- A new value reaches those who are subscribed. -/
theorem Connected.subscribers_next (connected : s.Connected) (a : α) :
    (s.next a).subscribers = s.subscribers.map (Subscriber.receive a) := by
  cases any : s.subscribers.any (·.active) with
  | true =>
    rw [Connected, any] at connected
    simp [next, connected]
  | false =>
    rw [Connected, any] at connected
    rw [List.any_eq_false] at any
    have nobody : s.subscribers.map (Subscriber.receive a) = s.subscribers.map id :=
      List.map_congr_left fun x member => by simp [Subscriber.receive, any x member]
    simp [next, connected, nobody]

theorem Connected.next (connected : s.Connected) (a : α) : (s.next a).Connected := by
  rw [Connected, connected.subscribers_next, List.any_map]
  have same : ((·.active) ∘ Subscriber.receive a : Subscriber α → Bool) = (·.active) := funext (active_receive a)
  rw [same, SharedReplay.next, connected]
  cases s.subscribers.any (·.active) <;> rfl

/-- Who subscribes is told the current value. -/
theorem Connected.subscribers_subscribe (connected : s.Connected) :
    s.subscribe.subscribers = s.subscribers ++ [⟨true, s.value.toList⟩] := by
  rw [subscribe, connected]
  cases s.subscribers.any (·.active) <;> rfl

theorem Connected.subscribe (connected : s.Connected) : s.subscribe.Connected := by
  rw [Connected, connected.subscribers_subscribe, SharedReplay.subscribe, connected]
  cases s.subscribers.any (·.active) <;> simp

theorem Connected.unsubscribe (connected : s.Connected) (k : ℕ) : (s.unsubscribe k).Connected := by
  rw [Connected, SharedReplay.unsubscribe]
  cases any : (s.subscribers.modify k fun s => { s with active := false }).any (·.active) with
  | false => simp
  | true =>
    have before : s.subscribers.any (·.active) = true := by
      rw [List.any_eq_true] at any ⊢
      obtain ⟨x, member, active⟩ := any
      obtain ⟨i, bound, rfl⟩ := List.mem_iff_getElem.mp member
      rw [List.length_modify] at bound
      refine ⟨s.subscribers[i], List.getElem_mem bound, ?_⟩
      rw [List.getElem_modify] at active
      split at active
      · cases active
      · exact active
    rw [Connected, before] at connected
    simpa using connected

end SharedReplay

end Async
