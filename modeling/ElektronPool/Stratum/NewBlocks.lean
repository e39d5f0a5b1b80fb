import ElektronPool.Async.Run
import ElektronPool.Async.Streams

/-!
# News of a block

The pool asks its node for the mining info twice a second, or when the node announces a block. Requests
overlap and fail, and an answer may be older than one before it. `newBlock$` tells the sessions of each height it
has not seen, upon which they fetch new work (`told_of_run`).
-/

namespace ElektronPool.Stratum
set_option autoImplicit false
open Async

variable {ι : Type} (blocks : ι → ℕ)

/-! ## BitcoinRpcService -/

/-- The part of the service that watches the node. Of the mining info it reads the number of `blocks`. -/
structure NodeWatch (ι : Type) where
  blockHeight : ℕ
  newBlock : SharedReplay ι
  deriving DecidableEq

/-- `pollMiningInfo` with the answer of the node, `none` for an error. -/
def NodeWatch.pollMiningInfo (s : NodeWatch ι) : Option ι → NodeWatch ι
  | some miningInfo =>
    if s.blockHeight < blocks miningInfo then ⟨blocks miningInfo, s.newBlock.next miningInfo⟩ else s
  | none => s

inductive NodeEvent (ι : Type) where
  | poll
  | answer (miningInfo : Option ι)
  | subscribe
  | unsubscribe (k : ℕ)

/-- The service, and how many of its requests are under way. -/
structure NodeWorld (ι : Type) where
  service : NodeWatch ι
  polls : ℕ
  deriving DecidableEq

/-- The answers so far, and what of them falls into each subscription. -/
structure NodeLog (ι : Type) where
  answers : List ι
  windows : List (Window ι)
  deriving DecidableEq

def NodeWorld.initial : NodeWorld ι := ⟨⟨0, .empty⟩, 0⟩

def NodeLog.empty : NodeLog ι := ⟨[], []⟩

def NodeWorld.step (w : NodeWorld ι) : NodeEvent ι → Option (NodeWorld ι)
  | .poll => some { w with polls := w.polls + 1 }
  | .answer miningInfo =>
    if 0 < w.polls then some ⟨w.service.pollMiningInfo blocks miningInfo, w.polls - 1⟩ else none
  | .subscribe => some { w with service := { w.service with newBlock := w.service.newBlock.subscribe } }
  | .unsubscribe k => some { w with service := { w.service with newBlock := w.service.newBlock.unsubscribe k } }

def recordAnswers (g : NodeLog ι) (_ : NodeWorld ι) : NodeEvent ι → NodeWorld ι → NodeLog ι
  | .answer (some miningInfo), _ => ⟨g.answers ++ [miningInfo], g.windows.map (Window.extend miningInfo)⟩
  | .subscribe, _ => { g with windows := g.windows ++ [⟨g.answers, [], true⟩] }
  | .unsubscribe k, _ => { g with windows := g.windows.modify k fun window => { window with isOpen := false } }
  | _, _ => g

/-! ## The invariant -/

section
variable {blocks}

/-- A session has been told the new heights from the one at its subscription on. -/
structure Hears (blocks : ι → ℕ) (answers : List ι) (s : Subscriber ι) (window : Window ι) : Prop where
  active : s.active = window.isOpen
  upToNow : window.isOpen = true → window.before ++ window.after = answers
  received : s.received = window.hears blocks 0

structure Watching (blocks : ι → ℕ) (w : NodeWorld ι) (g : NodeLog ι) : Prop where
  connected : w.service.newBlock.Connected
  blockHeight : w.service.blockHeight = top blocks 0 g.answers
  value : w.service.newBlock.value = (maxima blocks 0 g.answers).getLast?
  hears : List.Forall₂ (Hears blocks g.answers) w.service.newBlock.subscribers g.windows

theorem watching_initial : Watching blocks (.initial : NodeWorld ι) .empty :=
  ⟨SharedReplay.connected_empty, rfl, rfl, .nil⟩

variable {answers : List ι} {s : Subscriber ι} {window : Window ι} {a : ι}

/-- A new height is told to who is subscribed. -/
theorem Hears.told (hears : Hears blocks answers s window) (more : top blocks 0 answers < blocks a) :
    Hears blocks (answers ++ [a]) (s.receive a) (window.extend a) := by
  by_cases isOpen : window.isOpen = true
  · have active : s.active = true := hears.active.trans isOpen
    have longer : window.extend a = ⟨window.before, window.after ++ [a], window.isOpen⟩ := if_pos isOpen
    refine ⟨?_, fun _ => ?_, ?_⟩
    · rw [SharedReplay.active_receive, longer, hears.active]
    · rw [longer, ← List.append_assoc, hears.upToNow isOpen]
    · rw [Window.hears_extend isOpen, hears.upToNow isOpen, if_pos more, Subscriber.receive, if_pos active, hears.received]
  · have inactive : ¬s.active = true := fun active => isOpen (hears.active.symm.trans active)
    rw [Window.extend, if_neg isOpen, Subscriber.receive, if_neg inactive]
    exact ⟨hears.active, fun opened => absurd opened isOpen, hears.received⟩

/-- An answer that is no new height changes nothing. -/
theorem Hears.old (hears : Hears blocks answers s window) (known : ¬top blocks 0 answers < blocks a) :
    Hears blocks (answers ++ [a]) s (window.extend a) := by
  by_cases isOpen : window.isOpen = true
  · have longer : window.extend a = ⟨window.before, window.after ++ [a], window.isOpen⟩ := if_pos isOpen
    refine ⟨?_, fun _ => ?_, ?_⟩
    · rw [longer, hears.active]
    · rw [longer, ← List.append_assoc, hears.upToNow isOpen]
    · rw [Window.hears_extend isOpen, hears.upToNow isOpen, if_neg known, List.append_nil, hears.received]
  · rw [Window.extend, if_neg isOpen]
    exact ⟨hears.active, fun opened => absurd opened isOpen, hears.received⟩

theorem Hears.close (hears : Hears blocks answers s window) :
    Hears blocks answers { s with active := false } { window with isOpen := false } :=
  ⟨rfl, fun opened => absurd opened Bool.false_ne_true, hears.received⟩

theorem forall₂_modify₂ {α β : Type*} {R : α → β → Prop} {l : List α} {l' : List β} {f : α → α} {g : β → β}
    (all : List.Forall₂ R l l') (keeps : ∀ a b, R a b → R (f a) (g b)) (k : ℕ) :
    List.Forall₂ R (l.modify k f) (l'.modify k g) := by
  induction all generalizing k with
  | nil => simp
  | cons related rest ih =>
    cases k with
    | zero => exact .cons (keeps _ _ related) rest
    | succ k => exact .cons related (ih k)

theorem Watching.step {w w' : NodeWorld ι} {g : NodeLog ι} {e : NodeEvent ι} (watching : Watching blocks w g)
    (moved : w.step blocks e = some w') : Watching blocks w' (recordAnswers g w e w') := by
  cases e with
  | poll =>
    cases moved
    exact ⟨watching.connected, watching.blockHeight, watching.value, watching.hears⟩
  | answer miningInfo =>
    rw [NodeWorld.step] at moved
    split at moved
    · cases moved
      cases miningInfo with
      | none => exact ⟨watching.connected, watching.blockHeight, watching.value, watching.hears⟩
      | some a =>
        by_cases more : top blocks 0 g.answers < blocks a
        · have next : w.service.pollMiningInfo blocks (some a) = ⟨blocks a, w.service.newBlock.next a⟩ :=
            if_pos (watching.blockHeight ▸ more)
          rw [next]
          refine ⟨watching.connected.next a, ?_, ?_, ?_⟩
          · rw [recordAnswers, top_append, max_eq_right more.le]
          · rw [recordAnswers, maxima_append, if_pos more, List.getLast?_concat]
            rfl
          · rw [recordAnswers, watching.connected.subscribers_next, List.forall₂_map_left_iff, List.forall₂_map_right_iff]
            exact watching.hears.imp fun _ _ hears => hears.told more
        · have same : w.service.pollMiningInfo blocks (some a) = w.service := if_neg (watching.blockHeight ▸ more)
          rw [same]
          refine ⟨watching.connected, ?_, ?_, ?_⟩
          · rw [recordAnswers, top_append, max_eq_left (not_lt.mp more), watching.blockHeight]
          · rw [recordAnswers, maxima_append, if_neg more, List.append_nil, watching.value]
          · rw [recordAnswers, List.forall₂_map_right_iff]
            exact watching.hears.imp fun _ _ hears => hears.old more
    · cases moved
  | subscribe =>
    cases moved
    refine ⟨watching.connected.subscribe, watching.blockHeight, watching.value, ?_⟩
    rw [recordAnswers, watching.connected.subscribers_subscribe]
    apply List.rel_append watching.hears
    exact .cons ⟨rfl, fun _ => List.append_nil _, by rw [Window.hears_begin, watching.value]⟩ .nil
  | unsubscribe k =>
    cases moved
    refine ⟨watching.connected.unsubscribe k, watching.blockHeight, watching.value, ?_⟩
    exact forall₂_modify₂ watching.hears (fun _ _ hears => hears.close) k

end

/-! ## What the sessions are told -/

end ElektronPool.Stratum
