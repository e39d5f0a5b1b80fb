import ElektronPool.Js.TextStream
import ElektronPool.Stratum.Handshake

/-!
# The data of the socket

Every `data` event decodes its chunk, splits off the complete lines and starts a loop of its own
that hands them to `handleMessage`, one after the other. The loops of several events run side by
side. `Received` records, beside the state, the bytes and what each message was answered, so
that the run can be compared with one that handles the same messages one at a time, each with
the answers it had.
-/

namespace ElektronPool.Stratum
set_option autoImplicit false
open Js Async

/-- `handleMessage` on a line up to its first await, and from one await to the next. `isDone` is
where it has returned, `isClosed` what the loops look at before each message. -/
structure LineHandler (σ τ α : Type) where
  enter : σ → String → σ × τ
  resume : σ → τ → α → Option (σ × τ)
  isDone : τ → Bool
  isClosed : σ → Bool

/-- The loop of a `data` event: the message it is at, by its number, and the lines that follow. -/
structure LineLoop (τ : Type) where
  message : ℕ
  handling : τ
  rest : List String

structure SocketData (σ τ : Type) where
  session : σ
  buffer : List Char
  arrived : ℕ
  loops : List (LineLoop τ)

inductive SocketEvent (α : Type) where
  | data (chunk : Buffer)
  | answer (loop : ℕ) (a : α)
  | next (loop : ℕ)

/-- The lines that are not empty. -/
def messages (text : List Char) : List String := ((lines text).filter (· ≠ [])).map String.ofList

section
variable {σ τ α : Type} (h : LineHandler σ τ α)

/-- A loop goes on with the next message, if there is one and the connection is open. -/
def LineHandler.proceed (s : σ) (number : ℕ) : List String → σ × Option (LineLoop τ)
  | [] => (s, none)
  | line :: rest =>
    if h.isClosed s then (s, none) else ((h.enter s line).1, some ⟨number, (h.enter s line).2, rest⟩)

namespace SocketData

def initial (s : σ) : SocketData σ τ := ⟨s, [], 0, []⟩

def step (p : SocketData σ τ) : SocketEvent α → Option (SocketData σ τ)
  | .data chunk =>
    let text := p.buffer ++ utf8 chunk
    let r := h.proceed p.session p.arrived (messages text)
    some ⟨r.1, remainder text, p.arrived + (messages text).length, p.loops ++ r.2.toList⟩
  | .answer k a => p.loops[k]?.bind fun l => (h.resume p.session l.handling a).map fun r =>
    { p with session := r.1, loops := p.loops.set k { l with handling := r.2 } }
  | .next k => p.loops[k]?.bind fun l =>
    if h.isDone l.handling then
      let r := h.proceed p.session (l.message + 1) l.rest
      some { p with session := r.1, loops := p.loops.take k ++ r.2.toList ++ p.loops.drop (k + 1) }
    else none

end SocketData

/-- What has come in: the bytes, and the answers by the number of the message. -/
structure Received (α : Type) where
  bytes : Buffer
  answers : List (ℕ × α)

def received (g : Received α) (p : SocketData σ τ) (e : SocketEvent α) (_ : SocketData σ τ) : Received α :=
  match e with
  | .data chunk => { g with bytes := g.bytes ++ chunk }
  | .answer k a => p.loops[k]?.elim g fun l => { g with answers := g.answers ++ [(l.message, a)] }
  | .next _ => g

def Received.answersTo (g : Received α) (number : ℕ) : List α := (g.answers.filter (·.1 = number)).map (·.2)

namespace LineHandler

/-- One message from its line to its end. -/
def handle (s : σ) (line : String) (answers : List α) : Option σ :=
  (drive h.resume (h.enter s line).1 (h.enter s line).2 answers).bind fun r => if h.isDone r.2 then some r.1 else none

/-- The messages one at a time in order, each with its answers. -/
def inOrder (answers : ℕ → List α) : σ → ℕ → List String → Option σ
  | s, _, [] => some s
  | s, number, line :: rest =>
    if h.isClosed s then inOrder answers s (number + 1) rest
    else (h.handle s line (answers number)).bind fun s' => inOrder answers s' (number + 1) rest

end LineHandler

/-- The session is as if the messages had been handled one at a time. -/
structure SameInOrder (s₀ : σ) (p : SocketData σ τ) (g : Received α) : Prop where
  session : h.inOrder g.answersTo s₀ 0 (messages (utf8 g.bytes)) = some p.session
  buffer : p.buffer = remainder (utf8 g.bytes)

end

/-- The condition on the events: a chunk does not go on with a character of the one before, and
where it completes a message no loop of another chunk is running. -/
def Orderly {σ τ α : Type} (q : SocketData σ τ × Received α) : SocketEvent α → Prop
  | .data chunk => splitsCharacter q.2.bytes chunk = false ∧ (messages (q.1.buffer ++ utf8 chunk) ≠ [] → q.1.loops = [])
  | _ => True

instance {σ τ α : Type} (q : SocketData σ τ × Received α) : DecidablePred (Orderly q)
  | .data chunk => inferInstanceAs (Decidable (splitsCharacter q.2.bytes chunk = false ∧
      (messages (q.1.buffer ++ utf8 chunk) ≠ [] → q.1.loops = [])))
  | .answer .. | .next _ => .isTrue trivial

/-! ## One message after the other -/

section
variable {σ τ α : Type} {h : LineHandler σ τ α} {answers answers' : ℕ → List α} {s s₀ s₁ : σ} {t : τ}
  {before rest : List String} {number : ℕ} {line : String}

theorem inOrder_append : h.inOrder answers s number (before ++ rest) =
    (h.inOrder answers s number before).bind fun s' => h.inOrder answers s' (number + before.length) rest := by
  induction before generalizing s number with
  | nil => simp [LineHandler.inOrder]
  | cons line before ih =>
    have numbers : number + 1 + before.length = number + (line :: before).length := by
      rw [List.length_cons]
      omega
    rw [List.cons_append, LineHandler.inOrder, LineHandler.inOrder, ← numbers]
    split
    · exact ih
    · simp only [ih, Option.bind_assoc]

/-- A closed connection drops what follows. -/
theorem inOrder_of_closed (closed : h.isClosed s = true) (number : ℕ) (lines : List String) :
    h.inOrder answers s number lines = some s := by
  induction lines generalizing number with
  | nil => rfl
  | cons line rest ih => rw [LineHandler.inOrder, if_pos closed, ih]

/-- Only the answers to the messages themselves count. -/
theorem inOrder_congr {lines : List String} (same : ∀ n, number ≤ n → n < number + lines.length → answers n = answers' n) :
    h.inOrder answers s number lines = h.inOrder answers' s number lines := by
  induction lines generalizing s number with
  | nil => rfl
  | cons line rest ih =>
    rw [List.length_cons] at same
    have rest_same : ∀ s, h.inOrder answers s (number + 1) rest = h.inOrder answers' s (number + 1) rest :=
      fun s => ih fun n above below => same n (by omega) (by omega)
    rw [LineHandler.inOrder, LineHandler.inOrder, same number (le_refl _) (by omega)]
    simp only [rest_same]

/-- How far the messages have been handled: all of them, or all before the one that the only loop
is at. -/
inductive Progress (h : LineHandler σ τ α) (s₀ : σ) (answers : ℕ → List α) (all : List String) (s : σ) :
    List (LineLoop τ) → Prop where
  | idle (handled : h.inOrder answers s₀ 0 all = some s) : Progress h s₀ answers all s []
  | busy {before rest : List String} {line : String} {s₁ : σ} {t : τ} (split : all = before ++ line :: rest)
      (handled : h.inOrder answers s₀ 0 before = some s₁) (isOpen : h.isClosed s₁ = false)
      (running : drive h.resume (h.enter s₁ line).1 (h.enter s₁ line).2 (answers before.length) = some (s, t)) :
      Progress h s₀ answers all s [⟨before.length, t, rest⟩]

/-- There is one loop at most. -/
theorem Progress.only {all : List String} {loops : List (LineLoop τ)} {k : ℕ} {l : LineLoop τ}
    (progress : Progress h s₀ answers all s loops) (at_k : loops[k]? = some l) : k = 0 ∧ loops = [l] := by
  cases progress with
  | idle => cases at_k
  | busy =>
    obtain _ | k := k
    · exact ⟨rfl, congrArg (fun l => [l]) (Option.some.inj at_k)⟩
    · cases at_k

/-- A loop goes on after the messages that have been handled. -/
theorem progress_proceed (rest : List String) (handled : h.inOrder answers s₀ 0 before = some s) (fresh : answers before.length = []) :
    Progress h s₀ answers (before ++ rest) (h.proceed s before.length rest).1
      (h.proceed s before.length rest).2.toList := by
  cases rest with
  | nil =>
    rw [List.append_nil]
    exact .idle handled
  | cons line rest =>
    rw [LineHandler.proceed]
    split
    · rename_i closed
      refine .idle ?_
      rw [inOrder_append, handled, Option.bind_some, inOrder_of_closed closed]
    · rename_i isOpen
      refine .busy rfl handled (Bool.not_eq_true _ ▸ isOpen) ?_
      rw [fresh, drive]

theorem messages_append {bytes chunk : Buffer} (whole : splitsCharacter bytes chunk = false) :
    messages (utf8 (bytes ++ chunk)) = messages (utf8 bytes) ++ messages (remainder (utf8 bytes) ++ utf8 chunk) := by
  rw [utf8_append_iff.mpr whole, messages, lines_append, List.filter_append, List.map_append]
  rfl

theorem answersTo_eq_nil {g : Received α} (fresh : ∀ x ∈ g.answers, x.1 ≠ number) : g.answersTo number = [] := by
  rw [Received.answersTo, List.filter_eq_nil_iff.mpr (by simpa using fresh), List.map_nil]

theorem answersTo_append (g : Received α) (message : ℕ) (a : α) (number : ℕ) :
    ({ g with answers := g.answers ++ [(message, a)] } : Received α).answersTo number =
      g.answersTo number ++ if message = number then [a] else [] := by
  unfold Received.answersTo
  rw [List.filter_append, List.map_append]
  congr 1
  by_cases here : message = number <;> simp [here]

/-- The state of an orderly run. -/
structure Sound (h : LineHandler σ τ α) (s₀ : σ) (p : SocketData σ τ) (g : Received α) : Prop where
  buffer : p.buffer = remainder (utf8 g.bytes)
  arrived : p.arrived = (messages (utf8 g.bytes)).length
  below : ∀ x ∈ g.answers, x.1 < p.arrived
  past : ∀ x ∈ g.answers, ∀ l ∈ p.loops, x.1 ≤ l.message
  progress : Progress h s₀ g.answersTo (messages (utf8 g.bytes)) p.session p.loops

/-- The loop that goes on, or begins, is at the message it was to take. -/
theorem message_of_proceed {l : LineLoop τ} (member : l ∈ (h.proceed s number rest).2.toList) : l.message = number := by
  cases rest with
  | nil => cases member
  | cons line rest =>
    rw [LineHandler.proceed] at member
    split at member
    · cases member
    · rw [Option.mem_toList] at member
      cases member
      rfl

theorem Sound.data {p : SocketData σ τ} {g : Received α} (sound : Sound h s₀ p g) {chunk : Buffer}
    (orderly : Orderly (p, g) (.data chunk : SocketEvent α)) {p' : SocketData σ τ}
    (moved : p.step h (.data chunk) = some p') : Sound h s₀ p' { g with bytes := g.bytes ++ chunk } := by
  obtain ⟨whole, alone⟩ := orderly
  have grows := messages_append whole
  rw [← sound.buffer] at grows
  obtain rfl := Option.some.inj moved.symm
  have buffer : remainder (p.buffer ++ utf8 chunk) = remainder (utf8 (g.bytes ++ chunk)) := by
    rw [utf8_append_iff.mpr whole, remainder_append (utf8 g.bytes), sound.buffer]
  have arrived : p.arrived + (messages (p.buffer ++ utf8 chunk)).length = (messages (utf8 (g.bytes ++ chunk))).length := by
    rw [grows, List.length_append, sound.arrived]
  have below : ∀ x ∈ g.answers, x.1 < p.arrived + (messages (p.buffer ++ utf8 chunk)).length := by
    intro x member
    have := sound.below x member
    omega
  by_cases none_new : messages (p.buffer ++ utf8 chunk) = []
  · -- No message is complete, and a loop that is running goes on.
    rw [none_new, List.append_nil] at grows
    have same : (h.proceed p.session p.arrived (messages (p.buffer ++ utf8 chunk))) = (p.session, none) := by
      rw [none_new, LineHandler.proceed]
    refine ⟨buffer, arrived, below, ?_, ?_⟩
    · rw [same, Option.toList_none, List.append_nil]
      exact sound.past
    · rw [same, Option.toList_none, List.append_nil]
      dsimp only
      rw [grows]
      exact sound.progress
  · have ended := alone none_new
    have progress := sound.progress
    rw [ended] at progress
    cases progress with
    | idle handled =>
      have proceeds := progress_proceed (messages (p.buffer ++ utf8 chunk)) handled
        (answersTo_eq_nil fun x member => by
          have := sound.below x member
          rw [sound.arrived] at this
          omega)
      rw [← grows, ← sound.arrived] at proceeds
      refine ⟨buffer, arrived, below, fun x member l is_loop => ?_, ?_⟩
      · rw [ended, List.nil_append] at is_loop
        rw [message_of_proceed is_loop]
        exact (sound.below x member).le
      · rw [ended]
        exact proceeds

/-- A message is answered. -/
theorem Sound.answer {p p' : SocketData σ τ} {g : Received α} (sound : Sound h s₀ p g) {k : ℕ} {a : α}
    (moved : p.step h (.answer k a) = some p') : Sound h s₀ p' (received g p (.answer k a) p') := by
  obtain ⟨l, at_k, rest⟩ := Option.bind_eq_some_iff.mp moved
  obtain ⟨⟨s', t'⟩, resumed, same⟩ := Option.map_eq_some_iff.mp rest
  subst same
  have recorded : ∀ q, received g p (.answer k a) q = { g with answers := g.answers ++ [(l.message, a)] } := by
    intro q
    rw [received, at_k]
    rfl
  rw [recorded]
  obtain ⟨rfl, only⟩ := sound.progress.only at_k
  have progress := sound.progress
  have past := sound.past
  rw [only] at progress past ⊢
  cases progress with
  | busy split handled isOpen running =>
    rename_i before rest' line s₁ t
    have within : before.length < p.arrived := by
      rw [sound.arrived, split, List.length_append, List.length_cons]
      omega
    refine ⟨sound.buffer, sound.arrived, ?_, ?_, ?_⟩
    · intro x member
      obtain old | new := List.mem_append.mp member
      · exact sound.below x old
      · rw [List.mem_singleton.mp new]
        exact within
    · intro x member l is_loop
      rw [List.set_cons_zero, List.mem_singleton] at is_loop
      subst is_loop
      obtain old | new := List.mem_append.mp member
      · exact past x old ⟨before.length, t, rest'⟩ (List.mem_singleton_self _)
      · rw [List.mem_singleton.mp new]
    · rw [List.set_cons_zero]
      refine .busy split ?_ isOpen ?_
      · rw [← handled]
        refine inOrder_congr fun n _ early => ?_
        have other : before.length ≠ n := by omega
        rw [answersTo_append, if_neg other, List.append_nil]
      · rw [answersTo_append, if_pos rfl, drive_append, running, Option.bind_some, drive, resumed]
        rfl

/-- A message has been handled, and its loop goes on. -/
theorem Sound.next {p p' : SocketData σ τ} {g : Received α} (sound : Sound h s₀ p g) {k : ℕ}
    (moved : p.step h (.next k : SocketEvent α) = some p') : Sound h s₀ p' g := by
  obtain ⟨l, at_k, rest⟩ := Option.bind_eq_some_iff.mp moved
  obtain ⟨rfl, only⟩ := sound.progress.only at_k
  have progress := sound.progress
  have past := sound.past
  rw [only] at progress past rest
  cases progress with
  | busy split handled isOpen running =>
    rename_i before rest' line s₁ t
    dsimp only at rest
    split at rest
    · rename_i ended
      cases rest
      have one_more : h.inOrder g.answersTo s₀ 0 (before ++ [line]) = some p.session := by
        rw [inOrder_append, handled, Option.bind_some, LineHandler.inOrder, if_neg (by simp [isOpen]), zero_add,
          LineHandler.handle, running, Option.bind_some, if_pos ended]
        rfl
      have length : (before ++ [line]).length = before.length + 1 := by simp
      have proceeds := progress_proceed rest' one_more (answersTo_eq_nil fun x member => by
        have := past x member _ (List.mem_singleton_self _)
        dsimp only at this
        omega)
      rw [length, List.append_assoc, List.singleton_append, ← split] at proceeds
      refine ⟨sound.buffer, sound.arrived, sound.below, fun x member l is_loop => ?_, ?_⟩
      · have here := past x member _ (List.mem_singleton_self _)
        rw [List.take_zero, List.nil_append, List.drop_one, List.tail_cons, List.append_nil] at is_loop
        rw [message_of_proceed is_loop]
        exact here.trans (Nat.le_succ _)
      · simpa using proceeds
    · cases rest

end

/-- **One message at a time**: in every run in which no chunk goes on with a character of the one
before, and no chunk completes a message while a loop is running, the session is, once all loops
have ended, as if the messages of the whole stream had been handled one at a time in order, each
with the answers it had. -/
theorem sameInOrder_of_orderly {σ τ α : Type} {h : LineHandler σ τ α} {s₀ : σ} {p : SocketData σ τ} {g : Received α}
    (run : Reaches (recording (SocketData.step h) received) Orderly (.initial s₀, ⟨[], []⟩) (p, g)) (ended : p.loops = []) :
    SameInOrder h s₀ p g := by
  have sound : Sound h s₀ p g := by
    apply run.invariant_recording
    · exact ⟨rfl, rfl, by simp, by simp, .idle rfl⟩
    · intro p g e p' sound orderly stepped
      cases e with
      | data chunk => exact sound.data orderly stepped
      | answer k a => exact sound.answer stepped
      | next k => exact sound.next stepped
  have progress := sound.progress
  rw [ended] at progress
  cases progress with
  | idle handled => exact ⟨handled, sound.buffer⟩

/-! ## The messages of a session -/

/-- What `JSON.parse`, `plainToInstance` and `validate` make of a line: nothing, or a message, or
one of a method that has no case. -/
inductive ParsedLine where
  | broken
  | other
  | message (m : Message)

/-- `handleMessage`, as far as the messages of `Handshake` go. -/
def handleMessage (config : MinerClasses) (parse : String → ParsedLine) : LineHandler Handshake Handling HandlingAnswer where
  enter s line :=
    match parse line with
    | .broken => (s.close, .returned)
    | .other => s.afterMessage config
    | .message m => (s, if s.ignores m then .returned else .validating m)
  resume := Handling.resume config
  isDone := Handling.isReturned
  isClosed s := s.connectionClosed

/-- ASCII characters as they are sent. -/
def ascii (text : String) : Buffer := text.toList.map fun c => BitVec.ofNat 8 c.toNat

/-- An authorization up to its worker name, and what follows it. -/
def authorizeStart : String :=
  "\x7b\"id\": 3, \"method\": \"mining.authorize\", \"params\": [\"tb1qumezefzdeqqwn5zfvgdrhxjzc5ylr39uhuxcz4."

def authorizeEnd : String := "\", \"x\"]\x7d"

/-- The authorization of the worker `é`, or of what becomes of it. -/
def parseAuthorize (line : String) : ParsedLine :=
  let named (worker : String) := Message.authorize "3" (some ⟨⟨"tb1qumezefzdeqqwn5zfvgdrhxjzc5ylr39uhuxcz4", worker⟩, some "x"⟩)
  if line = authorizeStart ++ "é" ++ authorizeEnd then .message (named "é")
  else if line = authorizeStart ++ "��" ++ authorizeEnd then .message (named "��")
  else .broken

/-- A chunk that ends after the worker name, and the rest in the next. -/
theorem sameInOrder_of_orderly_two_chunks :
    ∃ (p : SocketData Handshake Handling) (g : Received HandlingAnswer),
      p.session.clientAuthorization.map (·.worker) = some "é" ∧
        SameInOrder (handleMessage noClasses parseAuthorize) (.initial 0) p g := by
  obtain ⟨⟨p, g⟩, run, worker, ended⟩ := exists_reaches
    (recording (SocketData.step (handleMessage noClasses parseAuthorize)) received) Orderly
    (.initial (.initial 0), ⟨[], []⟩)
    [.data (ascii authorizeStart ++ [0xc3, 0xa9]), .data (ascii authorizeEnd ++ [10]), .answer 0 (.handled 0 ""),
      .answer 0 (.wrote true), .next 0]
    (fun q => q.1.session.clientAuthorization.map (·.worker) = some "é" ∧ q.1.loops = []) (by decide +kernel)
  exact ⟨p, g, worker, sameInOrder_of_orderly run ended⟩

/-- The same message, cut between the two bytes of the worker name. -/
theorem not_sameInOrder_cut_character : ¬ ∀ (config : MinerClasses) (parse : String → ParsedLine) (now : ℤ)
    (p : SocketData Handshake Handling) (g : Received HandlingAnswer),
    Reaches (recording (SocketData.step (handleMessage config parse)) received) Always
      (.initial (.initial now), ⟨[], []⟩) (p, g) →
    p.loops = [] → SameInOrder (handleMessage config parse) (.initial now) p g := by
  intro claim
  obtain ⟨⟨p, g⟩, run, ended, differ⟩ := exists_reaches
    (recording (SocketData.step (handleMessage noClasses parseAuthorize)) received) Always
    (.initial (.initial 0), ⟨[], []⟩)
    [.data (ascii authorizeStart ++ [0xc3]), .data ([0xa9] ++ ascii authorizeEnd ++ [10]), .answer 0 (.handled 0 ""),
      .answer 0 (.wrote true), .next 0]
    (fun q => q.1.loops = [] ∧ (((handleMessage noClasses parseAuthorize).inOrder q.2.answersTo (.initial 0) 0
      (messages (utf8 q.2.bytes))).map (·.clientAuthorization)) ≠ some q.1.session.clientAuthorization) (by decide +kernel)
  apply differ
  rw [(claim _ _ _ p g run ended).session]
  rfl

/-- A chunk that comes in while the first of two messages is being answered: its message is
answered before the second one. -/
example : ((runWhere (recording (SocketData.step (handleMessage noClasses fun id => .message (.configure id true))) received)
    Always (.initial (.initial 0), ⟨[], []⟩)
    [.data (ascii "1\n2\n"), .answer 0 (.handled 0 ""), .data (ascii "3\n"), .answer 1 (.handled 0 ""),
      .answer 0 (.wrote true), .next 0, .answer 0 (.handled 0 ""), .answer 0 (.wrote true), .answer 1 (.wrote true),
      .next 0, .next 0]).map fun q => (q.1.loops.length, q.1.session.sent)) =
    some (0, [.configured "1", .configured "3", .configured "2"]) := by decide +kernel

end ElektronPool.Stratum
