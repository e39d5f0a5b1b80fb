import ElektronPool.Telegram.Bot

/-!
# Updates are handled once and in order

Telegram hands out the updates of the bot from the requested offset on, and forgets those below it.
`pollUpdates` is called every two seconds while earlier calls may still be waiting, and gives up the rest
of a reply at the first error. Still one call at a time is past the flag, and what has been handled is at any
time the part of Telegram's queue below the offset (`handled_eq`). The subscriptions are what the handled commands make
of an empty table one after another (`subscriptions_eq`).
-/

namespace ElektronPool.Telegram
set_option autoImplicit false
open Js Async

/-! ## What the commands say -/

inductive TableCommand where
  | subscribe (row : TelegramSubscription)
  | unsubscribe (row : TelegramSubscription)
  | unsubscribeAll (chatId : ℤ)
  deriving DecidableEq

/-- A command as an operation on a table without duplicates. -/
def TableCommand.apply (rows : List TelegramSubscription) : TableCommand → List TelegramSubscription
  | .subscribe row => if row ∈ rows then rows else rows ++ [row]
  | .unsubscribe row => rows.filter fun r => r ≠ row
  | .unsubscribeAll chatId => rows.filter fun r => r.telegramChatId ≠ chatId

/-- The command of an update, if it is one that concerns the table. -/
def tableCommand (config : BotConfig) (update : Update) : Option TableCommand :=
  match update.message with
  | some ⟨some text, chatId⟩ =>
    match readCommand text with
    | .subscribe address => (address.filter config.isValidAddress).map fun address => .subscribe ⟨chatId, address⟩
    | .unsubscribe (some address) => some (.unsubscribe ⟨chatId, address⟩)
    | .unsubscribe none => some (.unsubscribeAll chatId)
    | _ => none
  | _ => none

def applyCommand (rows : List TelegramSubscription) (command : Option TableCommand) : List TelegramSubscription :=
  command.elim rows (TableCommand.apply rows)

/-- The table after the commands of some updates. -/
def interpret (config : BotConfig) (updates : List Update) : List TelegramSubscription :=
  updates.foldl (fun rows update => applyCommand rows (tableCommand config update)) []

theorem nodup_apply {rows : List TelegramSubscription} (nodup : rows.Nodup) (command : TableCommand) :
    (command.apply rows).Nodup := by
  cases command with
  | subscribe row =>
    change (if row ∈ rows then rows else rows ++ [row]).Nodup
    split
    · exact nodup
    · rename_i fresh
      exact List.nodup_append.mpr ⟨nodup, List.nodup_singleton _, fun a old b new same =>
        fresh (List.mem_singleton.mp new ▸ same ▸ old)⟩
  | unsubscribe row => exact nodup.filter _
  | unsubscribeAll chatId => exact nodup.filter _

theorem interpret_concat (config : BotConfig) (updates : List Update) (update : Update) :
    interpret config (updates ++ [update]) = applyCommand (interpret config updates) (tableCommand config update) := by
  rw [interpret, List.foldl_append]
  rfl

theorem nodup_applyCommand {rows : List TelegramSubscription} (nodup : rows.Nodup) (command : Option TableCommand) :
    (applyCommand rows command).Nodup := by
  cases command with
  | none => exact nodup
  | some command => exact nodup_apply nodup command

theorem nodup_interpret (config : BotConfig) (updates : List Update) : (interpret config updates).Nodup := by
  induction updates using List.reverseRecOn with
  | nil => exact List.nodup_nil
  | append_singleton updates update ih =>
    rw [interpret_concat]
    exact nodup_applyCommand ih _

/-! ## A queue and an offset -/

section
variable {α : Type*} {key : α → ℕ} {queue : List α}

theorem filter_split (sorted : queue.Pairwise (key · < key ·)) (offset : ℕ) :
    queue = queue.filter (fun u => key u < offset) ++ queue.filter (fun u => offset ≤ key u) := by
  induction queue with
  | nil => rfl
  | cons u queue ih =>
    obtain ⟨first, sorted⟩ := List.pairwise_cons.mp sorted
    by_cases below : key u < offset
    · have above : ¬ offset ≤ key u := by omega
      simp only [List.filter_cons, below, above, decide_true, decide_false, if_true, Bool.false_eq_true, if_false,
        List.cons_append]
      rw [← ih sorted]
    · have nothing : ∀ k ≤ offset, queue.filter (fun v => key v < k) = [] := fun k le =>
        List.filter_eq_nil_iff.mpr fun v member => by
          have := first v member
          simp only [decide_eq_true_eq]
          omega
      have everything : queue.filter (fun v => offset ≤ key v) = queue :=
        List.filter_eq_self.mpr fun v member => by
          have := first v member
          simp only [decide_eq_true_eq]
          omega
      have above : offset ≤ key u := by omega
      simp only [List.filter_cons, below, above, decide_true, decide_false, if_true, Bool.false_eq_true, if_false]
      rw [nothing offset le_rfl, everything, List.nil_append]

/-- Taking up the first element from the offset on, and setting the offset behind it. -/
theorem filter_advance (sorted : queue.Pairwise (key · < key ·)) {offset : ℕ} {u : α} {rest : List α}
    (served : u :: rest <+: queue.filter fun v => offset ≤ key v) :
    (queue.filter fun v => key v < key u + 1) = (queue.filter fun v => key v < offset) ++ [u] ∧
      rest <+: queue.filter fun v => key u + 1 ≤ key v := by
  obtain ⟨later, served⟩ := served
  have whole := filter_split sorted offset
  rw [← served] at whole
  have inOrder := sorted
  rw [whole] at inOrder
  obtain ⟨-, tail, cross⟩ := List.pairwise_append.mp inOrder
  obtain ⟨behind, -⟩ := List.pairwise_cons.mp tail
  have front : ∀ v ∈ queue.filter (fun v => key v < offset), key v < key u := fun v member =>
    cross v member u List.mem_cons_self
  generalize queue.filter (fun v => key v < offset) = before at whole front ⊢
  rw [whole]
  have low : before.filter (fun v => key v < key u + 1) = before := List.filter_eq_self.mpr fun v member => by
    have := front v member
    simp only [decide_eq_true_eq]
    omega
  have none_low : before.filter (fun v => key u + 1 ≤ key v) = [] := List.filter_eq_nil_iff.mpr fun v member => by
    have := front v member
    simp only [decide_eq_true_eq]
    omega
  have high : (rest ++ later).filter (fun v => key u + 1 ≤ key v) = rest ++ later :=
    List.filter_eq_self.mpr fun v member => by
      have := behind v member
      simp only [decide_eq_true_eq]
      omega
  have none_high : (rest ++ later).filter (fun v => key v < key u + 1) = [] :=
    List.filter_eq_nil_iff.mpr fun v member => by
      have := behind v member
      simp only [decide_eq_true_eq]
      omega
  rw [List.cons_append, List.filter_append, List.filter_append, List.filter_cons_of_pos (by simp),
    List.filter_cons_of_neg (by simp), low, none_low, high, none_high]
  exact ⟨rfl, List.prefix_append _ _⟩

end

/-! ## What a step of a call is -/

namespace BotCall

/-- A poll past the flag. -/
def active : BotCall → Bool
  | .pollUpdates | .notifySubscribers .. | .notifying | .returned => false
  | _ => true

/-- The updates still to come. -/
def rest : BotCall → List Update
  | .removeAllSubscriptions _ rest | .removeSubscription _ _ rest | .findSubscription _ _ rest
  | .saveSubscription _ _ rest | .getSubscriptionsForChat _ rest | .getPendingTotal _ _ rest | .sendMessage rest
  | .handled rest => rest
  | _ => []

/-- The change of the table that a call waits for. -/
def outstanding : BotCall → Option TableCommand
  | .removeAllSubscriptions chatId _ => some (.unsubscribeAll chatId)
  | .removeSubscription chatId address _ => some (.unsubscribe ⟨chatId, address⟩)
  | .findSubscription chatId address _ | .saveSubscription chatId address _ => some (.subscribe ⟨chatId, address⟩)
  | _ => none

/-- The updates the loop goes on with. -/
def upcoming : BotCall → BotAnswer → Option (List Update)
  | .getUpdates _, .updates result => some result
  | .handled rest, .executed => some rest
  | _, _ => none

/-- An INSERT is only waited for where the SELECT found nothing. -/
def insertsNew (s : BotState) : BotCall → Prop
  | .saveSubscription chatId address _ => (⟨chatId, address⟩ : TelegramSubscription) ∉ s.subscriptions
  | _ => True

end BotCall

/-- The part of the state that the polls work on is as it was. -/
structure SameWork (s s' : BotState) : Prop where
  updateOffset : s'.updateOffset = s.updateOffset
  isPolling : s'.isPolling = s.isPolling
  subscriptions : s'.subscriptions = s.subscriptions

/-- What one resumption can be. -/
inductive BotStep (config : BotConfig) (s : BotState) : BotCall → BotAnswer → BotState → BotCall → Prop
  /-- a tick that finds the flag set or the pause on, and the steps of a notification -/
  | aside {t t' : BotCall} {a : BotAnswer} {s' : BotState} (before : t.active = false) (after : t'.active = false)
    (same : SameWork s s') : BotStep config s t a s' t'
  | request {nowMs : ℤ} (free : s.isPolling = false) :
    BotStep config s .pollUpdates (.clock nowMs) { s with isPolling := true } (.getUpdates s.updateOffset)
  | next {t : BotCall} {a : BotAnswer} {updates : List Update} (before : t.active = true) (idle : t.outstanding = none)
    (comes : t.upcoming a = some updates) :
    BotStep config s t a (BotCall.nextUpdate config s updates).1 (BotCall.nextUpdate config s updates).2
  | within {t t' : BotCall} {a : BotAnswer} {s' : BotState} (before : t.active = true) (after : t'.active = true)
    (rest : t'.rest = t.rest) (waiting : ∀ offset, t ≠ .getUpdates offset ∧ t' ≠ .getUpdates offset)
    (quiet : t.upcoming a = none) (updateOffset : s'.updateOffset = s.updateOffset)
    (isPolling : s'.isPolling = s.isPolling)
    (table : t.insertsNew s → applyCommand s'.subscriptions t'.outstanding = applyCommand s.subscriptions t.outstanding)
    (rows : s'.subscriptions = s.subscriptions ∧ t'.outstanding = t.outstanding ∨ t'.outstanding = none)
    (new : t'.insertsNew s')
    (answered : ∀ status nowMs, a ≠ .failed status nowMs) :
    BotStep config s t a s' t'
  | failed {t : BotCall} {status : Option ℕ} {nowMs : ℤ} (before : t.active = true) (waits : ∀ rest, t ≠ .handled rest) :
    BotStep config s t (.failed status nowMs) (BotCall.failed s status nowMs).1 (BotCall.failed s status nowMs).2

theorem sameWork_sendMessage (s : BotState) (chatId : ℤ) (text : String) : SameWork s (s.sendMessage chatId text) :=
  ⟨rfl, rfl, rfl⟩

theorem subscriptionsOf_eq_nil {s : BotState} {chatId : ℤ} {address : String} :
    s.subscriptionsOf chatId address = [] ↔ (⟨chatId, address⟩ : TelegramSubscription) ∉ s.subscriptions := by
  rw [BotState.subscriptionsOf, List.filter_eq_nil_iff]
  constructor
  · intro absent member
    exact absent _ member (by simp)
  · rintro absent ⟨chat, addr⟩ member holds
    obtain ⟨rfl, rfl⟩ : chat = chatId ∧ addr = address := by simpa using holds
    exact absent member

/-- A command that has nothing to do with the table, or has changed it, is answered. -/
theorem botStep_answer {config : BotConfig} {s s' : BotState} {t : BotCall} {a : BotAnswer} {chatId : ℤ} {text : String}
    {updates : List Update} (before : t.active = true) (rest : t.rest = updates)
    (waiting : ∀ offset, t ≠ .getUpdates offset) (quiet : t.upcoming a = none)
    (answered : ∀ status nowMs, a ≠ .failed status nowMs) (updateOffset : s'.updateOffset = s.updateOffset)
    (isPolling : s'.isPolling = s.isPolling)
    (table : t.insertsNew s → s'.subscriptions = applyCommand s.subscriptions t.outstanding) :
    BotStep config s t a (s'.sendMessage chatId text) (.sendMessage updates) :=
  .within before rfl rest.symm (fun offset => ⟨waiting offset, by simp⟩) quiet updateOffset isPolling
    table (.inr rfl) trivial answered

/-- Every resumption is one of these. -/
theorem BotCall.botStep {config : BotConfig} {s s' : BotState} {t t' : BotCall} {a : BotAnswer}
    (resumed : t.resume config s a = some (s', t')) : BotStep config s t a s' t' := by
  unfold BotCall.resume at resumed
  split at resumed
  case h_1 =>
    split at resumed
    · cases resumed
      exact .aside rfl rfl ⟨rfl, rfl, rfl⟩
    · split at resumed
      · cases resumed
        exact .aside rfl rfl ⟨rfl, rfl, rfl⟩
      · cases resumed
        exact .request (Bool.eq_false_iff.mpr ‹_›)
  case h_2 offset updates =>
    have next : BotStep config s (.getUpdates offset) (.updates updates) _ _ := .next rfl rfl rfl
    rwa [Option.some.inj resumed] at next
  case h_10 updates =>
    have next : BotStep config s (.handled updates) .executed _ _ := .next rfl rfl rfl
    rwa [Option.some.inj resumed] at next
  case h_3 | h_7 | h_8 =>
    cases resumed
    exact botStep_answer rfl rfl (by simp) rfl (by simp) rfl rfl fun _ => by simp [applyCommand, outstanding, TableCommand.apply]
  case h_4 chatId address rest =>
    cases resumed
    refine botStep_answer rfl rfl (by simp) rfl (by simp) rfl rfl fun _ => ?_
    show s.subscriptions.filter _ = s.subscriptions.filter _
    apply List.filter_congr
    rintro ⟨chat, addr⟩ -
    simp
  case h_5 chatId address rest =>
    split at resumed
    · rename_i absent
      cases resumed
      exact .within rfl rfl rfl (by simp) rfl rfl rfl (fun _ => rfl) (.inl ⟨rfl, rfl⟩)
        (subscriptionsOf_eq_nil.mp absent) (by simp)
    · rename_i known
      cases resumed
      refine botStep_answer rfl rfl (by simp) rfl (by simp) rfl rfl fun _ => ?_
      have member : (⟨chatId, address⟩ : TelegramSubscription) ∈ s.subscriptions :=
        not_not.mp (mt subscriptionsOf_eq_nil.mpr known)
      exact (if_pos member).symm
  case h_6 chatId address rest =>
    cases resumed
    exact botStep_answer rfl rfl (by simp) rfl (by simp) rfl rfl fun absent => (if_neg absent).symm
  case h_9 =>
    cases resumed
    exact .within rfl rfl rfl (by simp) rfl rfl rfl (fun _ => rfl) (.inr rfl) trivial (by simp)
  case h_11 | h_12 | h_13 | h_14 =>
    cases resumed
    exact .aside rfl rfl ⟨rfl, rfl, rfl⟩
  case h_18 notify notifying poll handled returned =>
    cases resumed
    refine .failed ?_ handled
    cases t with
    | pollUpdates => exact (poll rfl).elim
    | notifySubscribers address text => exact (notify address text rfl).elim
    | notifying => exact (notifying rfl).elim
    | returned => exact (returned rfl).elim
    | _ => rfl
  all_goals cases resumed

/-- A message that is taken up. -/
structure TakenUp (config : BotConfig) (s : BotState) (rest : List Update) (update : Update) (s' : BotState) (t : BotCall) :
    Prop where
  work : SameWork s s'
  active : t.active = true
  rest_eq : t.rest = rest
  waiting : ∀ offset, t ≠ .getUpdates offset
  outstanding : t.outstanding = tableCommand config update
  new : t.insertsNew s'

theorem takenUp_handleMessage (config : BotConfig) (s : BotState) (rest : List Update) (update : Update) :
    TakenUp config s rest update (BotCall.handleMessage config s rest update.message).1
      (BotCall.handleMessage config s rest update.message).2 := by
  obtain ⟨updateId, message⟩ := update
  have same : SameWork s s := ⟨rfl, rfl, rfl⟩
  cases message with
  | none => exact ⟨same, rfl, rfl, by simp [BotCall.handleMessage], rfl, trivial⟩
  | some message =>
    obtain ⟨text, chatId⟩ := message
    cases text with
    | none => exact ⟨same, rfl, rfl, by simp [BotCall.handleMessage], rfl, trivial⟩
    | some text =>
      have read : ∀ command, readCommand text = command →
          tableCommand config ⟨updateId, some ⟨some text, chatId⟩⟩ = match command with
            | .subscribe address =>
              (address.filter config.isValidAddress).map fun address => .subscribe ⟨chatId, address⟩
            | .unsubscribe (some address) => some (.unsubscribe ⟨chatId, address⟩)
            | .unsubscribe none => some (.unsubscribeAll chatId)
            | _ => none := by
        rintro command rfl
        rfl
      simp only [BotCall.handleMessage]
      cases command : readCommand text with
      | unsubscribe address =>
        cases address with
        | none => exact ⟨same, rfl, rfl, by simp, (read _ command).symm, trivial⟩
        | some address => exact ⟨same, rfl, rfl, by simp, (read _ command).symm, trivial⟩
      | subscribe address =>
        dsimp only
        cases valid : address.filter config.isValidAddress with
        | none =>
          refine ⟨sameWork_sendMessage .., rfl, rfl, by simp, ?_, trivial⟩
          rw [read _ command]
          dsimp only
          rw [valid]
          rfl
        | some address =>
          refine ⟨same, rfl, rfl, by simp, ?_, trivial⟩
          rw [read _ command]
          dsimp only
          rw [valid]
          rfl
      | list => exact ⟨same, rfl, rfl, by simp, (read _ command).symm, trivial⟩
      | balance address =>
        dsimp only
        cases valid : address.filter config.isValidAddress with
        | none => exact ⟨sameWork_sendMessage .., rfl, rfl, by simp, (read _ command).symm, trivial⟩
        | some address => exact ⟨same, rfl, rfl, by simp, (read _ command).symm, trivial⟩
      | help => exact ⟨sameWork_sendMessage .., rfl, rfl, by simp, (read _ command).symm, trivial⟩
      | other => exact ⟨same, rfl, rfl, by simp, (read _ command).symm, trivial⟩

/-! ## Beside the run -/

/-- The updates whose command was taken up, those of them whose change of the table was not lost to an error of the
database, and how many were lost. -/
structure Log where
  handled : List Update
  effective : List Update
  lost : ℕ

def Log.note (g : Log) (t : BotCall) (a : BotAnswer) : Log :=
  match t.upcoming a, a with
  | some (update :: _), _ => ⟨g.handled ++ [update], g.effective ++ [update], g.lost⟩
  | none, .failed .. => if t.outstanding.isSome then ⟨g.handled, g.effective.dropLast, g.lost + 1⟩ else g
  | _, _ => g

def recordUpdates (g : Log) (p : Bot) (e : BotEvent) (_ : Bot) : Log :=
  match e with
  | .start _ => g
  | .resume k a => p.calls[k]?.elim g fun t => g.note t a

/-- A reply holds the first updates that Telegram has from the offset on. -/
def Serves (queue : List Update) : BotCall → BotAnswer → Prop
  | .getUpdates offset, .updates result => result <+: queue.filter fun u => offset ≤ u.updateId
  | _, _ => True

instance (queue : List Update) (t : BotCall) (a : BotAnswer) : Decidable (Serves queue t a) := by
  unfold Serves
  split <;> infer_instance

/-- A run in which Telegram serves a queue. -/
def Served (queue : List Update) (q : Bot × Log) (e : BotEvent) : Prop :=
  Pool.Allowed (fun _ _ => True) (fun _ _ t a => Serves queue t a) q.1 e

instance (queue : List Update) (q : Bot × Log) (e : BotEvent) : Decidable (Served queue q e) :=
  inferInstanceAs (Decidable (Pool.Allowed _ _ _ _))

/-- What a call knows of the queue. -/
structure BotCall.Stands (queue : List Update) (s : BotState) (t : BotCall) : Prop where
  offset : ∀ offset, t = .getUpdates offset → offset = s.updateOffset
  rest : t.active = true → t.rest <+: queue.filter fun u => s.updateOffset ≤ u.updateId

def BotCall.busy (t : BotCall) : ℕ := if t.active then 1 else 0

/-- What holds of the bot at any time. -/
structure InOrder (config : BotConfig) (queue : List Update) (p : Bot) (g : Log) : Prop where
  handled : g.handled = queue.filter fun u => u.updateId < p.shared.updateOffset
  one : (p.calls.map BotCall.busy).sum = if p.shared.isPolling then 1 else 0
  stands : ∀ t ∈ p.calls, t.Stands queue p.shared
  insertsNew : ∀ t ∈ p.calls, t.insertsNew p.shared
  table : ∀ t ∈ p.calls, t.active = true →
    applyCommand p.shared.subscriptions t.outstanding = interpret config g.effective
  waits : ∀ t ∈ p.calls, t.outstanding.isSome →
    g.effective ≠ [] ∧ p.shared.subscriptions = interpret config g.effective.dropLast
  idle : p.shared.isPolling = false → p.shared.subscriptions = interpret config g.effective
  nodup : p.shared.subscriptions.Nodup
  sublist : g.effective.Sublist g.handled
  lost : g.handled.length = g.effective.length + g.lost

section
variable {config : BotConfig} {queue : List Update} {p p' : Bot} {g g' : Log} {s s' : BotState} {t t' u : BotCall}
  {a : BotAnswer} {before after : List BotCall}

theorem stands_of_inactive (inactive : u.active = false) : u.Stands queue s where
  offset offset requests := by
    rw [requests] at inactive
    cases inactive
  rest active := absurd active (Bool.eq_false_iff.mp inactive)

theorem insertsNew_of_inactive (inactive : u.active = false) : u.insertsNew s := by
  cases u with
  | saveSubscription chatId address rest => cases inactive
  | _ => trivial

theorem outstanding_of_inactive (inactive : u.active = false) : u.outstanding = none := by
  cases u <;> first | rfl | cases inactive

theorem note_of_inactive (inactive : t.active = false) : g.note t a = g := by
  cases t with
  | pollUpdates | notifySubscribers | notifying | returned => cases a <;> rfl
  | _ => cases inactive

theorem stands_of_eq (same : s'.updateOffset = s.updateOffset) (stands : t.Stands queue s) : t.Stands queue s' where
  offset offset requests := (stands.offset offset requests).trans same.symm
  rest active := by
    rw [same]
    exact stands.rest active

theorem insertsNew_of_eq (same : s'.subscriptions = s.subscriptions) (new : t.insertsNew s) : t.insertsNew s' := by
  cases t with
  | saveSubscription chatId address rest =>
    rw [BotCall.insertsNew, same]
    exact new
  | _ => trivial

theorem sum_busy : ((before ++ t :: after).map BotCall.busy).sum = t.busy + ((before ++ after).map BotCall.busy).sum := by
  simp only [List.map_append, List.map_cons, List.sum_append, List.sum_cons]
  omega

theorem sum_busy_eq_zero (none : ∀ u ∈ before ++ after, u.active = false) :
    ((before ++ after).map BotCall.busy).sum = 0 := by
  apply List.sum_eq_zero
  intro n counted
  obtain ⟨u, member, rfl⟩ := List.mem_map.mp counted
  exact if_neg (Bool.eq_false_iff.mp (none u member))

theorem inactive_of_sum (none : ((before ++ after).map BotCall.busy).sum = 0) : ∀ u ∈ before ++ after, u.active = false := by
  intro u member
  have zero : u.busy = 0 := List.sum_eq_zero_iff.mp none _ (List.mem_map_of_mem member)
  apply Bool.eq_false_iff.mpr
  intro active
  rw [BotCall.busy, active] at zero
  cases zero

/-- While a poll is past the flag, the flag is set and no other one is. -/
theorem InOrder.alone (inv : InOrder config queue p g) (calls : p.calls = before ++ t :: after) (active : t.active = true) :
    p.shared.isPolling = true ∧ ∀ u ∈ before ++ after, u.active = false := by
  have one := inv.one
  rw [calls, sum_busy, BotCall.busy, if_pos active] at one
  cases polling : p.shared.isPolling with
  | false =>
    rw [polling] at one
    simp only [Bool.false_eq_true, if_false] at one
    omega
  | true =>
    rw [polling, if_pos rfl] at one
    exact ⟨rfl, inactive_of_sum (by omega)⟩

/-- What has to be shown after a step of the one poll past the flag. -/
theorem inOrder_of_alone (others : ∀ u ∈ before ++ after, u.active = false)
    (handled : g.handled = queue.filter fun u => u.updateId < s.updateOffset) (one : t.busy = if s.isPolling then 1 else 0)
    (stands : t.Stands queue s) (insertsNew : t.insertsNew s)
    (table : t.active = true → applyCommand s.subscriptions t.outstanding = interpret config g.effective)
    (waits : t.outstanding.isSome → g.effective ≠ [] ∧ s.subscriptions = interpret config g.effective.dropLast)
    (idle : s.isPolling = false → s.subscriptions = interpret config g.effective) (nodup : s.subscriptions.Nodup)
    (sublist : g.effective.Sublist g.handled) (lost : g.handled.length = g.effective.length + g.lost) :
    InOrder config queue ⟨s, before ++ t :: after⟩ g := by
  have cases_of : ∀ u ∈ before ++ t :: after, u = t ∨ u.active = false := by
    intro u member
    rcases List.mem_append.mp member with left | right
    · exact .inr (others u (List.mem_append_left _ left))
    · exact (List.mem_cons.mp right).imp_right fun right => others u (List.mem_append_right _ right)
  refine ⟨handled, ?_, fun u member => ?_, fun u member => ?_, fun u member active => ?_, fun u member some => ?_, idle,
    nodup, sublist, lost⟩
  · rw [sum_busy, sum_busy_eq_zero others, add_zero, one]
  · obtain rfl | inactive := cases_of u member
    · exact stands
    · exact stands_of_inactive inactive
  · obtain rfl | inactive := cases_of u member
    · exact insertsNew
    · exact insertsNew_of_inactive inactive
  · obtain rfl | inactive := cases_of u member
    · exact table active
    · rw [inactive] at active
      cases active
  · obtain rfl | inactive := cases_of u member
    · exact waits some
    · rw [outstanding_of_inactive inactive] at some
      cases some

/-- The updates a call goes on with are the next ones of the queue. -/
theorem upcoming_served {updates : List Update} (stands : t.Stands queue s) (active : t.active = true)
    (served : Serves queue t a) (comes : t.upcoming a = some updates) :
    updates <+: queue.filter fun u => s.updateOffset ≤ u.updateId := by
  cases t with
  | getUpdates offset =>
    cases a with
    | updates result =>
      cases comes
      rw [← stands.offset offset rfl]
      exact served
    | clock | executed | pendingTotal | failed => cases comes
  | handled rest =>
    cases a with
    | executed =>
      cases comes
      exact stands.rest active
    | clock | updates | pendingTotal | failed => cases comes
  | _ => cases comes

theorem note_of_upcoming_nil (comes : t.upcoming a = some []) : g.note t a = g := by
  unfold Log.note
  rw [comes]

theorem note_of_upcoming {update : Update} {rest : List Update} (comes : t.upcoming a = some (update :: rest)) :
    g.note t a = ⟨g.handled ++ [update], g.effective ++ [update], g.lost⟩ := by
  unfold Log.note
  rw [comes]

/-- A step on an update that is taken up already. -/
theorem note_of_answered (quiet : t.upcoming a = none) (answered : ∀ status nowMs, a ≠ .failed status nowMs) :
    g.note t a = g := by
  unfold Log.note
  rw [quiet]
  cases a with
  | failed status nowMs => exact absurd rfl (answered status nowMs)
  | _ => rfl

/-- The loop goes on, or ends. -/
theorem inOrder_next (sorted : queue.Pairwise (·.updateId < ·.updateId)) {updates : List Update} (s : BotState)
    (others : ∀ u ∈ before ++ after, u.active = false) (polling : s.isPolling = true)
    (handled : g.handled = queue.filter fun u => u.updateId < s.updateOffset)
    (table : s.subscriptions = interpret config g.effective) (sublist : g.effective.Sublist g.handled)
    (lost : g.handled.length = g.effective.length + g.lost)
    (served : updates <+: queue.filter fun u => s.updateOffset ≤ u.updateId) (comes : t.upcoming a = some updates) :
    InOrder config queue
      ⟨(BotCall.nextUpdate config s updates).1, before ++ (BotCall.nextUpdate config s updates).2 :: after⟩ (g.note t a) := by
  have nodup : s.subscriptions.Nodup := table ▸ nodup_interpret config _
  cases updates with
  | nil =>
    rw [note_of_upcoming_nil comes]
    exact inOrder_of_alone others handled rfl (stands_of_inactive rfl) trivial (by simp [BotCall.nextUpdate, BotCall.active])
      (by simp [BotCall.nextUpdate, BotCall.outstanding]) (fun _ => table) nodup sublist lost
  | cons update rest =>
    rw [note_of_upcoming comes]
    obtain ⟨below, later⟩ := filter_advance sorted served
    have taken := takenUp_handleMessage config { s with updateOffset := update.updateId + 1 } rest update
    have flag := taken.work.isPolling.trans polling
    have rows := taken.work.subscriptions
    refine inOrder_of_alone (s := (BotCall.handleMessage config { s with updateOffset := update.updateId + 1 } rest
      update.message).1) others ?_ ?_ ?_ taken.new (fun _ => ?_) (fun _ => ⟨by simp, ?_⟩) (fun free => ?_) ?_
      (sublist.append_right _) ?_
    · rw [taken.work.updateOffset]
      show g.handled ++ [update] = queue.filter fun u => u.updateId < update.updateId + 1
      rw [below, handled]
    · rw [BotCall.busy, if_pos flag]
      exact if_pos taken.active
    · refine ⟨fun offset requests => absurd requests (taken.waiting offset), fun _ => ?_⟩
      rw [taken.work.updateOffset, BotCall.nextUpdate, taken.rest_eq]
      exact later
    · rw [rows, BotCall.nextUpdate, taken.outstanding, interpret_concat, ← table]
    · rw [rows, List.dropLast_concat]
      exact table
    · rw [flag] at free
      cases free
    · rw [rows]
      exact nodup
    · show (g.handled ++ [update]).length = (g.effective ++ [update]).length + g.lost
      rw [List.length_append, List.length_append, lost]
      omega

/-- An error ends the poll, and loses the change of the table it was waiting for. -/
theorem inOrder_failed {status : Option ℕ} {nowMs : ℤ} (inv : InOrder config queue p g)
    (calls : p.calls = before ++ t :: after) (active : t.active = true) (waits : ∀ rest, t ≠ .handled rest) :
    InOrder config queue ⟨(BotCall.failed p.shared status nowMs).1, before ++ .returned :: after⟩
      (g.note t (.failed status nowMs)) := by
  obtain ⟨-, others⟩ := inv.alone calls active
  have member : t ∈ p.calls := by simp [calls]
  have quiet : t.upcoming (.failed status nowMs) = none := by cases t <;> rfl
  have noted : g.note t (.failed status nowMs) =
      if t.outstanding.isSome then ⟨g.handled, g.effective.dropLast, g.lost + 1⟩ else g := by
    unfold Log.note
    rw [quiet]
  have returned : BotCall.returned.busy = if (BotCall.failed p.shared status nowMs).1.isPolling then 1 else 0 := rfl
  have table := inv.table t member active
  rw [noted]
  split
  · rename_i some
    obtain ⟨nonempty, rows⟩ := inv.waits t member some
    have length : 0 < g.effective.length := List.length_pos_of_ne_nil nonempty
    refine inOrder_of_alone others inv.handled returned (stands_of_inactive rfl) trivial (fun active => by cases active)
      (fun some => by cases some) (fun _ => rows) inv.nodup ((List.dropLast_sublist _).trans inv.sublist) ?_
    show g.handled.length = g.effective.dropLast.length + (g.lost + 1)
    rw [List.length_dropLast, inv.lost]
    omega
  · rename_i none
    rw [Option.not_isSome_iff_eq_none.mp none] at table
    exact inOrder_of_alone others inv.handled returned (stands_of_inactive rfl) trivial (fun active => by cases active)
      (fun some => by cases some) (fun _ => table) inv.nodup inv.sublist inv.lost

/-- What one event keeps. -/
theorem inOrder_step (sorted : queue.Pairwise (·.updateId < ·.updateId)) {e : BotEvent} (inv : InOrder config queue p g)
    (served : Served queue (p, g) e) (moved : Bot.step config p e = some p') :
    InOrder config queue p' (recordUpdates g p e p') := by
  obtain ⟨t, rfl, entry, rfl⟩ | ⟨before, t, after, a, s', t', rfl, calls, resumed, rfl⟩ := Pool.step_cases moved
  · -- a new call is not past the flag
    have inactive : t.active = false := by
      cases t <;> first | rfl | cases entry
    have cases_of : ∀ u ∈ p.calls ++ [t], u ∈ p.calls ∨ u.active = false := by
      intro u member
      rcases List.mem_append.mp member with old | new
      · exact .inl old
      · rw [List.mem_singleton.mp new]
        exact .inr inactive
    refine ⟨inv.handled, ?_, fun u member => ?_, fun u member => ?_, fun u member active => ?_, fun u member some => ?_,
      inv.idle, inv.nodup, inv.sublist, inv.lost⟩
    · rw [List.map_append, List.sum_append, inv.one]
      simp [BotCall.busy, inactive]
    · obtain old | inactive := cases_of u member
      · exact inv.stands u old
      · exact stands_of_inactive inactive
    · obtain old | inactive := cases_of u member
      · exact inv.insertsNew u old
      · exact insertsNew_of_inactive inactive
    · obtain old | inactive := cases_of u member
      · exact inv.table u old active
      · rw [inactive] at active
        cases active
    · obtain old | inactive := cases_of u member
      · exact inv.waits u old some
      · rw [outstanding_of_inactive inactive] at some
        cases some
  · have recorded : recordUpdates g p (.resume before.length a) ⟨s', before ++ t' :: after⟩ = g.note t a := by
      simp [recordUpdates, calls]
    have member : t ∈ p.calls := by simp [calls]
    rw [recorded]
    cases BotCall.botStep resumed with
    | aside inactive inactive' same =>
      rw [note_of_inactive inactive]
      have cases_of : ∀ u ∈ before ++ t' :: after, u ∈ p.calls ∨ u.active = false := by
        intro u member
        rw [calls]
        rcases List.mem_append.mp member with left | right
        · exact .inl (List.mem_append_left _ left)
        · rcases List.mem_cons.mp right with rfl | right
          · exact .inr inactive'
          · exact .inl (List.mem_append_right _ (List.mem_cons_of_mem _ right))
      refine ⟨?_, ?_, fun u member => ?_, fun u member => ?_, fun u member active => ?_, fun u member some => ?_,
        fun free => ?_, ?_, inv.sublist, inv.lost⟩
      · rw [same.updateOffset]
        exact inv.handled
      · have one := inv.one
        rw [calls, sum_busy, BotCall.busy, if_neg (Bool.eq_false_iff.mp inactive)] at one
        rw [sum_busy, BotCall.busy, if_neg (Bool.eq_false_iff.mp inactive'), same.isPolling]
        exact one
      · obtain old | inactive := cases_of u member
        · exact stands_of_eq same.updateOffset (inv.stands u old)
        · exact stands_of_inactive inactive
      · obtain old | inactive := cases_of u member
        · exact insertsNew_of_eq same.subscriptions (inv.insertsNew u old)
        · exact insertsNew_of_inactive inactive
      · obtain old | inactive := cases_of u member
        · rw [same.subscriptions]
          exact inv.table u old active
        · rw [inactive] at active
          cases active
      · obtain old | inactive := cases_of u member
        · rw [same.subscriptions]
          exact inv.waits u old some
        · rw [outstanding_of_inactive inactive] at some
          cases some
      · rw [same.subscriptions]
        exact inv.idle (same.isPolling.symm.trans free)
      · rw [same.subscriptions]
        exact inv.nodup
    | request free =>
      have one := inv.one
      rw [calls, sum_busy, free] at one
      have others : ∀ u ∈ before ++ after, u.active = false := inactive_of_sum (by simpa using (Nat.add_eq_zero_iff.mp one).2)
      have table : p.shared.subscriptions = interpret config g.effective := inv.idle free
      rw [note_of_inactive rfl]
      exact inOrder_of_alone others inv.handled rfl ⟨fun offset requests => (BotCall.getUpdates.inj requests).symm,
        fun _ => List.nil_prefix⟩ trivial (fun _ => table) (fun some => by cases some) (fun busy => by cases busy)
        inv.nodup inv.sublist inv.lost
    | next active idle comes =>
      obtain ⟨polling, others⟩ := inv.alone calls active
      have table := inv.table t member active
      rw [idle] at table
      exact inOrder_next sorted p.shared others polling inv.handled table inv.sublist inv.lost
        (upcoming_served (inv.stands t member) active (served.continues calls) comes) comes
    | within active active' rest waiting quiet updateOffset isPolling table rows new answered =>
      obtain ⟨polling, others⟩ := inv.alone calls active
      have settled := (table (inv.insertsNew t member)).trans (inv.table t member active)
      rw [note_of_answered quiet answered]
      refine inOrder_of_alone others ?_ ?_ ⟨fun offset requests => absurd requests (waiting offset).2, fun _ => ?_⟩ new
        (fun _ => settled) (fun some => ?_) (fun free => ?_) ?_ inv.sublist inv.lost
      · rw [updateOffset]
        exact inv.handled
      · rw [BotCall.busy, if_pos active', if_pos (isPolling.trans polling)]
      · rw [rest, updateOffset]
        exact (inv.stands t member).rest active
      · obtain ⟨same, waits⟩ | none := rows
        · rw [waits] at some
          rw [same]
          exact inv.waits t member some
        · rw [none] at some
          cases some
      · rw [isPolling, polling] at free
        cases free
      · obtain ⟨same, -⟩ | none := rows
        · rw [same]
          exact inv.nodup
        · rw [none] at settled
          rw [show s'.subscriptions = interpret config g.effective from settled]
          exact nodup_interpret config _
    | failed active waits => exact inOrder_failed inv calls active waits

/-- The bot in any run. -/
theorem inOrder_of_run (sorted : queue.Pairwise (·.updateId < ·.updateId))
    (run : Reaches (recording (Bot.step config) recordUpdates) (Served queue) (⟨.initial, []⟩, ⟨[], [], 0⟩) (p, g)) :
    InOrder config queue p g := by
  apply run.invariant_recording
  · refine ⟨?_, rfl, by simp, by simp, by simp, by simp, fun _ => rfl, List.nodup_nil, List.Sublist.refl _, rfl⟩
    symm
    apply List.filter_eq_nil_iff.mpr
    intro u _
    simp [BotState.initial]
  · intro p g e p' inv served moved
    exact inOrder_step sorted inv served moved

theorem countP_active (calls : List BotCall) : calls.countP BotCall.active = (calls.map BotCall.busy).sum := by
  induction calls with
  | nil => rfl
  | cons t calls ih =>
    rw [List.countP_cons, ih, List.map_cons, List.sum_cons, BotCall.busy]
    omega

/-- **Every update is handled once and in order**: whatever the timer, slow replies, errors and pauses do, one poll at most
is past the flag, the flag is set exactly while one is, and what has been handled is the part of Telegram's queue below the
offset, nothing twice and nothing left out. -/
theorem handled_eq (sorted : queue.Pairwise (·.updateId < ·.updateId))
    (run : Reaches (recording (Bot.step config) recordUpdates) (Served queue) (⟨.initial, []⟩, ⟨[], [], 0⟩) (p, g)) :
    g.handled = queue.filter (fun u => u.updateId < p.shared.updateOffset) ∧
      p.calls.countP BotCall.active = if p.shared.isPolling then 1 else 0 := by
  have inv := inOrder_of_run sorted run
  exact ⟨inv.handled, (countP_active p.calls).trans inv.one⟩

/-- **The subscriptions are what the commands make of them.** Between two polls the table is the one the handled updates
give when their commands are applied to an empty table one after another, less those whose statement failed; at any time it
has no row twice, so that a notification goes to every subscribed chat once. -/
theorem subscriptions_eq (sorted : queue.Pairwise (·.updateId < ·.updateId))
    (run : Reaches (recording (Bot.step config) recordUpdates) (Served queue) (⟨.initial, []⟩, ⟨[], [], 0⟩) (p, g)) :
    (p.shared.isPolling = false → p.shared.subscriptions = interpret config g.effective ∧
      (g.lost = 0 → p.shared.subscriptions = interpret config (queue.filter fun u => u.updateId < p.shared.updateOffset))) ∧
    g.effective.Sublist (queue.filter fun u => u.updateId < p.shared.updateOffset) ∧
    ∀ address text s' t', (BotCall.notifySubscribers address text).resume config p.shared .executed = some (s', t') →
      ∃ chats : List ℤ, chats.Nodup ∧
        (∀ chatId, chatId ∈ chats ↔ (⟨chatId, address⟩ : TelegramSubscription) ∈ p.shared.subscriptions) ∧
        s'.posts = p.shared.posts ++ chats.map (·, text) := by
  have inv := inOrder_of_run sorted run
  have sublist := inv.sublist
  rw [inv.handled] at sublist
  refine ⟨fun free => ⟨inv.idle free, fun none => ?_⟩, sublist, ?_⟩
  · have length := inv.lost
    rw [none, add_zero] at length
    rw [inv.idle free, inv.sublist.eq_of_length length.symm, inv.handled]
  · rintro address text s' t' resumed
    cases resumed
    refine ⟨(p.shared.getSubscriptions address).map (·.telegramChatId), ?_, fun chatId => ?_, ?_⟩
    · apply List.Nodup.map_on _ (inv.nodup.filter _)
      intro x x_member y y_member same
      have x_address := (List.mem_filter.mp x_member).2
      have y_address := (List.mem_filter.mp y_member).2
      obtain ⟨xChat, xAddress⟩ := x
      obtain ⟨yChat, yAddress⟩ := y
      simp only [decide_eq_true_eq] at x_address y_address same
      rw [same, x_address, y_address]
    · constructor
      · intro member
        obtain ⟨⟨chat, addr⟩, row, rfl⟩ := List.mem_map.mp member
        obtain ⟨row, same⟩ := List.mem_filter.mp row
        have same : addr = address := of_decide_eq_true same
        rw [← same]
        exact row
      · intro row
        exact List.mem_map.mpr ⟨_, List.mem_filter.mpr ⟨row, decide_eq_true rfl⟩, rfl⟩
    · rw [List.map_map]
      rfl

end

/-! ## A slow reply, a tick beside it and an answer that is lost -/

namespace Chat

def config : BotConfig := ⟨fun _ _ => some [], ⟨none, some "mainnet", false, true⟩⟩

def queue : List Update :=
  [⟨5, some ⟨some "/subscribe be1a", 1⟩⟩, ⟨7, some ⟨some "/subscribe be1a", 1⟩⟩, ⟨8, some ⟨some "hello", 2⟩⟩]

def events : List BotEvent :=
  [.start .pollUpdates, .resume 0 (.clock 0), .start .pollUpdates, .resume 1 (.clock 2000),
    .resume 0 (.updates [⟨5, some ⟨some "/subscribe be1a", 1⟩⟩]), .resume 0 .executed, .resume 0 .executed,
    .resume 0 (.failed none 3000), .start .pollUpdates, .resume 2 (.clock 4000),
    .resume 2 (.updates [⟨7, some ⟨some "/subscribe be1a", 1⟩⟩]), .resume 2 .executed, .resume 2 .executed,
    .resume 2 .executed]

end Chat

theorem handled_eq_chat : ∃ q, Reaches (recording (Bot.step Chat.config) recordUpdates) (Served Chat.queue)
      (⟨.initial, []⟩, ⟨[], [], 0⟩) q ∧ q.1.shared.updateOffset = 8 ∧ q.1.calls.length = 3 ∧
    q.2.handled = Chat.queue.filter (fun u => u.updateId < q.1.shared.updateOffset) ∧
    q.1.calls.countP BotCall.active = if q.1.shared.isPolling then 1 else 0 := by
  obtain ⟨q, run, offset, calls⟩ := exists_reaches (recording (Bot.step Chat.config) recordUpdates) (Served Chat.queue)
    (⟨.initial, []⟩, ⟨[], [], 0⟩) Chat.events
    (fun q => q.1.shared.updateOffset = 8 ∧ q.1.calls.length = 3) (by decide +kernel)
  exact ⟨q, run, offset, calls, handled_eq (by decide) run⟩

theorem subscriptions_eq_chat : ∃ q, Reaches (recording (Bot.step Chat.config) recordUpdates) (Served Chat.queue)
      (⟨.initial, []⟩, ⟨[], [], 0⟩) q ∧ q.1.shared.subscriptions = [⟨1, "be1a"⟩] ∧
    q.1.shared.subscriptions = interpret Chat.config (Chat.queue.filter fun u => u.updateId < q.1.shared.updateOffset) := by
  obtain ⟨q, run, rows, free, none⟩ := exists_reaches (recording (Bot.step Chat.config) recordUpdates) (Served Chat.queue)
    (⟨.initial, []⟩, ⟨[], [], 0⟩) Chat.events
    (fun q => q.1.shared.subscriptions = [⟨1, "be1a"⟩] ∧ q.1.shared.isPolling = false ∧ q.2.lost = 0) (by decide +kernel)
  exact ⟨q, run, rows, ((subscriptions_eq (by decide) run).1 free).2 none⟩

end ElektronPool.Telegram
