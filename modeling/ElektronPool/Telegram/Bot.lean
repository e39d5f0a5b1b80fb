import ElektronPool.Async.Pool
import ElektronPool.Pplns.Batches
import ElektronPool.Stratum.Handshake

/-!
# TelegramService

The bot: a timer asks Telegram for updates every two seconds whether or not an earlier request
has come back, and each update is a command of some chat. Its commands change the table of
subscriptions, from which the chats to notify are read. One state of `BotCall` for each await.
-/

namespace ElektronPool.Telegram
set_option autoImplicit false
open Js Async

/-! ## Data -/

structure Message where
  text : Option String
  chatId : ℤ
  deriving DecidableEq

structure Update where
  updateId : ℕ
  message : Option Message
  deriving DecidableEq

/-- `telegram_subscriptions_entity`. -/
structure TelegramSubscription where
  telegramChatId : ℤ
  address : String
  deriving DecidableEq

/-- `posts` are the `sendMessage` requests made so far, with their chat and text. -/
structure BotState where
  updateOffset : ℕ
  conflictBackoffUntil : ℤ
  isPolling : Bool
  subscriptions : List TelegramSubscription
  posts : List (ℤ × String)

namespace BotState

def initial : BotState := ⟨0, 0, false, [], []⟩

def sendMessage (s : BotState) (chatId : ℤ) (text : String) : BotState := { s with posts := s.posts ++ [(chatId, text)] }

/-! ## TelegramSubscriptionsService -/

def getSubscriptions (s : BotState) (address : String) : List TelegramSubscription :=
  s.subscriptions.filter fun row => row.address = address

def getSubscriptionsForChat (s : BotState) (chatId : ℤ) : List TelegramSubscription :=
  s.subscriptions.filter fun row => row.telegramChatId = chatId

/-- The rows that the DELETE of `removeSubscription` finds. -/
def subscriptionsOf (s : BotState) (chatId : ℤ) (address : String) : List TelegramSubscription :=
  s.subscriptions.filter fun row => row.telegramChatId = chatId ∧ row.address = address

end BotState

/-! ## Commands -/

inductive Command where
  | unsubscribe (address : Option String)
  | subscribe (address : Option String)
  | list
  | balance (address : Option String)
  | help
  | other
  deriving DecidableEq

/-- What follows the command word, `none` where nothing does. -/
def extractArg (text command : List Char) : Option String :=
  let rest := Stratum.trim (text.drop command.length)
  if 0 < rest.length then some (String.ofList rest) else none

def readCommand (message : String) : Command :=
  let text := Stratum.trim message.toList
  let startsWith (command : String) := command.toList.isPrefixOf text
  if startsWith "/unsubscribe" then .unsubscribe (extractArg text "/unsubscribe".toList)
  else if startsWith "/subscribe" then .subscribe (extractArg text "/subscribe".toList)
  else if startsWith "/list" then .list
  else if startsWith "/balance" then .balance (extractArg text "/balance".toList)
  else if startsWith "/help" || startsWith "/start" then .help
  else .other

/-- What the bot is configured with; `toOutputScript` is bitcoinjs. -/
structure BotConfig where
  toOutputScript : Stratum.Network → String → Option Buffer
  stratum : Stratum.StratumConfig

def BotConfig.isValidAddress (config : BotConfig) (address : String) : Bool :=
  decide (address.length ≥ 1) && Pplns.BitcoinAddressValidator.validate config.toOutputScript config.stratum address

/-! ## Texts -/

def helpText : String := "\n".intercalate [
  "Elektron Net PPLNS Pool bot commands:",
  "/subscribe <address> - get notified here about blocks found and payouts for this address",
  "/unsubscribe <address> - stop notifications for this address",
  "/unsubscribe - stop all notifications for this chat",
  "/list - show which addresses you are subscribed to",
  "/balance <address> - show the pending (not yet paid out) balance for this address",
  "/help - show this message"]

/-- `toLocaleString('en-US')` of a natural number: the digits in groups of three. -/
def groupDigits (n : ℕ) : String :=
  let groups := (Nat.toDigits 10 n).reverse.toChunks 3
  String.ofList ([','].intercalate (groups.map List.reverse).reverse)

example : groupDigits 1234567 = "1,234,567" := by decide

def removedAllText (removed : ℕ) : String :=
  if removed > 0 then "Unsubscribed from all " ++ toString removed ++ " address(es)."
  else "You weren't subscribed to anything."

def removedText (removed : Bool) (address : String) : String :=
  if removed then "Unsubscribed from " ++ address ++ "." else "You weren't subscribed to " ++ address ++ "."

def subscribedText (address : String) : String :=
  "Subscribed! You'll be notified here about blocks found and payouts for " ++ address ++ "."

def listText (rows : List TelegramSubscription) : String :=
  if rows.length > 0 then "Subscribed addresses:\n" ++ "\n".intercalate (rows.map (·.address))
  else "You're not subscribed to any address yet. Use /subscribe <address>."

def balanceText (address : String) (pendingSats : ℕ) : String :=
  "Pending (not yet paid out) balance for " ++ address ++ ": " ++ groupDigits pendingSats ++ " lep"

def blockFoundText (height : ℤ) (result : String) : String := "Block Found! Result: " ++ result ++ ", Height: " ++ toString height

def payoutSentText (amountSats : ℤ) (txid : String) : String :=
  "Payout sent: " ++ toString amountSats ++ " lep (txid: " ++ txid ++ ")"

/-! ## The calls -/

/-- Where a call stands: a poll of the timer, or a notification of the subscribers of an address. `rest` are the
updates of the reply that are still to come. -/
inductive BotCall where
  | pollUpdates
  | getUpdates (offset : ℕ)
  | removeAllSubscriptions (chatId : ℤ) (rest : List Update)
  | removeSubscription (chatId : ℤ) (address : String) (rest : List Update)
  /-- the SELECT of saveSubscription -/
  | findSubscription (chatId : ℤ) (address : String) (rest : List Update)
  /-- its INSERT -/
  | saveSubscription (chatId : ℤ) (address : String) (rest : List Update)
  | getSubscriptionsForChat (chatId : ℤ) (rest : List Update)
  | getPendingTotal (chatId : ℤ) (address : String) (rest : List Update)
  /-- the answer to the chat is on its way -/
  | sendMessage (rest : List Update)
  /-- the await of handleMessage -/
  | handled (rest : List Update)
  | notifySubscribers (address text : String)
  | notifying
  | returned
  deriving DecidableEq

/-- How an await ends. An error has a status when it is the reply of the Telegram API. -/
inductive BotAnswer where
  | clock (nowMs : ℤ)
  | updates (result : List Update)
  | executed
  | pendingTotal (sats : ℕ)
  | failed (status : Option ℕ) (nowMs : ℤ)
  deriving DecidableEq

namespace BotCall

/-- `handleMessage` up to its first await. -/
def handleMessage (config : BotConfig) (s : BotState) (rest : List Update) : Option Message → BotState × BotCall
  | some ⟨some text, chatId⟩ =>
    match readCommand text with
    | .unsubscribe none => (s, .removeAllSubscriptions chatId rest)
    | .unsubscribe (some address) => (s, .removeSubscription chatId address rest)
    | .subscribe address =>
      match address.filter config.isValidAddress with
      | none => (s.sendMessage chatId "Invalid address. Usage: /subscribe <address>", .sendMessage rest)
      | some address => (s, .findSubscription chatId address rest)
    | .list => (s, .getSubscriptionsForChat chatId rest)
    | .balance address =>
      match address.filter config.isValidAddress with
      | none => (s.sendMessage chatId "Usage: /balance <address>", .sendMessage rest)
      | some address => (s, .getPendingTotal chatId address rest)
    | .help => (s.sendMessage chatId helpText, .sendMessage rest)
    | .other => (s, .handled rest)
  | _ => (s, .handled rest)

/-- The loop of `pollUpdates` from its next update on, and its `finally`. -/
def nextUpdate (config : BotConfig) (s : BotState) : List Update → BotState × BotCall
  | [] => ({ s with isPolling := false }, .returned)
  | update :: rest => handleMessage config { s with updateOffset := update.updateId + 1 } rest update.message

/-- The `catch` of `pollUpdates`, and its `finally`. -/
def failed (s : BotState) (status : Option ℕ) (nowMs : ℤ) : BotState × BotCall :=
  ({ s with
      conflictBackoffUntil := if status = some 409 then nowMs + 60000 else s.conflictBackoffUntil
      isPolling := false }, .returned)

def resume (config : BotConfig) (s : BotState) : BotCall → BotAnswer → Option (BotState × BotCall)
  | .pollUpdates, .clock nowMs =>
    if nowMs < s.conflictBackoffUntil then some (s, .returned)
    else if s.isPolling then some (s, .returned)
    else some ({ s with isPolling := true }, .getUpdates s.updateOffset)
  | .getUpdates _, .updates result => some (nextUpdate config s result)
  | .removeAllSubscriptions chatId rest, .executed =>
    let removed := (s.getSubscriptionsForChat chatId).length
    some ({ s with subscriptions := s.subscriptions.filter fun row => ¬ row.telegramChatId = chatId }.sendMessage chatId
      (removedAllText removed), .sendMessage rest)
  | .removeSubscription chatId address rest, .executed =>
    let removed := decide (0 < (s.subscriptionsOf chatId address).length)
    some ({ s with subscriptions := s.subscriptions.filter fun row =>
        ¬ (row.telegramChatId = chatId ∧ row.address = address) }.sendMessage chatId (removedText removed address),
      .sendMessage rest)
  | .findSubscription chatId address rest, .executed =>
    if s.subscriptionsOf chatId address = [] then some (s, .saveSubscription chatId address rest)
    else some (s.sendMessage chatId (subscribedText address), .sendMessage rest)
  | .saveSubscription chatId address rest, .executed =>
    some ({ s with subscriptions := s.subscriptions ++ [TelegramSubscription.mk chatId address] }.sendMessage chatId
      (subscribedText address),
      .sendMessage rest)
  | .getSubscriptionsForChat chatId rest, .executed =>
    some (s.sendMessage chatId (listText (s.getSubscriptionsForChat chatId)), .sendMessage rest)
  | .getPendingTotal chatId address rest, .pendingTotal sats =>
    some (s.sendMessage chatId (balanceText address sats), .sendMessage rest)
  | .sendMessage rest, .executed => some (s, .handled rest)
  | .handled rest, .executed => some (nextUpdate config s rest)
  | .notifySubscribers address text, .executed =>
    some ({ s with posts := s.posts ++ (s.getSubscriptions address).map fun row => (row.telegramChatId, text) }, .notifying)
  | .notifying, .executed | .notifySubscribers .., .failed .. | .notifying, .failed .. => some (s, .returned)
  | .pollUpdates, .failed .. | .handled _, .failed .. | .returned, .failed .. => none
  | _, .failed status nowMs => some (failed s status nowMs)
  | _, _ => none

/-- A tick of the timer, or a notification. -/
def isEntry : BotCall → Bool
  | .pollUpdates | .notifySubscribers .. => true
  | _ => false

end BotCall

abbrev Bot := Async.Pool BotState BotCall

abbrev BotEvent := Async.Event BotCall BotAnswer

def Bot.step (config : BotConfig) : Bot → BotEvent → Option Bot := Pool.step BotCall.isEntry (BotCall.resume config)

end ElektronPool.Telegram
