import ElektronPool.Async.Pool
import ElektronPool.Js.OrderedMap

/-!
# AuthService

The two logins of the miner account (a signed message, or a payment of the challenge's
amount), the challenge store behind them and the chain they look at. A request that has
arrived is a call of the pool; the parties outside (holders of keys, payers, miners of
blocks, the clock) act on the shared state.
-/

namespace ElektronPool.Auth
set_option autoImplicit false
open Async Js

structure IChallenge where
  nonce : String
  requiredAmountSats : ℕ
  expiresAt : ℤ
  deriving DecidableEq

/-- An unspent output; `scantxoutset` sees it once it is confirmed. -/
structure Utxo where
  address : String
  amountSats : ℕ
  confirmed : Bool
  deriving DecidableEq

/-- `signed` are the pairs of an address and a message its holder has signed, `tokens` the
`sub` claims of the tokens issued. -/
structure AuthState where
  now : ℤ
  challenges : OrderedMap String IChallenge
  utxos : List Utxo
  signed : List (String × String)
  tokens : List String

/-- `bitcoinMessage.verify` and the JWT_SECRET of the environment. -/
structure AuthConfig where
  verify : (message address signature : String) → Except String Bool
  jwtSecret : Option String

def challengeTtlMs : ℤ := 30 * 60 * 1000
def onchainAmountMinSats : ℕ := 1000
def onchainAmountRangeSats : ℕ := 99000

/-! ## AuthChallengeStore -/

namespace AuthState

/-- `issue`, with the random nonce and the random number below the range. -/
def issue (s : AuthState) (address nonce : String) (draw : ℕ) : AuthState × IChallenge :=
  let challenge := ⟨nonce, onchainAmountMinSats + draw, s.now + challengeTtlMs⟩
  ({ s with challenges := s.challenges.set address challenge }, challenge)

/-- The pending challenge of an address, unless it has expired. -/
def pending (s : AuthState) (address : String) : Option IChallenge :=
  (s.challenges.get address).filter fun c => ¬ c.expiresAt < s.now

def consume (s : AuthState) (address : String) : AuthState :=
  { s with challenges := s.challenges.erase address }

/-- `peek`: an expired challenge is dropped on the way. -/
def peek (s : AuthState) (address : String) : AuthState × Option IChallenge :=
  match s.challenges.get address with
  | none => (s, none)
  | some challenge => if challenge.expiresAt < s.now then (s.consume address, none) else (s, some challenge)

/-- `BitcoinRpcService.scanAddressForAmountSats`: is there a confirmed output of that amount? -/
def scanAddressForAmountSats (s : AuthState) (address : String) (expectedAmountSats : ℕ) : Bool :=
  s.utxos.any fun u => u.address = address ∧ u.confirmed = true ∧ u.amountSats = expectedAmountSats

end AuthState

/-! ## The requests -/

def buildMessage (address nonce : String) : String :=
  "Sign this message to log in to the Elektron Net PPLNS Pool.\n\nAddress: " ++ address ++ "\nNonce: " ++ nonce ++
    "\n\nThis request will not move any funds."

def noPendingChallenge : String :=
  "No pending login challenge for this address (it may have expired) -- request a new one"

def jwtSecretMissing : String :=
  "JWT_SECRET is not configured (or too short) -- set a random 32+ character value in .env"

def getJwtSecret (config : AuthConfig) : Except String String :=
  match config.jwtSecret with
  | none => .error jwtSecretMissing
  | some secret => if secret.length < 16 then .error jwtSecretMissing else .ok secret

/-- Where a request stands. -/
inductive AuthCall where
  | createChallenge (address : String)
  | login (address signature : String)
  | loginOnChain (address : String)
  /-- awaits scantxoutset, with the challenge it peeked -/
  | scan (address : String) (challenge : IChallenge)
  /-- awaits signAsync -/
  | issueToken (address : String)
  | challenged (message address : String) (amountSats : ℕ)
  | accessToken (sub : String)
  | rejected (message : String)
  deriving DecidableEq

/-- How a request goes on. `scanned false` is a scan that did not succeed. -/
inductive AuthAnswer where
  | drawn (nonce : String) (draw : ℕ)
  | handled
  | scanned (success : Bool)
  | threw (message : String)
  deriving DecidableEq

/-- The random number an answer brings. -/
def AuthAnswer.draw : AuthAnswer → Option ℕ
  | .drawn _ draw => some draw
  | _ => none

namespace AuthCall

/-- `issueToken`, up to its await. -/
def startIssue (config : AuthConfig) (address : String) : AuthCall :=
  match getJwtSecret config with
  | .ok _ => .issueToken address
  | .error message => .rejected message

/-- `login`, once a challenge is found. -/
def checkSignature (config : AuthConfig) (s : AuthState) (address signature : String) (challenge : IChallenge) :
    AuthState × AuthCall :=
  match config.verify (buildMessage address challenge.nonce) address signature with
  | .error e => (s, .rejected ("Invalid signature: " ++ e))
  | .ok false => (s, .rejected "Signature does not match address")
  | .ok true => (s.consume address, startIssue config address)

def noMatchingPayment (address : String) (challenge : IChallenge) : String :=
  "No matching on-chain payment seen yet. Send yourself (self-send) exactly " ++
    toString challenge.requiredAmountSats ++ " lep from " ++ address ++ ", wait for it to confirm, then try again."

/-- `loginOnChain`, once the scan has ended. -/
def checkPayment (config : AuthConfig) (s : AuthState) (address : String) (challenge : IChallenge) (success : Bool) :
    AuthState × AuthCall :=
  if success && s.scanAddressForAmountSats address challenge.requiredAmountSats then
    (s.consume address, startIssue config address)
  else (s, .rejected (noMatchingPayment address challenge))

def resume (config : AuthConfig) (s : AuthState) : AuthCall → AuthAnswer → Option (AuthState × AuthCall)
  | .createChallenge address, .drawn nonce draw =>
    if draw < onchainAmountRangeSats then
      let (s, challenge) := s.issue address nonce draw
      some (s, .challenged (buildMessage address challenge.nonce) address challenge.requiredAmountSats)
    else none
  | .login address signature, .handled =>
    match s.peek address with
    | (s, none) => some (s, .rejected noPendingChallenge)
    | (s, some challenge) => some (checkSignature config s address signature challenge)
  | .loginOnChain address, .handled =>
    match s.peek address with
    | (s, none) => some (s, .rejected noPendingChallenge)
    | (s, some challenge) => some (s, .scan address challenge)
  | .scan address challenge, .scanned success => some (checkPayment config s address challenge success)
  | .scan _ _, .threw message => some (s, .rejected message)
  | .issueToken address, .handled => some ({ s with tokens := s.tokens ++ [address] }, .accessToken address)
  | .issueToken _, .threw message => some (s, .rejected message)
  | _, _ => none

def isEntry : AuthCall → Bool
  | .createChallenge _ | .login .. | .loginOnChain _ => true
  | _ => false

end AuthCall

/-! ## What a request can do -/

namespace AuthState
variable (s : AuthState)

theorem pending_consume {address other : String} {c : IChallenge} (live : c ∈ (s.consume address).pending other) :
    c ∈ s.pending other := by
  simp only [pending, consume, OrderedMap.get_erase] at live ⊢
  split at live
  · cases live
  · exact live

theorem pending_issue {address other nonce : String} {draw : ℕ} {c : IChallenge}
    (live : c ∈ (s.issue address nonce draw).1.pending other) :
    c ∈ s.pending other ∨ (other = address ∧ c.requiredAmountSats = onchainAmountMinSats + draw) := by
  simp only [pending, issue, OrderedMap.get_set] at live ⊢
  split at live
  · rename_i same
    obtain ⟨made, -⟩ := Option.mem_filter_iff.mp live
    cases made
    exact .inr ⟨same, rfl⟩
  · exact .inl live

theorem peek_some {s' : AuthState} {address : String} {c : IChallenge} (peeked : s.peek address = (s', some c)) :
    s' = s ∧ c ∈ s.pending address := by
  unfold peek at peeked
  split at peeked
  · cases peeked
  · rename_i found
    split at peeked
    · cases peeked
    · rename_i fresh
      cases peeked
      refine ⟨rfl, ?_⟩
      rw [pending, found]
      simpa using fresh

/-- A request that finds no challenge has at most dropped one that had expired. -/
theorem peek_none {s' : AuthState} {address : String} (peeked : s.peek address = (s', none)) :
    s' = s ∨ s' = s.consume address ∧ ∀ c ∈ s.challenges.get address, c.expiresAt < s.now := by
  unfold peek at peeked
  split at peeked
  · cases peeked
    exact .inl rfl
  · rename_i found
    split at peeked
    · rename_i expired
      cases peeked
      refine .inr ⟨rfl, fun c here => ?_⟩
      rw [found] at here
      cases here
      exact expired
    · cases peeked

end AuthState

/-- The branches of `resume`. -/
inductive AuthBranch (config : AuthConfig) (s : AuthState) : AuthCall → AuthAnswer → AuthState → AuthCall → Prop
  | issued {address nonce message : String} {draw amountSats : ℕ} :
    AuthBranch config s (.createChallenge address) (.drawn nonce draw) (s.issue address nonce draw).1
      (.challenged message address amountSats)
  | missing {t : AuthCall} {s' : AuthState} (address : String)
    (named : (∃ signature, t = .login address signature) ∨ t = .loginOnChain address)
    (peeked : s.peek address = (s', none)) : AuthBranch config s t .handled s' (.rejected noPendingChallenge)
  | invalid {address signature message : String} {c : IChallenge} (live : c ∈ s.pending address)
    (refused : config.verify (buildMessage address c.nonce) address signature ≠ .ok true) :
    AuthBranch config s (.login address signature) .handled s (.rejected message)
  | verified {address signature : String} {c : IChallenge} (live : c ∈ s.pending address)
    (valid : config.verify (buildMessage address c.nonce) address signature = .ok true) :
    AuthBranch config s (.login address signature) .handled (s.consume address) (AuthCall.startIssue config address)
  | scanning {address : String} {c : IChallenge} (live : c ∈ s.pending address) :
    AuthBranch config s (.loginOnChain address) .handled s (.scan address c)
  | unpaid {address message : String} {c : IChallenge} {success : Bool}
    (absent : (success && s.scanAddressForAmountSats address c.requiredAmountSats) = false) :
    AuthBranch config s (.scan address c) (.scanned success) s (.rejected message)
  | paid {address : String} {c : IChallenge} {success : Bool} (scanned : success = true)
    (found : s.scanAddressForAmountSats address c.requiredAmountSats = true) :
    AuthBranch config s (.scan address c) (.scanned success) (s.consume address) (AuthCall.startIssue config address)
  | token {address : String} :
    AuthBranch config s (.issueToken address) .handled { s with tokens := s.tokens ++ [address] } (.accessToken address)
  | threw {t : AuthCall} {message : String} (awaits : (∃ address c, t = .scan address c) ∨ ∃ address, t = .issueToken address) :
    AuthBranch config s t (.threw message) s (.rejected message)

theorem AuthCall.authBranch {config : AuthConfig} {s s' : AuthState} {t t' : AuthCall} {a : AuthAnswer}
    (resumed : t.resume config s a = some (s', t')) : AuthBranch config s t a s' t' := by
  unfold AuthCall.resume at resumed
  split at resumed
  · split at resumed
    · cases resumed
      exact .issued
    · cases resumed
  · split at resumed
    · rename_i peeked
      cases resumed
      exact .missing _ (.inl ⟨_, rfl⟩) peeked
    · rename_i c peeked
      obtain ⟨rfl, live⟩ := s.peek_some peeked
      simp only [checkSignature, Option.some.injEq] at resumed
      split at resumed
      · rename_i failed
        cases resumed
        exact .invalid live fun same => by rw [failed] at same; cases same
      · rename_i failed
        cases resumed
        exact .invalid live fun same => by rw [failed] at same; cases same
      · rename_i valid
        cases resumed
        exact .verified live valid
  · split at resumed
    · rename_i peeked
      cases resumed
      exact .missing _ (.inr rfl) peeked
    · rename_i c peeked
      obtain ⟨rfl, live⟩ := s.peek_some peeked
      cases resumed
      exact .scanning live
  · simp only [checkPayment, Option.some.injEq] at resumed
    split at resumed
    · rename_i found
      obtain ⟨scanned, found⟩ := Bool.and_eq_true_iff.mp found
      cases resumed
      exact .paid scanned found
    · rename_i absent
      cases resumed
      exact .unpaid (Bool.eq_false_iff.mpr absent)
  · cases resumed
    exact .threw (.inl ⟨_, _, rfl⟩)
  · cases resumed
    exact .token
  · cases resumed
    exact .threw (.inr ⟨_, rfl⟩)
  · cases resumed

/-! ## The world around -/

/-- A request arrives or goes on, or someone outside acts. A payer pays any address; only the
holder of an address spends its outputs. -/
inductive AuthEvent where
  | request (event : Event AuthCall AuthAnswer)
  | tick (ms : ℕ)
  | sign (address message : String)
  | pay (payer address : String) (amountSats : ℕ)
  | confirm (output : ℕ)
  | spend (output : ℕ)
  deriving DecidableEq

abbrev World := Pool AuthState AuthCall

/-- What happens outside the pool. -/
def AuthState.outside (s : AuthState) : AuthEvent → AuthState
  | .request _ => s
  | .tick ms => { s with now := s.now + ms }
  | .sign address message => { s with signed := (address, message) :: s.signed }
  | .pay _ address amountSats => { s with utxos := s.utxos ++ [⟨address, amountSats, false⟩] }
  | .confirm output => { s with utxos := s.utxos.modify output fun u => { u with confirmed := true } }
  | .spend output => { s with utxos := s.utxos.eraseIdx output }

def World.step (config : AuthConfig) (w : World) : AuthEvent → Option World
  | .request event => Pool.step AuthCall.isEntry (AuthCall.resume config) w event
  | outside => some ⟨w.shared.outside outside, w.calls⟩

end ElektronPool.Auth
