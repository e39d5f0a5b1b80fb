import ElektronPool.Auth.Ownership
import ElektronPool.Pplns.Thresholds

/-!
# The settings of a miner account

`MinerAccountController` behind `JwtAuthGuard`, with the table of `MinerAccountSettingsService`. A
request that has arrived is a call of its own pool, beside that of the logins: the guard looks at its
token, the pipe at its body, and then the database statements follow one await after another, between which
other requests for the same address may come.
-/

namespace ElektronPool.Auth
set_option autoImplicit false
open Async Js

/-! ## The body of a PATCH -/

inductive JsonValue where
  | null
  | bool (value : Bool)
  | number (value : Number)
  /-- a string, an array or an object -/
  | other
  deriving DecidableEq

/-- The properties the pipe lets through, `none` where the body does not have them. -/
structure UpdateMinerAccountSettingsDto where
  payoutThresholdSatsOverride : Option JsonValue
  notifyOnPayout : Option JsonValue
  deriving DecidableEq

/-- `@IsOptional() @ValidateIf(not null) @IsInt() @Min(1)`. -/
def isThreshold : Option JsonValue → Bool
  | none | some .null => true
  | some (.number (.fin q)) => decide (q.den = 1 ∧ 1 ≤ q)
  | _ => false

/-- `@IsOptional() @IsBoolean()`. -/
def isOptionalBoolean : Option JsonValue → Bool
  | none | some .null | some (.bool _) => true
  | _ => false

def UpdateMinerAccountSettingsDto.isValid (body : UpdateMinerAccountSettingsDto) : Bool :=
  isThreshold body.payoutThresholdSatsOverride && isOptionalBoolean body.notifyOnPayout

/-- The columns an UPDATE sets: `none` leaves a column alone, `some none` sets it to null. -/
structure Changes where
  payoutThresholdSatsOverride : Option (Option ℤ)
  notifyOnPayout : Option (Option Bool)
  deriving DecidableEq

/-- `Object.keys(changes).length > 0`. -/
def Changes.isEmpty (changes : Changes) : Bool :=
  changes.payoutThresholdSatsOverride.isNone && changes.notifyOnPayout.isNone

/-- The changes `updateSettings` takes from a body that is valid. -/
def changesOf (body : UpdateMinerAccountSettingsDto) : Changes where
  payoutThresholdSatsOverride := body.payoutThresholdSatsOverride.map fun
    | .number (.fin q) => some q.num
    | _ => none
  notifyOnPayout := body.notifyOnPayout.map fun
    | .bool value => some value
    | _ => none

/-! ## The table -/

/-- `miner_account_settings_entity`. -/
structure MinerAccountSettings where
  address : String
  payoutThresholdSatsOverride : Option ℤ
  notifyOnPayout : Bool
  deriving DecidableEq

abbrev SettingsTable := List MinerAccountSettings

namespace SettingsTable

def findOne (rows : SettingsTable) (address : String) : Option MinerAccountSettings :=
  rows.find? fun row => row.address = address

/-- INSERT OR IGNORE of the row of an address. -/
def insertOrIgnore (rows : SettingsTable) (address : String) : SettingsTable :=
  if (rows.findOne address).isSome then rows else rows ++ [⟨address, none, false⟩]

/-- The columns of one row. A null is against the NOT NULL of `notifyOnPayout`. -/
def change (changes : Changes) (row : MinerAccountSettings) : MinerAccountSettings where
  address := row.address
  payoutThresholdSatsOverride := changes.payoutThresholdSatsOverride.getD row.payoutThresholdSatsOverride
  notifyOnPayout := (changes.notifyOnPayout.getD none).getD row.notifyOnPayout

/-- UPDATE … WHERE address; `none` where a constraint fails. -/
def update (rows : SettingsTable) (address : String) (changes : Changes) : Option SettingsTable :=
  if changes.notifyOnPayout = some none ∧ (rows.findOne address).isSome then none
  else some (rows.map fun row => if row.address = address then change changes row else row)

/-- What `getSettings` answers for an address: a missing row counts as one that has not been changed. -/
def view (rows : SettingsTable) (address : String) : Option ℤ × Bool :=
  match rows.findOne address with
  | some row => (row.payoutThresholdSatsOverride, row.notifyOnPayout)
  | none => (none, false)

/-- `WHERE address IN addresses AND payoutThresholdSatsOverride IS NOT NULL`. -/
def getOverridesByAddress (rows : SettingsTable) (addresses : List String) : OrderedMap String ℤ :=
  (rows.filter fun row => row.address ∈ addresses).filterMap fun row =>
    row.payoutThresholdSatsOverride.map fun threshold => (row.address, threshold)

/-- `WHERE address IN addresses AND notifyOnPayout`. -/
def getNotifyOnPayoutAddresses (rows : SettingsTable) (addresses : List String) : List String :=
  (rows.filter fun row => row.address ∈ addresses ∧ row.notifyOnPayout = true).map (·.address)

end SettingsTable

/-! ## Requests -/

inductive AccountMethod where
  | get
  | patch (body : UpdateMinerAccountSettingsDto)
  deriving DecidableEq

structure AccountRequest where
  address : String
  authorization : Option String
  method : AccountMethod
  deriving DecidableEq

/-- A token that `signAsync` has made. -/
structure IssuedToken where
  text : String
  sub : String
  issuedAt : ℤ
  deriving DecidableEq

/-- `verifyAsync` of the JWT package: the `sub` of a token at a time, if it has one. -/
structure AccountConfig where
  auth : AuthConfig
  verifyAsync : (token secret : String) → (nowMs : ℤ) → Except String (Option String)
  minPayoutThresholdSats : ℕ

/-- Where a request stands. -/
inductive AccountCall where
  | request (request : AccountRequest)
  | getSettings (address : String)
  | insert (address : String) (changes : Changes)
  | update (address : String) (changes : Changes)
  /-- the SELECT at the end of `upsertSettings` -/
  | findOne (address : String)
  | responded (payoutThresholdSatsOverride : Option ℤ) (notifyOnPayout : Bool) (poolDefaultPayoutThresholdSats : ℕ)
  | rejected (status : ℕ) (message : String)
  deriving DecidableEq

/-- How a request goes on. -/
inductive AccountAnswer where
  | executed
  | dbError
  deriving DecidableEq

namespace AccountCall

def unauthorized (message : String) : AccountCall := .rejected 401 message

def serverError : AccountCall := .rejected 500 "Internal server error"

/-- The token behind `Bearer`. -/
def bearer (authorization : Option String) : Option String :=
  authorization.bind fun header =>
    if "Bearer ".toList.isPrefixOf header.toList then some (String.ofList (header.toList.drop 7)) else none

/-- `JwtAuthGuard.canActivate`, with the message of the refusal. -/
def canActivate (config : AccountConfig) (nowMs : ℤ) (r : AccountRequest) : Except String Unit :=
  match bearer r.authorization with
  | none => .error "Missing Bearer token"
  | some token =>
    match (getJwtSecret config.auth).bind fun secret => config.verifyAsync token secret nowMs with
    | .error e => .error ("Invalid or expired token: " ++ e)
    | .ok sub => if some r.address ≠ sub then .error "Token does not grant access to this address" else .ok ()

/-- The pipe and the handler up to its first await. -/
def handle (address : String) : AccountMethod → AccountCall
  | .get => .getSettings address
  | .patch body => if body.isValid then .insert address (changesOf body) else .rejected 400 "Bad Request"

def resume (config : AccountConfig) (nowMs : ℤ) (rows : SettingsTable) :
    AccountCall → AccountAnswer → Option (SettingsTable × AccountCall)
  | .request r, .executed =>
    match canActivate config nowMs r with
    | .error message => some (rows, unauthorized message)
    | .ok () => some (rows, handle r.address r.method)
  | .getSettings address, .executed =>
    some (rows, .responded (rows.view address).1 (rows.view address).2 config.minPayoutThresholdSats)
  | .insert address changes, .executed =>
    some (rows.insertOrIgnore address, if changes.isEmpty then .findOne address else .update address changes)
  | .update address changes, .executed =>
    match rows.update address changes with
    | none => some (rows, serverError)
    | some rows => some (rows, .findOne address)
  | .findOne address, .executed =>
    match rows.findOne address with
    | none => some (rows, serverError)
    | some row =>
      some (rows, .responded row.payoutThresholdSatsOverride row.notifyOnPayout config.minPayoutThresholdSats)
  | .getSettings _, .dbError | .insert .., .dbError | .update .., .dbError | .findOne _, .dbError =>
    some (rows, serverError)
  | _, _ => none

def isEntry : AccountCall → Bool
  | .request _ => true
  | _ => false

end AccountCall

/-! ## The world around -/

/-- The logins, the tokens they gave out, and the settings. -/
structure AccountWorld where
  auth : World
  issued : List IssuedToken
  settings : SettingsTable
  calls : List AccountCall

/-- Something happens at the logins, where `token` is the text of a token that is made, or to a settings request. -/
inductive AccountEvent where
  | auth (event : AuthEvent) (token : String)
  | account (event : Event AccountCall AccountAnswer)
  deriving DecidableEq

def AccountWorld.step (config : AccountConfig) (w : AccountWorld) : AccountEvent → Option AccountWorld
  | .auth event token => (World.step config.auth w.auth event).map fun auth =>
    { w with
      auth := auth
      issued := w.issued ++ (auth.shared.tokens.drop w.auth.shared.tokens.length).map fun sub =>
        ⟨token, sub, auth.shared.now⟩ }
  | .account event =>
    (Pool.step AccountCall.isEntry (AccountCall.resume config w.auth.shared.now) ⟨w.settings, w.calls⟩ event).map
      fun p => { w with settings := p.shared, calls := p.calls }

def AccountWorld.initial (now : ℤ) (utxos : List Utxo) : AccountWorld := ⟨.initial now utxos, [], [], []⟩

/-! ## What a request can do -/

/-- The branches of `resume`. -/
inductive AccountBranch (config : AccountConfig) (nowMs : ℤ) (rows : SettingsTable) :
    AccountCall → AccountAnswer → SettingsTable → AccountCall → Prop
  | granted {r : AccountRequest} (access : AccountCall.canActivate config nowMs r = .ok ()) :
    AccountBranch config nowMs rows (.request r) .executed rows (AccountCall.handle r.address r.method)
  | read {address : String} : AccountBranch config nowMs rows (.getSettings address) .executed rows
      (.responded (rows.view address).1 (rows.view address).2 config.minPayoutThresholdSats)
  | inserted {address : String} {changes : Changes} {t' : AccountCall}
    (next : t' = if changes.isEmpty then .findOne address else .update address changes) :
    AccountBranch config nowMs rows (.insert address changes) .executed (rows.insertOrIgnore address) t'
  | updated {address : String} {changes : Changes} {rows' : SettingsTable} (done : rows.update address changes = some rows') :
    AccountBranch config nowMs rows (.update address changes) .executed rows' (.findOne address)
  | found {address : String} {row : MinerAccountSettings} (here : rows.findOne address = some row) :
    AccountBranch config nowMs rows (.findOne address) .executed rows
      (.responded row.payoutThresholdSatsOverride row.notifyOnPayout config.minPayoutThresholdSats)
  | refused {t : AccountCall} {a : AccountAnswer} {status : ℕ} {message : String}
    (unchanged : ∀ address changes, t = .update address changes → a = .executed → rows.update address changes = none) :
    AccountBranch config nowMs rows t a rows (.rejected status message)

theorem AccountCall.accountBranch {config : AccountConfig} {nowMs : ℤ} {rows rows' : SettingsTable} {t t' : AccountCall}
    {a : AccountAnswer} (resumed : AccountCall.resume config nowMs rows t a = some (rows', t')) :
    AccountBranch config nowMs rows t a rows' t' := by
  unfold AccountCall.resume at resumed
  split at resumed
  · split at resumed
    · cases resumed
      exact .refused (by simp)
    · rename_i access
      cases resumed
      exact .granted access
  · cases resumed
    exact .read
  · cases resumed
    exact .inserted rfl
  · split at resumed
    · rename_i failed
      cases resumed
      refine .refused fun address changes same _ => ?_
      cases same
      exact failed
    · rename_i done
      cases resumed
      exact .updated done
  · split at resumed
    · cases resumed
      exact .refused (by simp)
    · rename_i here
      cases resumed
      exact .found here
  iterate 4
    · cases resumed
      exact .refused (by simp)
  · cases resumed

/-- A step of the world is one of the logins, which leaves the settings alone, or one of a settings request. -/
theorem AccountWorld.step_cases {config : AccountConfig} {w w' : AccountWorld} {e : AccountEvent}
    (moved : w.step config e = some w') :
    (∃ event token auth, e = .auth event token ∧ World.step config.auth w.auth event = some auth ∧
      w' = { w with auth := auth, issued := w.issued ++
        (auth.shared.tokens.drop w.auth.shared.tokens.length).map fun sub => ⟨token, sub, auth.shared.now⟩ }) ∨
    (∃ t, e = .account (.start t) ∧ t.isEntry = true ∧ w' = { w with calls := w.calls ++ [t] }) ∨
    ∃ before t after a rows t', e = .account (.resume before.length a) ∧ w.calls = before ++ t :: after ∧
      AccountBranch config w.auth.shared.now w.settings t a rows t' ∧
      w' = { w with settings := rows, calls := before ++ t' :: after } := by
  cases e with
  | auth event token =>
    obtain ⟨auth, stepped, rfl⟩ := Option.map_eq_some_iff.mp moved
    exact .inl ⟨event, token, auth, rfl, stepped, rfl⟩
  | account event =>
    obtain ⟨p, stepped, rfl⟩ := Option.map_eq_some_iff.mp moved
    obtain ⟨t, rfl, entry, rfl⟩ | ⟨before, t, after, a, rows, t', rfl, calls, resumed, rfl⟩ := Pool.step_cases stepped
    · exact .inr (.inl ⟨t, rfl, entry, rfl⟩)
    · exact .inr (.inr ⟨before, t, after, a, rows, t', rfl, calls, AccountCall.accountBranch resumed, rfl⟩)

/-! ## Who gets at the settings -/

def jwtExpiresInMs : ℤ := 24 * 60 * 60 * 1000

/-- The token a request presents and the `sub` it verifies for. -/
def presented (config : AccountConfig) (nowMs : ℤ) (r : AccountRequest) : Option (String × String) :=
  (AccountCall.bearer r.authorization).bind fun token =>
    match (getJwtSecret config.auth).bind fun secret => config.verifyAsync token secret nowMs with
    | .ok (some sub) => some (token, sub)
    | _ => none

/-- A request's token verifies only if it is one that was made for that `sub` within the last day. -/
def AccountCall.TokenIsGenuine (config : AccountConfig) (w : AccountWorld) : AccountCall → Prop
  | .request r => ∀ v ∈ presented config w.auth.shared.now r, ∃ made ∈ w.issued,
    made.text = v.1 ∧ made.sub = v.2 ∧ w.auth.shared.now < made.issuedAt + jwtExpiresInMs
  | _ => True

def TokensAreGenuine (config : AccountConfig) (w : AccountWorld) : AccountEvent → Prop
  | .account (.resume k _) => ∀ t ∈ w.calls[k]?, t.TokenIsGenuine config w
  | _ => True

/-- A condition on what happens at the logins. -/
def AtLogins (ok : World → AuthEvent → Prop) (w : AccountWorld) : AccountEvent → Prop
  | .auth event _ => ok w.auth event
  | .account _ => True

instance (config : AccountConfig) (w : AccountWorld) : ∀ t : AccountCall, Decidable (t.TokenIsGenuine config w)
  | .request r => inferInstanceAs (Decidable (∀ v ∈ presented config w.auth.shared.now r, ∃ made ∈ w.issued, _ ∧ _ ∧ _))
  | .getSettings _ | .insert .. | .update .. | .findOne _ | .responded .. | .rejected .. => .isTrue trivial

instance (config : AccountConfig) (w : AccountWorld) : ∀ e, Decidable (TokensAreGenuine config w e)
  | .account (.resume k _) => inferInstanceAs (Decidable (∀ t ∈ w.calls[k]?, t.TokenIsGenuine config w))
  | .account (.start _) | .auth .. => .isTrue trivial

instance (ok : World → AuthEvent → Prop) [∀ w e, Decidable (ok w e)] (w : AccountWorld) : ∀ e, Decidable (AtLogins ok w e)
  | .auth event _ => inferInstanceAs (Decidable (ok w.auth event))
  | .account _ => .isTrue trivial

/-- The address whose settings a call is at. -/
def AccountCall.account : AccountCall → Option String
  | .getSettings address | .insert address _ | .update address _ | .findOne address => some address
  | _ => none

theorem presented_of_canActivate {config : AccountConfig} {nowMs : ℤ} {r : AccountRequest}
    (access : AccountCall.canActivate config nowMs r = .ok ()) : ∃ token, presented config nowMs r = some (token, r.address) := by
  unfold AccountCall.canActivate at access
  split at access
  · cases access
  · rename_i token bearer
    split at access
    · cases access
    · rename_i sub verified
      split at access
      · cases access
      · rename_i same
        refine ⟨token, ?_⟩
        rw [presented, bearer, Option.bind_some, verified, ← not_ne_iff.mp same]

theorem account_handle {address a : String} {method : AccountMethod}
    (account : (AccountCall.handle address method).account = some a) : a = address := by
  unfold AccountCall.handle at account
  split at account
  · exact (Option.some.inj account).symm
  · split at account
    · exact (Option.some.inj account).symm
    · cases account

/-- A token that has been given out stays on the list. -/
theorem tokens_of_step {config : AuthConfig} {w w' : World} {e : AuthEvent} (moved : World.step config w e = some w') :
    w.shared.tokens <+: w'.shared.tokens := by
  cases e with
  | request event =>
    obtain ⟨t, rfl, -, rfl⟩ | ⟨before, t, after, a, s', t', rfl, -, resumed, rfl⟩ := Pool.step_cases moved
    · exact List.prefix_rfl
    · cases AuthCall.authBranch resumed with
      | missing address named peeked =>
        rcases w.shared.peek_none peeked with rfl | ⟨rfl, -⟩
        · exact List.prefix_rfl
        · exact List.prefix_rfl
      | token => exact List.prefix_append _ _
      | _ => exact List.prefix_rfl
  | _ =>
    cases moved
    exact List.prefix_rfl

/-- Nobody gets at the settings of the address. -/
structure ShutOut (address : String) (w : AccountWorld) : Prop where
  unproven : Unproven address w.auth
  logins : ∀ made ∈ w.issued, made.sub ∈ w.auth.shared.tokens
  noRow : ∀ row ∈ w.settings, row.address ≠ address
  noCall : ∀ t ∈ w.calls, t.account ≠ some address

section
variable {config : AccountConfig} {address : String} {w w' : AccountWorld} {e : AccountEvent}

/-- A settings call of another address goes on. -/
theorem AccountBranch.noRow {nowMs : ℤ} {rows rows' : SettingsTable} {t t' : AccountCall} {a : AccountAnswer}
    (branch : AccountBranch config nowMs rows t a rows' t') (noRow : ∀ row ∈ rows, row.address ≠ address)
    (elsewhere : t.account ≠ some address) : ∀ row ∈ rows', row.address ≠ address := by
  cases branch with
  | @inserted other changes _ _ =>
    have different : other ≠ address := fun same => elsewhere (congrArg some same)
    intro row member
    unfold SettingsTable.insertOrIgnore at member
    split at member
    · exact noRow row member
    · rcases List.mem_append.mp member with old | new
      · exact noRow row old
      · rw [List.mem_singleton.mp new]
        exact different
  | updated done =>
    unfold SettingsTable.update at done
    split at done
    · cases done
    · cases done
      intro row member
      obtain ⟨row₀, member₀, rfl⟩ := List.mem_map.mp member
      have unchanged : row₀.address ≠ address := noRow row₀ member₀
      split
      · exact unchanged
      · exact unchanged
  | granted | read | found | refused => exact noRow

/-- A call past the guard stays at its address; only the guard lets one in. -/
theorem AccountBranch.account {nowMs : ℤ} {rows rows' : SettingsTable} {t t' : AccountCall} {a : AccountAnswer}
    (branch : AccountBranch config nowMs rows t a rows' t') (at_address : t'.account = some address) :
    t.account = some address ∨ ∃ r token, t = .request r ∧ presented config nowMs r = some (token, address) := by
  cases branch with
  | @granted r access =>
    obtain ⟨token, verified⟩ := presented_of_canActivate access
    have same : address = r.address := account_handle at_address
    exact .inr ⟨r, token, rfl, same ▸ verified⟩
  | inserted next =>
    subst next
    split at at_address
    · exact .inl at_address
    · exact .inl at_address
  | updated => exact .inl at_address
  | read | found | refused => cases at_address

theorem ShutOut.step (shut : ShutOut address w) (genuine : TokensAreGenuine config w e)
    (logins : AtLogins (fun w e => Uninvolved address w e ∧ SignaturesAreSound config.auth w e ∧
      NoMatchingOutput address w e) w e)
    (moved : w.step config e = some w') : ShutOut address w' := by
  obtain ⟨event, token, auth, rfl, stepped, rfl⟩ | ⟨t, rfl, entry, rfl⟩ |
    ⟨before, t, after, a, rows, t', rfl, calls, branch, rfl⟩ :=
    AccountWorld.step_cases moved
  · obtain ⟨uninvolved, sound, condition⟩ := logins
    refine ⟨unproven_step shut.unproven uninvolved sound condition stepped, fun made member => ?_, shut.noRow, shut.noCall⟩
    rcases List.mem_append.mp member with old | new
    · exact (tokens_of_step stepped).subset (shut.logins made old)
    · obtain ⟨sub, fresh, rfl⟩ := List.mem_map.mp new
      exact List.mem_of_mem_drop fresh
  · refine ⟨shut.unproven, shut.logins, shut.noRow, fun u member => ?_⟩
    rcases List.mem_append.mp member with old | new
    · exact shut.noCall u old
    · rw [List.mem_singleton.mp new]
      cases t with
      | request => nofun
      | _ => cases entry
  · have here : t ∈ w.calls := by simp [calls]
    refine ⟨shut.unproven, shut.logins, branch.noRow shut.noRow (shut.noCall t here), fun u member at_address => ?_⟩
    have others : u ∈ w.calls ∨ u = t' := by
      rw [calls]
      simp only [List.mem_append, List.mem_cons] at member ⊢
      tauto
    rcases others with old | rfl
    · exact shut.noCall u old at_address
    · rcases branch.account at_address with before_it | ⟨r, token, rfl, verified⟩
      · exact shut.noCall t here before_it
      · -- the guard has let a request in, so there is a token for the address
        obtain ⟨made, member', -, sub, -⟩ := genuine (.request r) (by simp [calls]) _ verified
        have made_for : made.sub = address := sub
        have token_out : address ∈ w.auth.shared.tokens := by
          rw [← made_for]
          exact shut.logins made member'
        exact shut.unproven.noToken token_out

end

/-- **Nobody else gets at an account.** While the holder of an address signs and spends nothing, and no output at it has
the amount of one of its live challenges, no request gets past the guard to the settings of the address, and there are none:
as long as signatures and tokens cannot be forged, whatever is asked, in whatever order it is handled. -/
theorem shut_out_of_noMatchingOutput {config : AccountConfig} {address : String} {now : ℤ} {utxos : List Utxo}
    {w : AccountWorld} (run : Reaches (AccountWorld.step config)
      (fun w e => TokensAreGenuine config w e ∧ AtLogins (fun w e => Uninvolved address w e ∧
        SignaturesAreSound config.auth w e ∧ NoMatchingOutput address w e) w e) (AccountWorld.initial now utxos) w) :
    (∀ row ∈ w.settings, row.address ≠ address) ∧ ∀ t ∈ w.calls, t.account ≠ some address := by
  have shut : ShutOut address w := by
    apply run.invariant
    · refine ⟨⟨?_, by simp [AccountWorld.initial, World.initial], by simp [AccountWorld.initial, World.initial],
        by simp [AccountWorld.initial, World.initial]⟩, by simp [AccountWorld.initial], by simp [AccountWorld.initial],
        by simp [AccountWorld.initial]⟩
      intro u _ _ c live
      rcases mem_liveChallenges.mp live with pending | scanning
      · cases pending
      · cases scanning
    · rintro w e w' shut ⟨genuine, logins⟩ moved
      exact shut.step genuine logins moved
  exact ⟨shut.noRow, shut.noCall⟩

/-- The one token of this pool is `bob`'s, for a day. -/
def bobsToken : AccountConfig where
  auth := spelledOut
  verifyAsync token _ nowMs :=
    if token = "bobs" then (if nowMs < jwtExpiresInMs then .ok (some "bob") else .error "jwt expired")
    else .error "jwt malformed"
  minPayoutThresholdSats := 100000

/-- `bob` logs in and sets a threshold. With his token he gets at nothing of `alice`, and a day later not at his own. -/
theorem shut_out_of_noMatchingOutput_bob : ∃ w : AccountWorld,
    (w.settings = [⟨"bob", some 5000, false⟩] ∧ w.calls = [.responded (some 5000) false 100000,
      .rejected 401 "Token does not grant access to this address", .rejected 401 "Invalid or expired token: jwt expired"]) ∧
    (∀ row ∈ w.settings, row.address ≠ "alice") ∧ ∀ t ∈ w.calls, t.account ≠ some "alice" := by
  obtain ⟨w, run, done⟩ := exists_reaches (AccountWorld.step bobsToken)
    (fun w e => TokensAreGenuine bobsToken w e ∧ AtLogins (fun w e => Uninvolved "alice" w e ∧
      SignaturesAreSound bobsToken.auth w e ∧ NoMatchingOutput "alice" w e) w e) (AccountWorld.initial 0 [])
    [.auth (.request (.start (.createChallenge "bob"))) "", .auth (.request (.resume 0 (.drawn "01" 5))) "",
      .auth (.sign "bob" (buildMessage "bob" "01")) "",
      .auth (.request (.start (.login "bob" ("bob signs " ++ buildMessage "bob" "01")))) "",
      .auth (.request (.resume 1 .handled)) "", .auth (.request (.resume 1 .handled)) "bobs",
      .account (.start (.request ⟨"bob", some "Bearer bobs", .patch ⟨some (.number (.fin 5000)), none⟩⟩)),
      .account (.resume 0 .executed),
      .account (.start (.request ⟨"alice", some "Bearer bobs", .patch ⟨some (.number (.fin 1)), none⟩⟩)),
      .account (.resume 1 .executed), .account (.resume 0 .executed), .account (.resume 0 .executed),
      .account (.resume 0 .executed), .auth (.tick 86400000) "", .account (.start (.request ⟨"bob", some "Bearer bobs", .get⟩)),
      .account (.resume 2 .executed)]
    (fun w => w.settings = [⟨"bob", some 5000, false⟩] ∧ w.calls = [.responded (some 5000) false 100000,
      .rejected 401 "Token does not grant access to this address", .rejected 401 "Invalid or expired token: jwt expired"])
    (by decide +kernel)
  exact ⟨w, done, shut_out_of_noMatchingOutput run⟩

/-! ## What the table holds -/

namespace SettingsTable
variable {rows rows' : SettingsTable} {address other : String} {changes : Changes}

theorem findOne_cons (row : MinerAccountSettings) : findOne (row :: rows) address =
    if row.address = address then some row else findOne rows address := by
  simp only [findOne, List.find?_cons]
  split
  · rename_i same
    rw [if_pos (of_decide_eq_true same)]
  · rename_i different
    rw [if_neg (of_decide_eq_false different)]

theorem address_of_findOne {row : MinerAccountSettings} (found : rows.findOne address = some row) :
    row.address = address := by
  simpa using List.find?_some found

theorem findOne_insertOrIgnore : (rows.insertOrIgnore address).findOne other =
    (rows.findOne other).or (if address = other then some ⟨address, none, false⟩ else none) := by
  unfold insertOrIgnore
  split
  · rename_i present
    by_cases same : address = other
    · subst same
      obtain ⟨row, found⟩ := Option.isSome_iff_exists.mp present
      rw [found, Option.some_or]
    · rw [if_neg same, Option.or_none]
  · rw [findOne, List.find?_append, List.find?_singleton]
    simp only [decide_eq_true_eq]
    rfl

/-- A row of defaults changes nothing of what is seen. -/
theorem view_insertOrIgnore : (rows.insertOrIgnore address).view other = rows.view other := by
  rw [view, findOne_insertOrIgnore, view]
  cases rows.findOne other with
  | some row => rfl
  | none =>
    by_cases same : address = other
    · rw [if_pos same]
      rfl
    · rw [if_neg same]
      rfl

theorem findOne_update (updated : rows.update address changes = some rows') : rows'.findOne other =
    (rows.findOne other).map fun row => if other = address then change changes row else row := by
  unfold update at updated
  split at updated
  · cases updated
  · cases updated
    clear * -
    induction rows with
    | nil => rfl
    | cons row rest ih =>
      have kept : (if row.address = address then change changes row else row).address = row.address := by
        split
        · rfl
        · rfl
      rw [List.map_cons, findOne_cons, findOne_cons, kept]
      by_cases here : row.address = other
      · rw [if_pos here, if_pos here, Option.map_some, here]
      · rw [if_neg here, if_neg here]
        exact ih

theorem map_address_update (updated : rows.update address changes = some rows') :
    rows'.map (·.address) = rows.map (·.address) := by
  unfold update at updated
  split at updated
  · cases updated
  · cases updated
    rw [List.map_map]
    apply List.map_congr_left
    intro row _
    simp only [Function.comp_apply]
    split
    · rfl
    · rfl

theorem nodup_insertOrIgnore (nodup : (rows.map (·.address)).Nodup) :
    ((rows.insertOrIgnore address).map (·.address)).Nodup := by
  unfold insertOrIgnore
  split
  · exact nodup
  · rename_i absent
    rw [List.map_append, List.map_singleton]
    refine List.nodup_append.mpr ⟨nodup, List.nodup_singleton _, ?_⟩
    intro a member b single
    rw [List.mem_singleton.mp single]
    rintro rfl
    obtain ⟨row, member', rfl⟩ := List.mem_map.mp member
    exact absent (List.find?_isSome.mpr ⟨row, member', by simp⟩)

/-- Where addresses are distinct, a row is what a look-up finds. -/
theorem findOne_eq_some_iff (nodup : (rows.map (·.address)).Nodup) {row : MinerAccountSettings} :
    rows.findOne address = some row ↔ row ∈ rows ∧ row.address = address := by
  constructor
  · intro found
    exact ⟨List.mem_of_find?_eq_some found, address_of_findOne found⟩
  · rintro ⟨member, rfl⟩
    induction rows with
    | nil => cases member
    | cons first rest ih =>
      obtain ⟨fresh, tail⟩ := List.nodup_cons.mp nodup
      rw [findOne_cons]
      rcases List.mem_cons.mp member with rfl | later
      · rw [if_pos rfl]
      · have different : first.address ≠ row.address := by
          intro same
          have twin : row.address ∈ rest.map (·.address) := List.mem_map_of_mem later
          rw [← same] at twin
          exact fresh twin
        rw [if_neg different]
        exact ih tail later

/-- The overrides a payout cycle reads are those that are seen. -/
theorem get_getOverridesByAddress (nodup : (rows.map (·.address)).Nodup) {addresses : List String} :
    (rows.getOverridesByAddress addresses).get address = if address ∈ addresses then (rows.view address).1 else none := by
  have keys : ((rows.getOverridesByAddress addresses).map Prod.fst).Nodup := by
    apply List.pairwise_map.mpr
    refine ((List.pairwise_map.mp nodup).filter _).filterMap _ ?_
    intro row row' different entry made entry' made'
    obtain ⟨-, -, rfl⟩ := Option.map_eq_some_iff.mp made
    obtain ⟨-, -, rfl⟩ := Option.map_eq_some_iff.mp made'
    exact different
  have entry : ∀ threshold, (address, threshold) ∈ rows.getOverridesByAddress addresses ↔
      address ∈ addresses ∧ (rows.view address).1 = some threshold := by
    intro threshold
    simp only [getOverridesByAddress, List.mem_filterMap, List.mem_filter, decide_eq_true_eq, Option.map_eq_some_iff,
      Prod.mk.injEq]
    constructor
    · rintro ⟨row, ⟨member, asked⟩, _, stored, rfl, rfl⟩
      refine ⟨asked, ?_⟩
      rw [view, (findOne_eq_some_iff nodup).mpr ⟨member, rfl⟩]
      exact stored
    · rintro ⟨asked, stored⟩
      cases found : rows.findOne address with
      | none =>
        rw [view, found] at stored
        cases stored
      | some row =>
        rw [view, found] at stored
        obtain ⟨member, same⟩ := (findOne_eq_some_iff nodup).mp found
        exact ⟨row, ⟨member, same ▸ asked⟩, threshold, stored, same, rfl⟩
  by_cases asked : address ∈ addresses
  · rw [if_pos asked]
    cases stored : (rows.view address).1 with
    | some threshold => exact OrderedMap.get_of_mem keys ((entry threshold).mpr ⟨asked, stored⟩)
    | none =>
      apply OrderedMap.get_eq_none
      intro member
      obtain ⟨⟨a, threshold⟩, member', rfl⟩ := List.mem_map.mp member
      rw [((entry threshold).mp member').2] at stored
      cases stored
  · rw [if_neg asked]
    apply OrderedMap.get_eq_none
    intro member
    obtain ⟨⟨a, threshold⟩, member', rfl⟩ := List.mem_map.mp member
    exact asked ((entry threshold).mp member').1

theorem mem_getNotifyOnPayoutAddresses (nodup : (rows.map (·.address)).Nodup) {addresses : List String} :
    address ∈ rows.getNotifyOnPayoutAddresses addresses ↔ address ∈ addresses ∧ (rows.view address).2 = true := by
  simp only [getNotifyOnPayoutAddresses, List.mem_map, List.mem_filter, decide_eq_true_eq]
  constructor
  · rintro ⟨row, ⟨member, asked, notify⟩, rfl⟩
    refine ⟨asked, ?_⟩
    rw [view, (findOne_eq_some_iff nodup).mpr ⟨member, rfl⟩]
    exact notify
  · rintro ⟨asked, notify⟩
    cases found : rows.findOne address with
    | none =>
      rw [view, found] at notify
      cases notify
    | some row =>
      rw [view, found] at notify
      obtain ⟨member, same⟩ := (findOne_eq_some_iff nodup).mp found
      exact ⟨row, ⟨member, same ▸ asked, notify⟩, same⟩

theorem view_update (updated : rows.update address changes = some rows') (present : (rows.findOne address).isSome) :
    rows'.view other = if other = address then (changes.payoutThresholdSatsOverride.getD (rows.view other).1,
      (changes.notifyOnPayout.getD none).getD (rows.view other).2) else rows.view other := by
  rw [view, findOne_update updated]
  by_cases here : other = address
  · subst here
    obtain ⟨row, found⟩ := Option.isSome_iff_exists.mp present
    rw [if_pos rfl, view, found, Option.map_some, if_pos rfl]
    rfl
  · rw [if_neg here, view]
    cases found : rows.findOne other with
    | none => rfl
    | some row => rw [Option.map_some, if_neg here]

end SettingsTable

/-- The UPDATE that a resumption has the database execute. -/
def AccountCall.executedUpdate (rows : SettingsTable) : AccountCall → AccountAnswer → Option (String × Changes)
  | .update address changes, .executed => if (rows.update address changes).isSome then some (address, changes) else none
  | _, _ => none

/-- The UPDATEs in the order in which they are executed. -/
def recordUpdates (updates : List (String × Changes)) (w : AccountWorld) (e : AccountEvent) (_ : AccountWorld) :
    List (String × Changes) :=
  match e with
  | .account (.resume k a) => updates ++ (w.calls[k]?.bind (·.executedUpdate w.settings a)).toList
  | _ => updates

/-- What each column of an address was last set to. -/
def lastSet (updates : List (String × Changes)) (address : String) : Option ℤ × Bool :=
  let ours := (updates.filter fun u => u.1 = address).map Prod.snd
  ((ours.filterMap (·.payoutThresholdSatsOverride)).getLast?.getD none,
    (ours.filterMap fun changes => changes.notifyOnPayout.getD none).getLast?.getD false)

theorem lastSet_concat {updates : List (String × Changes)} {address other : String} {changes : Changes} :
    lastSet (updates ++ [(address, changes)]) other =
      if other = address then (changes.payoutThresholdSatsOverride.getD (lastSet updates other).1,
        (changes.notifyOnPayout.getD none).getD (lastSet updates other).2) else lastSet updates other := by
  have last : ∀ {α : Type} (l : List α) (x : Option α) (default : α),
      (l ++ x.toList).getLast?.getD default = x.getD (l.getLast?.getD default) := by
    intro α l x default
    cases x <;> simp
  by_cases here : other = address
  · subst here
    simp only [lastSet, List.filter_append, List.map_append, List.filterMap_append, if_true, List.filter_cons,
      decide_true, List.filter_nil, List.map_cons, List.map_nil, List.filterMap_cons, List.filterMap_nil]
    rw [← last, ← last]
    cases changes.payoutThresholdSatsOverride <;> cases changes.notifyOnPayout.getD none <;> rfl
  · have elsewhere : ¬ address = other := fun same => here same.symm
    simp [lastSet, here, elsewhere]

def Changes.IsValid (changes : Changes) : Prop :=
  ∀ threshold, changes.payoutThresholdSatsOverride = some (some threshold) → 1 ≤ threshold

theorem isValid_changesOf {body : UpdateMinerAccountSettingsDto} (valid : body.isValid = true) : (changesOf body).IsValid := by
  intro threshold set
  obtain ⟨is_threshold, -⟩ := Bool.and_eq_true_iff.mp valid
  obtain ⟨value, given, read⟩ := Option.map_eq_some_iff.mp set
  rw [given] at is_threshold
  split at read
  · rename_i q
    obtain ⟨whole, positive⟩ := of_decide_eq_true is_threshold
    cases read
    have same : ((q.num : ℤ) : ℚ) = q := Rat.den_eq_one_iff q |>.mp whole
    rw [← same] at positive
    exact_mod_cast positive
  · cases read

/-- What a call has seen to before it stands there. -/
def AccountCall.Prepared (rows : SettingsTable) : AccountCall → Prop
  | .insert _ changes => changes.IsValid
  | .update address changes => changes.IsValid ∧ (rows.findOne address).isSome
  | .findOne address => (rows.findOne address).isSome
  | _ => True

/-- The table is what the UPDATEs have made of it. -/
structure SettingsTable.Follows (rows : SettingsTable) (updates : List (String × Changes)) : Prop where
  nodup : (rows.map (·.address)).Nodup
  view : ∀ address, rows.view address = lastSet updates address
  positive : ∀ address threshold, (rows.view address).1 = some threshold → 1 ≤ threshold

theorem AccountCall.Prepared.mono {rows rows' : SettingsTable} {t : AccountCall} (prepared : t.Prepared rows)
    (kept : ∀ address, (rows.findOne address).isSome → (rows'.findOne address).isSome) : t.Prepared rows' := by
  cases t with
  | update => exact ⟨prepared.1, kept _ prepared.2⟩
  | findOne => exact kept _ prepared
  | _ => exact prepared

section
variable {config : AccountConfig} {nowMs : ℤ} {rows rows' : SettingsTable} {updates : List (String × Changes)}
  {t t' : AccountCall} {a : AccountAnswer}

theorem prepared_handle {address : String} {method : AccountMethod} :
    (AccountCall.handle address method).Prepared rows := by
  unfold AccountCall.handle
  split
  · trivial
  · split
    · rename_i valid
      exact isValid_changesOf valid
    · trivial

theorem SettingsTable.Follows.update {address : String} {changes : Changes} (follows : rows.Follows updates)
    (valid : changes.IsValid) (present : (rows.findOne address).isSome) (updated : rows.update address changes = some rows') :
    rows'.Follows (updates ++ [(address, changes)]) := by
  refine ⟨?_, fun other => ?_, fun other threshold set => ?_⟩
  · rw [map_address_update updated]
    exact follows.nodup
  · rw [view_update updated present, lastSet_concat, follows.view]
  · rw [view_update updated present] at set
    split at set
    · cases given : changes.payoutThresholdSatsOverride with
      | none =>
        rw [given] at set
        exact follows.positive other threshold set
      | some value =>
        rw [given] at set
        exact valid threshold (given.trans (congrArg some set))
    · exact follows.positive other threshold set

/-- One resumption: the table follows the UPDATEs, with the one it has executed, and the row of every address stays. -/
theorem AccountBranch.follows (branch : AccountBranch config nowMs rows t a rows' t') (follows : rows.Follows updates)
    (prepared : t.Prepared rows) : rows'.Follows (updates ++ (t.executedUpdate rows a).toList) ∧ t'.Prepared rows' ∧
      ∀ address, (rows.findOne address).isSome → (rows'.findOne address).isSome := by
  cases branch with
  | granted =>
    refine ⟨?_, prepared_handle, fun _ present => present⟩
    simpa [AccountCall.executedUpdate] using follows
  | read | found =>
    refine ⟨?_, trivial, fun _ present => present⟩
    simpa [AccountCall.executedUpdate] using follows
  | @inserted address changes _ next =>
    have here : ((rows.insertOrIgnore address).findOne address).isSome := by
      rw [SettingsTable.findOne_insertOrIgnore, if_pos rfl]
      simp
    refine ⟨⟨rows.nodup_insertOrIgnore follows.nodup, fun other => ?_, fun other threshold set => ?_⟩, ?_,
      fun other present => ?_⟩
    · rw [rows.view_insertOrIgnore, follows.view]
      simp [AccountCall.executedUpdate]
    · rw [rows.view_insertOrIgnore] at set
      exact follows.positive other threshold set
    · subst next
      split
      · exact here
      · exact ⟨prepared, here⟩
    · rw [SettingsTable.findOne_insertOrIgnore, Option.isSome_or, present, Bool.true_or]
  | @updated address changes _ done =>
    obtain ⟨valid, present⟩ := prepared
    have kept : ∀ other, (rows.findOne other).isSome → (rows'.findOne other).isSome := by
      intro other there
      rw [SettingsTable.findOne_update done, Option.isSome_map]
      exact there
    have executed : AccountCall.executedUpdate rows (.update address changes) .executed = some (address, changes) := by
      rw [AccountCall.executedUpdate, done, Option.isSome_some, if_pos rfl]
    refine ⟨?_, kept address present, kept⟩
    rw [executed]
    exact follows.update valid present done
  | refused unchanged =>
    have nothing : t.executedUpdate rows a = none := by
      unfold AccountCall.executedUpdate
      split
      · rw [unchanged _ _ rfl rfl]
        rfl
      · rfl
    refine ⟨?_, trivial, fun _ present => present⟩
    simpa [nothing] using follows

end

end ElektronPool.Auth
