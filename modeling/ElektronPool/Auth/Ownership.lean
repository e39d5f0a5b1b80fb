import ElektronPool.Auth.AuthService

/-!
# Who gets a token for an address

The signature path asks for something only the holder of the address can make. The payment
path asks for an output of a certain amount at the address, and anybody can make one. So
the address is safe as long as no output at it ever has the amount of one of its live
challenges: one that is pending, or that a scan under way has already picked up.
-/

namespace ElektronPool.Auth
set_option autoImplicit false
open Async Js

/-! ## What a request proves -/

/-- The ways a request can go on, those that come to nothing in one. -/
inductive AuthStep (config : AuthConfig) (s : AuthState) : AuthCall → AuthAnswer → AuthState → AuthCall → Prop
  | issued {address nonce message : String} {draw amountSats : ℕ} :
    AuthStep config s (.createChallenge address) (.drawn nonce draw) (s.issue address nonce draw).1
      (.challenged message address amountSats)
  | refused {t : AuthCall} {a : AuthAnswer} {s' : AuthState} {message : String}
    (forgets : s' = s ∨ ∃ address, s' = s.consume address) : AuthStep config s t a s' (.rejected message)
  | scanning {address : String} {c : IChallenge} (live : c ∈ s.pending address) :
    AuthStep config s (.loginOnChain address) .handled s (.scan address c)
  | verified {address signature : String} {c : IChallenge} (live : c ∈ s.pending address)
    (valid : config.verify (buildMessage address c.nonce) address signature = .ok true) :
    AuthStep config s (.login address signature) .handled (s.consume address) (.issueToken address)
  | paid {address : String} {c : IChallenge} {success : Bool}
    (found : s.scanAddressForAmountSats address c.requiredAmountSats = true) :
    AuthStep config s (.scan address c) (.scanned success) (s.consume address) (.issueToken address)
  | token {address : String} :
    AuthStep config s (.issueToken address) .handled { s with tokens := s.tokens ++ [address] } (.accessToken address)

theorem startIssue_cases (config : AuthConfig) (address : String) :
    AuthCall.startIssue config address = .issueToken address ∨
      ∃ message, AuthCall.startIssue config address = .rejected message := by
  unfold AuthCall.startIssue
  split
  · exact .inl rfl
  · exact .inr ⟨_, rfl⟩

theorem AuthBranch.authStep {config : AuthConfig} {s s' : AuthState} {t t' : AuthCall} {a : AuthAnswer}
    (branch : AuthBranch config s t a s' t') : AuthStep config s t a s' t' := by
  cases branch with
  | issued => exact .issued
  | missing address named peeked => exact .refused ((s.peek_none peeked).imp_right fun forgotten => ⟨address, forgotten.1⟩)
  | invalid | unpaid | threw => exact .refused (.inl rfl)
  | scanning live => exact .scanning live
  | @verified address signature c live valid =>
    rcases startIssue_cases config address with issuing | ⟨message, refused⟩
    · rw [issuing]
      exact .verified live valid
    · rw [refused]
      exact .refused (.inr ⟨address, rfl⟩)
  | @paid address c success scanned found =>
    rcases startIssue_cases config address with issuing | ⟨message, refused⟩
    · rw [issuing]
      exact .paid found
    · rw [refused]
      exact .refused (.inr ⟨address, rfl⟩)
  | token => exact .token

/-! ## Assumptions and condition -/

section
variable (config : AuthConfig) (address : String)

/-- The holder of the address signs nothing and spends nothing. -/
def Uninvolved (w : World) : AuthEvent → Prop
  | .sign signer _ => signer ≠ address
  | .pay payer _ _ => payer ≠ address
  | .spend output => ∀ u ∈ w.shared.utxos[output]?, u.address ≠ address
  | _ => True

/-- `verify` accepts only what the holder of the address has signed. -/
def AuthCall.SignatureIsSound (s : AuthState) : AuthCall → Prop
  | .login address signature => ∀ c ∈ s.pending address,
    config.verify (buildMessage address c.nonce) address signature = .ok true →
      (address, buildMessage address c.nonce) ∈ s.signed
  | _ => True

def SignaturesAreSound (w : World) : AuthEvent → Prop
  | .request (.resume k _) => ∀ t ∈ w.calls[k]?, t.SignatureIsSound config w.shared
  | _ => True

/-- The challenge of a scan under way for the address. -/
def AuthCall.scanned : AuthCall → Option IChallenge
  | .scan scannedAddress challenge => if scannedAddress = address then some challenge else none
  | _ => none

/-- The challenges that can still be met by a payment. -/
def World.liveChallenges (w : World) : List IChallenge :=
  (w.shared.pending address).toList ++ w.calls.filterMap (AuthCall.scanned address)

/-- The condition: nobody pays the address the amount of a live challenge, and no challenge is
drawn with the amount of an output the address already has. -/
def NoMatchingOutput (w : World) : AuthEvent → Prop
  | .pay _ payee amountSats => payee = address → ∀ c ∈ w.liveChallenges address, amountSats ≠ c.requiredAmountSats
  | .request (.resume k a) => w.calls[k]? = some (.createChallenge address) →
    ∀ draw ∈ a.draw, ∀ u ∈ w.shared.utxos, u.address = address → u.amountSats ≠ onchainAmountMinSats + draw
  | _ => True

instance (w : World) : ∀ e, Decidable (Uninvolved address w e)
  | .sign signer _ => inferInstanceAs (Decidable (signer ≠ address))
  | .pay payer _ _ => inferInstanceAs (Decidable (payer ≠ address))
  | .spend output => inferInstanceAs (Decidable (∀ u ∈ w.shared.utxos[output]?, u.address ≠ address))
  | .request _ | .tick _ | .confirm _ => .isTrue trivial

instance (s : AuthState) : ∀ t : AuthCall, Decidable (t.SignatureIsSound config s)
  | .login address _ => inferInstanceAs (Decidable (∀ c ∈ s.pending address, _ → _))
  | .createChallenge _ | .loginOnChain _ | .scan .. | .issueToken _ | .challenged .. | .accessToken _ | .rejected _ =>
    .isTrue trivial

instance (w : World) : ∀ e, Decidable (SignaturesAreSound config w e)
  | .request (.resume k _) => inferInstanceAs (Decidable (∀ t ∈ w.calls[k]?, t.SignatureIsSound config w.shared))
  | .request (.start _) | .tick _ | .sign .. | .pay .. | .confirm _ | .spend _ => .isTrue trivial

instance (w : World) : ∀ e, Decidable (NoMatchingOutput address w e)
  | .pay _ payee amountSats => inferInstanceAs (Decidable (payee = address → ∀ c ∈ w.liveChallenges address,
      amountSats ≠ c.requiredAmountSats))
  | .request (.resume k a) => inferInstanceAs (Decidable (w.calls[k]? = some (.createChallenge address) →
      ∀ draw ∈ a.draw, ∀ u ∈ w.shared.utxos, u.address = address → u.amountSats ≠ onchainAmountMinSats + draw))
  | .request (.start _) | .tick _ | .sign .. | .confirm _ | .spend _ => .isTrue trivial

/-- What keeps others out of the account. -/
structure Unproven (w : World) : Prop where
  apart : ∀ u ∈ w.shared.utxos, u.address = address → ∀ c ∈ w.liveChallenges address,
    u.amountSats ≠ c.requiredAmountSats
  unsigned : ∀ message, (address, message) ∉ w.shared.signed
  notIssuing : .issueToken address ∉ w.calls
  noToken : address ∉ w.shared.tokens

end

section
variable {config : AuthConfig} {address : String} {w w' : World}

theorem mem_liveChallenges {c : IChallenge} : c ∈ w.liveChallenges address ↔
    c ∈ w.shared.pending address ∨ .scan address c ∈ w.calls := by
  have scanned : ∀ t : AuthCall, t.scanned address = some c ↔ t = .scan address c := by
    intro t
    unfold AuthCall.scanned
    split
    · split
      · rename_i same
        simp [same]
      · rename_i other
        simp [other]
    · rename_i notScan
      constructor
      · intro found
        cases found
      · rintro rfl
        exact absurd rfl (notScan _ _)
  simp only [World.liveChallenges, List.mem_append, Option.mem_toList, List.mem_filterMap, scanned,
    exists_eq_right, Option.mem_def]

/-- What happens outside proves nothing for the address. -/
theorem unproven_outside {e : AuthEvent} (unproven : Unproven address w) (uninvolved : Uninvolved address w e)
    (condition : NoMatchingOutput address w e) : Unproven address ⟨w.shared.outside e, w.calls⟩ := by
  have live : ∀ c, (∀ other, (w.shared.outside e).pending other = w.shared.pending other) →
      c ∈ World.liveChallenges address ⟨w.shared.outside e, w.calls⟩ → c ∈ w.liveChallenges address := by
    intro c same member
    rw [mem_liveChallenges] at member ⊢
    rwa [same] at member
  cases e with
  | request _ => exact unproven
  | tick ms =>
    refine ⟨fun u member at_address c member' => ?_, unproven.unsigned, unproven.notIssuing, unproven.noToken⟩
    apply unproven.apart u member at_address c
    rw [mem_liveChallenges] at member' ⊢
    refine member'.imp_left fun fresh => ?_
    -- time only takes challenges away
    obtain ⟨found, unexpired⟩ := Option.mem_filter_iff.mp fresh
    refine Option.mem_filter_iff.mpr ⟨found, ?_⟩
    have later : ¬ c.expiresAt < w.shared.now + ms := of_decide_eq_true unexpired
    apply decide_eq_true
    omega
  | sign signer message =>
    refine ⟨fun u member at_address c member' => unproven.apart u member at_address c (live c (fun _ => rfl) member'), ?_,
      unproven.notIssuing, unproven.noToken⟩
    intro message' member
    rcases List.mem_cons.mp member with now | before
    · cases now
      exact uninvolved rfl
    · exact unproven.unsigned message' before
  | pay payer payee amountSats =>
    refine ⟨?_, unproven.unsigned, unproven.notIssuing, unproven.noToken⟩
    intro u member at_address c member'
    have live' := live c (fun _ => rfl) member'
    rcases List.mem_append.mp member with old | new
    · exact unproven.apart u old at_address c live'
    · rw [List.mem_singleton.mp new] at at_address ⊢
      exact condition at_address c live'
  | confirm output =>
    refine ⟨?_, unproven.unsigned, unproven.notIssuing, unproven.noToken⟩
    intro u member at_address c member'
    have was : ∃ u₀ ∈ w.shared.utxos, u₀.address = u.address ∧ u₀.amountSats = u.amountSats := by
      obtain ⟨i, bound, rfl⟩ := List.mem_iff_getElem.mp member
      simp only [AuthState.outside, List.length_modify] at bound
      refine ⟨w.shared.utxos[i], List.getElem_mem bound, ?_⟩
      simp only [AuthState.outside, List.getElem_modify]
      split <;> simp
    obtain ⟨u₀, member₀, same_address, same_amount⟩ := was
    rw [← same_amount]
    exact unproven.apart u₀ member₀ (same_address.trans at_address) c (live c (fun _ => rfl) member')
  | spend output =>
    refine ⟨?_, unproven.unsigned, unproven.notIssuing, unproven.noToken⟩
    intro u member at_address c member'
    exact unproven.apart u (List.mem_of_mem_eraseIdx member) at_address c (live c (fun _ => rfl) member')

/-- No scan finds a payment for the address. -/
theorem Unproven.not_found (unproven : Unproven address w) {c : IChallenge} (scanning : .scan address c ∈ w.calls) :
    w.shared.scanAddressForAmountSats address c.requiredAmountSats = false := by
  rw [AuthState.scanAddressForAmountSats, List.any_eq_false]
  intro u member found
  obtain ⟨at_address, -, amount⟩ := of_decide_eq_true found
  exact unproven.apart u member at_address c (mem_liveChallenges.mpr (.inr scanning)) amount

/-- A request arrives, which neither scans nor is about to issue a token. -/
theorem Unproven.start {t : AuthCall} (unproven : Unproven address w) (entry : t.isEntry = true) :
    Unproven address ⟨w.shared, w.calls ++ [t]⟩ := by
  have others : ∀ u ∈ w.calls ++ [t], u.isEntry = false → u ∈ w.calls := by
    intro u member later
    rcases List.mem_append.mp member with old | new
    · exact old
    · rw [List.mem_singleton.mp new, entry] at later
      cases later
  refine ⟨?_, unproven.unsigned, fun issuing => unproven.notIssuing (others _ issuing rfl), unproven.noToken⟩
  intro u member at_address c live
  apply unproven.apart u member at_address c
  rw [mem_liveChallenges] at live ⊢
  exact live.imp_right fun scanning => others _ scanning rfl

/-- A request goes on. What it brings the address is at most a challenge of another amount than all
of its outputs, and a scan for the pending one. -/
theorem Unproven.resume {s' : AuthState} {before after : List AuthCall} {t t' : AuthCall} (unproven : Unproven address w)
    (calls : w.calls = before ++ t :: after) (utxos : s'.utxos = w.shared.utxos) (signed : s'.signed = w.shared.signed)
    (pending : ∀ c ∈ s'.pending address, c ∈ w.shared.pending address ∨
      ∀ u ∈ w.shared.utxos, u.address = address → u.amountSats ≠ c.requiredAmountSats)
    (scans : ∀ c, t' = .scan address c → c ∈ w.shared.pending address)
    (notIssuing : t' ≠ .issueToken address) (noToken : address ∉ s'.tokens) :
    Unproven address ⟨s', before ++ t' :: after⟩ := by
  have others : ∀ u ∈ before ++ t' :: after, u ∈ w.calls ∨ u = t' := by
    intro u member
    rw [calls]
    simp only [List.mem_append, List.mem_cons] at member ⊢
    tauto
  refine ⟨?_, signed ▸ unproven.unsigned, ?_, noToken⟩
  · intro u member at_address c live
    have member' : u ∈ w.shared.utxos := utxos ▸ member
    rcases mem_liveChallenges.mp live with fresh | scanning
    · rcases pending c fresh with old | other
      · exact unproven.apart u member' at_address c (mem_liveChallenges.mpr (.inl old))
      · exact other u member' at_address
    · rcases others _ scanning with old | new
      · exact unproven.apart u member' at_address c (mem_liveChallenges.mpr (.inr old))
      · exact unproven.apart u member' at_address c (mem_liveChallenges.mpr (.inl (scans c new.symm)))
  · intro issuing
    rcases others _ issuing with old | new
    · exact unproven.notIssuing old
    · exact notIssuing new.symm

/-- A login of somebody else succeeds. -/
theorem unproven_issuing {before after : List AuthCall} {t : AuthCall} {other : String} (unproven : Unproven address w)
    (calls : w.calls = before ++ t :: after) (notOurs : other ≠ address) :
    Unproven address ⟨w.shared.consume other, before ++ .issueToken other :: after⟩ :=
  unproven.resume calls rfl rfl (fun _ live => .inl (w.shared.pending_consume live)) (by simp) (by simpa using notOurs)
    unproven.noToken

/-- No request proves anything for the address. -/
theorem unproven_request {event : Event AuthCall AuthAnswer} (unproven : Unproven address w)
    (sound : SignaturesAreSound config w (.request event)) (condition : NoMatchingOutput address w (.request event))
    (moved : Pool.step AuthCall.isEntry (AuthCall.resume config) w event = some w') : Unproven address w' := by
  obtain ⟨t, rfl, entry, rfl⟩ | ⟨before, t, after, a, s', t', rfl, calls, resumed, rfl⟩ := Pool.step_cases moved
  · exact unproven.start entry
  have at_k : w.calls[before.length]? = some t := by simp [calls]
  have here : t ∈ w.calls := by simp [calls]
  cases (AuthCall.authBranch resumed).authStep with
  | @issued a nonce message draw amountSats =>
    refine unproven.resume calls rfl rfl (fun c live => ?_) (by simp) (by simp) unproven.noToken
    refine (w.shared.pending_issue live).imp_right ?_
    rintro ⟨rfl, amount⟩ u member at_address
    rw [amount]
    exact condition at_k draw rfl u member at_address
  | refused forgets =>
    rcases forgets with rfl | ⟨other, rfl⟩
    · exact unproven.resume calls rfl rfl (fun _ live => .inl live) (by simp) (by simp) unproven.noToken
    · exact unproven.resume calls rfl rfl (fun _ live => .inl (w.shared.pending_consume live)) (by simp) (by simp)
        unproven.noToken
  | scanning live =>
    refine unproven.resume calls rfl rfl (fun _ live => .inl live) (fun c same => ?_) (by simp) unproven.noToken
    cases same
    exact live
  | @verified other signature c₀ live valid =>
    have notOurs : other ≠ address := by
      rintro rfl
      exact unproven.unsigned _ (sound _ at_k c₀ live valid)
    exact unproven_issuing unproven calls notOurs
  | @paid other c₀ success found =>
    have notOurs : other ≠ address := by
      rintro rfl
      rw [unproven.not_found here] at found
      cases found
    exact unproven_issuing unproven calls notOurs
  | @token other =>
    refine unproven.resume calls rfl rfl (fun _ live => .inl live) (by simp) (by simp) fun member => ?_
    rcases List.mem_append.mp member with old | new
    · exact unproven.noToken old
    · rw [← List.mem_singleton.mp new] at here
      exact unproven.notIssuing here

theorem unproven_step {e : AuthEvent} (unproven : Unproven address w) (uninvolved : Uninvolved address w e)
    (sound : SignaturesAreSound config w e) (condition : NoMatchingOutput address w e)
    (moved : World.step config w e = some w') : Unproven address w' := by
  cases e with
  | request event => exact unproven_request unproven sound condition moved
  | _ =>
    cases moved
    exact unproven_outside unproven uninvolved condition

end

/-- The pool before its first request, on a chain with these outputs. -/
def World.initial (now : ℤ) (utxos : List Utxo) : World := ⟨⟨now, [], utxos, [], []⟩, []⟩

/-- **No token without proof**: while its holder signs and spends nothing, no token is issued
for an address in any run in which no output at it has the amount of a live challenge. -/
theorem no_token_of_noMatchingOutput {config : AuthConfig} {address : String} {now : ℤ} {utxos : List Utxo} {w : World}
    (run : Reaches (World.step config)
      (fun w e => Uninvolved address w e ∧ SignaturesAreSound config w e ∧ NoMatchingOutput address w e)
      (World.initial now utxos) w) : address ∉ w.shared.tokens := by
  have unproven : Unproven address w := by
    apply run.invariant
    · refine ⟨?_, by simp [World.initial], by simp [World.initial], by simp [World.initial]⟩
      intro u _ _ c live
      rcases mem_liveChallenges.mp live with pending | scanning
      · cases pending
      · cases scanning
    · rintro w e w' unproven ⟨uninvolved, sound, condition⟩ moved
      exact unproven_step unproven uninvolved sound condition moved
  exact unproven.noToken

/-- A pool whose `verify` accepts a signature that spells out who signed what. -/
def spelledOut : AuthConfig where
  verify message address signature := .ok (signature == address ++ " signs " ++ message)
  jwtSecret := some "0123456789abcdef"

/-- Someone pays `alice` another amount than her challenge asks for; `bob` logs in with a
signature. -/
theorem no_token_of_noMatchingOutput_other_amount : ∃ w : World, w.shared.tokens = ["bob"] ∧ "alice" ∉ w.shared.tokens := by
  obtain ⟨w, run, tokens⟩ := exists_reaches (World.step spelledOut)
    (fun w e => Uninvolved "alice" w e ∧ SignaturesAreSound spelledOut w e ∧ NoMatchingOutput "alice" w e)
    (World.initial 0 [])
    [.request (.start (.createChallenge "alice")), .request (.resume 0 (.drawn "00" 0)), .pay "mallory" "alice" 1001,
      .confirm 0, .request (.start (.loginOnChain "alice")), .request (.resume 1 .handled),
      .request (.resume 1 (.scanned true)), .request (.start (.createChallenge "bob")),
      .request (.resume 2 (.drawn "01" 5)), .sign "bob" (buildMessage "bob" "01"),
      .request (.start (.login "bob" ("bob signs " ++ buildMessage "bob" "01"))), .request (.resume 3 .handled),
      .request (.resume 3 .handled)]
    (fun w => w.shared.tokens = ["bob"]) (by decide +kernel)
  exact ⟨w, tokens, no_token_of_noMatchingOutput run⟩

/-- Someone else pays `alice` the amount of a challenge they requested for her, and gets her
token. -/
theorem not_no_token_paid_by_another : ¬ ∀ (config : AuthConfig) (address : String) (now : ℤ) (utxos : List Utxo)
    (w : World), Reaches (World.step config) (fun w e => Uninvolved address w e ∧ SignaturesAreSound config w e)
      (World.initial now utxos) w → address ∉ w.shared.tokens := by
  intro claim
  obtain ⟨w, run, token⟩ := exists_reaches (World.step spelledOut)
    (fun w e => Uninvolved "alice" w e ∧ SignaturesAreSound spelledOut w e) (World.initial 0 [])
    [.request (.start (.createChallenge "alice")), .request (.resume 0 (.drawn "00" 0)), .pay "mallory" "alice" 1000,
      .confirm 0, .request (.start (.loginOnChain "alice")), .request (.resume 1 .handled),
      .request (.resume 1 (.scanned true)), .request (.resume 1 .handled)]
    (fun w => "alice" ∈ w.shared.tokens) (by decide +kernel)
  exact claim spelledOut "alice" 0 [] w run token

end ElektronPool.Auth
