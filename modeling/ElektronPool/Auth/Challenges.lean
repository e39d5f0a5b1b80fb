import ElektronPool.Auth.Ownership
import Mathlib.Data.List.Nodup

/-!
# Every challenge is good for one login

A login by payment looks at the pending challenge, waits for the scan, and then deletes
whatever is stored for the address. A `Tally` counts the challenges as they are issued and
notes which one a request has taken up, so that it can be told which one a login used up. A
request is overtaken once another challenge was issued, or the pending one used up, while it
was waiting.
-/

namespace ElektronPool.Auth
set_option autoImplicit false
open Async Js

/-- A challenge was used up: by which request, and which one it had taken up. `pending` is the
one that was valid then, and `removed` the one that was deleted. -/
structure Consumption where
  call : ℕ
  address : String
  verified : Option ℕ
  pending : Option ℕ
  removed : Option ℕ

structure Tally where
  issued : ℕ
  serials : OrderedMap String ℕ
  held : OrderedMap ℕ ℕ
  overtaken : List ℕ
  consumptions : List Consumption

/-- The requests that wait for a scan of the address. -/
def World.scanning (w : World) (address : String) : List ℕ :=
  (List.range w.calls.length).filter fun k => (w.calls[k]?.bind (AuthCall.scanned address)).isSome

/-- The address for which a request has found what it was to find. -/
def AuthCall.proves (config : AuthConfig) (s : AuthState) : AuthCall → AuthAnswer → Option String
  | .login address signature, .handled =>
    if (s.pending address).any fun c =>
      match config.verify (buildMessage address c.nonce) address signature with
      | .ok valid => valid
      | .error _ => false
    then some address else none
  | .scan address challenge, .scanned success =>
    if success && s.scanAddressForAmountSats address challenge.requiredAmountSats then some address else none
  | _, _ => none

namespace Tally

def empty : Tally := ⟨0, [], [], [], []⟩

def issues (g : Tally) (w : World) (address : String) : Tally :=
  { g with
    issued := g.issued + 1
    serials := g.serials.set address g.issued
    overtaken := g.overtaken ++ w.scanning address }

/-- The number of a challenge that is there. -/
def serialOf (g : Tally) (address : String) (challenge : Option IChallenge) : Option ℕ :=
  challenge.bind fun _ => g.serials.get address

/-- Request `k` takes up the pending challenge. -/
def takesUp (g : Tally) (s : AuthState) (k : ℕ) (address : String) : Tally :=
  match g.serialOf address (s.pending address) with
  | some n => { g with held := g.held.set k n }
  | none => g

def consumes (g : Tally) (w : World) (k : ℕ) (address : String) : Tally :=
  { g with
    overtaken := g.overtaken ++ w.scanning address
    consumptions := g.consumptions ++ [⟨k, address, g.held.get k, g.serialOf address (w.shared.pending address),
      g.serialOf address (w.shared.challenges.get address)⟩] }

def resumed (config : AuthConfig) (g : Tally) (w : World) (k : ℕ) (t : AuthCall) (a : AuthAnswer) : Tally :=
  let g := match t, a with
    | .createChallenge address, .drawn _ _ => g.issues w address
    | .login address _, .handled | .loginOnChain address, .handled => g.takesUp w.shared k address
    | _, _ => g
  (t.proves config w.shared a).elim g fun address => g.consumes w k address

end Tally

def tally (config : AuthConfig) (g : Tally) (w : World) : AuthEvent → World → Tally
  | .request (.resume k a), _ => w.calls[k]?.elim g fun t => g.resumed config w k t a
  | _, _ => g

/-- A scan that finds the payment is still for the challenge that is pending. -/
def AuthCall.InTime (config : AuthConfig) (s : AuthState) (g : Tally) (k : ℕ) : AuthCall → AuthAnswer → Prop
  | .scan address challenge, a => (AuthCall.proves config s (.scan address challenge) a).isSome →
    k ∉ g.overtaken ∧ ¬ challenge.expiresAt < s.now
  | _, _ => True

/-- The condition: no successful scan has been overtaken, and none ends after its challenge has
expired. -/
def InTime (config : AuthConfig) (q : World × Tally) : AuthEvent → Prop
  | .request (.resume k a) => ∀ t ∈ q.1.calls[k]?, t.InTime config q.1.shared q.2 k a
  | _ => True

instance (config : AuthConfig) (s : AuthState) (g : Tally) (k : ℕ) (a : AuthAnswer) :
    ∀ t : AuthCall, Decidable (t.InTime config s g k a)
  | .scan address challenge => inferInstanceAs (Decidable ((AuthCall.proves config s (.scan address challenge) a).isSome →
      k ∉ g.overtaken ∧ ¬ challenge.expiresAt < s.now))
  | .createChallenge _ | .login .. | .loginOnChain _ | .issueToken _ | .challenged .. | .accessToken _ | .rejected _ =>
    .isTrue trivial

instance (config : AuthConfig) (q : World × Tally) : ∀ e, Decidable (InTime config q e)
  | .request (.resume k a) => inferInstanceAs (Decidable (∀ t ∈ q.1.calls[k]?, t.InTime config q.1.shared q.2 k a))
  | .request (.start _) | .tick _ | .sign .. | .pay .. | .confirm _ | .spend _ => .isTrue trivial

/-- What the challenges are for: each is used up by the request that has verified it, while it is
pending, and two tokens are for two challenges. -/
structure SingleUse (w : World) (g : Tally) : Prop where
  consumed : ∀ x ∈ g.consumptions, ∃ n, x.verified = some n ∧ x.pending = some n ∧ x.removed = some n
  proved : ∀ k address, w.calls[k]? = some (.accessToken address) → ∃ x ∈ g.consumptions, x.call = k ∧ x.address = address
  once : ∀ j k a b, w.calls[j]? = some (.accessToken a) → w.calls[k]? = some (.accessToken b) →
    g.held.get j = g.held.get k → j = k

/-! ## The invariant -/

/-- Requests that take up no challenge any more. -/
def AuthCall.isPast : AuthCall → Bool
  | .issueToken _ | .challenged .. | .accessToken _ | .rejected _ => true
  | _ => false

/-- Challenge number `n` was used up by this request. -/
structure Consumption.UsedUp (w : World) (g : Tally) (x : Consumption) (n : ℕ) : Prop where
  verified : x.verified = some n
  pending : x.pending = some n
  removed : x.removed = some n
  below : n < g.issued
  gone : ∀ address, g.serials.get address = some n → address = x.address ∧ w.shared.challenges.get address = none
  held : g.held.get x.call = some n
  past : ∃ t, w.calls[x.call]? = some t ∧ t.isPast = true

structure Tallied (w : World) (g : Tally) : Prop where
  below : ∀ address n, g.serials.get address = some n → n < g.issued
  apart : ∀ address other n, g.serials.get address = some n → g.serials.get other = some n → address = other
  counted : ∀ address c, w.shared.challenges.get address = some c → ∃ n, g.serials.get address = some n
  scans : ∀ k address c, w.calls[k]? = some (.scan address c) → k ∉ g.overtaken →
    (∃ n, g.held.get k = some n ∧ g.serials.get address = some n) ∧
      (w.shared.challenges.get address = some c ∨ c.expiresAt < w.shared.now)
  consumed : ∀ x ∈ g.consumptions, ∃ n, x.UsedUp w g n
  once : (g.consumptions.map (·.verified)).Nodup
  issuing : ∀ k address, w.calls[k]? = some (.issueToken address) ∨ w.calls[k]? = some (.accessToken address) →
    ∃ x ∈ g.consumptions, x.call = k ∧ x.address = address

section
variable {config : AuthConfig} {w : World} {g : Tally} {s' : AuthState} {k : ℕ} {t t' : AuthCall} {address : String}
  {c : IChallenge} {n : ℕ}

theorem mem_scanning (at_k : w.calls[k]? = some (.scan address c)) : k ∈ w.scanning address := by
  obtain ⟨bound, -⟩ := List.getElem?_eq_some_iff.mp at_k
  refine List.mem_filter.mpr ⟨List.mem_range.mpr bound, ?_⟩
  rw [at_k]
  simp [AuthCall.scanned]

theorem isPast_startIssue (config : AuthConfig) (address : String) : (AuthCall.startIssue config address).isPast = true := by
  obtain issuing | ⟨message, refused⟩ := startIssue_cases config address
  · rw [issuing]
    rfl
  · rw [refused]
    rfl

/-- Tokens are issued for the address that has logged in. -/
theorem address_eq_of_startIssue {other : String} (same : AuthCall.startIssue config address = .issueToken other ∨
    AuthCall.startIssue config address = .accessToken other) : address = other := by
  obtain issuing | ⟨message, refused⟩ := startIssue_cases config address
  · rw [issuing] at same
    obtain same | same := same
    · cases same
      rfl
    · cases same
  · rw [refused] at same
    obtain same | same := same <;> cases same

/-- Time passes, and challenges that have expired are dropped. -/
theorem Tallied.forget (h : Tallied w g) (later : w.shared.now ≤ s'.now)
    (kept : ∀ address, s'.challenges.get address = w.shared.challenges.get address ∨
      s'.challenges.get address = none ∧ ∀ c ∈ w.shared.challenges.get address, c.expiresAt < w.shared.now) :
    Tallied ⟨s', w.calls⟩ g where
  below := h.below
  apart := h.apart
  counted address c found := by
    obtain same | ⟨none, -⟩ := kept address
    · exact h.counted address c (same.symm.trans found)
    · rw [none] at found
      cases found
  scans k address c at_k fresh := by
    obtain ⟨held, stored⟩ := h.scans k address c at_k fresh
    refine ⟨held, ?_⟩
    obtain found | expired := stored
    · obtain same | ⟨-, expired⟩ := kept address
      · exact .inl (same.trans found)
      · exact .inr (lt_of_lt_of_le (expired c found) later)
    · exact .inr (lt_of_lt_of_le expired later)
  consumed x member := by
    obtain ⟨n, used⟩ := h.consumed x member
    refine ⟨n, { used with gone := fun address serial => ?_ }⟩
    obtain ⟨same, none⟩ := used.gone address serial
    obtain kept | ⟨dropped, -⟩ := kept address
    · exact ⟨same, kept.trans none⟩
    · exact ⟨same, dropped⟩
  once := h.once
  issuing := h.issuing

/-- Request `k` goes on to where it takes up no challenge any more. -/
theorem Tallied.settle (h : Tallied w g) (past : t'.isPast = true)
    (proved : ∀ address, t' = .issueToken address ∨ t' = .accessToken address →
      ∃ x ∈ g.consumptions, x.call = k ∧ x.address = address) : Tallied ⟨w.shared, w.calls.set k t'⟩ g where
  below := h.below
  apart := h.apart
  counted := h.counted
  scans j address c at_j fresh := by
    obtain ⟨-, same⟩ | ⟨-, old⟩ := getElem?_set_some at_j
    · rw [← same] at past
      cases past
    · exact h.scans j address c old fresh
  consumed x member := by
    obtain ⟨n, used⟩ := h.consumed x member
    obtain ⟨t, at_call, was⟩ := used.past
    refine ⟨n, { used with past := ?_ }⟩
    by_cases here : k = x.call
    · subst here
      obtain ⟨bound, -⟩ := List.getElem?_eq_some_iff.mp at_call
      exact ⟨t', List.getElem?_set_self bound, past⟩
    · exact ⟨t, (List.getElem?_set_ne here).trans at_call, was⟩
  once := h.once
  issuing j address at_j := by
    obtain ⟨rfl, same⟩ | ⟨-, old⟩ : (k = j ∧ (t' = .issueToken address ∨ t' = .accessToken address)) ∨
        (k ≠ j ∧ (w.calls[j]? = some (.issueToken address) ∨ w.calls[j]? = some (.accessToken address))) := by
      obtain found | found := at_j
      · exact (getElem?_set_some found).imp (fun both => ⟨both.1, .inl both.2.symm⟩) fun both => ⟨both.1, .inl both.2⟩
      · exact (getElem?_set_some found).imp (fun both => ⟨both.1, .inr both.2.symm⟩) fun both => ⟨both.1, .inr both.2⟩
    · exact proved address same
    · exact h.issuing j address old

/-- Request `k` goes on to where it neither takes up a challenge nor is given a token. -/
theorem Tallied.leave (h : Tallied w g) (past : t'.isPast = true)
    (unproven : ∀ address, t' ≠ .issueToken address ∧ t' ≠ .accessToken address) :
    Tallied ⟨w.shared, w.calls.set k t'⟩ g := by
  refine h.settle past fun address proved => ?_
  obtain same | same := proved
  · exact absurd same (unproven address).1
  · exact absurd same (unproven address).2

/-- A request that has just arrived. -/
theorem Tallied.arrive (h : Tallied w g) (entry : t.isEntry = true) : Tallied ⟨w.shared, w.calls ++ [t]⟩ g := by
  have old : ∀ (j : ℕ) (u : AuthCall), (w.calls ++ [t])[j]? = some u → u.isEntry = false → w.calls[j]? = some u := by
    intro j u at_j other
    rcases getElem?_concat_some at_j with before | ⟨-, rfl⟩
    · exact before
    · rw [entry] at other
      cases other
  refine ⟨h.below, h.apart, h.counted, ?_, ?_, h.once, ?_⟩
  · exact fun j address c at_j fresh => h.scans j address c (old j _ at_j rfl) fresh
  · intro x member
    obtain ⟨n, used⟩ := h.consumed x member
    obtain ⟨u, at_call, was⟩ := used.past
    obtain ⟨bound, -⟩ := List.getElem?_eq_some_iff.mp at_call
    exact ⟨n, { used with past := ⟨u, (List.getElem?_append_left bound).trans at_call, was⟩ }⟩
  · intro j address at_j
    exact h.issuing j address (at_j.imp (fun found => old j _ found rfl) fun found => old j _ found rfl)

/-- A challenge is issued: what waits for a scan of the address is overtaken. -/
theorem Tallied.issue (h : Tallied w g) (nonce : String) (draw : ℕ) :
    Tallied ⟨(w.shared.issue address nonce draw).1, w.calls⟩ (g.issues w address) where
  below other n found := by
    simp only [Tally.issues, OrderedMap.get_set] at found ⊢
    split at found
    · cases found
      omega
    · exact (h.below other n found).trans (Nat.lt_succ_self _)
  apart a b n found found' := by
    simp only [Tally.issues, OrderedMap.get_set] at found found'
    split at found <;> split at found'
    · simp [*]
    · cases found
      exact absurd (h.below _ _ found') (lt_irrefl _)
    · cases found'
      exact absurd (h.below _ _ found) (lt_irrefl _)
    · exact h.apart a b n found found'
  counted other c found := by
    simp only [Tally.issues, AuthState.issue, OrderedMap.get_set] at found ⊢
    split
    · exact ⟨_, rfl⟩
    · rename_i different
      rw [if_neg different] at found
      exact h.counted other c found
  scans k other c at_k fresh := by
    have apart : other ≠ address := by
      rintro rfl
      exact fresh (List.mem_append_right _ (mem_scanning at_k))
    have here := h.scans k other c at_k fun before => fresh (List.mem_append_left _ before)
    simpa only [Tally.issues, AuthState.issue, OrderedMap.get_set, if_neg apart] using here
  consumed x member := by
    obtain ⟨n, used⟩ := h.consumed x member
    refine ⟨n, used.verified, used.pending, used.removed, used.below.trans (Nat.lt_succ_self _), ?_, used.held, used.past⟩
    intro other found
    simp only [Tally.issues, AuthState.issue, OrderedMap.get_set] at found ⊢
    split at found
    · cases found
      exact absurd used.below (lt_irrefl _)
    · rename_i different
      rw [if_neg different]
      exact used.gone other found
  once := h.once
  issuing := h.issuing

/-- A request that has used up a challenge is not this one. -/
theorem Tallied.ne_call (h : Tallied w g) (at_k : w.calls[k]? = some t) (active : t.isPast = false) :
    ∀ x ∈ g.consumptions, x.call ≠ k := by
  rintro x member rfl
  obtain ⟨n, used⟩ := h.consumed x member
  obtain ⟨u, at_call, was⟩ := used.past
  rw [at_k] at at_call
  cases at_call
  rw [active] at was
  cases was

theorem Tallied.pending_counted (h : Tallied w g) (live : c ∈ w.shared.pending address) :
    w.shared.challenges.get address = some c ∧ ∃ n, g.serials.get address = some n ∧
      g.serialOf address (w.shared.pending address) = some n ∧
      g.takesUp w.shared k address = { g with held := g.held.set k n } := by
  have found := (Option.mem_filter_iff.mp live).1
  obtain ⟨n, serial⟩ := h.counted address c found
  have same : g.serialOf address (w.shared.pending address) = some n := by
    rw [live, Tally.serialOf, Option.bind_some, serial]
  exact ⟨found, n, serial, same, by rw [Tally.takesUp, same]⟩

/-- A request that is no scan yet takes up the pending challenge. -/
theorem Tallied.takeUp (h : Tallied w g) (at_k : w.calls[k]? = some t) (entry : t.isEntry = true)
    (live : c ∈ w.shared.pending address) : Tallied w (g.takesUp w.shared k address) := by
  obtain ⟨-, n, serial, -, taken⟩ := h.pending_counted (k := k) live
  have active : t.isPast = false := by cases t <;> first | rfl | cases entry
  rw [taken]
  refine ⟨h.below, h.apart, h.counted, ?_, ?_, h.once, h.issuing⟩
  · intro j other c' at_j fresh
    have different : j ≠ k := by
      rintro rfl
      rw [at_k] at at_j
      cases at_j
      cases entry
    have here := h.scans j other c' at_j fresh
    simpa only [OrderedMap.get_set, if_neg different] using here
  · intro x member
    obtain ⟨m, used⟩ := h.consumed x member
    have different := h.ne_call at_k active x member
    refine ⟨m, { used with held := ?_ }⟩
    simpa only [OrderedMap.get_set, if_neg different] using used.held

/-- A login by payment starts its scan. -/
theorem Tallied.scan (h : Tallied w g) (at_k : w.calls[k]? = some (.loginOnChain address))
    (live : c ∈ w.shared.pending address) :
    Tallied ⟨w.shared, w.calls.set k (.scan address c)⟩ (g.takesUp w.shared k address) := by
  have taken := h.takeUp at_k rfl live
  obtain ⟨found, n, serial, -, is_set⟩ := h.pending_counted (k := k) live
  refine ⟨taken.below, taken.apart, taken.counted, ?_, ?_, taken.once, ?_⟩
  · intro j other c' at_j fresh
    obtain ⟨rfl, same⟩ | ⟨-, old⟩ := getElem?_set_some at_j
    · cases same
      rw [is_set]
      exact ⟨⟨n, by rw [OrderedMap.get_set, if_pos rfl], serial⟩, .inl found⟩
    · exact taken.scans j other c' old fresh
  · intro x member
    obtain ⟨m, used⟩ := taken.consumed x member
    have different := taken.ne_call at_k rfl x member
    obtain ⟨u, at_call, was⟩ := used.past
    exact ⟨m, { used with past := ⟨u, (List.getElem?_set_ne different.symm).trans at_call, was⟩ }⟩
  · intro j other at_j
    refine taken.issuing j other ?_
    obtain issuing | token := at_j
    · obtain ⟨-, same⟩ | ⟨-, old⟩ := getElem?_set_some issuing
      · cases same
      · exact .inl old
    · obtain ⟨-, same⟩ | ⟨-, old⟩ := getElem?_set_some token
      · cases same
      · exact .inr old

/-- A request whose challenge is the pending one uses it up. -/
theorem Tallied.consume (h : Tallied w g) (at_k : w.calls[k]? = some t) (active : t.isPast = false)
    (live : c ∈ w.shared.pending address) (held : g.held.get k = some n) (serial : g.serials.get address = some n) :
    Tallied ⟨w.shared.consume address, w.calls.set k (AuthCall.startIssue config address)⟩ (g.consumes w k address) := by
  have past := isPast_startIssue config address
  obtain ⟨found, m, serial', pending, -⟩ := h.pending_counted (k := k) live
  obtain rfl : n = m := Option.some.inj (serial.symm.trans serial')
  have stored : g.serialOf address (w.shared.challenges.get address) = some n := by
    rw [found, Tally.serialOf, Option.bind_some, serial]
  obtain ⟨bound, -⟩ := List.getElem?_eq_some_iff.mp at_k
  have erased : ∀ other, w.shared.challenges.get other = none → (w.shared.consume address).challenges.get other = none := by
    intro other none
    rw [AuthState.consume, OrderedMap.get_erase, none, ite_self]
  refine ⟨h.below, h.apart, ?_, ?_, ?_, ?_, ?_⟩
  · intro other c' found
    rw [AuthState.consume, OrderedMap.get_erase] at found
    split at found
    · cases found
    · exact h.counted other c' found
  · intro j other c' at_j fresh
    obtain ⟨-, same⟩ | ⟨-, old⟩ := getElem?_set_some at_j
    · rw [← same] at past
      cases past
    · have apart : other ≠ address := by
        rintro rfl
        exact fresh (List.mem_append_right _ (mem_scanning old))
      have here := h.scans j other c' old fun before => fresh (List.mem_append_left _ before)
      rwa [AuthState.consume, OrderedMap.get_erase, if_neg apart]
  · intro x member
    obtain old | new := List.mem_append.mp member
    · obtain ⟨m, used⟩ := h.consumed x old
      obtain ⟨u, at_call, was⟩ := used.past
      refine ⟨m, { used with gone := fun other same => ?_, past := ?_ }⟩
      · exact ⟨(used.gone other same).1, erased other (used.gone other same).2⟩
      · exact ⟨u, (List.getElem?_set_ne (h.ne_call at_k active x old).symm).trans at_call, was⟩
    · rw [List.mem_singleton.mp new]
      refine ⟨n, held, pending, stored, h.below address n serial, ?_, held, _, List.getElem?_set_self bound, past⟩
      intro other same
      obtain rfl := h.apart other address n same serial
      exact ⟨rfl, by rw [AuthState.consume, OrderedMap.get_erase, if_pos rfl]⟩
  · rw [Tally.consumes, List.map_append, List.map_cons, List.map_nil, held]
    refine List.nodup_append.mpr ⟨h.once, List.pairwise_singleton _ _, ?_⟩
    intro a before b single same
    -- a challenge that was used up before is not stored any more
    obtain ⟨x, member, rfl⟩ := List.mem_map.mp before
    obtain ⟨m, used⟩ := h.consumed x member
    rw [List.mem_singleton.mp single, used.verified] at same
    cases same
    rw [(used.gone address serial).2] at found
    cases found
  · intro j other at_j
    by_cases here : k = j
    · subst here
      rw [List.getElem?_set_self bound] at at_j
      have ours := address_eq_of_startIssue (at_j.imp Option.some.inj Option.some.inj)
      exact ⟨_, List.mem_append_right _ List.mem_cons_self, rfl, ours⟩
    · rw [List.getElem?_set_ne here] at at_j
      obtain ⟨x, member, same⟩ := h.issuing j other at_j
      exact ⟨x, List.mem_append_left _ member, same⟩

/-! ## Every step -/

/-- A login that verifies proves its address, and no other does. -/
theorem proves_login {signature : String} (live : c ∈ w.shared.pending address) :
    AuthCall.proves config w.shared (.login address signature) .handled =
      if config.verify (buildMessage address c.nonce) address signature = .ok true then some address else none := by
  rw [AuthCall.proves, live, Option.any_some]
  cases verdict : config.verify (buildMessage address c.nonce) address signature with
  | error message => rfl
  | ok valid => cases valid <;> rfl

theorem pending_of_peek_none (peeked : w.shared.peek address = (s', none)) : w.shared.pending address = none := by
  unfold AuthState.peek at peeked
  unfold AuthState.pending
  split at peeked
  · rename_i found
    rw [found]
    rfl
  · rename_i found
    split at peeked
    · rename_i expired
      rw [found]
      simp [expired]
    · cases peeked

/-- How one request goes on. -/
theorem tallied_resumed {a : AuthAnswer} (h : Tallied w g) (at_k : w.calls[k]? = some t)
    (inTime : t.InTime config w.shared g k a) (branch : AuthBranch config w.shared t a s' t') :
    Tallied ⟨s', w.calls.set k t'⟩ (g.resumed config w k t a) := by
  cases branch with
  | @issued address nonce message draw amountSats =>
    exact (h.issue nonce draw).leave rfl (by simp)
  | missing address named peeked =>
    have none := pending_of_peek_none peeked
    have same : g.resumed config w k t .handled = g := by
      obtain ⟨signature, rfl⟩ | rfl := named <;>
        simp [Tally.resumed, Tally.takesUp, Tally.serialOf, AuthCall.proves, none]
    rw [same]
    have dropped : Tallied ⟨s', w.calls⟩ g := by
      obtain rfl | ⟨rfl, expired⟩ := w.shared.peek_none peeked
      · exact h
      · refine h.forget le_rfl fun other => ?_
        rw [AuthState.consume, OrderedMap.get_erase]
        split
        · rename_i here
          exact .inr ⟨rfl, here ▸ expired⟩
        · exact .inl rfl
    exact dropped.leave rfl (by simp)
  | @invalid address signature message c live refused =>
    have same : g.resumed config w k (.login address signature) .handled = g.takesUp w.shared k address := by
      rw [Tally.resumed, proves_login live, if_neg refused]
      rfl
    rw [same]
    exact (h.takeUp at_k rfl live).leave rfl (by simp)
  | @verified address signature c live valid =>
    have same : g.resumed config w k (.login address signature) .handled =
        (g.takesUp w.shared k address).consumes w k address := by
      rw [Tally.resumed, proves_login live, if_pos valid]
      rfl
    obtain ⟨-, n, serial, -, taken⟩ := h.pending_counted (k := k) live
    rw [same]
    refine (h.takeUp at_k rfl live).consume (n := n) at_k rfl live ?_ ?_
    · rw [taken, OrderedMap.get_set, if_pos rfl]
    · rw [taken]
      exact serial
  | scanning live => exact h.scan at_k live
  | @unpaid address message c success absent =>
    have same : g.resumed config w k (.scan address c) (.scanned success) = g := by
      simp only [Tally.resumed, AuthCall.proves, absent]
      rfl
    rw [same]
    exact h.leave rfl (by simp)
  | @paid address c success scanned found =>
    have proves : AuthCall.proves config w.shared (.scan address c) (.scanned success) = some address := by
      rw [AuthCall.proves, scanned, found]
      rfl
    have same : g.resumed config w k (.scan address c) (.scanned success) = g.consumes w k address := by
      show (AuthCall.proves config w.shared (.scan address c) (.scanned success)).elim g (g.consumes w k) = _
      rw [proves]
      rfl
    obtain ⟨fresh, unexpired⟩ := inTime (by rw [proves]; rfl)
    obtain ⟨⟨n, held, serial⟩, stored⟩ := h.scans k address c at_k fresh
    have live : c ∈ w.shared.pending address :=
      Option.mem_filter_iff.mpr ⟨stored.resolve_right unexpired, decide_eq_true unexpired⟩
    rw [same]
    exact h.consume at_k rfl live held serial
  | @token address =>
    have dropped : Tallied ⟨{ w.shared with tokens := w.shared.tokens ++ [address] }, w.calls⟩ g :=
      h.forget le_rfl fun other => .inl rfl
    refine dropped.settle rfl fun other same => ?_
    obtain same | same := same <;> cases same
    exact h.issuing k address (.inl at_k)
  | @threw t message awaits =>
    have same : g.resumed config w k t (.threw message) = g := by
      obtain ⟨address, c, rfl⟩ | ⟨address, rfl⟩ := awaits <;> rfl
    rw [same]
    exact h.leave rfl (by simp)

theorem tallied_step {w' : World} {e : AuthEvent} (h : Tallied w g) (inTime : InTime config (w, g) e)
    (moved : World.step config w e = some w') : Tallied w' (tally config g w e w') := by
  cases e with
  | request event =>
    obtain ⟨t, rfl, entry, rfl⟩ | ⟨before, t, after, a, s', t', rfl, calls, resumed, rfl⟩ := Pool.step_cases moved
    · exact h.arrive entry
    · have at_k : w.calls[before.length]? = some t := by simp [calls]
      have put : before ++ t' :: after = w.calls.set before.length t' := by simp [calls]
      rw [tally, at_k, put]
      exact tallied_resumed h at_k (inTime t at_k) (AuthCall.authBranch resumed)
  | tick ms =>
    cases moved
    refine h.forget ?_ fun address => .inl rfl
    simp [AuthState.outside]
  | _ =>
    cases moved
    exact h.forget le_rfl fun address => .inl rfl

theorem Tallied.singleUse (h : Tallied w g) : SingleUse w g where
  consumed x member := by
    obtain ⟨n, used⟩ := h.consumed x member
    exact ⟨n, used.verified, used.pending, used.removed⟩
  proved k address token := h.issuing k address (.inr token)
  once j k a b first second same := by
    obtain ⟨x, inList, rfl, -⟩ := h.issuing j a (.inr first)
    obtain ⟨y, inList', rfl, -⟩ := h.issuing k b (.inr second)
    obtain ⟨n, used⟩ := h.consumed x inList
    obtain ⟨m, used'⟩ := h.consumed y inList'
    have verified : x.verified = y.verified := by
      rw [used.verified, used'.verified, ← used.held, ← used'.held, same]
    rw [List.inj_on_of_nodup_map h.once inList inList' verified]

end

/-- **Every challenge is good for one login**: in every run in which no successful scan was
overtaken or came too late, every login uses up the challenge that it has verified, while it is
pending, and no two tokens are for one challenge. -/
theorem singleUse_of_inTime {config : AuthConfig} {now : ℤ} {utxos : List Utxo} {w : World} {g : Tally}
    (run : Reaches (recording (World.step config) (tally config)) (InTime config)
      (World.initial now utxos, .empty) (w, g)) : SingleUse w g := by
  have tallied : Tallied w g := by
    apply run.invariant_recording
    · refine ⟨?_, ?_, ?_, ?_, ?_, List.nodup_nil, ?_⟩ <;> simp [World.initial, Tally.empty, OrderedMap.get]
    · exact fun _ _ _ _ h inTime moved => tallied_step h inTime moved
  exact tallied.singleUse

/-- Two polls for a payment that is there when the second one scans. -/
theorem singleUse_of_inTime_second_poll : ∃ (w : World) (g : Tally), w.shared.tokens = ["alice"] ∧
    g.consumptions.map (·.verified) = [some 0] ∧ SingleUse w g := by
  obtain ⟨⟨w, g⟩, run, tokens, verified⟩ := exists_reaches (recording (World.step spelledOut) (tally spelledOut))
    (InTime spelledOut) (World.initial 0 [], .empty)
    [.request (.start (.createChallenge "alice")), .request (.resume 0 (.drawn "00" 0)), .pay "alice" "alice" 1000,
      .request (.start (.loginOnChain "alice")), .request (.resume 1 .handled), .request (.resume 1 (.scanned true)),
      .confirm 0, .request (.start (.loginOnChain "alice")), .request (.resume 2 .handled),
      .request (.resume 2 (.scanned true)), .request (.resume 2 .handled)]
    (fun q => q.1.shared.tokens = ["alice"] ∧ q.2.consumptions.map (·.verified) = [some 0]) (by decide +kernel)
  exact ⟨w, g, tokens, verified, singleUse_of_inTime run⟩

/-- Two scans for one payment are under way at once: both find it, and there are two tokens. -/
theorem not_singleUse_two_scans : ¬ ∀ (config : AuthConfig) (now : ℤ) (utxos : List Utxo) (w : World) (g : Tally),
    Reaches (recording (World.step config) (tally config)) Always (World.initial now utxos, .empty) (w, g) →
    SingleUse w g := by
  intro claim
  obtain ⟨⟨w, g⟩, run, first, second, same⟩ := exists_reaches (recording (World.step spelledOut) (tally spelledOut)) Always
    (World.initial 0 [], .empty)
    [.request (.start (.createChallenge "alice")), .request (.resume 0 (.drawn "00" 0)), .pay "alice" "alice" 1000,
      .confirm 0, .request (.start (.loginOnChain "alice")), .request (.resume 1 .handled),
      .request (.start (.loginOnChain "alice")), .request (.resume 2 .handled), .request (.resume 1 (.scanned true)),
      .request (.resume 1 .handled), .request (.resume 2 (.scanned true)), .request (.resume 2 .handled)]
    (fun q => q.1.calls[1]? = some (.accessToken "alice") ∧ q.1.calls[2]? = some (.accessToken "alice") ∧
      q.2.held.get 1 = q.2.held.get 2) (by decide +kernel)
  have one := (claim _ _ _ _ _ run).once 1 2 "alice" "alice" first second same
  cases one

end ElektronPool.Auth
