import ElektronPool.Stratum.ClientService

/-!
# The rows of sessions that have ended

Every queued row is in one place: in the queue, in a batch on its way, or answered once
(`Books`). A soft delete only finds the rows that are there when it takes effect. A row of the
session that is still queued then is inserted afterwards and stays.
-/

namespace ElektronPool.Stratum.ClientService
set_option autoImplicit false
open Js Async

/-- The rows whose insertion a call has not seen through. -/
def Call.inFlight : Call → List QueuedClient
  | .inserting batch | .inserted batch _ | .insertFailed batch => batch
  | _ => []

/-- The rows that a call is still going to insert. -/
def Call.unwritten : Call → List QueuedClient
  | .inserting batch => batch
  | _ => []

/-- A call that has nothing to do with a batch. -/
def Call.isQuiet : Call → Bool
  | .inserting _ | .inserted .. | .insertFailed _ => false
  | _ => true

theorem Call.inFlight_of_isQuiet {t : Call} (quiet : t.isQuiet = true) : t.inFlight = [] := by
  cases t <;> first | rfl | cases quiet

theorem Call.unwritten_of_isQuiet {t : Call} (quiet : t.isQuiet = true) : t.unwritten = [] := by
  cases t <;> first | rfl | cases quiet

/-- Nothing is queued and no batch is on its way. -/
def Server.Flushed (p : Server) : Prop := p.shared.insertQueue = [] ∧ ∀ t ∈ p.calls, t.inFlight = []

instance (p : Server) : Decidable p.Flushed := inferInstanceAs (Decidable (_ ∧ _))

/-- A row that was inserted for this client with these values. -/
def Own (rows : List ClientRow) (c : PartialClient) (g : GeneratedMap) : Prop :=
  ∃ row ∈ rows, row.client = c ∧ row.generated = g

/-- What the queue and the soft delete are for. -/
structure Server.TidyRows (p : Server) : Prop where
  deleted : p.Flushed → ∀ session ∈ p.shared.sessions, session.destroyPromise = some .settled →
    ∀ row ∈ p.shared.rows, row.client.sessionId = session.id → row.deleted = true
  once : ∀ x ∈ p.shared.subjects, x.signals.length ≤ 1
  answered : p.Flushed → ∀ x ∈ p.shared.subjects, x.signals.length = 1
  own : ∀ x ∈ p.shared.subjects, ∀ g, .resolved g ∈ x.signals → Own p.shared.rows x.partialClient g

/-- No session with this id has had its rows deleted. -/
def World.Open (s : World) (id : String) : Prop := ∀ session ∈ s.sessions, session.isGone = true → session.id ≠ id

instance (s : World) (id : String) : Decidable (s.Open id) :=
  inferInstanceAs (Decidable (∀ session ∈ s.sessions, session.isGone = true → session.id ≠ id))

/-- A soft delete takes effect when no row of its session is queued or about to be inserted, and
nothing queues or revives such a row afterwards. -/
def Call.InTime (s : World) (others : List Call) : Call → Answer → Prop
  | .ensureClientEntity k, _ => ∀ session ∈ s.sessions[k]?, session.entity = none → session.creatingEntity = none →
      s.Open session.id
  | .heartbeat _ key _ _, .executed _ => s.Open key.sessionId
  | .deleting k, .executed _ => ∀ session ∈ s.sessions[k]?,
      ∀ c ∈ s.insertQueue ++ others.flatMap Call.unwritten, c.partialClient.sessionId ≠ session.id
  | .deleting _, .threw => False
  | _, _ => True

instance (s : World) (others : List Call) : ∀ (t : Call) (a : Answer), Decidable (t.InTime s others a) := by
  intro t a
  unfold Call.InTime
  split <;> infer_instance

/-- The condition on the events. -/
def InTime (p : Server) : Event Call Answer → Prop := Pool.Allowed (fun _ _ => True) Call.InTime p

instance (p : Server) (e : Event Call Answer) : Decidable (InTime p e) :=
  inferInstanceAs (Decidable (Pool.Allowed (fun _ _ => True) Call.InTime p e))

/-! ## What a resumption does -/

/-- The sessions that are gone were so before. -/
def GoneFrom (before after : List Session) : Prop :=
  ∀ x ∈ after, x.isGone = true → ∃ y ∈ before, y.isGone = true ∧ y.id = x.id

theorem goneFrom_refl (sessions : List Session) : GoneFrom sessions sessions := fun x member gone => ⟨x, member, gone, rfl⟩

/-- What is left of a list when one entry changes. -/
theorem mem_modify {α : Type*} {l : List α} {k : ℕ} {f : α → α} {x : α} (member : x ∈ l.modify k f) :
    x ∈ l ∨ ∃ y ∈ l[k]?, x = f y := by
  obtain ⟨n, found⟩ := List.mem_iff_getElem?.mp member
  rw [List.getElem?_modify] at found
  obtain ⟨y, at_n, same⟩ := Option.map_eq_some_iff.mp found
  split at same
  · rename_i here
    exact .inr ⟨y, here ▸ at_n, same.symm⟩
  · exact .inl (same ▸ List.mem_of_getElem? at_n)

theorem goneFrom_modify {sessions : List Session} {k : ℕ} {f : Session → Session}
    (same : ∀ x, ((f x).isGone = true → x.isGone = true) ∧ (f x).id = x.id) : GoneFrom sessions (sessions.modify k f) := by
  intro x member gone
  obtain old | ⟨y, found, rfl⟩ := mem_modify member
  · exact ⟨x, old, gone, rfl⟩
  · exact ⟨y, List.mem_of_getElem? found, (same y).1 gone, (same y).2.symm⟩

/-- What a resumption does to the sessions, the queue, the subjects and the rows. -/
inductive Resumed (s : World) : Call → Answer → World → Call → Prop
  | aside {t t' : Call} {a : Answer} {sessions : List Session} (gone : GoneFrom s.sessions sessions)
      (before : t.isQuiet = true) (after : t'.isQuiet = true) : Resumed s t a { s with sessions := sessions } t'
  | queue {k : ℕ} {now : ℤ} {session : Session} {c : PartialClient} {sessions : List Session}
      (here : s.sessions[k]? = some session) (entity : session.entity = none) (creating : session.creatingEntity = none)
      (id : c.sessionId = session.id) (gone : GoneFrom s.sessions sessions) :
      Resumed s (.ensureClientEntity k) (.ran now)
        ⟨s.insertQueue ++ [⟨s.subjects.length, c⟩], s.subjects ++ [⟨c, []⟩], s.rows, sessions⟩
        (.creatingEntity k s.subjects.length)
  | flush {now : ℤ} : Resumed s .insertClients (.ran now) { s with insertQueue := [] } (.inserting s.insertQueue)
  | write {batch : List QueuedClient} {generatedMaps : List GeneratedMap} (fits : Fits s.rows batch generatedMaps) :
      Resumed s (.inserting batch) (.executed generatedMaps) { s with rows := s.rows ++ added batch generatedMaps }
        (.inserted batch generatedMaps)
  | fail {batch : List QueuedClient} : Resumed s (.inserting batch) .threw s (.insertFailed batch)
  | answer {batch : List QueuedClient} {generatedMaps : List GeneratedMap} {now : ℤ} :
      Resumed s (.inserted batch generatedMaps) (.ran now)
        { s with subjects := signal s.subjects (resolutions batch generatedMaps) } .returned
  | reject {batch : List QueuedClient} {now : ℤ} : Resumed s (.insertFailed batch) (.ran now)
      { s with subjects := signal s.subjects (rejections batch) } .rejected
  | revive {k : ℕ} {key : PrimaryKey} {hashRate : Number} {now : ℤ} {generatedMaps : List GeneratedMap} :
      Resumed s (.heartbeat k key hashRate now) (.executed generatedMaps)
        { s with rows := ClientService.revive key hashRate now s.rows } (.heartbeatReply k now)
  | delete {k : ℕ} {session : Session} {generatedMaps : List GeneratedMap} (here : s.sessions[k]? = some session) :
      Resumed s (.deleting k) (.executed generatedMaps) { s with
        rows := softDelete session.id s.rows
        sessions := s.sessions.modify k fun c => { c with destroyPromise := some .deleted } } (.deleteReply k)
  | undeleted {k : ℕ} : Resumed s (.deleting k) .threw
      { s with sessions := s.sessions.modify k fun c => { c with destroyPromise := some .settled } } .returned

section
variable {s s' : World} {t t' : Call} {a : Answer} {k : ℕ} {session : Session} {now : ℤ}

theorem resumed_refl (before : t.isQuiet = true) (after : t'.isQuiet = true) : Resumed s t a s t' :=
  .aside (goneFrom_refl _) before after

/-- A session changes, but not in its id, and is not gone by that. -/
theorem resumed_updateSession {f : Session → Session}
    (same : ∀ x, ((f x).isGone = true → x.isGone = true) ∧ (f x).id = x.id) (before : t.isQuiet = true)
    (after : t'.isQuiet = true) : Resumed s t a (s.updateSession k f) t' :=
  .aside (goneFrom_modify same) before after

theorem resumed_of_ensure (here : s.sessions[k]? = some session)
    (resumed : Call.ensure s k session now = some (s', t')) : Resumed s (.ensureClientEntity k) (.ran now) s' t' := by
  unfold Call.ensure at resumed
  split at resumed
  · cases resumed
    exact resumed_refl rfl rfl
  · cases resumed
    exact resumed_refl rfl rfl
  · cases resumed
  · rename_i entity creating _
    cases resumed
    exact .queue here entity creating rfl (goneFrom_modify fun x => ⟨id, rfl⟩)

theorem resumed_of_created {n : ℕ} (resumed : Call.created s k n = some (s', t')) :
    Resumed s (.creatingEntity k n) (.ran now) s' t' := by
  obtain ⟨x, -, told⟩ := Option.bind_eq_some_iff.mp resumed
  split at told
  · cases told
  · cases told
    exact resumed_updateSession (fun x => ⟨id, rfl⟩) rfl rfl
  · cases told
    exact resumed_refl rfl rfl

theorem resumed_of_beat (beaten : Call.beat s k session now = (s', t')) : Resumed s (.addShares k) a s' t' := by
  unfold Call.beat at beaten
  split at beaten
  · cases beaten
    exact resumed_refl rfl rfl
  · split at beaten <;> cases beaten <;> exact resumed_refl rfl rfl

theorem resumed_of_close (closed : Call.close s k session = (s', t')) : Resumed s (.destroy k) a s' t' := by
  unfold Call.close at closed
  split at closed
  · cases closed
    exact resumed_refl rfl rfl
  · cases closed
    exact resumed_updateSession (fun x => ⟨by simp [Session.isGone], rfl⟩) rfl rfl

theorem resumed_of_flush (flushed : Call.flush s = (s', t')) : Resumed s .insertClients (.ran now) s' t' := by
  unfold Call.flush at flushed
  split at flushed
  · cases flushed
    exact resumed_refl rfl rfl
  · rename_i queued
    cases flushed
    rw [← queued]
    exact .flush

theorem resumed_of_resume (resumed : t.resume s a = some (s', t')) : Resumed s t a s' t' := by
  unfold Call.resume at resumed
  split at resumed
  case h_1 =>
    cases resumed
    refine .aside ?_ rfl rfl
    intro x member gone
    obtain old | new := List.mem_append.mp member
    · exact ⟨x, old, gone, rfl⟩
    · rw [List.mem_singleton.mp new] at gone
      cases gone
  case h_2 | h_3 | h_4 | h_11 =>
    cases resumed
    exact resumed_updateSession (fun x => ⟨id, rfl⟩) rfl rfl
  case h_5 =>
    obtain ⟨session, here, ensured⟩ := Option.bind_eq_some_iff.mp resumed
    exact resumed_of_ensure here ensured
  case h_6 => exact resumed_of_created resumed
  case h_7 =>
    obtain ⟨session, -, beaten⟩ := Option.map_eq_some_iff.mp resumed
    exact resumed_of_beat beaten
  case h_8 | h_10 =>
    cases resumed
    exact resumed_refl rfl rfl
  case h_9 =>
    cases resumed
    exact .revive
  case h_12 => exact resumed_of_flush (Option.some.inj resumed)
  case h_13 =>
    split at resumed
    · cases resumed
      exact .write ‹_›
    · cases resumed
  case h_14 =>
    cases resumed
    exact .fail
  case h_15 =>
    cases resumed
    exact .answer
  case h_16 =>
    cases resumed
    exact .reject
  case h_17 =>
    obtain ⟨session, -, closed⟩ := Option.map_eq_some_iff.mp resumed
    exact resumed_of_close closed
  case h_18 =>
    obtain ⟨session, here, same⟩ := Option.map_eq_some_iff.mp resumed
    cases same
    exact .delete here
  case h_19 =>
    cases resumed
    exact .undeleted
  case h_20 =>
    cases resumed
    refine resumed_updateSession (fun x => ⟨fun gone => ?_, rfl⟩) rfl rfl
    cases promise : x.destroyPromise with
    | none => simp [Session.isGone, promise] at gone
    | some state => cases state <;> simp_all [Session.isGone, DestroyPromise.reply]
  case h_21 => cases resumed

end

/-! ## Every queued row is answered once -/

/-- What each subject has been told after the outcomes. -/
theorem getElem?_signal (subjects : List Subject) (outcomes : List (ℕ × Outcome)) (n : ℕ) :
    (signal subjects outcomes)[n]? = (subjects[n]?).map fun x =>
      { x with signals := x.signals ++ (outcomes.filter fun o => o.1 = n).map (·.2) } := by
  induction outcomes generalizing subjects with
  | nil => simp [signal]
  | cons o outcomes ih =>
    have step : signal subjects (o :: outcomes) =
        signal (subjects.modify o.1 fun x => { x with signals := x.signals ++ [o.2] }) outcomes := rfl
    rw [step, ih, List.getElem?_modify]
    by_cases here : o.1 = n <;> cases subjects[n]? <;> simp [here]

/-- There is no outcome for the other subjects. -/
theorem filter_of_notMem {outcomes : List (ℕ × Outcome)} {n : ℕ} (other : n ∉ outcomes.map (·.1)) :
    (outcomes.filter fun x => x.1 = n) = [] := by
  rw [List.filter_eq_nil_iff]
  intro x member same
  exact other (List.mem_map.mpr ⟨x, member, of_decide_eq_true same⟩)

/-- An outcome for a subject that has only one. -/
theorem filter_of_nodup {outcomes : List (ℕ × Outcome)} {n : ℕ} {o : Outcome} (once : (outcomes.map (·.1)).Nodup)
    (member : (n, o) ∈ outcomes) : (outcomes.filter fun x => x.1 = n).map (·.2) = [o] := by
  induction outcomes with
  | nil => cases member
  | cons x outcomes ih =>
    obtain ⟨fresh, once⟩ := List.nodup_cons.mp once
    obtain rfl | later := List.mem_cons.mp member
    · simp [filter_of_notMem fresh]
    · have other : x.1 ≠ n := fun same => fresh (List.mem_map.mpr ⟨(n, o), later, same.symm⟩)
      simp [other, ih once later]

/-- A batch with as many values is answered as a whole. -/
theorem map_fst_resolutions {batch : List QueuedClient} {generatedMaps : List GeneratedMap}
    (same : batch.length = generatedMaps.length) :
    (resolutions batch generatedMaps).map (·.1) = batch.map (·.result) := by
  calc (resolutions batch generatedMaps).map (·.1)
      = ((batch.zip generatedMaps).map Prod.fst).map (·.result) := by simp [resolutions]
    _ = batch.map (·.result) := by rw [List.map_fst_zip same.le]

/-- The rows on their way, and the answers to the others. -/
structure Books (subjects : List Subject) (rows : List ClientRow) (pending : List QueuedClient) : Prop where
  once : (pending.map (·.result)).Nodup
  waiting : ∀ c ∈ pending, subjects[c.result]? = some ⟨c.partialClient, []⟩
  answered : ∀ n x, subjects[n]? = some x → n ∉ pending.map (·.result) →
    ∃ o, x.signals = [o] ∧ ∀ g, o = .resolved g → Own rows x.partialClient g

namespace Books
variable {subjects : List Subject} {rows rows' : List ClientRow} {pending pending' batch rest : List QueuedClient}

theorem perm (h : Books subjects rows pending) (same : pending.Perm pending') : Books subjects rows pending' where
  once := (same.map _).nodup_iff.mp h.once
  waiting c member := h.waiting c (same.mem_iff.mpr member)
  answered n x found other := h.answered n x found fun member => other ((same.map _).mem_iff.mp member)

/-- The rows that have been inserted are still there. -/
theorem of_rows (h : Books subjects rows pending) (kept : ∀ c g, Own rows c g → Own rows' c g) :
    Books subjects rows' pending where
  once := h.once
  waiting := h.waiting
  answered n x found other := by
    obtain ⟨o, told, own⟩ := h.answered n x found other
    exact ⟨o, told, fun g resolved => kept _ _ (own g resolved)⟩

/-- A row is queued. -/
theorem queue (h : Books subjects rows pending) (c : PartialClient) :
    Books (subjects ++ [⟨c, []⟩]) rows (⟨subjects.length, c⟩ :: pending) := by
  have below : ∀ c ∈ pending, c.result < subjects.length := by
    intro c member
    exact (List.getElem?_eq_some_iff.mp (h.waiting c member)).1
  constructor
  · rw [List.map_cons, List.nodup_cons]
    refine ⟨fun member => ?_, h.once⟩
    obtain ⟨d, d_member, same⟩ := List.mem_map.mp member
    exact absurd same (below d d_member).ne
  · intro d member
    obtain rfl | old := List.mem_cons.mp member
    · exact List.getElem?_concat_length
    · rw [List.getElem?_append_left (below d old)]
      exact h.waiting d old
  · intro n x found other
    obtain old | ⟨rfl, -⟩ := getElem?_concat_some found
    · exact h.answered n x old fun member => other (List.mem_cons_of_mem _ member)
    · exact absurd List.mem_cons_self other

/-- A batch is answered. -/
theorem settle {outcomes : List (ℕ × Outcome)} (h : Books subjects rows (batch ++ rest))
    (each : outcomes.map (·.1) = batch.map (·.result))
    (own : ∀ c ∈ batch, ∀ g, (c.result, .resolved g) ∈ outcomes → Own rows c.partialClient g) :
    Books (signal subjects outcomes) rows rest := by
  have once := h.once
  rw [List.map_append, List.nodup_append] at once
  obtain ⟨batch_once, rest_once, apart⟩ := once
  have silent : ∀ n, n ∉ batch.map (·.result) → (outcomes.filter fun o => o.1 = n) = [] := by
    intro n other
    rw [← each] at other
    exact filter_of_notMem other
  constructor
  · exact rest_once
  · intro c member
    have other : c.result ∉ batch.map (·.result) := fun told => apart _ told _ (List.mem_map_of_mem member) rfl
    rw [getElem?_signal, h.waiting c (List.mem_append_right _ member), silent _ other]
    rfl
  · intro n x found other
    rw [getElem?_signal] at found
    obtain ⟨y, before, rfl⟩ := Option.map_eq_some_iff.mp found
    by_cases told : n ∈ batch.map (·.result)
    · obtain ⟨c, member, rfl⟩ := List.mem_map.mp told
      have waiting := h.waiting c (List.mem_append_left _ member)
      cases before.symm.trans waiting
      rw [← each] at told
      obtain ⟨⟨n, o⟩, o_member, same⟩ := List.mem_map.mp told
      obtain rfl : n = c.result := same
      refine ⟨o, ?_, fun g resolved => own c member g (resolved ▸ o_member)⟩
      exact filter_of_nodup (each ▸ batch_once) o_member
    · obtain ⟨o, signals, owned⟩ := h.answered n y before (by
        rw [List.map_append, List.mem_append, not_or]
        exact ⟨told, other⟩)
      exact ⟨o, by simp [silent n told, signals], owned⟩

end Books

/-- The rows of the batch have been inserted. -/
def Call.Written (rows : List ClientRow) : Call → Prop
  | .inserted batch generatedMaps => batch.length = generatedMaps.length ∧
      ∀ c g, (c, g) ∈ batch.zip generatedMaps → Own rows c.partialClient g
  | _ => True

theorem Call.written_of_isQuiet {rows : List ClientRow} {t : Call} (quiet : t.isQuiet = true) : t.Written rows := by
  cases t with
  | inserted => cases quiet
  | _ => trivial

theorem Call.Written.mono {rows rows' : List ClientRow} {t : Call} (h : t.Written rows)
    (kept : ∀ c g, Own rows c g → Own rows' c g) : t.Written rows' := by
  cases t with
  | inserted batch generatedMaps => exact ⟨h.1, fun c g member => kept _ _ (h.2 c g member)⟩
  | _ => trivial

theorem own_map {rows : List ClientRow} {f : ClientRow → ClientRow} {c : PartialClient} {g : GeneratedMap}
    (same : ∀ row, (f row).client = row.client ∧ (f row).generated = row.generated) (own : Own rows c g) :
    Own (rows.map f) c g := by
  obtain ⟨row, member, client, generated⟩ := own
  exact ⟨f row, List.mem_map_of_mem member, (same row).1.trans client, (same row).2.trans generated⟩

section
variable {s s' : World} {t t' : Call} {a : Answer} {rest : List QueuedClient}

/-- No row that has been inserted is lost. -/
theorem Resumed.own (h : Resumed s t a s' t') {c : PartialClient} {g : GeneratedMap} (own : Own s.rows c g) :
    Own s'.rows c g := by
  cases h with
  | write fits =>
    obtain ⟨row, member, same⟩ := own
    exact ⟨row, List.mem_append_left _ member, same⟩
  | revive => exact own_map (fun row => by split <;> exact ⟨rfl, rfl⟩) own
  | delete here => exact own_map (fun row => by split <;> exact ⟨rfl, rfl⟩) own
  | aside | queue | flush | fail | answer | reject | undeleted => exact own

/-- One resumption beside the other rows on their way. -/
theorem Books.resume (h : Books s.subjects s.rows (t.inFlight ++ (s.insertQueue ++ rest))) (written : t.Written s.rows)
    (resumed : Resumed s t a s' t') :
    Books s'.subjects s'.rows (t'.inFlight ++ (s'.insertQueue ++ rest)) ∧ t'.Written s'.rows := by
  have kept := fun c g => resumed.own (c := c) (g := g)
  cases resumed with
  | aside gone before after =>
    rw [Call.inFlight_of_isQuiet before] at h
    rw [Call.inFlight_of_isQuiet after]
    exact ⟨h, Call.written_of_isQuiet after⟩
  | queue here entity creating id gone =>
    refine ⟨(h.queue _).perm ?_, trivial⟩
    simp only [Call.inFlight, List.nil_append, List.append_assoc, List.singleton_append]
    exact List.perm_middle.symm
  | flush => exact ⟨by simpa [Call.inFlight] using h, trivial⟩
  | write fits =>
    refine ⟨h.of_rows kept, fits.1, fun c g member => ?_⟩
    exact ⟨_, List.mem_append_right _ (List.mem_map_of_mem member), rfl, rfl⟩
  | fail => exact ⟨h, trivial⟩
  | @answer batch generatedMaps =>
    refine ⟨h.settle ?_ fun c member g told => ?_, trivial⟩
    · exact map_fst_resolutions written.1
    · obtain ⟨⟨d, g'⟩, zipped, same⟩ := List.mem_map.mp told
      obtain ⟨result, outcome⟩ := Prod.ext_iff.mp same
      cases outcome
      have once : (batch.map (·.result)).Nodup := by
        have all := h.once
        rw [List.map_append] at all
        exact (List.nodup_append.mp all).1
      rw [← List.inj_on_of_nodup_map once (List.of_mem_zip zipped).1 member result]
      exact written.2 d _ zipped
  | reject =>
    refine ⟨h.settle ?_ fun c member g told => ?_, trivial⟩
    · rw [rejections, List.map_map]
      rfl
    · obtain ⟨d, -, same⟩ := List.mem_map.mp told
      cases (Prod.ext_iff.mp same).2
  | revive | delete | undeleted => exact ⟨h.of_rows kept, trivial⟩

end

/-- The rows on their way in a server, and the answers to the others. -/
structure Server.Accounts (p : Server) : Prop where
  books : Books p.shared.subjects p.shared.rows (p.shared.insertQueue ++ p.calls.flatMap Call.inFlight)
  written : ∀ t ∈ p.calls, t.Written p.shared.rows

theorem Call.isQuiet_of_isEntry {t : Call} (entry : t.isEntry = true) : t.isQuiet = true := by
  cases t with
  | inserting | inserted | insertFailed => cases entry
  | _ => rfl

/-- What one call holds beside what is queued and what the others hold. -/
theorem perm_flatMap (held : Call → List QueuedClient) (queue : List QueuedClient) (before after : List Call) (t : Call) :
    (queue ++ (before ++ t :: after).flatMap held).Perm (held t ++ (queue ++ (before ++ after).flatMap held)) := by
  refine ((List.perm_middle.flatMap_right held).append_left queue).trans ?_
  rw [List.flatMap_cons]
  exact List.perm_append_comm_assoc _ _ _

theorem Server.Accounts.step {p p' : Server} {e : Event Call Answer} (h : p.Accounts) (moved : p.step e = some p') :
    p'.Accounts := by
  obtain ⟨t, rfl, entry, rfl⟩ | ⟨before, t, after, a, s', t', rfl, calls, resumed, rfl⟩ := Pool.step_cases moved
  · have quiet := Call.isQuiet_of_isEntry entry
    constructor
    · rw [List.flatMap_append, List.flatMap_singleton, Call.inFlight_of_isQuiet quiet, List.append_nil]
      exact h.books
    · intro u member
      obtain old | new := List.mem_append.mp member
      · exact h.written u old
      · rw [List.mem_singleton.mp new]
        exact Call.written_of_isQuiet quiet
  · have effect := resumed_of_resume resumed
    have books := h.books
    rw [calls] at books
    obtain ⟨now, own⟩ := (books.perm (perm_flatMap _ _ before after t)).resume (h.written t (by simp [calls])) effect
    constructor
    · exact now.perm (perm_flatMap _ _ before after t').symm
    · intro u member
      have others : ∀ u ∈ before ++ after, u.Written s'.rows := fun u other =>
        (h.written u (by rw [calls]; simp at other ⊢; tauto)).mono fun _ _ => effect.own
      obtain left | right := List.mem_append.mp member
      · exact others u (List.mem_append_left _ left)
      · obtain rfl | right := List.mem_cons.mp right
        · exact own
        · exact others u (List.mem_append_right _ right)

theorem Server.accounts_of_reaches {ok : Server → Event Call Answer → Prop} {p : Server}
    (run : Reaches Server.step ok .initial p) : p.Accounts := by
  apply run.invariant
  · exact ⟨⟨.nil, nofun, nofun⟩, nofun⟩
  · exact fun _ _ _ h _ moved => h.step moved

/-! ## The rows of a session that is gone -/

/-- All rows of the sessions that are gone are deleted, and none is going to be inserted. -/
def Cleaned (s : World) (unwritten : List QueuedClient) : Prop :=
  ∀ session ∈ s.sessions, session.isGone = true →
    (∀ row ∈ s.rows, row.client.sessionId = session.id → row.deleted = true) ∧
    ∀ c ∈ unwritten, c.partialClient.sessionId ≠ session.id

theorem mem_softDelete {sessionId : String} {rows : List ClientRow} {row : ClientRow}
    (member : row ∈ softDelete sessionId rows) : row.deleted = true ∨ (row ∈ rows ∧ row.client.sessionId ≠ sessionId) := by
  obtain ⟨before, before_member, rfl⟩ := List.mem_map.mp member
  split
  · exact .inl rfl
  · exact .inr ⟨before_member, ‹_›⟩

theorem mem_revive {key : PrimaryKey} {hashRate : Number} {now : ℤ} {rows : List ClientRow} {row : ClientRow}
    (member : row ∈ revive key hashRate now rows) : row.client.key = key ∨ row ∈ rows := by
  obtain ⟨before, before_member, rfl⟩ := List.mem_map.mp member
  split
  · exact .inl ‹_›
  · exact .inr before_member

namespace Cleaned
variable {s s' : World} {t t' : Call} {a : Answer} {others : List Call} {unwritten unwritten' : List QueuedClient}

/-- Fewer sessions are gone, and no more rows are going to be inserted. -/
theorem of_gone {sessions : List Session} (h : Cleaned s unwritten) (gone : GoneFrom s.sessions sessions)
    (fewer : ∀ c ∈ unwritten', c ∈ unwritten) : Cleaned { s with sessions := sessions } unwritten' := by
  intro x member is_gone
  obtain ⟨y, y_member, y_gone, same⟩ := gone x member is_gone
  rw [← same]
  exact ⟨(h y y_member y_gone).1, fun c c_member => (h y y_member y_gone).2 c (fewer c c_member)⟩

theorem mono (h : Cleaned s unwritten) (fewer : ∀ c ∈ unwritten', c ∈ unwritten) : Cleaned s unwritten' :=
  h.of_gone (goneFrom_refl _) fewer

/-- A batch is inserted whose sessions are all there. -/
theorem write {batch : List QueuedClient} {generatedMaps : List GeneratedMap} (h : Cleaned s (batch ++ unwritten)) :
    Cleaned { s with rows := s.rows ++ added batch generatedMaps } unwritten := by
  intro session member gone
  obtain ⟨deleted, apart⟩ := h session member gone
  refine ⟨fun row row_member same => ?_, fun c c_member => apart c (List.mem_append_right _ c_member)⟩
  obtain old | new := List.mem_append.mp row_member
  · exact deleted row old same
  · obtain ⟨⟨c, g⟩, zipped, rfl⟩ := List.mem_map.mp new
    exact absurd same (apart c (List.mem_append_left _ (List.of_mem_zip zipped).1))

theorem revive {key : PrimaryKey} {hashRate : Number} {now : ℤ} (h : Cleaned s unwritten) (isOpen : s.Open key.sessionId) :
    Cleaned { s with rows := ClientService.revive key hashRate now s.rows } unwritten := by
  intro session member gone
  obtain ⟨deleted, apart⟩ := h session member gone
  refine ⟨fun row row_member same => ?_, apart⟩
  obtain is_key | old := mem_revive row_member
  · refine absurd ?_ (isOpen session member gone)
    rw [← same, ← is_key]
    rfl
  · exact deleted row old same

/-- A soft delete leaves no row of its session, if none is queued or about to be inserted. -/
theorem delete {k : ℕ} {session : Session} (h : Cleaned s unwritten) (here : s.sessions[k]? = some session)
    (apart : ∀ c ∈ unwritten, c.partialClient.sessionId ≠ session.id) :
    Cleaned { s with
      rows := softDelete session.id s.rows
      sessions := s.sessions.modify k fun c => { c with destroyPromise := some .deleted } } unwritten := by
  intro x member gone
  obtain old | ⟨y, found, rfl⟩ := mem_modify member
  · obtain ⟨deleted, others⟩ := h x old gone
    refine ⟨fun row row_member same => ?_, others⟩
    obtain marked | ⟨before, -⟩ := mem_softDelete row_member
    · exact marked
    · exact deleted row before same
  · cases here.symm.trans found
    refine ⟨fun row row_member same => ?_, apart⟩
    obtain marked | ⟨-, other⟩ := mem_softDelete row_member
    · exact marked
    · exact absurd same other

/-- One resumption in time, beside the rows that the other calls are going to insert. -/
theorem resume (h : Cleaned s (t.unwritten ++ (s.insertQueue ++ others.flatMap Call.unwritten)))
    (inTime : t.InTime s others a) (resumed : Resumed s t a s' t') :
    Cleaned s' (t'.unwritten ++ (s'.insertQueue ++ others.flatMap Call.unwritten)) := by
  cases resumed with
  | aside gone before after =>
    rw [Call.unwritten_of_isQuiet before] at h
    rw [Call.unwritten_of_isQuiet after]
    exact h.of_gone gone fun _ => id
  | queue here entity creating id gone =>
    have isOpen := inTime _ here entity creating
    intro x member is_gone
    obtain ⟨y, y_member, y_gone, same⟩ := gone x member is_gone
    obtain ⟨deleted, apart⟩ := h y y_member y_gone
    rw [← same]
    refine ⟨deleted, fun d d_member => ?_⟩
    simp only [Call.unwritten, List.nil_append, List.append_assoc, List.singleton_append] at apart d_member
    obtain rfl | old := List.mem_cons.mp (List.perm_middle.mem_iff.mp d_member)
    · rw [id]
      exact (isOpen y y_member y_gone).symm
    · exact apart d old
  | flush => exact h.of_gone (goneFrom_refl _) (by simp [Call.unwritten])
  | write fits => exact h.write
  | fail => exact h.mono fun _ => List.mem_append_right _
  | answer | reject => exact h
  | revive => exact h.revive inTime
  | delete here => exact h.delete here (inTime _ here)
  | undeleted => exact inTime.elim

end Cleaned

theorem Server.cleaned_of_inTime {p : Server} (run : Reaches Server.step InTime .initial p) :
    Cleaned p.shared (p.shared.insertQueue ++ p.calls.flatMap Call.unwritten) := by
  apply run.invariant
  · intro session member
    cases member
  · intro p e p' h inTime moved
    obtain ⟨t, rfl, entry, rfl⟩ | ⟨before, t, after, a, s', t', rfl, calls, resumed, rfl⟩ := Pool.step_cases moved
    · rw [List.flatMap_append, List.flatMap_singleton, Call.unwritten_of_isQuiet (Call.isQuiet_of_isEntry entry),
        List.append_nil]
      exact h
    · rw [calls] at h
      have now := (h.mono fun c => (perm_flatMap _ _ before after t).mem_iff.mpr).resume
        (Pool.Allowed.continues inTime calls) (resumed_of_resume resumed)
      exact now.mono fun c => (perm_flatMap _ _ before after t').mem_iff.mp

/-- What a subject has been told: nothing while its row is on the way, then one outcome. -/
theorem Server.Accounts.signals {p : Server} (h : p.Accounts) {x : Subject} (member : x ∈ p.shared.subjects) :
    (x.signals = [] ∧ ¬ p.Flushed) ∨
      ∃ o, x.signals = [o] ∧ ∀ g, o = .resolved g → Own p.shared.rows x.partialClient g := by
  obtain ⟨n, found⟩ := List.mem_iff_getElem?.mp member
  by_cases pending : n ∈ (p.shared.insertQueue ++ p.calls.flatMap Call.inFlight).map (·.result)
  · obtain ⟨c, c_member, rfl⟩ := List.mem_map.mp pending
    cases found.symm.trans (h.books.waiting c c_member)
    refine .inl ⟨rfl, fun flushed => ?_⟩
    obtain queued | sent := List.mem_append.mp c_member
    · rw [flushed.1] at queued
      cases queued
    · obtain ⟨t, t_member, carried⟩ := List.mem_flatMap.mp sent
      rw [flushed.2 t t_member] at carried
      cases carried
  · exact .inr (h.books.answered n x found pending)

/-- **The rows of ended sessions are deleted, and every queued row is answered once**: in every run in
which each soft delete takes effect when no row of its session is queued or about to be inserted, and none is
queued or revived afterwards, the rows are tidy in every state. The second part needs no condition. -/
theorem tidyRows_of_inTime {p : Server} (run : Reaches Server.step InTime .initial p) : p.TidyRows := by
  have accounts := Server.accounts_of_reaches run
  refine ⟨fun flushed session member settled row row_member same => ?_, fun x member => ?_, fun flushed x member => ?_,
    fun x member g told => ?_⟩
  · have gone : session.isGone = true := by simp [Session.isGone, settled]
    exact (Server.cleaned_of_inTime run session member gone).1 row row_member same
  · obtain ⟨nothing, -⟩ | ⟨o, told, -⟩ := accounts.signals member
    · simp [nothing]
    · simp [told]
  · obtain ⟨-, waits⟩ | ⟨o, told, -⟩ := accounts.signals member
    · exact absurd flushed waits
    · simp [told]
  · obtain ⟨nothing, -⟩ | ⟨o, outcome, own⟩ := accounts.signals member
    · rw [nothing] at told
      cases told
    · rw [outcome, List.mem_singleton] at told
      exact own g told.symm

/-- A session that ends after its row has been inserted. -/
theorem tidyRows_of_inTime_one : ∃ p : Server, p.Flushed ∧ p.shared.rows.length = 1 ∧
    p.shared.sessions.map (·.destroyPromise) = [some .settled] ∧ p.TidyRows := by
  obtain ⟨p, run, flushed, rows, settled⟩ := exists_reaches Server.step InTime .initial
    [.start (.subscribe "01" "miner"), .resume 0 (.ran 0), .start (.authorize 0 "bcrt1qminer" "one"), .resume 1 (.ran 0),
      .start (.ensureClientEntity 0), .resume 2 (.ran 1000), .start .insertClients, .resume 3 (.ran 5000),
      .resume 3 (.executed [⟨5000, some 5000⟩]), .resume 3 (.ran 5001), .resume 2 (.ran 5001), .resume 2 (.ran 5002),
      .start (.destroy 0), .resume 4 (.ran 6000), .resume 4 (.executed []), .resume 4 (.ran 6001)]
    (fun p => p.Flushed ∧ p.shared.rows.length = 1 ∧ p.shared.sessions.map (·.destroyPromise) = [some .settled])
    (by decide +kernel)
  exact ⟨p, flushed, rows, settled, tidyRows_of_inTime run⟩

/-- A session ends while its row is queued. -/
theorem not_tidyRows_queued : ¬ ∀ p : Server, Reaches Server.step Always .initial p → p.TidyRows := by
  intro claim
  obtain ⟨p, run, flushed, settled, left⟩ := exists_reaches Server.step Always .initial
    [.start (.subscribe "01" "miner"), .resume 0 (.ran 0), .start (.authorize 0 "bcrt1qminer" "one"), .resume 1 (.ran 0),
      .start (.ensureClientEntity 0), .resume 2 (.ran 1000),
      .start (.destroy 0), .resume 3 (.ran 2000), .resume 3 (.executed []), .resume 3 (.ran 2001),
      .start .insertClients, .resume 4 (.ran 5000), .resume 4 (.executed [⟨5000, some 5000⟩]), .resume 4 (.ran 5001)]
    (fun p => p.Flushed ∧ p.shared.sessions.map (fun session => (session.id, session.destroyPromise)) =
      [("01", some .settled)] ∧ p.shared.rows.map (fun row => (row.client.sessionId, row.deleted)) = [("01", false)])
    (by decide +kernel)
  have ended : ("01", some DestroyPromise.settled) ∈
      p.shared.sessions.map fun session => (session.id, session.destroyPromise) := settled ▸ List.mem_singleton_self _
  have inserted : ("01", false) ∈ p.shared.rows.map fun row => (row.client.sessionId, row.deleted) :=
    left ▸ List.mem_singleton_self _
  obtain ⟨session, member, is_settled⟩ := List.mem_map.mp ended
  obtain ⟨row, row_member, is_left⟩ := List.mem_map.mp inserted
  obtain ⟨id, promise⟩ := Prod.ext_iff.mp is_settled
  obtain ⟨sessionId, not_deleted⟩ := Prod.ext_iff.mp is_left
  have deleted := (claim p run).deleted flushed session member promise row row_member (sessionId.trans id.symm)
  rw [deleted] at not_deleted
  cases not_deleted

end ElektronPool.Stratum.ClientService
