import Mempill.QueueRows
import Mempill.Verdicts

set_option autoImplicit false

/-!
# Handles resolved once

When a handle that a verdict, a lapse or a sweep has closed is refused for good.
-/
namespace Mempill.HandleOnce
open Mempill.Types Mempill.Persistence Mempill.Rows Mempill.IngestClaim Mempill.SubmitAdjudication
open Mempill.Reconcile Mempill.Engine Mempill.Steps Mempill.Invariants Mempill.ClaimLog
open Mempill.QueueRows Mempill.Verdicts Transition StampedLog

section Statement

/-- A step that closes a handle: an applied verdict, a lapse noticed by a verdict, or
    a sweep. -/
inductive Closes (eng : Engine) (σ : Store) (handleId : Uuid) : Op → Prop where
  | applied {response : AdjudicationResponse} {now : Instant} {assertionRef : Uuid}
      {outcome : AdjudicationOutcome}
      (hok : (SubmitAdjudication.execute eng.config σ handleId response now assertionRef).1 =
        .ok outcome) :
      Closes eng σ handleId (.submitAdjudication handleId response now assertionRef)
  | lapsed {response : AdjudicationResponse} {now : Instant} {assertionRef : Uuid}
      {row : PendingAdjudicationRow} {expiresAt : Instant}
      (hrow : getPending σ handleId = some row) (hexpiry : row.expiresAt = some expiresAt)
      (hpast : expiresAt ≤ now)
      (hqueued : currentDisposition σ row.agentId row.challengerClaimRef =
        some .queuedForAdjudication) :
      Closes eng σ handleId (.submitAdjudication handleId response now assertionRef)
  | swept {row : PendingAdjudicationRow} {now : Instant} (hhandle : row.handleId = handleId)
      (hreverted : (revertExpiredRow σ row now).1 = true) :
      Closes eng σ handleId (.sweepExpired row now)

/-- A step that takes a queued challenger off the queue is stamped after the challenger's
    entries. -/
def Follows (σ : Store) (row : PendingAdjudicationRow) (now : Instant) : Prop :=
  currentDisposition σ row.agentId row.challengerClaimRef = some .queuedForAdjudication →
    ∀ e ∈ entriesOf σ row.agentId none row.challengerClaimRef, e.recordedAt < now

instance (σ : Store) (row : PendingAdjudicationRow) (now : Instant) :
    Decidable (Follows σ row now) := inferInstanceAs (Decidable (_ → _))

/-- A pass queues the challenger of a closed row anew. -/
def Requeues (eng : Engine) (σ : Store) (req : ReconcileRequest) (now : Instant) : Prop :=
  ∃ row ∈ σ.pending, row.status ≠ .pending ∧ row.agentId = req.agentId ∧
    (∃ d ∈ decisions eng σ req now, d.1 = row.challengerClaimRef ∧
      d.2.disposition = .queuedForAdjudication) ∧
    ∀ e ∈ entriesOf σ row.agentId none row.challengerClaimRef, e.recordedAt ≤ now

instance (eng : Engine) (σ : Store) (req : ReconcileRequest) (now : Instant) :
    Decidable (Requeues eng σ req now) := inferInstanceAs (Decidable (∃ _ ∈ _, _))

def KeepsClosed (eng : Engine) (σ : Store) : Op → Prop
  | .submitAdjudication handleId _ now _ =>
    match getPending σ handleId with
    | none => True
    | some row => Follows σ row now
  | .sweepExpired row now => Follows σ row now
  | .reconcile req now => ¬ Requeues eng σ req now
  | _ => True

instance (eng : Engine) (σ : Store) : (op : Op) → Decidable (KeepsClosed eng σ op)
  | .submitAdjudication handleId _ now _ =>
    match h : getPending σ handleId with
    | none => .isTrue (by simp [KeepsClosed, h])
    | some row => decidable_of_iff (Follows σ row now) (by simp [KeepsClosed, h])
  | .sweepExpired row now => inferInstanceAs (Decidable (Follows σ row now))
  | .reconcile req now => inferInstanceAs (Decidable (¬ Requeues eng σ req now))
  | .ingestClaim _ _ _ _ => .isTrue trivial
  | .assertValidity _ _ _ => .isTrue trivial
  | .sweepOrphan _ _ => .isTrue trivial
  | .appendEdge _ => .isTrue trivial

/-- The row of a handle that was closed. -/
def Closed (σ : Store) (handleId : Uuid) : Prop :=
  ∃ row, getPending σ handleId = some row ∧ row.status ≠ .pending

/-- The challenger of a closed row is not queued. -/
def Settled (σ : Store) : Prop :=
  ∀ row ∈ σ.pending, row.status ≠ .pending →
    currentDisposition σ row.agentId row.challengerClaimRef ≠ some .queuedForAdjudication

end Statement

section Rows

variable {eng : Engine} {σ : Store} {handleId : Uuid}

theorem refused_of_closed (config : EngineConfig) (hσ : Settled σ) (h : Closed σ handleId)
    (response : AdjudicationResponse) (now : Instant) (assertionRef : Uuid) :
    SubmitAdjudication.execute config σ handleId response now assertionRef =
      (.error (.adjudicationHandleNotFound handleId), σ) := by
  obtain ⟨row, hrow, hstatus⟩ := h
  have hnot := hσ row (handleId_of_getPending hrow).1 hstatus
  unfold SubmitAdjudication.execute
  rw [hrow]
  dsimp only
  cases row.expiresAt.filter (fun t => decide (t ≤ now)) with
  | some expiresAt =>
    dsimp only
    rw [lazyExpire, if_neg hnot]
  | none =>
    dsimp only
    rw [if_pos hnot]

theorem find?_withStatus (table : List PendingAdjudicationRow) (handleId marked : Uuid)
    (status : PendingStatus) :
    (table.map (withStatus marked status)).find? (fun row => row.handleId == handleId) =
      (table.find? fun row => row.handleId == handleId).map (withStatus marked status) := by
  rw [List.find?_map]
  congr 2
  funext row
  simp

theorem getPending_of_marked {σ' : Store} {marked : Uuid} {status : PendingStatus}
    {row : PendingAdjudicationRow}
    (htable : σ'.pending = σ.pending.map (withStatus marked status))
    (hrow : getPending σ handleId = some row) :
    getPending σ' handleId = some (withStatus marked status row) := by
  rw [getPending, htable, find?_withStatus]
  exact congrArg _ hrow

/-- Marking the row of a handle leaves what the handles find for other challengers. -/
theorem getPending_marked_iff {σ' : Store} {marked : Uuid} {status : PendingStatus}
    {row found : PendingAdjudicationRow}
    (htable : σ'.pending = σ.pending.map (withStatus marked status))
    (hrow : getPending σ marked = some row)
    (hother : found.challengerClaimRef ≠ row.challengerClaimRef) :
    getPending σ' handleId = some found ↔ getPending σ handleId = some found := by
  have hget : getPending σ' handleId = (getPending σ handleId).map (withStatus marked status) := by
    rw [getPending, getPending, htable, find?_withStatus]
  have hsame : ∀ r, getPending σ handleId = some r →
      r.challengerClaimRef = found.challengerClaimRef → withStatus marked status r = r := by
    intro r hr href
    refine if_neg fun hmarked => hother ?_
    have hid : r.handleId = marked := by simpa using hmarked
    rw [← (handleId_of_getPending hr).2, hid, hrow] at hr
    rw [Option.some.inj hr, href]
  rw [hget]
  constructor
  · intro h
    obtain ⟨r, hr, hmark⟩ := Option.map_eq_some_iff.mp h
    have href : r.challengerClaimRef = found.challengerClaimRef := by
      rw [← hmark, withStatus_challengerClaimRef]
    rw [hsame r hr href] at hmark
    rw [← hmark]
    exact hr
  · intro h
    rw [h, Option.map_some, hsame found h rfl]

/-- A row queued later is not the one that a handle finds. -/
theorem getPending_of_queued {σ' : Store} {added row : PendingAdjudicationRow}
    (htable : σ'.pending = σ.pending ++ [added]) (hrow : getPending σ handleId = some row) :
    getPending σ' handleId = some row := by
  rw [getPending, htable, List.find?_append, ← getPending, hrow, Option.some_or]

/-- A closed row is closed in the marked table, and so is the row that is marked. -/
theorem closed_of_marked {σ' : Store} {marked : Uuid} {status : PendingStatus}
    {row : PendingAdjudicationRow}
    (htable : σ'.pending = σ.pending.map (withStatus marked status)) (hstatus : status ≠ .pending)
    (hrow : getPending σ handleId = some row)
    (hclosed : row.handleId = marked ∨ row.status ≠ .pending) : Closed σ' handleId := by
  refine ⟨withStatus marked status row, getPending_of_marked htable hrow, ?_⟩
  rw [withStatus_status]
  split
  · exact hstatus
  · exact hclosed.resolve_left ‹_›

theorem closed_of_step (h : Closed σ handleId) (op : Op) : Closed (apply eng σ op) handleId := by
  obtain ⟨row, hrow, hstatus⟩ := h
  obtain ⟨w, hq, _⟩ := apply_queueStep eng σ op
  generalize htable : (apply eng σ op).pending = table at hq
  have hsame : table = σ.pending → Closed (apply eng σ op) handleId := by
    rintro rfl
    exact ⟨row, by rw [getPending, htable]; exact hrow, hstatus⟩
  cases hq with
  | ignored => exact hsame rfl
  | aside _ _ => exact hsame rfl
  | queued _ _ _ _ => exact ⟨row, getPending_of_queued htable hrow, hstatus⟩
  | applied _ => exact closed_of_marked htable (by decide) hrow (.inr hstatus)
  | lapsed _ _ => exact closed_of_marked htable (by decide) hrow (.inr hstatus)
  | swept _ => exact closed_of_marked htable (by decide) hrow (.inr hstatus)

theorem closed_of_closes {op : Op} (h : Closes eng σ handleId op) (hsup : Supplied σ op) :
    Closed (apply eng σ op) handleId := by
  cases h with
  | @applied response now assertionRef outcome hok =>
    rcases submit_spec eng.config σ handleId response now assertionRef with
      ⟨row, challenger, written, haccepted, hexec, _, hpending⟩ |
      ⟨_, _, _, _, _, _, hexec⟩ | ⟨e, hexec⟩ <;> rw [hexec] at hok
    · have hhandle := (handleId_of_getPending haccepted.pending).2
      have htable : (apply eng σ (.submitAdjudication handleId response now
          assertionRef)).pending = σ.pending.map (withStatus handleId .resolved) := by
        rw [apply, hexec, ← hpending]
        rfl
      exact closed_of_marked htable (by decide) haccepted.pending (.inl hhandle)
    · cases hok
    · cases hok
  | @lapsed response now assertionRef row expiresAt hrow hexpiry hpast hqueued =>
    have hexec : apply eng σ (.submitAdjudication handleId response now assertionRef) =
        lazyExpire σ row expiresAt now := by
      rw [apply, SubmitAdjudication.execute, hrow]
      simp only [hexpiry, Option.filter, hpast, decide_true, if_true]
    rw [hexec, lazyExpire, if_pos hqueued]
    exact closed_of_marked rfl (by decide) hrow (.inl rfl)
  | @swept row now hhandle hreverted =>
    obtain ⟨⟨stored, hstored, heq⟩, _⟩ := hsup
    rw [apply]
    unfold revertExpiredRow at hreverted ⊢
    split at hreverted
    · cases hreverted
    · rename_i hqueued
      rw [if_neg hqueued]
      have hsome : ∃ found, getPending σ handleId = some found := by
        refine Option.isSome_iff_exists.mp (List.find?_isSome.mpr ⟨stored, hstored, ?_⟩)
        rw [← hhandle, ← heq]
        exact beq_self_eq_true _
      obtain ⟨found, hfound⟩ := hsome
      have hmark : found.handleId = row.handleId :=
        (handleId_of_getPending hfound).2.trans hhandle.symm
      exact closed_of_marked rfl (by decide) hfound (.inl hmark)

end Rows

section Queue

variable {eng : Engine} {σ σ' : Store} {op : Op} {w : Written} {agentId : AgentId} {r : ClaimRef}

/-- Only a write and a pass put a claim on the queue. -/
theorem queued_of_entry (h : Outcome eng σ op w) {e : LedgerEntry} (he : e ∈ w.ledger)
    (hqueued : e.disposition = .queuedForAdjudication) :
    (∃ req now claimRef reply, op = .ingestClaim req now claimRef reply ∧
      w.claims = [stamp req claimRef now] ∧ e.agentId = req.agentId ∧ e.claimRef = claimRef) ∨
    ∃ req now, op = .reconcile req now ∧
      ∃ d ∈ decisions eng σ req now, e = decisionEntry req.agentId now d := by
  cases h with
  | silent _ => cases he
  | edged => cases he
  | ingested _ =>
    rw [List.mem_singleton.mp he]
    exact .inl ⟨_, _, _, _, rfl, rfl, rfl, rfl⟩
  | reconciled =>
    obtain ⟨d, hd, rfl⟩ := List.mem_map.mp he
    exact .inr ⟨_, _, rfl, d, hd, rfl⟩
  | resolved _ =>
    rcases (verdictEntry_of_mem he).disposition with hd | hd | hd | hd <;> rw [hd] at hqueued <;>
      cases hqueued
  | bounded _ _ | reopened _ _ | lazilyExpired _ _ | sweptRow _ | sweptOrphan _ =>
    rw [List.mem_singleton.mp he] at hqueued
    cases hqueued

/-- A claim is on the queue after a step as it was before, or by one of the new
    entries. -/
theorem queued_after_append (happ : Appends σ σ' w)
    (h : currentDisposition σ' agentId r = some .queuedForAdjudication) :
    currentDisposition σ agentId r = some .queuedForAdjudication ∨
      ∃ e ∈ newEntries w agentId r, e.disposition = .queuedForAdjudication ∧
        ∀ x ∈ entriesOf σ agentId none r, x.recordedAt ≤ e.recordedAt := by
  rw [currentDisposition_eq, entriesOf_newEntries happ] at h
  obtain ⟨e, he, hqueued⟩ := Option.map_eq_some_iff.mp h
  rw [happ.ties] at he
  rcases σ.ties.last_append_cases _ he with hold | hnew
  · left
    rw [currentDisposition_eq, hold, Option.map_some, hqueued]
  · exact .inr ⟨e, hnew, hqueued,
      fun x hx => σ.ties.le_of_last _ he (List.mem_append_left _ hx)⟩

/-- Entries that follow all others and do not queue take a claim off the queue. -/
theorem not_queued_after_append (happ : Appends σ σ' w) (hne : newEntries w agentId r ≠ [])
    (hnews : ∀ e ∈ newEntries w agentId r, e.disposition ≠ .queuedForAdjudication ∧
      ∀ x ∈ entriesOf σ agentId none r, x.recordedAt < e.recordedAt) :
    currentDisposition σ' agentId r ≠ some .queuedForAdjudication := by
  intro h
  rw [currentDisposition_eq, entriesOf_newEntries happ] at h
  obtain ⟨e, he, hqueued⟩ := Option.map_eq_some_iff.mp h
  rw [happ.ties] at he
  have hmem := σ.ties.mem_of_last_append _ hne (fun x hx b hb => (hnews b hb).2 x hx) he
  exact (hnews e hmem).1 hqueued

end Queue

section Runs

variable {eng : Engine} {σ τ : Store} {op : Op} {handleId : Uuid}

/-- Reached by steps that keep the closed handles closed. -/
abbrev ClosingReachable (eng : Engine) : Store → Prop :=
  Reach Store.New (Restrict (Step eng) (KeepsClosed eng))

/-- The challenger of a row that was closed before the step is not queued by it. -/
theorem settled_of_kept (hP : Settled σ) (hsup : Supplied σ op) (hkeeps : KeepsClosed eng σ op)
    {w : Written} {σ' : Store} (ho : Outcome eng σ op w) (happ : Appends σ σ' w)
    {row : PendingAdjudicationRow} (hrow : row ∈ σ.pending) (hstatus : row.status ≠ .pending) :
    currentDisposition σ' row.agentId row.challengerClaimRef ≠ some .queuedForAdjudication := by
  intro h
  rcases queued_after_append happ h with hold | ⟨e, he, hqueued, hlast⟩
  · exact hP row hrow hstatus hold
  · obtain ⟨hmem, hagent, href⟩ := mem_newEntries.mp he
    rcases queued_of_entry ho hmem hqueued with ⟨req, now, claimRef, reply, rfl, _, _, hclaim⟩ |
      ⟨req, now, rfl, d, hd, rfl⟩
    · exact (Fresh.pending hsup hrow).1 (congrArg ClaimRef.uuid (href.symm.trans hclaim))
    · exact hkeeps ⟨row, hrow, hstatus, hagent.symm, ⟨d, hd, href, hqueued⟩, hlast⟩

/-- The challenger of the row that the step retires leaves the queue. -/
theorem settled_of_retired {σ' : Store} {w : Written} (hσ : Reachable eng σ)
    (hP : ∀ row ∈ σ.pending, row.status ≠ .pending →
      currentDisposition σ' row.agentId row.challengerClaimRef ≠ some .queuedForAdjudication)
    {retired : PendingAdjudicationRow} {status : PendingStatus}
    (htable : σ'.pending = σ.pending.map (withStatus retired.handleId status))
    (hretired : ∃ stored ∈ σ.pending, stored.handleId = retired.handleId ∧
      stored.agentId = retired.agentId ∧
      stored.challengerClaimRef = retired.challengerClaimRef)
    (happ : Appends σ σ' w)
    (hne : newEntries w retired.agentId retired.challengerClaimRef ≠ [])
    (hnews : ∀ e ∈ newEntries w retired.agentId retired.challengerClaimRef,
      e.disposition ≠ .queuedForAdjudication ∧
        ∀ x ∈ entriesOf σ retired.agentId none retired.challengerClaimRef,
          x.recordedAt < e.recordedAt) : Settled σ' := by
  intro row hrow hstatus
  rw [htable] at hrow
  obtain ⟨old, hold, rfl⟩ := List.mem_map.mp hrow
  rw [withStatus_agentId, withStatus_challengerClaimRef]
  rw [withStatus_status] at hstatus
  by_cases hhandle : old.handleId = retired.handleId
  · obtain ⟨stored, hstored, hsame, hagent, href⟩ := hretired
    have hkey := (distinctRows_of_reachable hσ).eq_of_handle hold hstored (hhandle.trans hsame.symm)
    rw [hkey, hagent, href]
    exact not_queued_after_append happ hne hnews
  · rw [if_neg hhandle] at hstatus
    exact hP old hold hstatus

/-- So does the challenger of a row that the step reverts, unless its log goes past the
    step. -/
theorem settled_of_expired {σ' : Store} (hσ : Reachable eng σ)
    (hP : ∀ row ∈ σ.pending, row.status ≠ .pending →
      currentDisposition σ' row.agentId row.challengerClaimRef ≠ some .queuedForAdjudication)
    {expired : PendingAdjudicationRow} {status : PendingStatus}
    (htable : σ'.pending = σ.pending.map (withStatus expired.handleId status))
    (hexpired : ∃ stored ∈ σ.pending, stored.handleId = expired.handleId ∧
      stored.agentId = expired.agentId ∧
      stored.challengerClaimRef = expired.challengerClaimRef)
    {rationale : Json} {now : Instant}
    (happ : Appends σ σ' { ledger := [expiredEntry expired rationale now] })
    (htimely : ∀ x ∈ entriesOf σ expired.agentId none expired.challengerClaimRef,
      x.recordedAt < now) : Settled σ' := by
  refine settled_of_retired hσ hP htable hexpired happ ?_ ?_ <;> rw [newEntries_expired]
  · exact List.cons_ne_nil _ _
  · intro e he
    rw [List.mem_singleton.mp he]
    exact ⟨by simp [expiredEntry], htimely⟩

theorem settled_of_step (hσ : Reachable eng σ) (hP : Settled σ) (hsup : Supplied σ op)
    (hkeeps : KeepsClosed eng σ op) : Settled (apply eng σ op) := by
  obtain ⟨w, hq, happ⟩ := apply_queueStep eng σ op
  have hkept : ∀ row ∈ σ.pending, row.status ≠ .pending →
      currentDisposition (apply eng σ op) row.agentId row.challengerClaimRef ≠
        some .queuedForAdjudication :=
    fun row hrow hstatus => settled_of_kept hP hsup hkeeps hq.outcome happ hrow hstatus
  generalize htable : (apply eng σ op).pending = table at hq
  cases hq with
  | ignored => exact fun row hrow => hkept row (htable ▸ hrow)
  | aside _ _ => exact fun row hrow => hkept row (htable ▸ hrow)
  | queued _ _ _ _ =>
    intro row hrow hstatus
    rw [htable, List.mem_append, List.mem_singleton] at hrow
    rcases hrow with hold | rfl
    · exact hkept row hold hstatus
    · exact absurd rfl hstatus
  | @applied handleId response now assertionRef row challenger haccepted =>
    rw [KeepsClosed, haccepted.pending] at hkeeps
    refine settled_of_retired hσ hkept htable
      ⟨row, (handleId_of_getPending haccepted.pending).1, rfl, rfl, rfl⟩ happ
      newEntries_challenger_ne_nil fun e he => ?_
    have hentry := verdictEntry_of_mem (mem_newEntries.mp he).1
    refine ⟨?_, hentry.recordedAt ▸ hkeeps haccepted.queued⟩
    rcases hentry.disposition with h | h | h | h <;> rw [h] <;> decide
  | @lapsed handleId response now assertionRef row expiresAt hrow hqueued =>
    rw [KeepsClosed, hrow] at hkeeps
    exact settled_of_expired hσ hkept htable
      ⟨row, (handleId_of_getPending hrow).1, rfl, rfl, rfl⟩ happ (hkeeps hqueued)
  | @swept row now hqueued =>
    obtain ⟨⟨stored, hstored, heq⟩, _⟩ := hsup
    exact settled_of_expired hσ hkept htable
      ⟨stored, hstored, by rw [← heq], by rw [← heq], by rw [← heq]⟩ happ (hkeeps hqueued)

theorem settled_of_closing (h : ClosingReachable eng σ) : Settled σ := by
  refine Reach.invariant (P := Settled) h (fun σ hσ row hrow => ?_) fun σ op σ' hr hP hst => ?_
  · obtain ⟨ties, rfl⟩ := hσ
    cases hrow
  · obtain ⟨hkeeps, hsup, rfl⟩ := hst
    exact settled_of_step hr.unrestrict hP hsup hkeeps

theorem closed_of_run {ops : List Op} (h : Closed σ handleId)
    (hrun : Run (Restrict (Step eng) (KeepsClosed eng)) σ ops τ) : Closed τ handleId := by
  refine hrun.preserves (P := fun σ => Closed σ handleId) h fun σ op σ' hP hst => ?_
  rw [hst.2.2]
  exact closed_of_step hP op

/-- Along a run that keeps the closed handles closed, a handle that a verdict, a lapse
    or a sweep has closed is refused ever after, and a refused call writes nothing. -/
theorem closed_handle_refused (hσ : ClosingReachable eng σ) (hcloses : Closes eng σ handleId op)
    (hsup : Supplied σ op) (hkeeps : KeepsClosed eng σ op) {ops : List Op}
    (hrun : Run (Restrict (Step eng) (KeepsClosed eng)) (apply eng σ op) ops τ)
    (response : AdjudicationResponse) (now : Instant) (assertionRef : Uuid) :
    SubmitAdjudication.execute eng.config τ handleId response now assertionRef =
      (.error (.adjudicationHandleNotFound handleId), τ) := by
  have hstart : ClosingReachable eng (apply eng σ op) := hσ.step ⟨hkeeps, hsup, rfl⟩
  exact refused_of_closed eng.config (settled_of_closing (hrun.reach hstart))
    (closed_of_run (closed_of_closes hcloses hsup) hrun) response now assertionRef

def rivalsQueued : Store := run (defaultEngine true) Store.sqlite rivals

def reconcileCity (now : Instant) : Op := .reconcile ⟨agent, [("user", "location")]⟩ now

theorem affirmed_handle_refused :
    let σ := apply (defaultEngine true) rivalsQueued (verdictOn 101 .affirm 30 50)
    let τ := apply (defaultEngine true) σ (reconcileCity 40)
    SubmitAdjudication.execute EngineConfig.default τ 101
        ⟨101, .deny, .external .externalFirstHand⟩ 50 51 =
      (.error (.adjudicationHandleNotFound 101), τ) := by
  intro σ τ
  have hreach : ClosingReachable (defaultEngine true) rivalsQueued := run_reach_under (by decide)
  have hok : (SubmitAdjudication.execute EngineConfig.default rivalsQueued 101
      ⟨101, .affirm, .external .externalFirstHand⟩ 30 50).1 = .ok ⟨101, .committedCheap, ⟨2⟩⟩ :=
    rfl
  exact closed_handle_refused hreach (Closes.applied hok) (by decide) (by decide)
    (.cons (i := reconcileCity 40) ⟨by decide, by decide, rfl⟩ (.nil _)) _ _ _

/-- The oracle abstains, a pass queues the challenger again, and the same handle is
    answered a second time. -/
theorem abstained_handle_answers_twice :
    let verdict (v : AdjudicationVerdict) : AdjudicationResponse :=
      ⟨101, v, .external .externalFirstHand⟩
    let first := SubmitAdjudication.execute EngineConfig.default rivalsQueued 101
      (verdict .unknown) 30 50
    let σ := apply (defaultEngine true) first.2 (reconcileCity 40)
    Reachable (defaultEngine true) rivalsQueued ∧ first.1 = .ok ⟨101, .contested, ⟨2⟩⟩ ∧
      Step (defaultEngine true) rivalsQueued (verdictOn 101 .unknown 30 50) first.2 ∧
      Step (defaultEngine true) first.2 (reconcileCity 40) σ ∧
      (SubmitAdjudication.execute EngineConfig.default σ 101 (verdict .affirm) 50 51).1 =
        .ok ⟨101, .committedCheap, ⟨2⟩⟩ :=
  ⟨run_reachable (by decide), rfl, ⟨by decide, rfl⟩, ⟨by decide, rfl⟩, rfl⟩

end Runs

end Mempill.HandleOnce
