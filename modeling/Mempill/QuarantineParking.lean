import Mempill.DeniedClaims
import Mempill.WrittenClaims

set_option autoImplicit false

/-!
# Quarantine parking

What keeps a claim that was quarantined at its ingest out of every fold, answer and
candidate set.
-/
namespace Mempill.QuarantineParking
open Mempill.Types Mempill.Persistence Mempill.TruthEngine Mempill.Gate Mempill.Rows
open Mempill.IngestClaim Mempill.QueryMemory Mempill.Engine Mempill.Steps Mempill.Invariants
open Mempill.ClaimLog Mempill.Answers Mempill.ReconcilePass Mempill.DeniedClaims
open Mempill.WrittenClaims Transition StampedLog

section Statement

/-- The claim is live in no fold, in no answer, and in neither of the candidate sets
    that the writes are classified against. -/
structure Parked (eng : Engine) (σ : Store) (r : ClaimRef) : Prop where
  fold : ∀ config agentId subject predicate cutoff asOf,
    ∀ cs ∈ lineRows config σ agentId subject predicate cutoff asOf,
      cs.claim.claimRef = r → cs.isLive = false
  answers : ∀ req now, r ∉ offered (QueryMemory.execute eng.config σ req now)
  ingest : ∀ agentId subject predicate now,
    r ∉ (conflictCandidates eng.config σ agentId subject predicate now).map (·.claimRef)
  reconcile : ∀ agentId line now, r ∉ (passCandidates eng σ agentId now line).map (·.claimRef)

/-- The operation writes nothing about a claim from an instant on. At the instant itself
    the order of ties would decide. -/
def LeavesParked (eng : Engine) (agentId : AgentId) (r : ClaimRef) (parkedAt : Instant)
    (σ : Store) (op : Op) : Prop :=
  WritesAbout eng σ agentId r op → stampOf op < parkedAt

instance (eng : Engine) (agentId : AgentId) (r : ClaimRef) (parkedAt : Instant) (σ : Store)
    (op : Op) : Decidable (LeavesParked eng agentId r parkedAt σ op) :=
  inferInstanceAs (Decidable (_ → _))

/-- The claim's first entry quarantines it, and every other is stamped before. -/
structure ParkedLog (σ : Store) (agentId : AgentId) (r : ClaimRef) (parkedAt : Instant) :
    Prop where
  claims : ∀ c ∈ σ.claims, c.claimRef = r →
    c.agentId = agentId ∧ c.transactionTime = parkedAt
  entries : ∃ e rest, entriesOf σ agentId none r = e :: rest ∧ e.disposition = .quarantined ∧
    e.recordedAt = parkedAt ∧ ∀ x ∈ rest, x.recordedAt < parkedAt

end Statement

section Sight

variable {eng : Engine} {σ : Store} {agentId : AgentId} {r : ClaimRef} {parkedAt : Instant}

/-- Every scan that sees the claim finds it quarantined. -/
def SeenQuarantined (σ : Store) (r : ClaimRef) : Prop :=
  ∀ c ∈ σ.claims, c.claimRef = r → ∀ cutoff, withinCutoff cutoff c.transactionTime = true →
    latestOf σ c.agentId cutoff r = some .quarantined

theorem latestOf_of_seen (h : SeenQuarantined σ r) {config : EngineConfig}
    {subject predicate : String} {cutoff : Option Instant} {asOf : Instant}
    {cs : ClaimWithStatus} (hcs : cs ∈ lineRows config σ agentId subject predicate cutoff asOf)
    (href : cs.claim.claimRef = r) : cs.lastDisposition = some .quarantined := by
  obtain ⟨c, hc, rfl⟩ := mem_lineRows.mp hcs
  obtain ⟨hmem, hline, hcutoff⟩ := mem_lineClaims.mp hc
  rw [rowOf_claim] at href
  have hagent : c.agentId = agentId := by
    simp only [onLine, Bool.and_eq_true, beq_iff_eq] at hline
    exact hline.1.1
  rw [rowOf_lastDisposition, href, ← hagent]
  exact h c hmem href cutoff hcutoff

theorem not_live_of_seen (h : SeenQuarantined σ r) {config : EngineConfig}
    {subject predicate : String} {cutoff : Option Instant} {asOf : Instant}
    {cs : ClaimWithStatus} (hcs : cs ∈ lineRows config σ agentId subject predicate cutoff asOf)
    (href : cs.claim.claimRef = r) : cs.isLive = false := by
  have hlatest := latestOf_of_seen h hcs href
  obtain ⟨c, _, rfl⟩ := mem_lineRows.mp hcs
  rw [Bool.eq_false_iff]
  intro hlive
  cases ((rowOf_isLive σ agentId cutoff asOf c).mp hlive).2 _ hlatest

theorem not_candidate_of_seen (h : SeenQuarantined σ r) {config : EngineConfig}
    {subject predicate : String} {cutoff : Option Instant} {asOf : Instant} :
    ∀ cs ∈ candidateRows config σ agentId subject predicate cutoff asOf,
      cs.claim.claimRef ≠ r := by
  intro cs hcs href
  obtain ⟨hmem, hcandidate⟩ := List.mem_filter.mp hcs
  rw [isCandidate, latestOf_of_seen h hmem href] at hcandidate
  cases hcandidate

theorem parked_of_seen (hσ : Reachable eng σ) (h : SeenQuarantined σ r) : Parked eng σ r := by
  refine ⟨fun _ _ _ _ _ _ cs hcs href => not_live_of_seen h hcs href, fun req now hr => ?_,
    fun _ _ _ _ => not_mem_conflictCandidates (not_candidate_of_seen h),
    fun _ _ _ => not_mem_passCandidates (not_candidate_of_seen h)⟩
  · obtain ⟨ledgerEntries, hexec⟩ := execute_eq_project eng.config σ req now
    rw [hexec] at hr
    obtain ⟨cs, hcs, href⟩ := mem_of_offered hr
    exact not_candidate_of_seen h cs (isCandidate_of_selected hσ hcs) href

theorem seen_of_parkedLog (h : ParkedLog σ agentId r parkedAt) : SeenQuarantined σ r := by
  intro c hc href cutoff hcutoff
  obtain ⟨hagent, htime⟩ := h.claims c hc href
  obtain ⟨e, rest, hentries, hquarantined, hstamp, hrest⟩ := h.entries
  have hall : ∀ x ∈ entriesOf σ agentId none r, x.recordedAt ≤ parkedAt := by
    intro x hx
    rw [hentries] at hx
    rcases List.mem_cons.mp hx with rfl | hx
    · exact hstamp.le
    · exact (hrest x hx).le
  have hseen : entriesOf σ agentId cutoff r = e :: rest := by
    cases cutoff with
    | none => exact hentries
    | some t =>
      have hle : parkedAt ≤ t := by simpa [withinCutoff, htime] using hcutoff
      rw [entriesOf_of_le fun x hx => le_trans (hall x hx) hle, hentries]
  have hfirst : σ.ties.first LedgerEntry.recordedAt (e :: rest) = some e := by
    refine σ.ties.first_unique _ List.mem_cons_self fun x hx => ?_
    exact (List.mem_cons.mp hx).imp_right fun hx => hstamp ▸ hrest x hx
  rw [latestOf, hagent, hseen, hfirst, Option.map_some, hquarantined]

end Sight

section Runs

variable {eng : Engine} {σ σ' : Store} {op : Op} {agentId : AgentId} {r : ClaimRef}
variable {parkedAt : Instant}

theorem parkedLog_of_step (h : ParkedLog σ agentId r parkedAt) (hst : Step eng σ op σ')
    (hleaves : LeavesParked eng agentId r parkedAt σ op) : ParkedLog σ' agentId r parkedAt := by
  obtain ⟨hsup, rfl⟩ := hst
  obtain ⟨w, ho, happ⟩ := apply_outcome eng σ op
  obtain ⟨e, rest, hentries, hquarantined, hstamp, hrest⟩ := h.entries
  have hnew : ∀ c ∈ w.claims, c.claimRef ≠ r := by
    rintro c hc rfl
    obtain ⟨req, now, claimRef, reply, rfl, rfl, _⟩ := claims_of_outcome ho hc
    have hfresh : Fresh claimRef.uuid σ := hsup
    have hmem : e ∈ entriesOf σ agentId none claimRef := by
      rw [show claimRef = (stamp req claimRef now).claimRef from rfl, hentries]
      exact List.mem_cons_self
    rw [entriesOf_of_fresh hfresh] at hmem
    cases hmem
  refine ⟨fun c hc href => ?_, e, rest ++ newEntries w agentId r, ?_, hquarantined, hstamp,
    fun x hx => ?_⟩
  · rw [happ.claims] at hc
    rcases List.mem_append.mp hc with hc | hc
    · exact h.claims c hc href
    · exact absurd href (hnew c hc)
  · rw [entriesOf_newEntries happ, hentries, List.cons_append]
  · rcases List.mem_append.mp hx with hx | hx
    · exact hrest x hx
    · obtain ⟨hmem, hagent, href⟩ := mem_newEntries.mp hx
      obtain ⟨hrecorded, ⟨c, hc, hsame⟩ | habout⟩ := writesAbout_of_entry ho hmem
      · exact absurd (hsame.trans href) (hnew c hc)
      · rw [hagent, href] at habout
        rw [hrecorded]
        exact hleaves habout

/-- An engine whose burst gate is always shut admits no claim. -/
theorem claims_of_burst (hburst : eng.config.quarantineBurstThreshold = 0)
    (h : Reachable eng σ) : σ.claims = [] := by
  refine Reachable.invariant_of_outcome (P := fun σ => σ.claims = []) h (fun _ => rfl)
    fun σ σ' op w _ hP _ ho happ => ?_
  rw [happ.claims, hP, List.nil_append, List.eq_nil_iff_forall_not_mem]
  intro c hc
  obtain ⟨req, now, claimRef, reply, rfl, rfl, hadmitted⟩ := claims_of_outcome ho hc
  exact not_admitted_of_burst hburst hadmitted

theorem parkedLog_of_ingest {req : IngestClaimRequest} {now : Instant} {claimRef : ClaimRef}
    {reply : Except String Uuid} (hfresh : Fresh claimRef.uuid σ)
    (hadmitted : Admitted eng.config σ req claimRef now)
    (hquarantined : (gateDecision eng σ req (stamp req claimRef now) now).disposition =
      .quarantined) :
    ParkedLog (IngestClaim.execute eng σ req now claimRef reply).2 req.agentId claimRef now := by
  have happ := ingest_appends hadmitted reply
  refine ⟨fun c hc href => ?_, committedEntry (stamp req claimRef now)
    (gateDecision eng σ req (stamp req claimRef now) now) now, [], ?_, hquarantined, rfl, by simp⟩
  · rw [happ.claims] at hc
    rcases List.mem_append.mp hc with hc | hc
    · exact absurd (congrArg ClaimRef.uuid href) (Fresh.claim hfresh hc)
    · rw [List.mem_singleton.mp hc]
      exact ⟨rfl, rfl⟩
  · rw [entriesOf_newEntries happ, entriesOf_of_fresh hfresh, newEntries_single rfl]
    exact if_pos ⟨rfl, rfl⟩

theorem quarantined_cases {req : IngestClaimRequest} {now : Instant} {claimRef : ClaimRef}
    {reply : Except String Uuid} {resp : IngestClaimResponse}
    (hok : (IngestClaim.execute eng σ req now claimRef reply).1 = .ok resp)
    (hquarantined : resp.disposition = .quarantined) :
    resp.claimRef = claimRef ∧
      (eng.config.quarantineBurstThreshold = 0 ∨ Admitted eng.config σ req claimRef now ∧
        (gateDecision eng σ req (stamp req claimRef now) now).disposition = .quarantined) := by
  by_cases hadmitted : Admitted eng.config σ req claimRef now
  · rw [execute_of_admitted hadmitted] at hok
    have hresp := executeAdmitted_ok hok
    rw [hresp] at hquarantined
    exact ⟨congrArg IngestClaimResponse.claimRef hresp, .inr ⟨hadmitted, hquarantined⟩⟩
  · unfold IngestClaim.execute at hok
    unfold Admitted at hadmitted
    cases hcheck : check eng.config (stamp req claimRef now)
        (loadInjectedClaims σ req.agentId) 0 with
    | quarantine =>
      simp only [hcheck] at hok
      refine ⟨congrArg IngestClaimResponse.claimRef (Except.ok.inj hok).symm, .inl ?_⟩
      by_contra hburst
      have hnot : ¬ eng.config.quarantineBurstThreshold ≤ 0 := by omega
      simp only [check, ge_iff_le, if_neg hnot] at hcheck
      split at hcheck
      · cases hcheck
      · split at hcheck <;> cases hcheck
    | corroborateByIdentity existing =>
      simp only [hcheck] at hok
      rw [← Except.ok.inj hok] at hquarantined
      cases hquarantined
    | admitted | depthCapExceeded _ _ => simp [hcheck] at hadmitted

end Runs

section Main

variable {eng : Engine} {σ τ : Store} {ops : List Op}

/-- Along a run that writes nothing later about it, a claim whose ingest was answered
    quarantined stays parked. -/
theorem quarantined_stays_parked (hσ : Reachable eng σ) {req : IngestClaimRequest}
    {now : Instant} {claimRef : ClaimRef} {reply : Except String Uuid}
    {resp : IngestClaimResponse} (hfresh : Fresh claimRef.uuid σ)
    (hok : (IngestClaim.execute eng σ req now claimRef reply).1 = .ok resp)
    (hquarantined : resp.disposition = .quarantined)
    (hrun : Run (Restrict (Step eng) (LeavesParked eng req.agentId resp.claimRef now))
      (IngestClaim.execute eng σ req now claimRef reply).2 ops τ) :
    Parked eng τ resp.claimRef := by
  obtain ⟨href, hcase⟩ := quarantined_cases hok hquarantined
  rw [href] at hrun ⊢
  have hstart : Reachable eng (IngestClaim.execute eng σ req now claimRef reply).2 :=
    hσ.step (i := .ingestClaim req now claimRef reply) ⟨hfresh, rfl⟩
  have hτ : Reachable eng τ :=
    hrun.preserves (P := Reachable eng) hstart fun _ _ _ hr hst => hr.step hst.2
  refine parked_of_seen hτ ?_
  rcases hcase with hburst | ⟨hadmitted, hgate⟩
  · intro c hc
    rw [claims_of_burst hburst hτ] at hc
    cases hc
  · exact seen_of_parkedLog (hrun.preserves
      (P := fun σ => ParkedLog σ req.agentId claimRef now)
      (parkedLog_of_ingest hfresh hadmitted hgate)
      fun _ _ _ hP hst => parkedLog_of_step hP hst.2 hst.1)

/-- A fact whose window starts only after it is told. -/
def premature : IngestClaimRequest := remember "Paris" (some (dated 50 none))

def parkPremature : Op := .ingestClaim premature 10 ⟨1⟩ (.ok 0)

theorem premature_stays_parked :
    let rome := Op.ingestClaim (remember "Rome" (some (dated 5 none))) 20 ⟨2⟩ (.ok 0)
    Parked (defaultEngine false)
      (run (defaultEngine false) Store.sqlite [parkPremature, rome]) ⟨1⟩ := by
  intro rome
  have hok : (IngestClaim.execute (defaultEngine false) Store.sqlite premature 10 ⟨1⟩ (.ok 0)).1 =
      .ok ⟨⟨1⟩, .quarantined, []⟩ := rfl
  exact quarantined_stays_parked (.init Store.new_sqlite) (by decide) hok rfl
    (.cons (i := rome) ⟨by decide, by decide, rfl⟩ (.nil _))

/-- The host bounds the parked claim and reopens it. -/
theorem bounded_and_reopened_is_recalled :
    let parked := IngestClaim.execute (defaultEngine false) Store.sqlite premature 10 ⟨1⟩ (.ok 0)
    let bound := Op.assertValidity (assertOn 1 (.bound 60 none)) 70 50
    let reopen := Op.assertValidity (assertOn 1 .reopen) 80 51
    let τ := run (defaultEngine false) parked.2 [bound, reopen]
    parked.1 = .ok ⟨⟨1⟩, .quarantined, []⟩ ∧ Runnable (defaultEngine false) parked.2
        [bound, reopen] ∧
      (recallNow EngineConfig.default τ agent "user" "location" 90).primary.map (·.claimRef) =
        some ⟨1⟩ ∧
      ¬ Parked (defaultEngine false) (run (defaultEngine false) parked.2 [bound]) ⟨1⟩ ∧
      ¬ Parked (defaultEngine false) τ ⟨1⟩ := by
  intro parked bound reopen τ
  refine ⟨rfl, by decide, by decide, fun h => ?_, fun h => ?_⟩
  · exact h.ingest agent "user" "location" 90 (by decide)
  · exact h.ingest agent "user" "location" 90 (by decide)

end Main

end Mempill.QuarantineParking
