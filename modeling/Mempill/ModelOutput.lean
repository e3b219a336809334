import Mempill.Answers
import Mempill.CheapPath

set_option autoImplicit false

/-!
# Model output

When a model-derived write leaves the answer of its line as it was.
-/
namespace Mempill.ModelOutput
open Mempill.Types Mempill.Persistence Mempill.TruthEngine Mempill.ValidTimeHelpers Mempill.Gate
open Mempill.Rows Mempill.IngestClaim Mempill.QueryMemory Mempill.Engine Mempill.Steps
open Mempill.Invariants Mempill.RowEffects Mempill.Answers HalfOpen

section Statement

def lineRequest (req : IngestClaimRequest) (validAt : Option Instant) : QueryMemoryRequest :=
  ⟨req.agentId, req.subject, req.predicate, none, validAt⟩

/-- The new claim joins the candidates of a valid-at recall, or the live rows, in
    one trusted succession; in the second case the live answer is in force at the
    instant asked about. -/
def JoinsAround (config : EngineConfig) (σ : Store) (req : IngestClaimRequest)
    (claim : Claim) (validAt : Option Instant) (q : Instant) (p : Belief) : Prop :=
  let threshold := config.validTimeConfidenceThreshold
  let live := liveRows (requestRows config σ (lineRequest req validAt) q)
  let candidates := requestCandidates config σ (lineRequest req validAt) q
  validAt.isSome ∧
      isTrustedSuccession (claim :: candidates.map claimWithEffectiveWindow) threshold = true ∨
    isTrustedSuccession (claim :: live.map (·.claim)) threshold = true ∧
      (∃ cs ∈ live, cs.claim.claimRef = p.claimRef) ∧
      (window p.validTime).Mem (validAt.getD q)

end Statement

section Alone

variable {config : EngineConfig} {rows rows' : List ClaimWithStatus} {new cs : ClaimWithStatus}
variable {t : Instant}

theorem alone_perm (h : (liveRows rows').Perm (liveRows rows)) :
    Alone config rows' t cs ↔ Alone config rows t cs := by
  have hchain : Chain config rows' ↔ Chain config rows := by
    unfold Chain
    rw [h.length_eq, isTrustedSuccession_perm (h.map (·.claim))]
  unfold Alone
  rw [hchain, h.mem_iff]
  refine or_congr ⟨fun hl => ?_, fun hl => ?_⟩ Iff.rfl
  · rw [hl] at h
    exact List.perm_singleton.mp h.symm
  · rw [hl] at h
    exact List.perm_singleton.mp h

/-- Next to a new live row an old one answers alone only in a chain. -/
theorem alone_cons_iff (h : (liveRows rows').Perm (new :: liveRows rows)) (hne : cs ≠ new) :
    Alone config rows' t cs ↔
      isTrustedSuccession (new.claim :: (liveRows rows).map (·.claim))
          config.validTimeConfidenceThreshold = true ∧
        cs ∈ liveRows rows ∧ (window cs.claim.validTime).Mem t := by
  have hsucc := isTrustedSuccession_perm (h.map (·.claim)) config.validTimeConfidenceThreshold
  rw [List.map_cons] at hsucc
  have hlen : (liveRows rows').length = (liveRows rows).length + 1 := by
    rw [h.length_eq, List.length_cons]
  have hmem : cs ∈ liveRows rows' ↔ cs ∈ liveRows rows := by
    rw [h.mem_iff, List.mem_cons]
    exact ⟨fun h => h.resolve_left hne, .inr⟩
  unfold Alone Chain
  rw [hsucc, hmem]
  constructor
  · rintro (hl | ⟨⟨_, hs⟩, hcs, ht⟩)
    · rw [hl, List.length_singleton] at hlen
      have hnil : liveRows rows = [] := List.length_eq_zero_iff.mp (by omega)
      rw [hnil] at h
      rw [hl] at h
      have heq := List.perm_singleton.mp h
      exact absurd (List.cons.inj heq).1 hne
    · exact ⟨hs, hcs, ht⟩
  · rintro ⟨hs, hcs, ht⟩
    have hpos := List.length_pos_of_mem hcs
    exact .inr ⟨⟨by omega, hs⟩, hcs, ht⟩

end Alone

section Written

variable {eng : Engine} {σ σ' : Store} {req : IngestClaimRequest} {now q : Instant}
variable {claimRef : ClaimRef} {validAt : Option Instant}

theorem admitted_of_model (hprov : req.provenance = .modelDerived)
    (hburst : 0 < eng.config.quarantineBurstThreshold) :
    Admitted eng.config σ req claimRef now := by
  have hnb : ¬ (0 ≥ eng.config.quarantineBurstThreshold) := by omega
  simp [Admitted, check, stamp, hprov, ProvenanceLabel.isRecallReentry, hnb]

theorem isTrustedSuccession_cons_of_unbound {cs : ClaimWithStatus} (h : cs.boundAt = none)
    (claims : List Claim) (threshold : F32) :
    isTrustedSuccession (claimWithEffectiveWindow cs :: claims) threshold =
      isTrustedSuccession (cs.claim :: claims) threshold := by
  have hwindow : effectiveWindow cs = window cs.claim.validTime := by
    rw [effectiveWindow, h, Span.cut_none]
  rw [Bool.eq_iff_iff, isTrustedSuccession_iff, isTrustedSuccession_iff]
  simp only [List.forall_mem_cons, List.pairwise_cons, claimIsTrusted_claimWithEffectiveWindow,
    window_claimWithEffectiveWindow, hwindow]

theorem gateDecision_of_model (eng : Engine) (σ : Store) (now : Instant) (claimRef : ClaimRef)
    (hprov : req.provenance = .modelDerived) :
    (gateDecision eng σ req (stamp req claimRef now) now).disposition =
      if isTemporallyIncoherent (stamp req claimRef now) eng.config then .quarantined
      else .committedInferred := by
  have hcandidate : ∀ input : ReconcilerInput, (reconcile input).candidate = input.candidate :=
    fun _ => rfl
  have hlabel : (stamp req claimRef now).provenance = .modelDerived := hprov
  unfold gateDecision adjudicate
  simp only [hcandidate, hlabel, ProvenanceLabel.isRecallReentry, Bool.false_eq_true, if_false,
    if_true]
  split <;> rfl

variable (eng σ req now claimRef) in
def inferredRow : ClaimWithStatus where
  claim := stamp req claimRef now
  isLive := !isTemporallyIncoherent (stamp req claimRef now) eng.config
  lastDisposition := some
    (if isTemporallyIncoherent (stamp req claimRef now) eng.config then .quarantined
      else .committedInferred)
  boundAt := none
  boundAtGranularity := none

variable (hfresh : Fresh claimRef.uuid σ) (hprov : req.provenance = .modelDerived) (hq : now ≤ q)
variable (happ : Appends σ σ' (ingestWritten (stamp req claimRef now)
  (gateDecision eng σ req (stamp req claimRef now) now) now))

include hfresh hprov hq happ

theorem rowOf_inferred :
    rowOf σ' req.agentId (some q) q (stamp req claimRef now) =
      inferredRow eng req now claimRef := by
  have hcut : withinCutoff (some q) now = true := by simp [withinCutoff, hq]
  have hrow := rowOf_ingested happ hfresh (rfl : _ = req.agentId) hcut q
  rw [gateDecision_of_model eng σ now claimRef hprov] at hrow
  rw [hrow]
  unfold inferredRow
  cases isTemporallyIncoherent (stamp req claimRef now) eng.config <;> rfl

theorem requestRows_inferred (validAt : Option Instant) :
    (requestRows eng.config σ' (lineRequest req validAt) q).Perm
      (inferredRow eng req now claimRef ::
        requestRows eng.config σ (lineRequest req validAt) q) := by
  have hline : onLine req.agentId req.subject req.predicate (stamp req claimRef now) = true := by
    simp [onLine, stamp]
  have hcut : withinCutoff (some q) (stamp req claimRef now).transactionTime = true := by
    simp [withinCutoff, stamp, hq]
  have h := lineRows_ingested eng.config q happ hfresh hline hcut
  rw [rowOf_inferred hfresh hprov hq happ] at h
  exact h

theorem requestCandidates_inferred (validAt : Option Instant) :
    (requestCandidates eng.config σ' (lineRequest req validAt) q).Perm
      (if isTemporallyIncoherent (stamp req claimRef now) eng.config then
        requestCandidates eng.config σ (lineRequest req validAt) q
      else inferredRow eng req now claimRef ::
        requestCandidates eng.config σ (lineRequest req validAt) q) := by
  have hrows := requestRows_inferred hfresh hprov hq happ validAt
  have hperm : (requestCandidates eng.config σ' (lineRequest req validAt) q).Perm _ :=
    hrows.filter (isCandidate (deniedOf σ' req.agentId (some q)))
  have hold : (requestRows eng.config σ (lineRequest req validAt) q).filter
      (isCandidate (deniedOf σ' req.agentId (some q))) =
        requestCandidates eng.config σ (lineRequest req validAt) q := by
    refine List.filter_congr fun cs hcs => ?_
    obtain ⟨c, hc, rfl⟩ := mem_lineRows.mp hcs
    have hne : c.claimRef ≠ claimRef := fun heq =>
      Fresh.claim hfresh (mem_lineClaims.mp hc).1 (congrArg ClaimRef.uuid heq)
    have hdenied : deniedOf σ' req.agentId (some q) c.claimRef =
        deniedOf σ req.agentId (some q) c.claimRef := by
      rw [deniedOf, deniedOf, entriesOf_of_untouched happ (untouched_of_ingested hne), happ.ties]
    simp only [isCandidate, rowOf_claim]
    rw [hdenied]
    rfl
  rw [List.filter_cons, hold] at hperm
  cases hco : isTemporallyIncoherent (stamp req claimRef now) eng.config with
  | true =>
    have hout : isCandidate (deniedOf σ' req.agentId (some q))
        (inferredRow eng req now claimRef) = false := by
      simp [isCandidate, inferredRow, hco, isHardExcludedDisposition]
    simpa [hout] using hperm
  | false =>
    have hin : isCandidate (deniedOf σ' req.agentId (some q))
        (inferredRow eng req now claimRef) = true := by
      simp [isCandidate, inferredRow, hco, isHardExcludedDisposition]
    simpa [hin] using hperm

theorem soleAnswer_of_incoherent
    (hco : isTemporallyIncoherent (stamp req claimRef now) eng.config = true)
    {cs : ClaimWithStatus} :
    SoleAnswer eng.config σ' (lineRequest req validAt) q cs ↔
      SoleAnswer eng.config σ (lineRequest req validAt) q cs := by
  have hrows := (requestRows_inferred hfresh hprov hq happ validAt).filter (·.isLive)
  have hlive : (liveRows (requestRows eng.config σ' (lineRequest req validAt) q)).Perm
      (liveRows (requestRows eng.config σ (lineRequest req validAt) q)) := by
    rwa [List.filter_cons_of_neg (by simp [inferredRow, hco])] at hrows
  have hcandidates := requestCandidates_inferred hfresh hprov hq happ validAt
  rw [if_pos hco] at hcandidates
  have hsucc : candidatesSucceed eng.config σ' (lineRequest req validAt) q =
      candidatesSucceed eng.config σ (lineRequest req validAt) q :=
    isTrustedSuccession_perm (hcandidates.map _) _
  unfold SoleAnswer
  rw [hsucc, hcandidates.mem_iff]
  simp only [alone_perm hlive]

omit hprov hq happ in
theorem ne_inferredRow {cs : ClaimWithStatus}
    (hcs : cs ∈ requestRows eng.config σ (lineRequest req validAt) q) :
    cs ≠ inferredRow eng req now claimRef := by
  obtain ⟨c, hc, rfl⟩ := mem_lineRows.mp hcs
  intro heq
  have href : c.claimRef = claimRef := congrArg (·.claim.claimRef) heq
  exact Fresh.claim hfresh (mem_lineClaims.mp hc).1 (congrArg ClaimRef.uuid href)

theorem candidatesSucceed_inferred (t : Instant)
    (hco : isTemporallyIncoherent (stamp req claimRef now) eng.config = false) :
    candidatesSucceed eng.config σ' (lineRequest req (some t)) q =
      isTrustedSuccession (stamp req claimRef now ::
        (requestCandidates eng.config σ (lineRequest req (some t)) q).map
          claimWithEffectiveWindow) eng.config.validTimeConfidenceThreshold := by
  have hcandidates := requestCandidates_inferred hfresh hprov hq happ (some t)
  rw [hco, if_neg Bool.false_ne_true] at hcandidates
  refine (isTrustedSuccession_perm (hcandidates.map _) _).trans ?_
  exact isTrustedSuccession_cons_of_unbound rfl _ _

/-- Next to a coherent model-derived claim an old row answers alone exactly when
    the two join in a succession around it. -/
theorem soleAnswer_of_coherent (hσ : Reachable eng σ)
    (hco : isTemporallyIncoherent (stamp req claimRef now) eng.config = false)
    {cs : ClaimWithStatus} (hsole : SoleAnswer eng.config σ (lineRequest req validAt) q cs) :
    SoleAnswer eng.config σ' (lineRequest req validAt) q cs ↔
      JoinsAround eng.config σ req (stamp req claimRef now) validAt q
        (liveBelief q eng.config cs) := by
  have hrows := (requestRows_inferred hfresh hprov hq happ validAt).filter (·.isLive)
  have hlive : (liveRows (requestRows eng.config σ' (lineRequest req validAt) q)).Perm
      (inferredRow eng req now claimRef ::
        liveRows (requestRows eng.config σ (lineRequest req validAt) q)) := by
    rwa [List.filter_cons_of_pos (by simp [inferredRow, hco])] at hrows
  have hcs := mem_requestRows_of_soleAnswer hsole
  have halone : ∀ t, Alone eng.config
      (requestRows eng.config σ' (lineRequest req validAt) q) t cs ↔ _ :=
    fun t => alone_cons_iff hlive (ne_inferredRow hfresh hcs)
  have hmem : (∃ cs' ∈ liveRows (requestRows eng.config σ (lineRequest req validAt) q),
      cs'.claim.claimRef = (liveBelief q eng.config cs).claimRef) ↔
        cs ∈ liveRows (requestRows eng.config σ (lineRequest req validAt) q) := by
    constructor
    · rintro ⟨cs', hcs', href⟩
      have hsame : cs' = cs := List.inj_on_of_nodup_map (requestRows_nodup hσ ..)
        (mem_liveRows.mp hcs').1 hcs href
      exact hsame ▸ hcs'
    · exact fun h => ⟨cs, h, rfl⟩
  unfold JoinsAround
  dsimp only
  rw [hmem, liveBelief_validTime]
  cases validAt with
  | none =>
    have hq' : SoleAnswer eng.config σ' (lineRequest req none) q cs ↔
        Alone eng.config (requestRows eng.config σ' (lineRequest req none) q) q cs := Iff.rfl
    rw [hq', halone q]
    simp [inferredRow]
  | some t =>
    have hcandidates := requestCandidates_inferred hfresh hprov hq happ (some t)
    rw [hco, if_neg Bool.false_ne_true] at hcandidates
    have hsucc := candidatesSucceed_inferred hfresh hprov hq happ t hco
    have hafter : SoleAnswer eng.config σ' (lineRequest req (some t)) q cs ↔
        if candidatesSucceed eng.config σ' (lineRequest req (some t)) q then
          cs ∈ requestCandidates eng.config σ' (lineRequest req (some t)) q ∧
            (effectiveWindow cs).Mem t
        else Alone eng.config (requestRows eng.config σ' (lineRequest req (some t)) q) t cs :=
      Iff.rfl
    rw [hafter, hsucc, hcandidates.mem_iff]
    cases hs : isTrustedSuccession (stamp req claimRef now ::
        (requestCandidates eng.config σ (lineRequest req (some t)) q).map
          claimWithEffectiveWindow) eng.config.validTimeConfidenceThreshold with
    | true =>
      -- the earlier candidates are a succession too, and the answer is one of them
      have hbefore : candidatesSucceed eng.config σ (lineRequest req (some t)) q = true :=
        isTrustedSuccession_of_cons hs
      have hin : cs ∈ requestCandidates eng.config σ (lineRequest req (some t)) q ∧
          (effectiveWindow cs).Mem t := by
        have h : if candidatesSucceed eng.config σ (lineRequest req (some t)) q then _ else _ :=
          hsole
        rwa [if_pos hbefore] at h
      rw [if_pos rfl]
      exact iff_of_true ⟨List.mem_cons_of_mem _ hin.1, hin.2⟩ (.inl ⟨rfl, rfl⟩)
    | false =>
      rw [if_neg Bool.false_ne_true, halone t]
      simp [inferredRow]

end Written

section Main

variable {eng : Engine} {σ : Store}

/-- A model-derived write keeps the primary answer and its status, at every later
    instant and for every valid-at, exactly when the burst gate or the coherence
    check parks it, or it joins the line in a trusted succession around the answer. -/
theorem model_output_keeps_primary_iff (hσ : Reachable eng σ) {req : IngestClaimRequest}
    {now q : Instant} {claimRef : ClaimRef} (reply : Except String Uuid)
    (hfresh : Fresh claimRef.uuid σ) (hprov : req.provenance = .modelDerived) (hq : now ≤ q)
    (validAt : Option Instant) {p : Belief}
    (hp : (QueryMemory.execute eng.config σ (lineRequest req validAt) q).primary = some p) :
    let after := QueryMemory.execute eng.config
      (IngestClaim.execute eng σ req now claimRef reply).2 (lineRequest req validAt) q
    (after.primary = some p ∧
        after.status = (QueryMemory.execute eng.config σ (lineRequest req validAt) q).status) ↔
      eng.config.quarantineBurstThreshold = 0 ∨
        isTemporallyIncoherent (stamp req claimRef now) eng.config = true ∨
        JoinsAround eng.config σ req (stamp req claimRef now) validAt q p := by
  dsimp only
  obtain ⟨cs, hsole, rfl⟩ := (primary_iff hσ).mp hp
  by_cases hburst : eng.config.quarantineBurstThreshold = 0
  · rw [execute_of_not_admitted (not_admitted_of_burst hburst)]
    exact iff_of_true ⟨hp, rfl⟩ (.inl hburst)
  have hadmitted : Admitted eng.config σ req claimRef now :=
    admitted_of_model hprov (Nat.pos_of_ne_zero hburst)
  have happ := ingest_appends hadmitted reply
  have hσ' : Reachable eng (IngestClaim.execute eng σ req now claimRef reply).2 :=
    hσ.step (i := .ingestClaim req now claimRef reply) ⟨hfresh, rfl⟩
  have hmem := (requestRows_inferred hfresh hprov hq happ validAt).mem_iff.mpr
    (List.mem_cons_of_mem _ (mem_requestRows_of_soleAnswer hsole))
  rw [answer_kept_iff hσ hσ' hsole hmem]
  cases hco : isTemporallyIncoherent (stamp req claimRef now) eng.config with
  | true =>
    exact iff_of_true ((soleAnswer_of_incoherent hfresh hprov hq happ hco).mpr hsole)
      (.inr (.inl rfl))
  | false =>
    rw [soleAnswer_of_coherent hfresh hprov hq happ hσ hco hsole]
    simp [hburst]

def inferred (value : String) (validTime : Option ValidTime) : IngestClaimRequest :=
  { remember value validTime with provenance := .modelDerived }

def openBerlin : Store :=
  run (defaultEngine false) Store.sqlite
    [.ingestClaim (remember "Berlin" (some (dated 5 none))) 10 ⟨1⟩ (.ok 0)]

/-- The answer Berlin, in force from 5 on. -/
def berlinBelief : Belief where
  claimRef := ⟨1⟩
  fact := ⟨"user", "location", .str "Berlin"⟩
  provenance := .external .externalFirstHand
  validTime := dated 5 none
  transactionTime := 10
  confidence := ⟨certain, certain⟩
  currencySignal := ⟨10, .fresh, 0⟩
  criticality := .medium

theorem inferred_predecessor_keeps_answer :
    let result := IngestClaim.execute (defaultEngine false) openBerlin
      (inferred "Paris" (some (dated 1 (some 5)))) 20 ⟨2⟩ (.ok 0)
    let after := QueryMemory.execute EngineConfig.default result.2
      (lineRequest (inferred "Paris" (some (dated 1 (some 5)))) none) 40
    after.primary = some berlinBelief ∧ after.status = .resolved :=
  (model_output_keeps_primary_iff (run_reachable (by decide) : Reachable (defaultEngine false) _)
    (.ok 0) (by decide) rfl (by decide) none (by decide)).mpr
    (.inr (.inr (.inr ⟨by decide, ⟨_, List.mem_cons_self, rfl⟩, by decide⟩)))

theorem inferred_rival_overturns :
    let request := lineRequest (inferred "Paris" (some (dated 1 none))) none
    let result := IngestClaim.execute (defaultEngine false) openBerlin
      (inferred "Paris" (some (dated 1 none))) 20 ⟨2⟩ (.ok 0)
    Reachable (defaultEngine false) openBerlin ∧ Fresh 2 openBerlin ∧
      (QueryMemory.execute EngineConfig.default openBerlin request 40).primary =
        some berlinBelief ∧
      (QueryMemory.execute EngineConfig.default openBerlin request 40).status = .resolved ∧
      result.1 = .ok ⟨⟨2⟩, .committedInferred, []⟩ ∧
      (QueryMemory.execute EngineConfig.default result.2 request 40).primary = none ∧
      (QueryMemory.execute EngineConfig.default result.2 request 40).status = .contested :=
  ⟨run_reachable (by decide), by decide, by decide, by decide, rfl, by decide, by decide⟩

end Main

end Mempill.ModelOutput
