import Mempill.ClaimLog
import Mempill.WriteGate

set_option autoImplicit false

/-!
# Reconcile passes

The decisions of a reconcile pass, read off the rows of the lines it is given.
-/
namespace Mempill.ReconcilePass
open Mempill.Types Mempill.Persistence Mempill.TruthEngine Mempill.Ledger Mempill.Gate Mempill.Rows
open Mempill.IngestClaim Mempill.Reconcile Mempill.Engine Mempill.Steps Mempill.Invariants
open Mempill.ClaimLog Mempill.WriteGate Mempill.ValidTimeHelpers StampedLog

section Rows

variable {config : EngineConfig} {σ : Store} {agentId : AgentId} {subject predicate : String}
variable {refs : List ClaimRef}

/-- A scan of more claims than those of the line gives the same fold. -/
theorem fold_of_refs
    (hrefs : ∀ c ∈ loadSubjectLine σ agentId subject predicate none, c.claimRef ∈ refs)
    (now : Instant) :
    fold (loadSubjectLine σ agentId subject predicate none)
        (loadValidityAssertionsFor σ agentId) now none config
        (buildLatestDispositionMap (loadLedgerForClaims σ agentId refs none)) =
      foldStatuses (lineRows config σ agentId subject predicate none now) now config := by
  rw [fold, lineRows, lineClaims]
  congr 1
  refine List.map_congr_left fun c hc => ?_
  have hlatest : buildLatestDispositionMap (loadLedgerForClaims σ agentId refs none) c.claimRef =
      latestOf σ agentId none c.claimRef :=
    buildLatestDispositionMap_load (hrefs c ((mem_inOrder _).mp hc))
  simp only [claimStatus, rowOf, hlatest, activeBoundAt_load]

theorem candidates_of_refs
    (hrefs : ∀ c ∈ loadSubjectLine σ agentId subject predicate none, c.claimRef ∈ refs)
    (now : Instant) :
    buildConflictCandidateClaims
        (foldStatuses (lineRows config σ agentId subject predicate none now) now config)
        (buildDeniedViaAdjudicationSet (loadLedgerForClaims σ agentId refs none)) =
      (candidateRows config σ agentId subject predicate none now).map candidateClaim := by
  rw [buildConflictCandidateClaims, foldStatuses_allClaims]
  have hfilter : (lineRows config σ agentId subject predicate none now).filter
      (isCandidate (buildDeniedViaAdjudicationSet (loadLedgerForClaims σ agentId refs none))) =
        candidateRows config σ agentId subject predicate none now := by
    refine List.filter_congr fun cs hcs => ?_
    obtain ⟨c, hc, rfl⟩ := mem_lineRows.mp hcs
    have hdenied : buildDeniedViaAdjudicationSet (loadLedgerForClaims σ agentId refs none)
        c.claimRef = deniedOf σ agentId none c.claimRef :=
      buildDeniedViaAdjudicationSet_load (hrefs c ((mem_inOrder _).mp hc))
    simp only [isCandidate, rowOf_claim, hdenied]
  rw [hfilter]
  rfl

end Rows

section Pass

variable (eng : Engine) (σ : Store) (agentId : AgentId) (now : Instant)

def passRows (line : String × String) : List ClaimWithStatus :=
  lineRows eng.config σ agentId line.1 line.2 none now

def passCandidates (line : String × String) : List Claim :=
  (candidateRows eng.config σ agentId line.1 line.2 none now).map candidateClaim

/-- What the pass decides on one selected row of a line. -/
def rowDecision (line : String × String) (cs : ClaimWithStatus) : GateDecision :=
  adjudicate (reconcile
    { candidate := cs.claim
      incumbent := incumbentOf cs.claim
        (foldStatuses (passRows eng σ agentId now line) now eng.config)
        (passCandidates eng σ agentId now line)
      supersededClaimRefs := []
      measuredConfidence := cs.claim.confidence.valueConfidence
      oraclePresent := eng.oraclePresent
      successionThreshold := eng.config.validTimeConfidenceThreshold
      allLiveClaims := passCandidates eng σ agentId now line }) eng.config

def selectedRows (line : String × String) : List ClaimWithStatus :=
  (foldStatuses (passRows eng σ agentId now line) now eng.config).liveClaims

def lineDecisions (line : String × String) : List (ClaimRef × GateDecision) :=
  (selectedRows eng σ agentId now line).map fun cs =>
    (cs.claim.claimRef, rowDecision eng σ agentId now line cs)

end Pass

section Candidates

variable {rows : List ClaimWithStatus} {r : ClaimRef}

/-- The window that a candidate is offered with leaves its reference alone. -/
theorem claimRef_of_candidate (hr : r ∈ (rows.map candidateClaim).map (·.claimRef)) :
    ∃ cs ∈ rows, cs.claim.claimRef = r := by
  obtain ⟨claim, hclaim, href⟩ := List.mem_map.mp hr
  obtain ⟨cs, hcs, rfl⟩ := List.mem_map.mp hclaim
  exact ⟨cs, hcs, by rw [← href, candidateClaim_claimRef]⟩

theorem not_mem_conflictCandidates {config : EngineConfig} {σ : Store} {agentId : AgentId}
    {subject predicate : String} {now : Instant}
    (h : ∀ cs ∈ candidateRows config σ agentId subject predicate none now,
      cs.claim.claimRef ≠ r) :
    r ∉ (conflictCandidates config σ agentId subject predicate now).map (·.claimRef) := by
  intro hr
  rw [conflictCandidates_eq] at hr
  obtain ⟨cs, hcs, href⟩ := claimRef_of_candidate hr
  exact h cs hcs href

theorem not_mem_passCandidates {eng : Engine} {σ : Store} {agentId : AgentId}
    {line : String × String} {now : Instant}
    (h : ∀ cs ∈ candidateRows eng.config σ agentId line.1 line.2 none now,
      cs.claim.claimRef ≠ r) :
    r ∉ (passCandidates eng σ agentId now line).map (·.claimRef) := by
  intro hr
  obtain ⟨cs, hcs, href⟩ := claimRef_of_candidate hr
  exact h cs hcs href

end Candidates

variable {eng : Engine} {σ : Store} {req : ReconcileRequest} {now : Instant}

theorem decisions_eq (eng : Engine) (σ : Store) (req : ReconcileRequest) (now : Instant) :
    decisions eng σ req now =
      req.subjectLines.flatMap (lineDecisions eng σ req.agentId now) := by
  unfold decisions
  dsimp only
  rw [List.flatMap_map]
  refine List.flatMap_congr fun line hline => ?_
  have hrefs : ∀ c ∈ loadSubjectLine σ req.agentId line.1 line.2 none,
      c.claimRef ∈ ((req.subjectLines.map fun line =>
        loadSubjectLine σ req.agentId line.1 line.2 none).flatMap id).map (·.claimRef) := by
    intro c hc
    refine List.mem_map_of_mem (List.mem_flatMap.mpr ⟨_, List.mem_map_of_mem hline, hc⟩)
  rw [decideLine, fold_of_refs hrefs, candidates_of_refs hrefs]
  rfl

theorem mem_decisions_iff {d : ClaimRef × GateDecision} :
    d ∈ decisions eng σ req now ↔
      ∃ line ∈ req.subjectLines, ∃ cs ∈ selectedRows eng σ req.agentId now line,
        d = (cs.claim.claimRef, rowDecision eng σ req.agentId now line cs) := by
  rw [decisions_eq, List.mem_flatMap]
  refine exists_congr fun line => and_congr_right fun _ => ?_
  rw [lineDecisions, List.mem_map]
  exact exists_congr fun cs => and_congr_right fun _ => eq_comm

/-- A pass decides on live claims only. -/
theorem live_of_selected {eng' : Engine} (hσ : Reachable eng' σ) {agentId : AgentId}
    {line : String × String} {cs : ClaimWithStatus}
    (hcs : cs ∈ selectedRows eng σ agentId now line) :
    ∃ c ∈ σ.claims, onLine agentId line.1 line.2 c = true ∧
      cs = rowOf σ agentId none now c ∧ cs.isLive = true := by
  have hnodup := lineRows_nodup hσ eng.config agentId line.1 line.2 none now
  obtain ⟨hrow, hlive⟩ := foldStatuses_subset hnodup now hcs
  obtain ⟨c, hc, rfl⟩ := mem_lineRows.mp hrow
  obtain ⟨hmem, hline, _⟩ := mem_lineClaims.mp hc
  exact ⟨c, hmem, hline, rfl, hlive⟩

theorem latestOf_of_decision {eng' : Engine} (hσ : Reachable eng' σ) {d : ClaimRef × GateDecision}
    (hd : d ∈ decisions eng σ req now) {disposition : Disposition}
    (hlatest : latestOf σ req.agentId none d.1 = some disposition) :
    isNonLiveDisposition disposition = false := by
  obtain ⟨line, _, cs, hcs, rfl⟩ := mem_decisions_iff.mp hd
  obtain ⟨c, _, _, rfl, hlive⟩ := live_of_selected hσ hcs
  exact ((rowOf_isLive σ req.agentId none now c).mp hlive).2 disposition hlatest

/-- A pass decides on a claim in one way, on however many of its lines it is named. -/
theorem eq_of_mem_decisions {eng' : Engine} (hσ : Reachable eng' σ)
    {d d' : ClaimRef × GateDecision} (hd : d ∈ decisions eng σ req now)
    (hd' : d' ∈ decisions eng σ req now) (href : d.1 = d'.1) : d = d' := by
  obtain ⟨line, _, cs, hcs, rfl⟩ := mem_decisions_iff.mp hd
  obtain ⟨line', _, cs', hcs', rfl⟩ := mem_decisions_iff.mp hd'
  obtain ⟨c, hc, hline, rfl, _⟩ := live_of_selected hσ hcs
  obtain ⟨c', hc', hline', rfl, _⟩ := live_of_selected hσ hcs'
  obtain rfl : c = c' := eq_of_claimRef hσ hc hc' href
  simp only [onLine, Bool.and_eq_true, beq_iff_eq] at hline hline'
  obtain rfl : line = line' :=
    Prod.ext (hline.1.2.symm.trans hline'.1.2) (hline.2.symm.trans hline'.2)
  rfl

section Written

variable (eng σ req now) in
def passed : Store := (Reconcile.execute eng σ req now).2

theorem passed_appends (eng : Engine) (σ : Store) (req : ReconcileRequest) (now : Instant) :
    Appends σ (passed eng σ req now)
      { ledger := (decisions eng σ req now).map (decisionEntry req.agentId now) } := by
  unfold passed Reconcile.execute
  by_cases h : req.subjectLines.isEmpty = true
  · rw [if_pos h, decisions_eq, List.isEmpty_iff.mp h]
    exact .nothing σ
  · rw [if_neg h]
    constructor <;> simp [appendLedgerEntries]

theorem outcomes_eq (eng : Engine) (σ : Store) (req : ReconcileRequest) (now : Instant) :
    (Reconcile.execute eng σ req now).1.outcomes =
      (decisions eng σ req now).map fun d => (d.1, d.2.disposition) := by
  unfold Reconcile.execute
  by_cases h : req.subjectLines.isEmpty = true
  · rw [if_pos h, decisions_eq, List.isEmpty_iff.mp h]
    rfl
  · rw [if_neg h]

@[simp] theorem passed_claims : (passed eng σ req now).claims = σ.claims := by
  simpa using (passed_appends eng σ req now).claims

@[simp] theorem passed_assertions : (passed eng σ req now).assertions = σ.assertions := by
  simpa using (passed_appends eng σ req now).assertions

@[simp] theorem passed_ties : (passed eng σ req now).ties = σ.ties :=
  (passed_appends eng σ req now).ties

/-- The entries that the pass appends for one claim. -/
def passNews (eng : Engine) (σ : Store) (req : ReconcileRequest) (now : Instant)
    (agentId : AgentId) (r : ClaimRef) : List LedgerEntry :=
  newEntries { ledger := (decisions eng σ req now).map (decisionEntry req.agentId now) } agentId r

theorem entriesOf_passed (agentId : AgentId) (r : ClaimRef) :
    entriesOf (passed eng σ req now) agentId none r =
      entriesOf σ agentId none r ++ passNews eng σ req now agentId r :=
  entriesOf_newEntries (passed_appends eng σ req now) agentId r

theorem mem_passNews_iff {agentId : AgentId} {r : ClaimRef} {e : LedgerEntry} :
    e ∈ passNews eng σ req now agentId r ↔
      req.agentId = agentId ∧ ∃ line ∈ req.subjectLines,
        ∃ cs ∈ selectedRows eng σ agentId now line, cs.claim.claimRef = r ∧
          e = decisionEntry agentId now (r, rowDecision eng σ agentId now line cs) := by
  rw [passNews, mem_newEntries, List.mem_map]
  constructor
  · rintro ⟨⟨d, hd, rfl⟩, rfl, rfl⟩
    obtain ⟨line, hline, cs, hcs, rfl⟩ := mem_decisions_iff.mp hd
    exact ⟨rfl, line, hline, cs, hcs, rfl, rfl⟩
  · rintro ⟨rfl, line, hline, cs, hcs, rfl, rfl⟩
    exact ⟨⟨_, mem_decisions_iff.mpr ⟨line, hline, cs, hcs, rfl⟩, rfl⟩, rfl, rfl⟩

theorem passNews_quiet {agentId : AgentId} {r : ClaimRef} {e : LedgerEntry}
    (h : e ∈ passNews eng σ req now agentId r) : quiet e.disposition = true := by
  obtain ⟨_, _, _, _, _, _, rfl⟩ := mem_passNews_iff.mp h
  exact adjudicate_quiet _ _

end Written

section Decision

variable {agentId : AgentId}

theorem isNonLive_adjudicate (proposal : Proposal) (config : EngineConfig) :
    isNonLiveDisposition (adjudicate proposal config).disposition =
      (!proposal.candidate.provenance.isRecallReentry &&
        isTemporallyIncoherent proposal.candidate config) := by
  unfold adjudicate
  dsimp only
  split_ifs <;> simp_all [isNonLiveDisposition]

theorem isNonLive_rowDecision (line : String × String) (cs : ClaimWithStatus) :
    isNonLiveDisposition (rowDecision eng σ agentId now line cs).disposition =
      (!cs.claim.provenance.isRecallReentry && isTemporallyIncoherent cs.claim eng.config) :=
  isNonLive_adjudicate _ _

/-- Every entry of the pass for a claim is a quarantine, or none is. -/
theorem isNonLive_of_passNews {eng' : Engine} (hσ : Reachable eng' σ) {c : Claim}
    (hc : c ∈ σ.claims) {e : LedgerEntry} (he : e ∈ passNews eng σ req now agentId c.claimRef) :
    isNonLiveDisposition e.disposition =
      (!c.provenance.isRecallReentry && isTemporallyIncoherent c eng.config) := by
  obtain ⟨_, line, _, cs, hcs, href, rfl⟩ := mem_passNews_iff.mp he
  obtain ⟨c', hc', _, rfl, _⟩ := live_of_selected hσ hcs
  have hsame : c' = c := eq_of_claimRef hσ hc' hc href
  rw [← hsame]
  exact isNonLive_rowDecision _ _

theorem selectedRows_eq (eng : Engine) (σ : Store) (agentId : AgentId) (now : Instant)
    (line : String × String) :
    selectedRows eng σ agentId now line =
      (foldForWrite eng.config σ agentId line.1 line.2 now).liveClaims := by
  rw [foldForWrite_eq]
  rfl

/-- The claim that a selected one is compared with. -/
def otherClaim (selected candidates : List Claim) (c : Claim) : Option Claim :=
  (selected.find? fun other => other.claimRef != c.claimRef) <|>
    candidates.find? fun other => other.claimRef != c.claimRef

/-- What the pass decides on a claim, from the selected claims and the candidates of
    its line. -/
def claimDecision (eng : Engine) (selected candidates : List Claim) (c : Claim) : GateDecision :=
  adjudicate (reconcile
    { candidate := c
      incumbent := (otherClaim selected candidates c).map claimToBelief
      supersededClaimRefs := []
      measuredConfidence := c.confidence.valueConfidence
      oraclePresent := eng.oraclePresent
      successionThreshold := eng.config.validTimeConfidenceThreshold
      allLiveClaims := candidates }) eng.config

/-- A coherent external claim that neither restates the other one nor succeeds the
    candidates in a trusted succession. -/
def disputed (config : EngineConfig) (selected candidates : List Claim) (c : Claim) : Bool :=
  c.provenance.isCheapPathEligible && !isTemporallyIncoherent c config &&
    match otherClaim selected candidates c with
    | none => false
    | some other =>
      !(c.fact.value == other.fact.value && !overlapsDifferentValue c candidates) &&
        !isTrustedSuccession (c :: candidates.filter fun d => d.claimRef != c.claimRef)
          config.validTimeConfidenceThreshold

/-- An external claim is committed cheaply or goes to the oracle. -/
theorem adjudicate_of_external {proposal : Proposal} {config : EngineConfig}
    (hprov : proposal.candidate.provenance.isCheapPathEligible = true)
    (hcoherent : isTemporallyIncoherent proposal.candidate config = false)
    (hclass : proposal.conflictType = .noConflict ∨ proposal.conflictType = .succession ∨
      proposal.conflictType = .sameLineConflict) :
    (adjudicate proposal config).disposition =
      if proposal.conflictType = .sameLineConflict ∧ proposal.incumbent.isSome = true then
        if proposal.oraclePresent then .queuedForAdjudication else .contested
      else .committedCheap := by
  obtain ⟨kind, hkind⟩ : ∃ kind, proposal.candidate.provenance = .external kind := by
    cases hp : proposal.candidate.provenance <;> simp_all [ProvenanceLabel.isCheapPathEligible]
  unfold adjudicate
  rw [hkind, hcoherent]
  rcases hclass with h | h | h <;> rw [h] <;> cases hi : proposal.incumbent <;>
    cases ho : proposal.oraclePresent <;>
    simp [ProvenanceLabel.isRecallReentry, ProvenanceLabel.isCheapPathEligible]

/-- A claim that is not external, or incoherent, is not compared with the line. -/
theorem claimDecision_of_uncompared (eng : Engine) (selected candidates : List Claim) {c : Claim}
    (h : ¬ (c.provenance.isCheapPathEligible = true ∧
      isTemporallyIncoherent c eng.config = false)) :
    disputed eng.config selected candidates c = false ∧
      (claimDecision eng selected candidates c).disposition =
        if c.provenance.isRecallReentry then .committedCheap
        else if isTemporallyIncoherent c eng.config then .quarantined
        else if c.provenance = .modelDerived then .committedInferred
        else .committedCheap := by
  constructor
  · unfold disputed
    cases hp : c.provenance.isCheapPathEligible <;> simp_all
  · unfold claimDecision adjudicate reconcile
    cases hp : c.provenance with
    | recallReEntry => simp [ProvenanceLabel.isRecallReentry]
    | modelDerived =>
      cases hinc : isTemporallyIncoherent c eng.config <;> simp [ProvenanceLabel.isRecallReentry]
    | external kind =>
      simp_all [ProvenanceLabel.isRecallReentry, ProvenanceLabel.isCheapPathEligible]

theorem claimDecision_disposition (eng : Engine) {selected candidates : List Claim} {c : Claim}
    (hline : ∀ other, otherClaim selected candidates c = some other →
      other.fact.subject = c.fact.subject ∧ other.fact.predicate = c.fact.predicate) :
    (claimDecision eng selected candidates c).disposition =
      if disputed eng.config selected candidates c then
        if eng.oraclePresent then .queuedForAdjudication else .contested
      else if c.provenance.isRecallReentry then .committedCheap
      else if isTemporallyIncoherent c eng.config then .quarantined
      else if c.provenance = .modelDerived then .committedInferred
      else .committedCheap := by
  by_cases hfresh : c.provenance.isCheapPathEligible = true ∧
      isTemporallyIncoherent c eng.config = false
  case neg =>
    obtain ⟨hnot, hdecision⟩ := claimDecision_of_uncompared eng selected candidates hfresh
    rw [hnot, hdecision, if_neg Bool.false_ne_true]
  obtain ⟨hprov, hcoherent⟩ := hfresh
  obtain ⟨hrecall, hmodel⟩ :
      c.provenance.isRecallReentry = false ∧ c.provenance ≠ .modelDerived := by
    cases hp : c.provenance <;>
      simp_all [ProvenanceLabel.isRecallReentry, ProvenanceLabel.isCheapPathEligible]
  cases hother : otherClaim selected candidates c with
  | none =>
    unfold claimDecision disputed
    rw [hother, adjudicate_of_external hprov hcoherent (.inl rfl)]
    simp [reconcile, hrecall, hmodel, hcoherent]
  | some other =>
    obtain ⟨hsubject, hpredicate⟩ := hline other hother
    have hfact : (claimToBelief other).fact = other.fact := rfl
    have hclass := @classifyConflict_of_line
      { candidate := c
        incumbent := some (claimToBelief other)
        supersededClaimRefs := []
        measuredConfidence := c.confidence.valueConfidence
        oraclePresent := eng.oraclePresent
        successionThreshold := eng.config.validTimeConfidenceThreshold
        allLiveClaims := candidates } _ rfl rfl hsubject.symm hpredicate.symm
    unfold claimDecision disputed
    rw [hother, Option.map_some, adjudicate_of_external hprov hcoherent]
    · simp only [reconcile, hclass, hprov, hcoherent, hrecall, if_neg hmodel, hfact]
      by_cases hsame : c.fact.value = other.fact.value ∧
          overlapsDifferentValue c candidates = false
      · simp [hsame]
      · have hne : (c.fact.value == other.fact.value &&
            !overlapsDifferentValue c candidates) = false := by
          rw [Bool.eq_false_iff]
          simpa using hsame
        rw [if_neg hsame, hne]
        cases hs : isTrustedSuccession (c :: candidates.filter fun d =>
          d.claimRef != c.claimRef) eng.config.validTimeConfidenceThreshold <;> simp
    · simp only [reconcile, hclass]
      split_ifs <;> simp

theorem lineDecisions_eq (eng : Engine) (σ : Store) (agentId : AgentId) (now : Instant)
    (line : String × String) :
    lineDecisions eng σ agentId now line =
      ((foldForWrite eng.config σ agentId line.1 line.2 now).liveClaims.map (·.claim)).map fun c =>
        (c.claimRef, claimDecision eng
          ((foldForWrite eng.config σ agentId line.1 line.2 now).liveClaims.map (·.claim))
          (conflictCandidates eng.config σ agentId line.1 line.2 now) c) := by
  rw [conflictCandidates_eq, foldForWrite_eq, lineDecisions, List.map_map]
  rfl

/-- The claims that the pass decides on, and those it compares them with. -/
def lineSelected (config : EngineConfig) (σ : Store) (line : SubjectLineRef) (now : Instant) :
    List Claim :=
  (foldForWrite config σ line.agentId line.subject line.predicate now).liveClaims.map (·.claim)

def lineCandidates (config : EngineConfig) (σ : Store) (line : SubjectLineRef) (now : Instant) :
    List Claim :=
  conflictCandidates config σ line.agentId line.subject line.predicate now

def disputedOn (config : EngineConfig) (σ : Store) (line : SubjectLineRef) (now : Instant)
    (c : Claim) : Bool :=
  disputed config (lineSelected config σ line now) (lineCandidates config σ line now) c

variable {eng' : Engine} {line : SubjectLineRef}

theorem onLine_of_selected (hσ : Reachable eng' σ) {config : EngineConfig} {c : Claim}
    (h : c ∈ lineSelected config σ line now) :
    c ∈ σ.claims ∧ onLine line.agentId line.subject line.predicate c = true ∧
      (rowOf σ line.agentId none now c).isLive = true := by
  obtain ⟨cs, hcs, rfl⟩ := List.mem_map.mp h
  rw [foldForWrite_eq] at hcs
  obtain ⟨hrow, hlive⟩ := foldStatuses_subset (lineRows_nodup hσ ..) now hcs
  obtain ⟨c, hc, rfl⟩ := mem_lineRows.mp hrow
  obtain ⟨hmem, hline, _⟩ := mem_lineClaims.mp hc
  exact ⟨hmem, hline, hlive⟩

theorem fact_of_candidate {config : EngineConfig} {c : Claim}
    (h : c ∈ lineCandidates config σ line now) :
    c.fact.subject = line.subject ∧ c.fact.predicate = line.predicate := by
  rw [lineCandidates, conflictCandidates_eq] at h
  obtain ⟨cs, hcs, rfl⟩ := List.mem_map.mp h
  obtain ⟨c, hc, rfl⟩ := mem_lineRows.mp (List.mem_of_mem_filter hcs)
  have hline := (mem_lineClaims.mp hc).2.1
  simp only [onLine, Bool.and_eq_true, beq_iff_eq] at hline
  have hfact := candidateClaim_fact (rowOf σ line.agentId none now c)
  unfold candidateClaim at hfact
  rw [hfact]
  exact ⟨hline.1.2, hline.2⟩

theorem rowDecision_eq (eng : Engine) (σ : Store) (line : SubjectLineRef) (now : Instant)
    (cs : ClaimWithStatus) :
    rowDecision eng σ line.agentId now (line.subject, line.predicate) cs =
      claimDecision eng (lineSelected eng.config σ line now)
        (lineCandidates eng.config σ line now) cs.claim := by
  rw [lineSelected, lineCandidates, conflictCandidates_eq, foldForWrite_eq]
  rfl

theorem rowDecision_disposition (hσ : Reachable eng' σ) (eng : Engine) {cs : ClaimWithStatus}
    (hcs : cs ∈ selectedRows eng σ line.agentId now (line.subject, line.predicate)) :
    (rowDecision eng σ line.agentId now (line.subject, line.predicate) cs).disposition =
      if disputedOn eng.config σ line now cs.claim then
        if eng.oraclePresent then .queuedForAdjudication else .contested
      else if cs.claim.provenance.isRecallReentry then .committedCheap
      else if isTemporallyIncoherent cs.claim eng.config then .quarantined
      else if cs.claim.provenance = .modelDerived then .committedInferred
      else .committedCheap := by
  have hfact : ∀ c ∈ lineSelected eng.config σ line now,
      c.fact.subject = line.subject ∧ c.fact.predicate = line.predicate := fun c hc => by
    have hline := (onLine_of_selected hσ hc).2.1
    simp only [onLine, Bool.and_eq_true, beq_iff_eq] at hline
    exact ⟨hline.1.2, hline.2⟩
  rw [selectedRows_eq] at hcs
  have hown := hfact cs.claim (List.mem_map_of_mem hcs)
  rw [rowDecision_eq]
  refine claimDecision_disposition eng fun other hother => ?_
  have hother : other.fact.subject = line.subject ∧ other.fact.predicate = line.predicate := by
    unfold otherClaim at hother
    cases h : (lineSelected eng.config σ line now).find? fun other =>
      other.claimRef != cs.claim.claimRef with
    | some first =>
      rw [h] at hother
      exact Option.some.inj hother ▸ hfact first (List.mem_of_find?_eq_some h)
    | none =>
      rw [h] at hother
      exact fact_of_candidate (List.mem_of_find?_eq_some hother)
  exact ⟨hother.1.trans hown.1.symm, hother.2.trans hown.2.symm⟩

end Decision

section Entries

/-- The gate's decision on a claim, compared with the others of its line. -/
def gateEntry (eng : Engine) (σ : Store) (agentId : AgentId) (now : Instant) (c : Claim) :
    LedgerEntry :=
  let line : SubjectLineRef := ⟨agentId, c.fact.subject, c.fact.predicate⟩
  decisionEntry agentId now (c.claimRef,
    claimDecision eng (lineSelected eng.config σ line now) (lineCandidates eng.config σ line now) c)

/-- One entry for every time that the line of the claim is named. -/
def passEntries (eng : Engine) (σ : Store) (req : ReconcileRequest) (now : Instant) (c : Claim) :
    List LedgerEntry :=
  List.replicate (req.subjectLines.count (c.fact.subject, c.fact.predicate))
    (gateEntry eng σ req.agentId now c)

theorem gateEntry_of_line {line : SubjectLineRef} {c : Claim} (eng : Engine) (σ : Store)
    (now : Instant) (h : onLine line.agentId line.subject line.predicate c = true) :
    gateEntry eng σ line.agentId now c =
      decisionEntry line.agentId now (c.claimRef, claimDecision eng
        (lineSelected eng.config σ line now) (lineCandidates eng.config σ line now) c) := by
  simp only [onLine, Bool.and_eq_true, beq_iff_eq] at h
  unfold gateEntry
  rw [h.1.2, h.2]

variable {eng' : Engine} {line : String × String} {c : Claim}

theorem line_of_selected (hσ : Reachable eng' σ) {line line' : String × String}
    {cs cs' : ClaimWithStatus} (hcs : cs ∈ selectedRows eng σ req.agentId now line)
    (hcs' : cs' ∈ selectedRows eng σ req.agentId now line')
    (href : cs'.claim.claimRef = cs.claim.claimRef) :
    line' = (cs.claim.fact.subject, cs.claim.fact.predicate) ∧ cs' = cs := by
  obtain ⟨c, hc, _, rfl, _⟩ := live_of_selected hσ hcs
  obtain ⟨c', hc', hline', rfl, _⟩ := live_of_selected hσ hcs'
  obtain rfl : c' = c := eq_of_claimRef hσ hc' hc href
  simp only [onLine, Bool.and_eq_true, beq_iff_eq] at hline'
  exact ⟨Prod.ext hline'.1.2.symm hline'.2.symm, rfl⟩

theorem count_lineDecisions (hσ : Reachable eng' σ) {cs : ClaimWithStatus}
    (hcs : cs ∈ selectedRows eng σ req.agentId now line) (line' : String × String) :
    ((lineDecisions eng σ req.agentId now line').map (·.1)).count cs.claim.claimRef =
      if line' = (cs.claim.fact.subject, cs.claim.fact.predicate) then 1 else 0 := by
  have hnodup : ((lineDecisions eng σ req.agentId now line').map (·.1)).Nodup := by
    rw [lineDecisions, List.map_map]
    exact selected_nodup (lineRows_nodup hσ ..)
  rw [hnodup.count]
  refine if_congr ?_ rfl rfl
  simp only [lineDecisions, List.map_map, List.mem_map, Function.comp_apply]
  constructor
  · rintro ⟨cs', hcs', href⟩
    exact (line_of_selected hσ hcs hcs' href).1
  · rintro rfl
    exact ⟨cs, (line_of_selected hσ hcs hcs rfl).1 ▸ hcs, rfl⟩

theorem passNews_of_selected (hσ : Reachable eng' σ) (req : ReconcileRequest)
    {cs : ClaimWithStatus} (hcs : cs ∈ selectedRows eng σ req.agentId now line) :
    passNews eng σ req now req.agentId cs.claim.claimRef =
      passEntries eng σ req now cs.claim := by
  refine List.eq_replicate_iff.mpr ⟨?_, fun e he => ?_⟩
  · have hcount : (passNews eng σ req now req.agentId cs.claim.claimRef).length =
        ((decisions eng σ req now).map (·.1)).count cs.claim.claimRef := by
      rw [passNews, newEntries, ← List.countP_eq_length_filter, List.countP_map, List.count,
        List.countP_map]
      refine List.countP_congr fun d _ => ?_
      simp [decisionEntry]
    rw [hcount, decisions_eq]
    induction req.subjectLines with
    | nil => rfl
    | cons first rest ih =>
      rw [List.flatMap_cons, List.map_append, List.count_append, ih, count_lineDecisions hσ hcs,
        List.count_cons, add_comm]
      simp only [beq_iff_eq]
  · obtain ⟨_, line', _, cs', hcs', href, rfl⟩ := mem_passNews_iff.mp he
    obtain ⟨rfl, rfl⟩ := line_of_selected hσ hcs hcs' href
    rw [gateEntry]
    exact congrArg (fun d => decisionEntry req.agentId now (cs'.claim.claimRef, d))
      (rowDecision_eq eng σ ⟨req.agentId, cs'.claim.fact.subject, cs'.claim.fact.predicate⟩ now cs')

end Entries

end Mempill.ReconcilePass
