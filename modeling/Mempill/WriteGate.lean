import Mempill.Invariants

set_option autoImplicit false

/-!
# Write gate

What a write by an external source is answered, as a function of the candidate
rows of its line.
-/
namespace Mempill.WriteGate
open Mempill.Types Mempill.Persistence Mempill.TruthEngine Mempill.ValidTimeHelpers Mempill.Gate
open Mempill.Rows Mempill.IngestClaim Mempill.Engine Mempill.Invariants HalfOpen

section Candidates

variable (config : EngineConfig) (σ : Store) (req : IngestClaimRequest) (now : Instant)

def writeCandidates : List ClaimWithStatus :=
  candidateRows config σ req.agentId req.subject req.predicate none now

def writeRows : List ClaimWithStatus :=
  lineRows config σ req.agentId req.subject req.predicate none now

/-- A live row enters with its own window, a bounded one with its effective window. -/
def candidateClaim (cs : ClaimWithStatus) : Claim :=
  if cs.isLive then cs.claim else claimWithEffectiveWindow cs

def incumbentRow : Option ClaimWithStatus :=
  (foldStatuses (writeRows config σ req now) now config).liveClaims.head? <|>
    (writeCandidates config σ req now).head?

end Candidates

@[simp] theorem candidateClaim_claimRef (cs : ClaimWithStatus) :
    (candidateClaim cs).claimRef = cs.claim.claimRef := by
  unfold candidateClaim
  split <;> rfl

@[simp] theorem candidateClaim_fact (cs : ClaimWithStatus) :
    (candidateClaim cs).fact = cs.claim.fact := by
  unfold candidateClaim
  split <;> rfl

@[simp] theorem candidateClaim_start (cs : ClaimWithStatus) :
    (candidateClaim cs).validTime.start = cs.claim.validTime.start := by
  unfold candidateClaim
  split <;> rfl

@[simp] theorem claimIsTrusted_candidateClaim (cs : ClaimWithStatus) (threshold : F32) :
    claimIsTrusted (candidateClaim cs) threshold = claimIsTrusted cs.claim threshold := by
  unfold candidateClaim
  split <;> rfl

section Windows

variable {config : EngineConfig} {σ : Store} {req : IngestClaimRequest} {now : Instant}
variable {cs : ClaimWithStatus}

theorem mem_writeRows_of_candidate (h : cs ∈ writeCandidates config σ req now) :
    cs ∈ writeRows config σ req now := List.mem_of_mem_filter h

theorem window_candidateClaim (h : cs ∈ writeRows config σ req now) :
    window (candidateClaim cs).validTime = effectiveWindow cs := by
  unfold candidateClaim
  split
  · rename_i hlive
    exact (effectiveWindow_of_live h hlive).symm
  · exact window_claimWithEffectiveWindow cs

theorem onLine_of_mem_writeRows (h : cs ∈ writeRows config σ req now) :
    cs.claim ∈ σ.claims ∧ onLine req.agentId req.subject req.predicate cs.claim = true := by
  obtain ⟨c, hc, rfl⟩ := mem_lineRows.mp h
  obtain ⟨hmem, hline, _⟩ := mem_lineClaims.mp hc
  exact ⟨hmem, hline⟩

theorem fact_of_mem_writeRows (h : cs ∈ writeRows config σ req now) :
    cs.claim.fact.subject = req.subject ∧ cs.claim.fact.predicate = req.predicate := by
  have hline := (onLine_of_mem_writeRows h).2
  simp only [onLine, Bool.and_eq_true, beq_iff_eq] at hline
  exact ⟨hline.1.2, hline.2⟩

theorem ref_ne_of_fresh {claimRef : ClaimRef} (hfresh : Fresh claimRef.uuid σ)
    (h : cs ∈ writeRows config σ req now) : cs.claim.claimRef ≠ claimRef := fun heq =>
  Fresh.claim hfresh (onLine_of_mem_writeRows h).1 (congrArg ClaimRef.uuid heq)

theorem mem_writeCandidates_of_live (h : cs ∈ writeRows config σ req now)
    (hlive : cs.isLive = true) : cs ∈ writeCandidates config σ req now :=
  List.mem_filter.mpr ⟨h, isCandidate_of_live h hlive _⟩

end Windows

section Classify

variable {eng : Engine} {σ : Store} {req : IngestClaimRequest} {now : Instant}
variable {claimRef : ClaimRef}

def requestWindow (req : IngestClaimRequest) : Span Instant :=
  window (req.validTime.getD unknownValidTime)

/-- Both sides are dated, the values differ, and the effective window of the row is
    not apart from that of the written claim. -/
def Clashes (req : IngestClaimRequest) (cs : ClaimWithStatus) : Prop :=
  cs.claim.fact.value ≠ req.value ∧
    (req.validTime.getD unknownValidTime).start.isSome = true ∧
    cs.claim.validTime.start.isSome = true ∧ ¬ (requestWindow req).Apart (effectiveWindow cs)

instance (req : IngestClaimRequest) (cs : ClaimWithStatus) : Decidable (Clashes req cs) := by
  unfold Clashes; infer_instance

theorem conflictCandidates_eq_map (config : EngineConfig) (σ : Store)
    (req : IngestClaimRequest) (now : Instant) :
    conflictCandidates config σ req.agentId req.subject req.predicate now =
      (writeCandidates config σ req now).map candidateClaim :=
  conflictCandidates_eq now

theorem overlapsDifferentValue_iff (eng : Engine) (now : Instant)
    (hfresh : Fresh claimRef.uuid σ) :
    overlapsDifferentValue (stamp req claimRef now)
        (conflictCandidates eng.config σ req.agentId req.subject req.predicate now) = true ↔
      ∃ cs ∈ writeCandidates eng.config σ req now, Clashes req cs := by
  have hdate : (stamp req claimRef now).validTime = req.validTime.getD unknownValidTime := rfl
  unfold overlapsDifferentValue
  cases hstart : (req.validTime.getD unknownValidTime).start.isSome with
  | false => simp [hdate, Clashes, hstart]
  | true =>
    rw [hdate, hstart, Bool.true_and, conflictCandidates_eq_map, List.any_map, List.any_eq_true]
    refine exists_congr fun cs => and_congr_right fun hcs => ?_
    have hrow := mem_writeRows_of_candidate hcs
    cases hs : cs.claim.validTime.start.isSome with
    | false => simp [Clashes, hs]
    | true =>
      have hwin := windowsNonOverlapping_iff (a := stamp req claimRef now) hstart
        (by rw [candidateClaim_start]; exact hs : (candidateClaim cs).validTime.start.isSome)
      rw [window_candidateClaim hrow, hdate] at hwin
      simp only [Function.comp_apply, candidateClaim_claimRef, candidateClaim_fact,
        candidateClaim_start, hs, hstart, Clashes, requestWindow, Bool.and_eq_true, bne_iff_ne,
        ne_eq, and_true, true_and, Bool.not_eq_true', ← Bool.not_eq_true, hwin]
      refine ⟨fun h => ⟨h.1.2, h.2⟩, fun h => ⟨⟨?_, h.1⟩, h.2⟩⟩
      exact ref_ne_of_fresh hfresh hrow

/-- The incumbent is a row of the line; there is none exactly when the line has no
    candidate. -/
theorem incumbentRow_eq_none_iff {eng' : Engine} (hσ : Reachable eng' σ) (config : EngineConfig)
    (req : IngestClaimRequest) (now : Instant) :
    incumbentRow config σ req now = none ↔ writeCandidates config σ req now = [] := by
  have hnodup := lineRows_nodup hσ config req.agentId req.subject req.predicate none now
  unfold incumbentRow
  cases hl : (foldStatuses (writeRows config σ req now) now config).liveClaims with
  | nil => cases writeCandidates config σ req now <;> simp
  | cons cs rest =>
    obtain ⟨hmem, hlive⟩ := foldStatuses_subset hnodup now (hl ▸ List.mem_cons_self)
    have hcand := mem_writeCandidates_of_live hmem hlive
    simp [List.ne_nil_of_mem hcand]

theorem exists_incumbentRow {eng' : Engine} (hσ : Reachable eng' σ) {config : EngineConfig}
    {req : IngestClaimRequest} {now : Instant} {cs : ClaimWithStatus}
    (h : cs ∈ writeCandidates config σ req now) :
    ∃ incumbent, incumbentRow config σ req now = some incumbent := by
  rw [← Option.ne_none_iff_exists', Ne, incumbentRow_eq_none_iff hσ]
  exact List.ne_nil_of_mem h

theorem mem_of_incumbentRow {eng' : Engine} (hσ : Reachable eng' σ) {config : EngineConfig}
    {req : IngestClaimRequest} {now : Instant} {cs : ClaimWithStatus}
    (h : incumbentRow config σ req now = some cs) : cs ∈ writeCandidates config σ req now := by
  have hnodup := lineRows_nodup hσ config req.agentId req.subject req.predicate none now
  unfold incumbentRow at h
  rcases hl : (foldStatuses (writeRows config σ req now) now config).liveClaims with _ | ⟨x, xs⟩
  · rw [hl] at h
    exact List.mem_of_head? h
  · rw [hl] at h
    cases h
    obtain ⟨hmem, hlive⟩ := foldStatuses_subset hnodup now (hl ▸ List.mem_cons_self)
    exact mem_writeCandidates_of_live hmem hlive

/-- The incumbent handed to the classifier has the reference and the fact of the
    incumbent row. -/
theorem incumbentFor_spec (config : EngineConfig) (σ : Store) (req : IngestClaimRequest)
    (now : Instant) :
    (incumbentFor config σ req.agentId req.subject req.predicate now).map
        (fun b => (b.claimRef, b.fact)) =
      (incumbentRow config σ req now).map (fun cs => (cs.claim.claimRef, cs.claim.fact)) := by
  unfold incumbentFor incumbentBelief incumbentRow
  rw [foldForWrite_eq, conflictCandidates_eq_map, writeRows]
  cases (foldStatuses (lineRows config σ req.agentId req.subject req.predicate none now) now
    config).liveClaims with
  | nil => cases writeCandidates config σ req now <;> simp [claimToBelief]
  | cons cs rest => simp [claimToBelief]

theorem filter_ne_of_fresh (hfresh : Fresh claimRef.uuid σ) (config : EngineConfig)
    (req : IngestClaimRequest) (now : Instant) :
    (conflictCandidates config σ req.agentId req.subject req.predicate now).filter
        (fun c => c.claimRef != claimRef) =
      conflictCandidates config σ req.agentId req.subject req.predicate now := by
  rw [conflictCandidates_eq_map, List.filter_eq_self]
  intro c hc
  obtain ⟨cs, hcs, rfl⟩ := List.mem_map.mp hc
  simpa using ref_ne_of_fresh hfresh (mem_writeRows_of_candidate hcs)

def writeGroup (config : EngineConfig) (σ : Store) (req : IngestClaimRequest)
    (claimRef : ClaimRef) (now : Instant) : List Claim :=
  stamp req claimRef now :: (writeCandidates config σ req now).map candidateClaim

theorem apart_of_succession {config : EngineConfig} {req : IngestClaimRequest} {now : Instant}
    {threshold : F32} {cs : ClaimWithStatus}
    (hs : isTrustedSuccession (writeGroup config σ req claimRef now) threshold = true)
    (h : cs ∈ writeCandidates config σ req now) :
    (requestWindow req).Apart (effectiveWindow cs) := by
  obtain ⟨hhead, _⟩ := List.pairwise_cons.mp ((isTrustedSuccession_iff _ _).mp hs).2
  have hapart := hhead _ (List.mem_map_of_mem h)
  rwa [window_candidateClaim (mem_writeRows_of_candidate h)] at hapart

/-- Against an incumbent of its own line a claim restates, succeeds or conflicts. -/
theorem classifyConflict_of_line {input : ReconcilerInput} {incumbent : Belief}
    (hincumbent : input.incumbent = some incumbent) (hrefs : input.supersededClaimRefs = [])
    (hsubject : input.candidate.fact.subject = incumbent.fact.subject)
    (hpredicate : input.candidate.fact.predicate = incumbent.fact.predicate) :
    classifyConflict input =
      if input.candidate.fact.value = incumbent.fact.value ∧
          overlapsDifferentValue input.candidate input.allLiveClaims = false then .noConflict
      else if isTrustedSuccession (input.candidate ::
          input.allLiveClaims.filter fun c => c.claimRef != input.candidate.claimRef)
            input.successionThreshold then .succession
      else .sameLineConflict := by
  have hnone : input.candidate.derivedFrom.any
      (fun r => input.supersededClaimRefs.contains r) = false := by simp [hrefs]
  unfold classifyConflict
  simp only [hincumbent, hnone, Bool.false_eq_true, if_false]
  rw [if_pos ⟨hsubject, hpredicate⟩]

theorem classifyConflict_eq (hfresh : Fresh claimRef.uuid σ) {incumbent : Belief}
    (hline : incumbent.fact.subject = req.subject ∧ incumbent.fact.predicate = req.predicate)
    (measured : F32) :
    classifyConflict
        { candidate := stamp req claimRef now
          incumbent := some incumbent
          supersededClaimRefs := []
          measuredConfidence := measured
          oraclePresent := eng.oraclePresent
          successionThreshold := eng.config.validTimeConfidenceThreshold
          allLiveClaims :=
            conflictCandidates eng.config σ req.agentId req.subject req.predicate now } =
      if req.value = incumbent.fact.value ∧
          overlapsDifferentValue (stamp req claimRef now)
            (conflictCandidates eng.config σ req.agentId req.subject req.predicate now) =
              false then .noConflict
      else if isTrustedSuccession (writeGroup eng.config σ req claimRef now)
          eng.config.validTimeConfidenceThreshold then .succession
      else .sameLineConflict := by
  have hgroup := filter_ne_of_fresh hfresh eng.config req now
  rw [classifyConflict_of_line rfl rfl hline.1.symm hline.2.symm]
  have href : (stamp req claimRef now).claimRef = claimRef := rfl
  rw [href, hgroup, writeGroup, conflictCandidates_eq_map]
  rfl

/-- What an external write is answered. -/
theorem gate_disposition {eng' : Engine} (hσ : Reachable eng' σ)
    (hfresh : Fresh claimRef.uuid σ) (hprov : req.provenance.isCheapPathEligible = true) :
    (gateDecision eng σ req (stamp req claimRef now) now).disposition =
      if isTemporallyIncoherent (stamp req claimRef now) eng.config then .quarantined
      else match incumbentRow eng.config σ req now with
        | none => .committedCheap
        | some cs =>
          if req.value = cs.claim.fact.value ∧
              overlapsDifferentValue (stamp req claimRef now)
                (conflictCandidates eng.config σ req.agentId req.subject req.predicate now) =
                  false then .committedCheap
          else if isTrustedSuccession (writeGroup eng.config σ req claimRef now)
              eng.config.validTimeConfidenceThreshold then .committedCheap
          else if eng.oraclePresent then .queuedForAdjudication else .contested := by
  obtain ⟨kind, hkind⟩ : ∃ kind, req.provenance = .external kind := by
    cases hp : req.provenance <;> simp_all [ProvenanceLabel.isCheapPathEligible]
  have hp : (stamp req claimRef now).provenance = .external kind := hkind
  have hspec := incumbentFor_spec eng.config σ req now
  unfold gateDecision adjudicate reconcile
  dsimp only
  rw [hp]
  simp only [ProvenanceLabel.isRecallReentry, Bool.false_eq_true, if_false, reduceCtorEq]
  by_cases hinc : isTemporallyIncoherent (stamp req claimRef now) eng.config = true
  · simp [hinc]
  rw [if_neg hinc, if_neg hinc]
  cases hrow : incumbentRow eng.config σ req now with
  | none =>
    rw [hrow, Option.map_none, Option.map_eq_none_iff] at hspec
    simp [hspec]
  | some cs =>
    rw [hrow, Option.map_some, Option.map_eq_some_iff] at hspec
    obtain ⟨b, hb, hbeq⟩ := hspec
    obtain ⟨_, hfact⟩ := Prod.mk.inj hbeq
    have hline := fact_of_mem_writeRows
      (mem_writeRows_of_candidate (mem_of_incumbentRow hσ hrow))
    rw [hb, classifyConflict_eq hfresh (by rw [hfact]; exact hline), hfact]
    split_ifs <;> simp_all [ProvenanceLabel.isCheapPathEligible]

end Classify

end Mempill.WriteGate
