import Mempill.PointInTime

set_option autoImplicit false

/-!
# Sole answers

When one row of a line answers a recall alone, for any as-of point and with or
without a valid-at instant.
-/
namespace Mempill.Answers
open Mempill.Types Mempill.Persistence Mempill.TruthEngine Mempill.ValidTimeHelpers Mempill.Rows
open Mempill.IngestClaim Mempill.QueryMemory Mempill.Engine Mempill.Invariants Mempill.PointInTime

section Statement

variable (config : EngineConfig) (σ : Store) (req : QueryMemoryRequest) (now : Instant)

/-- The rows that a request reads, at its as-of point. -/
def requestRows : List ClaimWithStatus :=
  lineRows config σ req.agentId req.subject req.predicate (some (req.asOfTxTime.getD now))
    (req.asOfTxTime.getD now)

def requestCandidates : List ClaimWithStatus :=
  candidateRows config σ req.agentId req.subject req.predicate
    (some (req.asOfTxTime.getD now)) (req.asOfTxTime.getD now)

/-- The only live row, or the one in force of a chain. -/
def Alone (rows : List ClaimWithStatus) (t : Instant) (cs : ClaimWithStatus) : Prop :=
  liveRows rows = [cs] ∨
    Chain config rows ∧ cs ∈ liveRows rows ∧ (window cs.claim.validTime).Mem t

def candidatesSucceed : Bool :=
  isTrustedSuccession ((requestCandidates config σ req now).map claimWithEffectiveWindow)
    config.validTimeConfidenceThreshold

def SoleAnswer (cs : ClaimWithStatus) : Prop :=
  match req.validAt with
  | none => Alone config (requestRows config σ req now) (req.asOfTxTime.getD now) cs
  | some t =>
    if candidatesSucceed config σ req now then
      cs ∈ requestCandidates config σ req now ∧ (effectiveWindow cs).Mem t
    else Alone config (requestRows config σ req now) t cs

end Statement

section Selection

variable {config : EngineConfig} {rows rows' : List ClaimWithStatus} {t : Instant}

theorem selected_eq_singleton_iff (hnodup : (rows.map (·.claim.claimRef)).Nodup)
    {cs : ClaimWithStatus} :
    (foldStatuses rows t config).liveClaims = [cs] ↔ Alone config rows t cs := by
  by_cases hc : Chain config rows
  · rw [foldStatuses_of_chain hnodup hc]
    constructor
    · intro h
      have hmem := List.mem_filter.mp (h ▸ List.mem_cons_self : cs ∈ (liveRows rows).filter _)
      exact .inr ⟨hc, hmem.1, of_decide_eq_true hmem.2⟩
    · rintro (h | ⟨_, hmem, ht⟩)
      · have hlen := hc.1
        simp [h] at hlen
      · exact filter_windows_eq_singleton (liveRows_nodup hnodup) (·.claim) (fun _ => rfl) hc.2
          hmem ht
  · rw [foldStatuses_of_not_chain hc]
    exact ⟨.inl, fun h => h.elim id fun h => absurd h.1 hc⟩

end Selection

section Fold

variable {eng : Engine} {σ : Store} {config : EngineConfig} {req : QueryMemoryRequest}
variable {now : Instant}

theorem requestRows_nodup (hσ : Reachable eng σ) (config : EngineConfig)
    (req : QueryMemoryRequest) (now : Instant) :
    ((requestRows config σ req now).map (·.claim.claimRef)).Nodup :=
  lineRows_nodup hσ ..

theorem requestCandidates_nodup (hσ : Reachable eng σ) (config : EngineConfig)
    (req : QueryMemoryRequest) (now : Instant) :
    ((requestCandidates config σ req now).map (·.claim.claimRef)).Nodup :=
  candidateRows_nodup hσ ..

theorem queryFold_of_candidates (hσ : Reachable eng σ) {t : Instant}
    (hv : req.validAt = some t) (hs : candidatesSucceed config σ req now = true) :
    (queryFold config σ req now).liveClaims =
        (requestCandidates config σ req now).filter
          (fun cs => decide ((effectiveWindow cs).Mem t)) ∧
      (queryFold config σ req now).hasConflict = false := by
  have hselect := selectMember_eq (requestCandidates_nodup hσ config req now)
    claimWithEffectiveWindow (fun _ => rfl) hs t
  simp only [window_claimWithEffectiveWindow] at hselect
  unfold candidatesSucceed at hs
  unfold requestCandidates at hs hselect ⊢
  rw [queryFold_of_some hv]
  dsimp only
  rw [if_pos hs]
  exact ⟨hselect, rfl⟩

theorem queryFold_of_rows {t : Instant} (hv : req.validAt = some t)
    (hs : candidatesSucceed config σ req now = false) :
    queryFold config σ req now = foldStatuses (requestRows config σ req now) t config := by
  unfold candidatesSucceed requestCandidates at hs
  rw [queryFold_of_some hv]
  dsimp only
  rw [if_neg (by simp [hs])]
  rfl

/-- In a trusted succession at most one row is selected. -/
theorem selected_of_candidates_iff (hσ : Reachable eng σ) {t : Instant}
    (hs : candidatesSucceed config σ req now = true) {cs : ClaimWithStatus} :
    (requestCandidates config σ req now).filter
        (fun cs => decide ((effectiveWindow cs).Mem t)) = [cs] ↔
      cs ∈ requestCandidates config σ req now ∧ (effectiveWindow cs).Mem t := by
  constructor
  · intro h
    have hmem : cs ∈ (requestCandidates config σ req now).filter
        (fun cs => decide ((effectiveWindow cs).Mem t)) := by simp [h]
    exact (List.mem_filter.mp hmem).imp id of_decide_eq_true
  · rintro ⟨hmem, ht⟩
    rw [← window_claimWithEffectiveWindow] at ht
    have hsingle := filter_windows_eq_singleton (requestCandidates_nodup hσ config req now)
      claimWithEffectiveWindow (fun _ => rfl) hs hmem ht
    simpa only [window_claimWithEffectiveWindow] using hsingle

theorem selected_of_candidates_length (hσ : Reachable eng σ) {t : Instant}
    (hs : candidatesSucceed config σ req now = true) :
    ((requestCandidates config σ req now).filter
      (fun cs => decide ((effectiveWindow cs).Mem t))).length ≤ 1 := by
  cases hl : (requestCandidates config σ req now).filter
      (fun cs => decide ((effectiveWindow cs).Mem t)) with
  | nil => simp
  | cons cs rest =>
    have hcs := List.mem_filter.mp (hl ▸ List.mem_cons_self : cs ∈ List.filter _ _)
    rw [← hl, (selected_of_candidates_iff hσ hs).mpr ⟨hcs.1, of_decide_eq_true hcs.2⟩]
    simp

theorem queryFold_eq_singleton_iff (hσ : Reachable eng σ) {cs : ClaimWithStatus} :
    (queryFold config σ req now).liveClaims = [cs] ↔ SoleAnswer config σ req now cs := by
  unfold SoleAnswer
  cases hv : req.validAt with
  | none =>
    rw [queryFold_of_none config σ req hv now]
    exact selected_eq_singleton_iff (requestRows_nodup hσ config req now)
  | some t =>
    dsimp only
    cases hs : candidatesSucceed config σ req now with
    | true =>
      rw [if_pos rfl, (queryFold_of_candidates hσ hv hs).1]
      exact selected_of_candidates_iff hσ hs
    | false =>
      rw [if_neg Bool.false_ne_true, queryFold_of_rows hv hs]
      exact selected_eq_singleton_iff (requestRows_nodup hσ config req now)

theorem queryFold_nodup (hσ : Reachable eng σ) (config : EngineConfig)
    (req : QueryMemoryRequest) (now : Instant) :
    ((queryFold config σ req now).liveClaims.map (·.claim.claimRef)).Nodup := by
  have hrows := requestRows_nodup hσ config req now
  cases hv : req.validAt with
  | none =>
    rw [queryFold_of_none config σ req hv now]
    exact selected_nodup hrows
  | some t =>
    cases hs : candidatesSucceed config σ req now with
    | true =>
      rw [(queryFold_of_candidates hσ hv hs).1]
      exact (requestCandidates_nodup hσ config req now).sublist (List.filter_sublist.map _)
    | false =>
      rw [queryFold_of_rows hv hs]
      exact selected_nodup hrows

theorem queryFold_hasConflict_of_length_le (hσ : Reachable eng σ)
    (hlen : (queryFold config σ req now).liveClaims.length ≤ 1) :
    (queryFold config σ req now).hasConflict = false := by
  cases hv : req.validAt with
  | none =>
    rw [queryFold_of_none config σ req hv now] at hlen ⊢
    exact structuralConflict_of_length_le hlen
  | some t =>
    cases hs : candidatesSucceed config σ req now with
    | true => exact (queryFold_of_candidates hσ hv hs).2
    | false =>
      rw [queryFold_of_rows hv hs] at hlen ⊢
      exact structuralConflict_of_length_le hlen

/-- Several rows are selected only among the live ones. -/
theorem queryFold_live_of_many (hσ : Reachable eng σ)
    (hmany : 1 < (queryFold config σ req now).liveClaims.length) :
    ∀ cs ∈ (queryFold config σ req now).liveClaims,
      cs ∈ liveRows (requestRows config σ req now) := by
  have hrows := requestRows_nodup hσ config req now
  cases hv : req.validAt with
  | none =>
    rw [queryFold_of_none config σ req hv now]
    exact fun cs hcs => mem_liveRows.mpr (foldStatuses_subset hrows _ hcs)
  | some t =>
    cases hs : candidatesSucceed config σ req now with
    | true =>
      rw [(queryFold_of_candidates hσ hv hs).1] at hmany
      exact absurd (selected_of_candidates_length hσ hs) (not_le_of_gt hmany)
    | false =>
      rw [queryFold_of_rows hv hs]
      exact fun cs hcs => mem_liveRows.mpr (foldStatuses_subset hrows _ hcs)

end Fold

section Answer

variable {eng : Engine} {σ : Store} {config : EngineConfig} {req : QueryMemoryRequest}
variable {now : Instant}

theorem execute_eq_project (config : EngineConfig) (σ : Store) (req : QueryMemoryRequest)
    (now : Instant) :
    ∃ ledgerEntries, QueryMemory.execute config σ req now =
      project (queryFold config σ req now) ledgerEntries now config
        (anyContested (queryFold config σ req now).liveClaims) :=
  ⟨_, rfl⟩

theorem primary_iff (hσ : Reachable eng σ) {b : Belief} :
    (QueryMemory.execute config σ req now).primary = some b ↔
      ∃ cs, SoleAnswer config σ req now cs ∧ b = liveBelief now config cs := by
  obtain ⟨ledgerEntries, hexec⟩ := execute_eq_project config σ req now
  rw [hexec]
  constructor
  · intro h
    obtain ⟨cs, hl, hb⟩ := liveClaims_of_primary h
    exact ⟨cs, (queryFold_eq_singleton_iff hσ).mp hl, hb⟩
  · rintro ⟨cs, hsole, rfl⟩
    have hl := (queryFold_eq_singleton_iff hσ).mpr hsole
    have hc := queryFold_hasConflict_of_length_le hσ (le_of_eq (congrArg List.length hl))
    exact (project_of_singleton _ _ _ _ hl hc).2.1

theorem status_of_soleAnswer (hσ : Reachable eng σ) {cs : ClaimWithStatus}
    (hsole : SoleAnswer config σ req now cs) :
    (QueryMemory.execute config σ req now).status =
      if cs.lastDisposition = some .contested then .contested
      else if cs.claim.validTime.isUnknown then .timingUncertain else .resolved := by
  obtain ⟨ledgerEntries, hexec⟩ := execute_eq_project config σ req now
  have hl := (queryFold_eq_singleton_iff hσ).mpr hsole
  have hc := queryFold_hasConflict_of_length_le hσ (le_of_eq (congrArg List.length hl))
  rw [hexec, (project_of_singleton _ _ _ _ hl hc).1, hl]
  by_cases hd : cs.lastDisposition = some .contested
  · rw [if_pos hd, if_pos (by simp [anyContested, hd])]
  · rw [if_neg hd, if_neg (by simpa [anyContested] using hd)]

theorem mem_of_alone {rows : List ClaimWithStatus} {t : Instant} {cs : ClaimWithStatus}
    (h : Alone config rows t cs) : cs ∈ liveRows rows := by
  rcases h with h | ⟨_, h, _⟩
  · simp [h]
  · exact h

theorem mem_requestRows_of_soleAnswer {cs : ClaimWithStatus}
    (h : SoleAnswer config σ req now cs) : cs ∈ requestRows config σ req now := by
  unfold SoleAnswer at h
  split at h
  · exact (mem_liveRows.mp (mem_of_alone h)).1
  · split at h
    · exact List.mem_of_mem_filter h.1
    · exact (mem_liveRows.mp (mem_of_alone h)).1

/-- A later store that keeps the row of a sole answer gives the same answer exactly
    when that row still answers alone. -/
theorem answer_kept_iff {σ' : Store} (hσ : Reachable eng σ) (hσ' : Reachable eng σ')
    {cs : ClaimWithStatus} (hsole : SoleAnswer config σ req now cs)
    (hmem : cs ∈ requestRows config σ' req now) :
    ((QueryMemory.execute config σ' req now).primary = some (liveBelief now config cs) ∧
        (QueryMemory.execute config σ' req now).status =
          (QueryMemory.execute config σ req now).status) ↔
      SoleAnswer config σ' req now cs := by
  constructor
  · rintro ⟨hprimary, _⟩
    obtain ⟨cs', hsole', hbelief⟩ := (primary_iff hσ').mp hprimary
    have href : cs.claim.claimRef = cs'.claim.claimRef := congrArg Belief.claimRef hbelief
    have hsame : cs = cs' := List.inj_on_of_nodup_map (requestRows_nodup hσ' config req now) hmem
      (mem_requestRows_of_soleAnswer hsole') href
    exact hsame ▸ hsole'
  · intro hsole'
    refine ⟨(primary_iff hσ').mpr ⟨cs, hsole', rfl⟩, ?_⟩
    rw [status_of_soleAnswer hσ' hsole', status_of_soleAnswer hσ hsole]

end Answer

end Mempill.Answers
