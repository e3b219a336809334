import Mempill.Invariants

set_option autoImplicit false

/-!
# Point-in-time recall

What a recall with a valid-at instant answers, and when its answer respects the
window of the claim it returns.
-/
namespace Mempill.PointInTime
open Mempill.Types Mempill.Persistence Mempill.TruthEngine Mempill.ValidTimeHelpers Mempill.Rows
open Mempill.IngestClaim Mempill.QueryMemory Mempill.Engine Mempill.Invariants

section Statement

variable (config : EngineConfig) (σ : Store) (agentId : AgentId) (subject predicate : String)
variable (now t : Instant)

def believedRows : List ClaimWithStatus :=
  candidateRows config σ agentId subject predicate (some now) now

structure SoundAt : Prop where
  inWindow : ∀ b, (recallAt config σ agentId subject predicate now t).primary = some b →
    b.validTime.validTimeConfidence.ge config.validTimeConfidenceThreshold = true →
    b.validTime.start.isSome = true →
    ∃ cs ∈ visibleRows config σ agentId subject predicate now,
      cs.claim.claimRef = b.claimRef ∧ (effectiveWindow cs).Mem t
  beforeAll :
    (∀ cs ∈ believedRows config σ agentId subject predicate now,
      claimIsTrusted cs.claim config.validTimeConfidenceThreshold = true ∧
        t < (window cs.claim.validTime).start) →
    (recallAt config σ agentId subject predicate now t).status = .noBelief

end Statement

section Condition

variable (config : EngineConfig) (rows believed : List ClaimWithStatus) (t : Instant)

/-- What the fold's own live rows must satisfy where the believed ones are not a
    trusted succession: none live; a live chain; one live row that is untrusted or
    contains the instant; or rivals, not all believed rows being trusted and later. -/
def FallbackSound : Prop :=
  liveRows rows = [] ∨ Chain config rows ∨
    (∃ cs, liveRows rows = [cs] ∧
      (claimIsTrusted cs.claim config.validTimeConfidenceThreshold = true →
        (window cs.claim.validTime).Mem t)) ∨
    (Rivalry config rows ∧ ∃ cs ∈ believed,
      claimIsTrusted cs.claim config.validTimeConfidenceThreshold = true →
        (window cs.claim.validTime).start ≤ t)

end Condition

section Answer

variable {config : EngineConfig} {σ : Store} {agentId : AgentId} {subject predicate : String}
variable {now t : Instant}

theorem candidateRows_nodup {eng : Engine} (hσ : Reachable eng σ) (config : EngineConfig)
    (agentId : AgentId) (subject predicate : String) (cutoff : Option Instant)
    (asOf : Instant) :
    ((candidateRows config σ agentId subject predicate cutoff asOf).map
      (·.claim.claimRef)).Nodup :=
  (lineRows_nodup hσ config agentId subject predicate cutoff asOf).sublist
    (List.filter_sublist.map _)

def believedAt (config : EngineConfig) (σ : Store) (agentId : AgentId)
    (subject predicate : String) (now t : Instant) : List ClaimWithStatus :=
  (believedRows config σ agentId subject predicate now).filter
    fun cs => decide ((effectiveWindow cs).Mem t)

theorem queryFold_of_succession {eng : Engine} (hσ : Reachable eng σ)
    (hs : isTrustedSuccession
      ((believedRows config σ agentId subject predicate now).map claimWithEffectiveWindow)
      config.validTimeConfidenceThreshold = true) :
    queryFold config σ ⟨agentId, subject, predicate, none, some t⟩ now =
      { liveClaims := believedAt config σ agentId subject predicate now t
        hasConflict := false
        successionSelected := true
        allClaims := visibleRows config σ agentId subject predicate now } := by
  have hnodup := candidateRows_nodup hσ config agentId subject predicate (some now) now
  have hsel := selectMember_eq hnodup claimWithEffectiveWindow (fun _ => rfl) hs t
  simp only [window_claimWithEffectiveWindow] at hsel
  rw [queryFold_of_some rfl]
  simp only [Option.getD_none, believedRows] at hs ⊢
  rw [if_pos hs, hsel]
  rfl

theorem queryFold_of_fallback
    (hs : isTrustedSuccession
      ((believedRows config σ agentId subject predicate now).map claimWithEffectiveWindow)
      config.validTimeConfidenceThreshold = false) :
    queryFold config σ ⟨agentId, subject, predicate, none, some t⟩ now =
      foldStatuses (visibleRows config σ agentId subject predicate now) t config := by
  rw [queryFold_of_some rfl]
  simp only [Option.getD_none, believedRows] at hs ⊢
  rw [if_neg (by simp [hs])]
  rfl

theorem recallAt_eq (config : EngineConfig) (σ : Store) (agentId : AgentId)
    (subject predicate : String) (now t : Instant) :
    ∃ ledgerEntries contested,
      recallAt config σ agentId subject predicate now t =
        project (queryFold config σ ⟨agentId, subject, predicate, none, some t⟩ now)
          ledgerEntries now config contested :=
  ⟨_, _, rfl⟩

theorem mem_visibleRows_of_believed {cs : ClaimWithStatus}
    (h : cs ∈ believedRows config σ agentId subject predicate now) :
    cs ∈ visibleRows config σ agentId subject predicate now := List.mem_of_mem_filter h

theorem mem_believedRows_of_live {cs : ClaimWithStatus}
    (h : cs ∈ liveRows (visibleRows config σ agentId subject predicate now)) :
    cs ∈ believedRows config σ agentId subject predicate now := by
  obtain ⟨hmem, hlive⟩ := mem_liveRows.mp h
  exact List.mem_filter.mpr ⟨hmem, isCandidate_of_live hmem hlive _⟩

theorem liveClaims_of_primary {fold : FoldResult} {ledgerEntries : List LedgerEntry}
    {contested : Bool} {b : Belief}
    (h : (project fold ledgerEntries now config contested).primary = some b) :
    ∃ cs, fold.liveClaims = [cs] ∧ b = liveBelief now config cs := by
  match hl : fold.liveClaims with
  | [] => rw [(project_of_nil _ _ _ _ hl).2.1] at h; cases h
  | [cs] =>
    cases hc : fold.hasConflict with
    | true => simp [project, hl, hc] at h
    | false =>
      rw [(project_of_singleton _ _ _ _ hl hc).2.1] at h
      exact ⟨cs, rfl, (Option.some.inj h).symm⟩
  | _ :: _ :: _ =>
    rw [(project_of_many _ _ _ _ (by simp [hl])).2.1] at h
    cases h

theorem soundAt_of_forall_mem {fold : FoldResult}
    (hfold : queryFold config σ ⟨agentId, subject, predicate, none, some t⟩ now = fold)
    (hmem : ∀ cs ∈ fold.liveClaims,
      cs ∈ believedRows config σ agentId subject predicate now ∧ (effectiveWindow cs).Mem t) :
    SoundAt config σ agentId subject predicate now t := by
  obtain ⟨ledgerEntries, contested, hrecall⟩ :=
    recallAt_eq config σ agentId subject predicate now t
  rw [hfold] at hrecall
  constructor
  · intro b hb _ _
    rw [hrecall] at hb
    obtain ⟨cs, hl, rfl⟩ := liveClaims_of_primary hb
    obtain ⟨hbel, hcst⟩ := hmem cs (by simp [hl])
    exact ⟨cs, mem_visibleRows_of_believed hbel, rfl, hcst⟩
  · intro hall
    rw [hrecall]
    cases hl : fold.liveClaims with
    | nil => exact (project_of_nil _ _ _ _ hl).1
    | cons cs rest =>
      obtain ⟨hbel, hcst⟩ := hmem cs (by simp [hl])
      exact absurd hcst.1 (not_le_of_gt (hall cs hbel).2)

theorem soundAt_of_succession {eng : Engine} (hσ : Reachable eng σ)
    (hs : isTrustedSuccession
      ((believedRows config σ agentId subject predicate now).map claimWithEffectiveWindow)
      config.validTimeConfidenceThreshold = true) :
    SoundAt config σ agentId subject predicate now t := by
  refine soundAt_of_forall_mem (queryFold_of_succession hσ hs) fun cs hcs => ?_
  obtain ⟨hbel, hcst⟩ := List.mem_filter.mp hcs
  exact ⟨hbel, of_decide_eq_true hcst⟩

theorem soundAt_of_chain {eng : Engine} (hσ : Reachable eng σ)
    (hs : isTrustedSuccession
      ((believedRows config σ agentId subject predicate now).map claimWithEffectiveWindow)
      config.validTimeConfidenceThreshold = false)
    (hc : Chain config (visibleRows config σ agentId subject predicate now)) :
    SoundAt config σ agentId subject predicate now t := by
  have hnodup := visibleRows_nodup hσ config agentId subject predicate now
  refine soundAt_of_forall_mem (queryFold_of_fallback hs) fun cs hcs => ?_
  rw [foldStatuses_of_chain hnodup hc, List.mem_filter, decide_eq_true_iff] at hcs
  obtain ⟨hmem, hlive⟩ := mem_liveRows.mp hcs.1
  exact ⟨mem_believedRows_of_live hcs.1, (effectiveWindow_of_live hmem hlive).symm ▸ hcs.2⟩

/-- The fallback to one live row is sound exactly when a trusted row contains
    the instant. -/
theorem soundAt_singleton_iff
    (hs : isTrustedSuccession
      ((believedRows config σ agentId subject predicate now).map claimWithEffectiveWindow)
      config.validTimeConfidenceThreshold = false)
    {cs : ClaimWithStatus}
    (hl : liveRows (visibleRows config σ agentId subject predicate now) = [cs])
    (hnodup : ((visibleRows config σ agentId subject predicate now).map
      (·.claim.claimRef)).Nodup) :
    SoundAt config σ agentId subject predicate now t ↔
      (claimIsTrusted cs.claim config.validTimeConfidenceThreshold = true →
        (window cs.claim.validTime).Mem t) := by
  have hcs : cs ∈ liveRows (visibleRows config σ agentId subject predicate now) := by simp [hl]
  obtain ⟨hmem, hlive⟩ := mem_liveRows.mp hcs
  have hwin : effectiveWindow cs = window cs.claim.validTime := effectiveWindow_of_live hmem hlive
  have hnc : ¬ Chain config (visibleRows config σ agentId subject predicate now) :=
    fun hc => by simpa [hl] using hc.1
  have hlc := foldStatuses_of_not_chain hnc t
  rw [hl] at hlc
  have hconflict : (foldStatuses (visibleRows config σ agentId subject predicate now) t
      config).hasConflict = false := by
    rw [foldStatuses_hasConflict, hlc]
    exact structuralConflict_of_length_le (by simp)
  obtain ⟨ledgerEntries, contested, hrecall⟩ :=
    recallAt_eq config σ agentId subject predicate now t
  rw [queryFold_of_fallback hs] at hrecall
  have hproj := project_of_singleton ledgerEntries now config contested hlc hconflict
  rw [← hrecall] at hproj
  constructor
  · intro hsound htrust
    obtain ⟨hge, hsome⟩ := (Bool.and_eq_true _ _).mp htrust
    obtain ⟨cs', hmem', href, hcst⟩ := hsound.inWindow _ hproj.2.1 hge hsome
    have hrow : cs' = cs := List.inj_on_of_nodup_map hnodup hmem' hmem href
    rw [hrow, hwin] at hcst
    exact hcst
  · intro hin
    constructor
    · intro b hb hge hsome
      rw [hproj.2.1] at hb
      cases hb
      have htrust : claimIsTrusted cs.claim config.validTimeConfidenceThreshold = true :=
        (Bool.and_eq_true _ _).mpr ⟨hge, hsome⟩
      exact ⟨cs, hmem, rfl, hwin.symm ▸ hin htrust⟩
    · intro hall
      obtain ⟨htrust, hlt⟩ := hall cs (mem_believedRows_of_live hcs)
      exact absurd (hin htrust).1 (not_le_of_gt hlt)

/-- Rivals are reported as such at every instant, so the fallback to them is
    sound exactly when some believed row is untrusted or has begun. -/
theorem soundAt_rivalry_iff
    (hs : isTrustedSuccession
      ((believedRows config σ agentId subject predicate now).map claimWithEffectiveWindow)
      config.validTimeConfidenceThreshold = false)
    (hr : Rivalry config (visibleRows config σ agentId subject predicate now)) :
    SoundAt config σ agentId subject predicate now t ↔
      ∃ cs ∈ believedRows config σ agentId subject predicate now,
        claimIsTrusted cs.claim config.validTimeConfidenceThreshold = true →
          (window cs.claim.validTime).start ≤ t := by
  have hnc : ¬ Chain config (visibleRows config σ agentId subject predicate now) :=
    fun hc => by simpa [hr.2] using hc.2
  have hlc := foldStatuses_of_not_chain hnc t
  obtain ⟨ledgerEntries, contested, hrecall⟩ :=
    recallAt_eq config σ agentId subject predicate now t
  rw [queryFold_of_fallback hs] at hrecall
  have hmany : 1 < (foldStatuses (visibleRows config σ agentId subject predicate now) t
      config).liveClaims.length := by
    rw [hlc]
    exact hr.1
  have hproj := project_of_many ledgerEntries now config contested hmany
  rw [← hrecall] at hproj
  have hstatus : (recallAt config σ agentId subject predicate now t).status ≠ .noBelief := by
    rw [hproj.1]
    split <;> simp
  constructor
  · intro hsound
    by_contra hnone
    push Not at hnone
    exact hstatus (hsound.beforeAll fun cs hcs => hnone cs hcs)
  · rintro ⟨cs, hcs, himp⟩
    constructor
    · intro b hb
      rw [hproj.2.1] at hb
      cases hb
    · intro hall
      obtain ⟨htrust, hlt⟩ := hall cs hcs
      exact absurd (himp htrust) (not_le_of_gt hlt)

end Answer

section Main

variable {eng : Engine} {σ : Store}

/-- A recall at an instant is sound exactly when the believed rows are a trusted
    succession or the fold it falls back to is sound there. -/
theorem point_in_time_sound_iff (hσ : Reachable eng σ) (agentId : AgentId)
    (subject predicate : String) (now t : Instant) :
    SoundAt eng.config σ agentId subject predicate now t ↔
      isTrustedSuccession
          ((believedRows eng.config σ agentId subject predicate now).map
            claimWithEffectiveWindow)
          eng.config.validTimeConfidenceThreshold = true ∨
        FallbackSound eng.config (visibleRows eng.config σ agentId subject predicate now)
          (believedRows eng.config σ agentId subject predicate now) t := by
  have hnodup := visibleRows_nodup hσ eng.config agentId subject predicate now
  unfold FallbackSound
  cases hs : isTrustedSuccession
      ((believedRows eng.config σ agentId subject predicate now).map claimWithEffectiveWindow)
      eng.config.validTimeConfidenceThreshold with
  | true => exact ⟨fun _ => .inl rfl, fun _ => soundAt_of_succession hσ hs⟩
  | false =>
    simp only [Bool.false_eq_true, false_or]
    by_cases hc : Chain eng.config (visibleRows eng.config σ agentId subject predicate now)
    · exact ⟨fun _ => .inr (.inl hc), fun _ => soundAt_of_chain hσ hs hc⟩
    match hl : liveRows (visibleRows eng.config σ agentId subject predicate now) with
    | [] =>
      refine ⟨fun _ => .inl rfl, fun _ => ?_⟩
      refine soundAt_of_forall_mem (queryFold_of_fallback hs) fun cs hcs => ?_
      rw [foldStatuses_of_not_chain hc, hl] at hcs
      cases hcs
    | [cs] =>
      rw [soundAt_singleton_iff hs hl hnodup]
      constructor
      · exact fun h => .inr (.inr (.inl ⟨cs, rfl, h⟩))
      · rintro (h | h | ⟨cs', heq, h⟩ | ⟨hr, _⟩)
        · cases h
        · exact absurd h hc
        · cases heq
          exact h
        · exact absurd hr.1 (by simp [hl])
    | x :: y :: rest =>
      have hr : Rivalry eng.config (visibleRows eng.config σ agentId subject predicate now) := by
        have hlen : 1 < (liveRows
            (visibleRows eng.config σ agentId subject predicate now)).length := by simp [hl]
        refine ⟨hlen, ?_⟩
        rw [Bool.eq_false_iff]
        exact fun hsucc => hc ⟨hlen, hsucc⟩
      rw [soundAt_rivalry_iff hs hr]
      constructor
      · exact fun h => .inr (.inr (.inr ⟨hr, h⟩))
      · rintro (h | h | ⟨cs', heq, _⟩ | ⟨_, h⟩)
        · cases h
        · exact absurd h hc
        · cases heq
        · exact h

/-- An undated incumbent, bounded by an affirmed dated challenger, and a query
    before the challenger's start. -/
def affirmedOverUndated : List Op :=
  [.ingestClaim (remember "Paris" none) 10 ⟨1⟩ (.ok 100),
    .ingestClaim (remember "Berlin" (some (dated 5 none))) 20 ⟨2⟩ (.ok 101),
    verdictOn 101 .affirm 30 500]

theorem point_in_time_sound_within_window :
    SoundAt EngineConfig.default (run (defaultEngine true) Store.sqlite affirmedOverUndated) agent
      "user" "location" 40 7 :=
  (point_in_time_sound_iff (run_reachable (by decide) : Reachable (defaultEngine true) _) agent
    "user" "location" 40 7).mpr (.inr (.inr (.inr (.inl ⟨_, rfl, by decide⟩))))

theorem recall_before_start_returns_claim :
    let σ := run (defaultEngine true) Store.sqlite affirmedOverUndated
    Reachable (defaultEngine true) σ ∧
      ((recallAt EngineConfig.default σ agent "user" "location" 40 2).primary.map
        (·.claimRef)) = some ⟨2⟩ ∧
      ¬ SoundAt EngineConfig.default σ agent "user" "location" 40 2 := by
  refine ⟨run_reachable (by decide), by decide, fun h => ?_⟩
  have hin := h.inWindow _ rfl (by decide) (by decide)
  revert hin
  decide

end Main

end Mempill.PointInTime
