import Mempill.PointInTime
import Mempill.TimelineWindows

set_option autoImplicit false

/-!
# Timeline and point-in-time recall

When a recall at an instant answers with the claim whose displayed window contains
that instant.
-/
namespace Mempill.TimelineRecall
open Mempill.Types Mempill.Persistence Mempill.TruthEngine Mempill.ValidTimeHelpers Mempill.Rows
open Mempill.IngestClaim Mempill.QueryHistory Mempill.QueryMemory Mempill.Engine
open Mempill.Invariants Mempill.HistoryAgreement Mempill.PointInTime Mempill.TimelineWindows
open HalfOpen

section Statement

variable (config : EngineConfig) (σ : Store) (agentId : AgentId) (subject predicate : String)
variable (now t : Instant)

/-- An entry that shows an eligible claim and no contest. -/
structure Firm (e : HistoryEntry) (c : Claim) : Prop where
  mem : e ∈ timeline config σ agentId subject predicate now
  claim : ShowsClaim σ e c
  eligible : Eligible config σ agentId c
  uncontested : e.status ≠ .contested

/-- The recall at an instant answers with the firm entry displayed there, and without
    one it gives no trusted answer. -/
structure FollowsAt : Prop where
  answered : ∀ e c, Firm config σ agentId subject predicate now e c → (shown e).Mem t →
    ∃ b, (recallAt config σ agentId subject predicate now t).primary = some b ∧
      b.claimRef = e.claimRef
  silent : (∀ e c, Firm config σ agentId subject predicate now e c → ¬ (shown e).Mem t) →
    ∀ b, (recallAt config σ agentId subject predicate now t).primary = some b →
      ¬ (b.validTime.validTimeConfidence.ge config.validTimeConfidenceThreshold = true ∧
        b.validTime.start.isSome = true)

def Follows : Prop := ∀ t, FollowsAt config σ agentId subject predicate now t

end Statement

section Condition

variable (config : EngineConfig) (rows visible believed : List ClaimWithStatus)

/-- The rows that a recall chooses from: the believed ones if they are a trusted
    succession, else the live ones if they are. -/
def answering : List ClaimWithStatus :=
  if isTrustedSuccession (believed.map claimWithEffectiveWindow)
      config.validTimeConfidenceThreshold then believed
  else if Chain config visible then liveRows visible else []

/-- The one live row that a recall falls back to, whatever the instant. -/
def Lone (cs : ClaimWithStatus) : Prop :=
  isTrustedSuccession (believed.map claimWithEffectiveWindow)
      config.validTimeConfidenceThreshold = false ∧ liveRows visible = [cs]

instance (cs : ClaimWithStatus) : Decidable (Lone config visible believed cs) := by
  unfold Lone; infer_instance

/-- Later rows begin where the effective window has ended, or the row runs into its
    successor. -/
def Uncut (cs : ClaimWithStatus) : Prop :=
  RunsIntoSuccessor config rows cs ∨
    ∀ z ∈ rows, primaryKey cs.claim config < primaryKey z.claim config →
      EndsBy (primaryKey z.claim config) (effectiveWindow cs).stop

instance (cs : ClaimWithStatus) : Decidable (Uncut config rows cs) := by
  unfold Uncut; infer_instance

/-- The rows of a timeline and those a recall chooses from tell the same windows. -/
structure InStep (σ : Store) (agentId : AgentId) : Prop where
  known : ∀ x ∈ rows, Eligible config σ agentId x.claim → ¬ InConflict config rows x →
    (effectiveWindow x).Proper → ∃ y ∈ answering config visible believed, y.claim = x.claim
  whole : ∀ y ∈ answering config visible believed, (effectiveWindow y).Proper →
    ∃ x ∈ rows, x.claim = y.claim ∧ Eligible config σ agentId x.claim ∧
      ¬ InConflict config rows x ∧ Uncut config rows x
  noLone : ∀ cs ∈ visible, Lone config visible believed cs →
    claimIsTrusted cs.claim config.validTimeConfidenceThreshold = false

end Condition

section Entries

variable {eng : Engine} {σ : Store} {agentId : AgentId} {subject predicate : String}
variable {now t : Instant} {e : HistoryEntry} {c : Claim} {x : ClaimWithStatus}

theorem exists_row_of_firm (hσ : Reachable eng σ)
    (h : Firm eng.config σ agentId subject predicate now e c) :
    ∃ x ∈ lineRows eng.config σ agentId subject predicate none now, x.claim = c ∧
      EntryOf eng.config (lineRows eng.config σ agentId subject predicate none now) now x e ∧
      ¬ InConflict eng.config (lineRows eng.config σ agentId subject predicate none now) x := by
  have hkey := lineRows_keyOrdered eng.config hσ agentId subject predicate none now
  have hmem := h.mem
  rw [timeline_eq_entriesFor] at hmem
  obtain ⟨x, hx, hentry⟩ := exists_row_of_entry hkey hmem
  exact ⟨x, hx, ((showsClaim_iff hσ hx hentry.claimRef).mp h.claim).symm, hentry,
    fun hc => h.uncontested (hentry.contested.mpr hc)⟩

theorem exists_firm_of_row (hσ : Reachable eng σ)
    (hx : x ∈ lineRows eng.config σ agentId subject predicate none now)
    (he : Eligible eng.config σ agentId x.claim)
    (hfree : ¬ InConflict eng.config
      (lineRows eng.config σ agentId subject predicate none now) x) :
    ∃ e, Firm eng.config σ agentId subject predicate now e x.claim ∧
      EntryOf eng.config (lineRows eng.config σ agentId subject predicate none now) now x e := by
  have hkey := lineRows_keyOrdered eng.config hσ agentId subject predicate none now
  obtain ⟨e, hmem, hentry⟩ := exists_entry_of_row hkey hx
  rw [← timeline_eq_entriesFor] at hmem
  exact ⟨e, ⟨hmem, (showsClaim_iff hσ hx hentry.claimRef).mpr rfl, he,
    fun hc => hfree (hentry.contested.mp hc)⟩, hentry⟩

variable {config : EngineConfig} {rows : List ClaimWithStatus}

theorem mem_shown_of_uncut (hentry : EntryOf config rows now x e) (h : Uncut config rows x)
    (ht : (effectiveWindow x).Mem t) : (shown e).Mem t := by
  refine hentry.mem_shown.mpr ⟨ht, h.imp_right fun hends z hz hlt => ?_⟩
  exact lt_of_endsAfter_of_endsBy ht.2 (hends z hz hlt)

theorem uncut_of_forall_mem (hentry : EntryOf config rows now x e)
    (htrust : claimIsTrusted x.claim config.validTimeConfidenceThreshold = true)
    (h : ∀ t, (effectiveWindow x).Mem t → (shown e).Mem t) : Uncut config rows x := by
  by_contra hcut
  obtain ⟨hruns, hlater⟩ := not_or.mp hcut
  push Not at hlater
  obtain ⟨z, hz, hlt, hends⟩ := hlater
  rw [endsBy_iff_not_endsAfter, not_not] at hends
  have hstart : (effectiveWindow x).start ≤ primaryKey z.claim config := by
    rw [primaryKey_of_trusted htrust] at hlt
    exact hlt.le
  rcases (hentry.mem_shown.mp (h _ ⟨hstart, hends⟩)).2 with hr | hr
  · exact hruns hr
  · exact lt_irrefl _ (hr z hz hlt)

end Entries

section Answer

variable {eng : Engine} {σ : Store} {agentId : AgentId} {subject predicate : String}
variable {now t : Instant} {x y cs : ClaimWithStatus} {b : Belief}

theorem primary_iff {fold : FoldResult} {ledgerEntries : List LedgerEntry} {contested : Bool}
    {config : EngineConfig}
    (hsole : ∀ cs, fold.liveClaims = [cs] → fold.hasConflict = false) :
    (project fold ledgerEntries now config contested).primary = some b ↔
      ∃ cs, fold.liveClaims = [cs] ∧ b = liveBelief now config cs := by
  constructor
  · exact liveClaims_of_primary
  · rintro ⟨cs, hl, rfl⟩
    exact (project_of_singleton _ _ _ _ hl (hsole cs hl)).2.1

/-- A recall selects one row exactly if that row is among those it chooses from and its
    effective window contains the instant, or if it is the one fallen back to. -/
theorem liveClaims_eq_singleton_iff (hσ : Reachable eng σ) :
    (queryFold eng.config σ ⟨agentId, subject, predicate, none, some t⟩ now).liveClaims = [cs] ↔
      let visible := visibleRows eng.config σ agentId subject predicate now
      let believed := believedRows eng.config σ agentId subject predicate now
      (cs ∈ answering eng.config visible believed ∧ (effectiveWindow cs).Mem t) ∨
        Lone eng.config visible believed cs := by
  dsimp only
  have hnodup := visibleRows_nodup hσ eng.config agentId subject predicate now
  unfold answering Lone
  cases hs : isTrustedSuccession
      ((believedRows eng.config σ agentId subject predicate now).map claimWithEffectiveWindow)
      eng.config.validTimeConfidenceThreshold with
  | true =>
    have hcand := candidateRows_nodup hσ eng.config agentId subject predicate (some now) now
    have hsel := @filter_windows_eq_singleton_iff _ _ hcand claimWithEffectiveWindow
      (fun _ => rfl) hs t cs
    simp only [window_claimWithEffectiveWindow] at hsel
    rw [queryFold_of_succession hσ hs, if_pos rfl, or_iff_left (by simp)]
    exact hsel
  | false =>
    rw [queryFold_of_fallback hs, if_neg Bool.false_ne_true]
    by_cases hc : Chain eng.config (visibleRows eng.config σ agentId subject predicate now)
    · have hnot : liveRows (visibleRows eng.config σ agentId subject predicate now) ≠ [cs] := by
        intro hl
        simpa [hl] using hc.1
      rw [foldStatuses_of_chain hnodup hc, if_pos hc, or_iff_left fun h => hnot h.2,
        filter_windows_eq_singleton_iff (liveRows_nodup hnodup) (·.claim) (fun _ => rfl) hc.2]
      refine and_congr_right fun hcs => ?_
      obtain ⟨hmem, hlive⟩ := mem_liveRows.mp hcs
      rw [effectiveWindow_of_live hmem hlive]
    · rw [foldStatuses_of_not_chain hc, if_neg hc]
      simp

theorem sole_without_conflict (hσ : Reachable eng σ)
    (h : (queryFold eng.config σ ⟨agentId, subject, predicate, none, some t⟩ now).liveClaims =
      [cs]) :
    (queryFold eng.config σ ⟨agentId, subject, predicate, none, some t⟩ now).hasConflict =
      false := by
  cases hs : isTrustedSuccession
      ((believedRows eng.config σ agentId subject predicate now).map claimWithEffectiveWindow)
      eng.config.validTimeConfidenceThreshold with
  | true => rw [queryFold_of_succession hσ hs]
  | false =>
    rw [queryFold_of_fallback hs] at h ⊢
    rw [foldStatuses_hasConflict, h]
    exact structuralConflict_of_length_le le_rfl

theorem recallAt_primary_iff (hσ : Reachable eng σ) :
    (recallAt eng.config σ agentId subject predicate now t).primary = some b ↔
      let visible := visibleRows eng.config σ agentId subject predicate now
      let believed := believedRows eng.config σ agentId subject predicate now
      ∃ cs, ((cs ∈ answering eng.config visible believed ∧ (effectiveWindow cs).Mem t) ∨
        Lone eng.config visible believed cs) ∧ b = liveBelief now eng.config cs := by
  obtain ⟨ledgerEntries, contested, hrecall⟩ :=
    recallAt_eq eng.config σ agentId subject predicate now t
  rw [hrecall, primary_iff fun cs => sole_without_conflict hσ]
  exact exists_congr fun cs => and_congr_left fun _ => liveClaims_eq_singleton_iff hσ

theorem mem_visibleRows_of_answering
    (h : y ∈ answering eng.config (visibleRows eng.config σ agentId subject predicate now)
      (believedRows eng.config σ agentId subject predicate now)) :
    y ∈ visibleRows eng.config σ agentId subject predicate now := by
  unfold answering at h
  split at h
  · exact mem_visibleRows_of_believed h
  · split at h
    · exact (mem_liveRows.mp h).1
    · cases h

theorem mem_visibleRows_of_lone {config : EngineConfig} {visible believed : List ClaimWithStatus}
    (h : Lone config visible believed cs) : cs ∈ visible :=
  (mem_liveRows.mp (h.2 ▸ List.mem_singleton_self cs)).1

theorem trusted_of_answering {config : EngineConfig} {visible believed : List ClaimWithStatus}
    (h : y ∈ answering config visible believed) :
    claimIsTrusted y.claim config.validTimeConfidenceThreshold = true := by
  unfold answering at h
  split at h
  case isTrue hs =>
    rw [← claimIsTrusted_claimWithEffectiveWindow]
    exact ((isTrustedSuccession_iff _ _).mp hs).1 _ (List.mem_map_of_mem h)
  case isFalse =>
    split at h
    case isTrue hc =>
      exact ((isTrustedSuccession_iff _ _).mp hc.2).1 _ (List.mem_map_of_mem h)
    case isFalse => cases h

/-- Bounds are read without a cutoff, so both readers see one effective window. -/
theorem effectiveWindow_congr {config : EngineConfig}
    (hx : x ∈ lineRows config σ agentId subject predicate none now)
    (hy : y ∈ visibleRows config σ agentId subject predicate now) (h : y.claim = x.claim) :
    effectiveWindow y = effectiveWindow x := by
  obtain ⟨c, _, rfl⟩ := mem_lineRows.mp hx
  obtain ⟨d, _, rfl⟩ := mem_lineRows.mp hy
  obtain rfl : d = c := h
  rfl

theorem claim_eq_of_ref (hσ : Reachable eng σ)
    (hx : x ∈ lineRows eng.config σ agentId subject predicate none now)
    (hy : y ∈ visibleRows eng.config σ agentId subject predicate now)
    (h : y.claim.claimRef = x.claim.claimRef) : y.claim = x.claim := by
  obtain ⟨c, hc, rfl⟩ := mem_lineRows.mp hx
  obtain ⟨d, hd, rfl⟩ := mem_lineRows.mp hy
  exact eq_of_claimRef hσ (mem_lineClaims.mp hd).1
    (mem_lineClaims.mp hc).1 h

end Answer

section Main

variable {eng : Engine} {σ : Store} {agentId : AgentId} {subject predicate : String}
variable {now t : Instant}

theorem belief_trusted_iff {config : EngineConfig} {cs : ClaimWithStatus} :
    ((liveBelief now config cs).validTime.validTimeConfidence.ge
        config.validTimeConfidenceThreshold = true ∧
      (liveBelief now config cs).validTime.start.isSome = true) ↔
      claimIsTrusted cs.claim config.validTimeConfidenceThreshold = true :=
  ((Bool.and_eq_true _ _).to_iff).symm

/-- A trusted answer is displayed at its instant. -/
theorem exists_firm_of_primary (hσ : Reachable eng σ)
    (h : FollowsAt eng.config σ agentId subject predicate now t) {y : ClaimWithStatus}
    (hy : y ∈ visibleRows eng.config σ agentId subject predicate now)
    (htrust : claimIsTrusted y.claim eng.config.validTimeConfidenceThreshold = true)
    (hprimary : (recallAt eng.config σ agentId subject predicate now t).primary =
      some (liveBelief now eng.config y)) :
    ∃ x ∈ lineRows eng.config σ agentId subject predicate none now, x.claim = y.claim ∧
      ∃ e, Firm eng.config σ agentId subject predicate now e x.claim ∧
        EntryOf eng.config (lineRows eng.config σ agentId subject predicate none now) now x e ∧
        (shown e).Mem t := by
  by_contra hnone
  refine h.silent (fun e c hfirm ht => hnone ?_) _ hprimary (belief_trusted_iff.mpr htrust)
  obtain ⟨x, hx, rfl, hentry, _⟩ := exists_row_of_firm hσ hfirm
  obtain ⟨b, hb, href⟩ := h.answered e _ hfirm ht
  obtain rfl := Option.some.inj (hprimary.symm.trans hb)
  rw [hentry.claimRef, liveBelief_claimRef] at href
  exact ⟨x, hx, (claim_eq_of_ref hσ hx hy href).symm, e, hfirm, hentry, ht⟩

/-- Before its start the one row fallen back to is still answered. -/
theorem noLone_of_follows (hσ : Reachable eng σ)
    (h : Follows eng.config σ agentId subject predicate now) {cs : ClaimWithStatus}
    (hlone : Lone eng.config (visibleRows eng.config σ agentId subject predicate now)
      (believedRows eng.config σ agentId subject predicate now) cs) :
    claimIsTrusted cs.claim eng.config.validTimeConfidenceThreshold = false := by
  rw [Bool.eq_false_iff]
  intro htrust
  have hcs := mem_visibleRows_of_lone hlone
  obtain ⟨x, hx, hclaim, e, _, hentry, ht⟩ := exists_firm_of_primary hσ
    (h ((window cs.claim.validTime).start - 1)) hcs htrust
    ((recallAt_primary_iff hσ).mpr ⟨cs, .inr hlone, rfl⟩)
  have hle := ht.1
  rw [hentry.start, hclaim] at hle
  exact absurd hle (Int.not_le.mpr (Int.sub_one_lt_of_le le_rfl))

theorem inStep_of_follows (hσ : Reachable eng σ)
    (h : Follows eng.config σ agentId subject predicate now) :
    InStep eng.config (lineRows eng.config σ agentId subject predicate none now)
      (visibleRows eng.config σ agentId subject predicate now)
      (believedRows eng.config σ agentId subject predicate now) σ agentId := by
  refine ⟨fun x hx he hfree hproper => ?_, fun y hy hproper => ?_,
    fun cs _ hlone => noLone_of_follows hσ h hlone⟩
  · obtain ⟨e, hfirm, hentry⟩ := exists_firm_of_row hσ hx he hfree
    have hstart : (shown e).Mem (effectiveWindow x).start :=
      ⟨hentry.start.le, (hentry.endsAfter_of_le he.trusted le_rfl).mpr hproper⟩
    obtain ⟨b, hb, href⟩ := (h _).answered e _ hfirm hstart
    obtain ⟨y, hy, rfl⟩ := (recallAt_primary_iff hσ).mp hb
    rw [hentry.claimRef, liveBelief_claimRef] at href
    rcases hy with ⟨hy, _⟩ | hlone
    · exact ⟨y, hy, claim_eq_of_ref hσ hx (mem_visibleRows_of_answering hy) href⟩
    · have hy := mem_visibleRows_of_lone hlone
      have htrust := noLone_of_follows hσ h hlone
      rw [claim_eq_of_ref hσ hx hy href, he.trusted] at htrust
      cases htrust
  · have hvisible := mem_visibleRows_of_answering hy
    have hshown := fun t ht => exists_firm_of_primary hσ (h t) hvisible (trusted_of_answering hy)
      ((recallAt_primary_iff hσ).mpr ⟨y, .inl ⟨hy, ht⟩, rfl⟩)
    obtain ⟨x, hx, hclaim, e, hfirm, hentry, _⟩ := hshown _ hproper.mem_start
    have hfree : ¬ InConflict eng.config
        (lineRows eng.config σ agentId subject predicate none now) x :=
      fun hc => hfirm.uncontested (hentry.contested.mpr hc)
    refine ⟨x, hx, hclaim, hfirm.eligible, hfree, uncut_of_forall_mem hentry hfirm.eligible.trusted
      fun t ht => ?_⟩
    rw [← effectiveWindow_congr hx hvisible hclaim.symm] at ht
    -- whichever entry shows the instant, it is that of the same row
    obtain ⟨x', hx', hclaim', e', _, hentry', ht'⟩ := hshown t ht
    have hrow : x' = x := by
      refine List.inj_on_of_nodup_map
        (lineRows_nodup hσ eng.config agentId subject predicate none now) hx' hx ?_
      rw [hclaim', hclaim]
    subst hrow
    exact hentry.mem_shown.mpr (hentry'.mem_shown.mp ht')

theorem follows_of_inStep (hσ : Reachable eng σ)
    (h : InStep eng.config (lineRows eng.config σ agentId subject predicate none now)
      (visibleRows eng.config σ agentId subject predicate now)
      (believedRows eng.config σ agentId subject predicate now) σ agentId) :
    Follows eng.config σ agentId subject predicate now := by
  refine fun t => ⟨fun e c hfirm ht => ?_, fun hnone b hb htrust => ?_⟩
  · obtain ⟨x, hx, rfl, hentry, hfree⟩ := exists_row_of_firm hσ hfirm
    have hxt := (hentry.mem_shown.mp ht).1
    obtain ⟨y, hy, hclaim⟩ := h.known x hx hfirm.eligible hfree hxt.proper
    rw [← effectiveWindow_congr hx (mem_visibleRows_of_answering hy) hclaim] at hxt
    refine ⟨_, (recallAt_primary_iff hσ).mpr ⟨y, .inl ⟨hy, hxt⟩, rfl⟩, ?_⟩
    rw [hentry.claimRef, liveBelief_claimRef, hclaim]
  · obtain ⟨y, hy, rfl⟩ := (recallAt_primary_iff hσ).mp hb
    rw [belief_trusted_iff] at htrust
    rcases hy with ⟨hy, hyt⟩ | hlone
    · obtain ⟨x, hx, hclaim, he, hfree, huncut⟩ := h.whole y hy hyt.proper
      obtain ⟨e, hfirm, hentry⟩ := exists_firm_of_row hσ hx he hfree
      rw [effectiveWindow_congr hx (mem_visibleRows_of_answering hy) hclaim.symm] at hyt
      exact hnone e _ hfirm (mem_shown_of_uncut hentry huncut hyt)
    · rw [h.noLone y (mem_visibleRows_of_lone hlone) hlone] at htrust
      cases htrust

/-- At every instant a recall follows the timeline exactly if the rows of the two are in
    step. -/
theorem recall_follows_timeline_iff (hσ : Reachable eng σ) (agentId : AgentId)
    (subject predicate : String) (now : Instant) :
    Follows eng.config σ agentId subject predicate now ↔
      InStep eng.config (lineRows eng.config σ agentId subject predicate none now)
        (visibleRows eng.config σ agentId subject predicate now)
        (believedRows eng.config σ agentId subject predicate now) σ agentId :=
  ⟨inStep_of_follows hσ, follows_of_inStep hσ⟩

/-- A fact ended where the next one begins. -/
theorem recall_follows_handover :
    Follows EngineConfig.default (run (defaultEngine false) Store.sqlite handover) agent "user"
      "location" 40 :=
  (recall_follows_timeline_iff (run_reachable (by decide) : Reachable (defaultEngine false) _)
    agent "user" "location" 40).mpr
    ⟨by decide, by decide, by decide⟩

/-- The fact ended late is displayed as the one of its time, and recall forgets it. -/
theorem recall_forgets_late_end :
    let σ := run (defaultEngine false) Store.sqlite lateEnd
    Reachable (defaultEngine false) σ ∧
      ¬ Follows EngineConfig.default σ agent "user" "location" 40 := by
  refine ⟨run_reachable (by decide), fun h => ?_⟩
  obtain ⟨e, he, href, hfrom, huntil, hst⟩ := lateEnd_first_entry
  have hfirm : Firm EngineConfig.default (run (defaultEngine false) Store.sqlite lateEnd) agent
      "user" "location" 40 e (stamp (remember "Paris" (some (dated 1 none))) ⟨1⟩ 10) :=
    ⟨he, ⟨by decide, href.symm⟩, by decide, hst⟩
  obtain ⟨b, hb, hbref⟩ := (h 2).answered e _ hfirm (by rw [shown, hfrom, huntil]; decide)
  have hother : (recallAt EngineConfig.default (run (defaultEngine false) Store.sqlite lateEnd)
      agent "user" "location" 40 2).primary.map (·.claimRef) = some ⟨2⟩ := by decide
  rw [hb, Option.map_some, hbref, href] at hother
  cases hother

end Main

end Mempill.TimelineRecall
