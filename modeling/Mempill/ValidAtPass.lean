import Mempill.Engine
import Mempill.Rows

set_option autoImplicit false

/-!
# The valid-at pass

The second pass of a query at an instant refines the fold: on live claims alone it
decides as the fold does, and a succession it reports has one claim at most.
-/
namespace Mempill.ValidAtPass
open Mempill.Types Mempill.TruthEngine Mempill.ValidTimeHelpers Mempill.Rows Mempill.IngestClaim
open Mempill.Engine HalfOpen StampedLog

section Selection

variable {config : EngineConfig} {rows : List ClaimWithStatus} {t : Instant}

theorem foldStatuses_successionSelected :
    (foldStatuses rows t config).successionSelected = true ↔ Chain config rows := by
  unfold foldStatuses Chain liveRows
  simp only [gt_iff_lt]
  by_cases hlen : 1 < (rows.filter (·.isLive)).length
  · rw [if_pos hlen]
    by_cases hs : isTrustedSuccession ((rows.filter (·.isLive)).map (·.claim))
        config.validTimeConfidenceThreshold = true
    · rw [if_pos hs]
      exact ⟨fun _ => ⟨hlen, hs⟩, fun _ => rfl⟩
    · rw [if_neg hs]
      exact ⟨fun h => absurd h Bool.false_ne_true, fun h => absurd h.2 hs⟩
  · rw [if_neg hlen]
    exact ⟨fun h => absurd h Bool.false_ne_true, fun h => absurd h.1 hlen⟩

/-- What a row's window says about an instant, its start known. -/
def BelievedAt (t : Instant) (cs : ClaimWithStatus) : Prop :=
  ∃ start, (claimWithEffectiveWindow cs).validTime.start = some start ∧ start ≤ t ∧
    ∀ stop, (claimWithEffectiveWindow cs).validTime.stop = some stop → t < stop

theorem believedAt_of_mem {cs : ClaimWithStatus} {threshold : F32}
    (htrust : claimIsTrusted cs.claim threshold = true) (hmem : (effectiveWindow cs).Mem t) :
    BelievedAt t cs := by
  obtain ⟨_, start, hstart⟩ :=
    (claimIsTrusted_iff (claimWithEffectiveWindow cs) threshold).mp htrust
  rw [← window_claimWithEffectiveWindow, window_eq hstart] at hmem
  refine ⟨start, hstart, hmem.1, fun stop hstop => ?_⟩
  have hend := hmem.2
  rw [hstop] at hend
  exact hend

variable (hnodup : (rows.map (·.claim.claimRef)).Nodup) (win : ClaimWithStatus → Claim)
variable (href : ∀ cs, (win cs).claimRef = cs.claim.claimRef)

include hnodup href in
theorem selectMember_length_le (hs : isTrustedSuccession (rows.map win)
    config.validTimeConfidenceThreshold = true) (t : Instant) :
    (selectMember rows (rows.map win) t).length ≤ 1 := by
  rw [selectMember_eq hnodup win href hs]
  cases hl : rows.filter (fun cs => decide ((window (win cs).validTime).Mem t)) with
  | nil => simp
  | cons x xs =>
    have hx := List.mem_filter.mp (hl ▸ List.mem_cons_self : x ∈ rows.filter _)
    have hsingle := filter_windows_eq_singleton hnodup win href hs hx.1 (of_decide_eq_true hx.2)
    rw [← hl, hsingle]
    simp

end Selection

section Passes

variable {config : EngineConfig} {claims : List Claim}
variable {supplied : ClaimRef → List ValidityAssertion} {asOf : Instant}
variable {latest : ClaimRef → Option Disposition} {denied : ClaimRef → Bool} {t : Instant}

/-- No claim but the live ones is bounded and not denied. -/
def OnlyLiveBelieved (denied : ClaimRef → Bool) (rows : List ClaimWithStatus) : Prop :=
  ∀ cs ∈ rows, cs.isLive = false → cs.boundAt.isSome = true → denied cs.claim.claimRef = true

instance (denied : ClaimRef → Bool) (rows : List ClaimWithStatus) :
    Decidable (OnlyLiveBelieved denied rows) := by unfold OnlyLiveBelieved; infer_instance

theorem candidates_eq_liveRows
    (honly : OnlyLiveBelieved denied (foldRows config claims supplied asOf latest)) :
    (foldRows config claims supplied asOf latest).filter (isCandidate denied) =
      liveRows (foldRows config claims supplied asOf latest) := by
  refine List.filter_congr fun cs hcs => ?_
  obtain ⟨c, _, rfl⟩ := List.mem_map.mp hcs
  cases hlive : (claimStatus supplied asOf latest c).isLive with
  | true => exact claimStatus_isCandidate_of_live hlive denied
  | false =>
    have hspared := honly _ hcs hlive
    unfold isCandidate
    rw [hlive]
    cases hbound : (claimStatus supplied asOf latest c).boundAt.isSome with
    | false => simp
    | true => simp [hspared hbound]

theorem window_of_live {cs : ClaimWithStatus}
    (hcs : cs ∈ liveRows (foldRows config claims supplied asOf latest)) :
    window (claimWithEffectiveWindow cs).validTime = window cs.claim.validTime := by
  obtain ⟨hmem, hlive⟩ := mem_liveRows.mp hcs
  obtain ⟨c, _, rfl⟩ := List.mem_map.mp hmem
  rw [window_claimWithEffectiveWindow, effectiveWindow, claimStatus_boundAt_of_live hlive,
    Span.cut_none]

/-- Narrowing changes nothing about the succession test of live rows. -/
theorem isTrustedSuccession_narrowed :
    isTrustedSuccession ((liveRows (foldRows config claims supplied asOf latest)).map
        claimWithEffectiveWindow) config.validTimeConfidenceThreshold =
      isTrustedSuccession ((liveRows (foldRows config claims supplied asOf latest)).map (·.claim))
        config.validTimeConfidenceThreshold := by
  rw [Bool.eq_iff_iff, isTrustedSuccession_iff, isTrustedSuccession_iff]
  simp only [List.forall_mem_map, claimIsTrusted_claimWithEffectiveWindow, List.pairwise_map]
  refine and_congr_right fun _ => List.Pairwise.iff_of_mem fun ha hb => ?_
  rw [window_of_live ha, window_of_live hb]

/-- On at least two live claims, and no other that was believed, the pass adds nothing. -/
theorem narrow_eq_fold (hrefs : (claims.map (·.claimRef)).Nodup)
    (htwo : 2 ≤ (liveRows (foldRows config claims supplied asOf latest)).length)
    (honly : OnlyLiveBelieved denied (foldRows config claims supplied asOf latest)) :
    narrowLiveClaimsForValidAt (fold claims supplied asOf (some t) config latest) t denied
        config = fold claims supplied asOf (some t) config latest := by
  have hnodup : ((foldRows config claims supplied asOf latest).map (·.claim.claimRef)).Nodup :=
    foldRows_nodup hrefs
  rw [fold_eq_foldStatuses, Option.getD_some]
  unfold narrowLiveClaimsForValidAt
  rw [foldStatuses_allClaims, candidates_eq_liveRows honly]
  dsimp only
  by_cases hs : isTrustedSuccession ((liveRows (foldRows config claims supplied asOf latest)).map
      claimWithEffectiveWindow) config.validTimeConfidenceThreshold = true
  case neg => rw [if_neg hs]
  have hchain : Chain config (foldRows config claims supplied asOf latest) :=
    ⟨htwo, isTrustedSuccession_narrowed ▸ hs⟩
  have hsame : selectMember (liveRows (foldRows config claims supplied asOf latest))
      ((liveRows (foldRows config claims supplied asOf latest)).map claimWithEffectiveWindow) t =
        (foldStatuses (foldRows config claims supplied asOf latest) t config).liveClaims := by
    rw [foldStatuses_of_chain hnodup hchain,
      selectMember_eq (liveRows_nodup hnodup) claimWithEffectiveWindow (fun _ => rfl) hs]
    exact List.filter_congr fun cs hcs => by rw [window_of_live hcs]
  have hflag : (foldStatuses (foldRows config claims supplied asOf latest) t
      config).successionSelected = true := foldStatuses_successionSelected.mpr hchain
  have hconflict : (foldStatuses (foldRows config claims supplied asOf latest) t
      config).hasConflict = false := by
    rw [foldStatuses_hasConflict]
    exact structuralConflict_of_length_le (foldStatuses_chain_length hnodup hchain t)
  rw [if_pos hs, hsame, ← hconflict, ← hflag]
  rfl

/-- A succession, reported by either pass, names at most one claim, without conflict,
    and within its narrowed window. -/
structure SelectsOne (t : Instant) (folded : FoldResult) : Prop where
  sole : folded.liveClaims.length ≤ 1
  peaceful : folded.hasConflict = false
  within : ∀ cs ∈ folded.liveClaims, BelievedAt t cs

theorem selectsOne_of_chain {rows : List ClaimWithStatus}
    (hnodup : (rows.map (·.claim.claimRef)).Nodup) (hchain : Chain config rows)
    (hopen : ∀ cs ∈ liveRows rows, cs.boundAt = none) :
    SelectsOne t (foldStatuses rows t config) where
  sole := foldStatuses_chain_length hnodup hchain t
  peaceful := by
    rw [foldStatuses_hasConflict]
    exact structuralConflict_of_length_le (foldStatuses_chain_length hnodup hchain t)
  within cs hcs := by
    rw [foldStatuses_of_chain hnodup hchain] at hcs
    obtain ⟨hmem, hin⟩ := List.mem_filter.mp hcs
    refine believedAt_of_mem (((isTrustedSuccession_iff _ _).mp hchain.2).1 cs.claim
      (List.mem_map_of_mem hmem)) ?_
    rw [effectiveWindow, hopen cs hmem, Span.cut_none]
    exact of_decide_eq_true hin

theorem selectsOne_of_candidates {folded : FoldResult}
    (hnodup : (folded.allClaims.map (·.claim.claimRef)).Nodup)
    (hs : isTrustedSuccession ((folded.allClaims.filter (isCandidate denied)).map
      claimWithEffectiveWindow) config.validTimeConfidenceThreshold = true) :
    SelectsOne t (narrowLiveClaimsForValidAt folded t denied config) := by
  have hcandidates : ((folded.allClaims.filter (isCandidate denied)).map
      (·.claim.claimRef)).Nodup := hnodup.sublist (List.filter_sublist.map _)
  unfold narrowLiveClaimsForValidAt
  dsimp only
  rw [if_pos hs]
  refine ⟨selectMember_length_le hcandidates claimWithEffectiveWindow (fun _ => rfl) hs t, rfl,
    fun cs hcs => ?_⟩
  rw [selectMember_eq hcandidates claimWithEffectiveWindow (fun _ => rfl) hs] at hcs
  obtain ⟨hmem, hin⟩ := List.mem_filter.mp hcs
  refine @believedAt_of_mem t cs config.validTimeConfidenceThreshold ?_ ?_
  · exact ((isTrustedSuccession_iff _ _).mp hs).1 (claimWithEffectiveWindow cs)
      (List.mem_map_of_mem hmem)
  · rw [← window_claimWithEffectiveWindow]
    exact of_decide_eq_true hin

end Passes

section Main

variable {claims : List Claim}

/-- On at least two live claims and no other that is bounded and not denied, the pass
    returns what the fold does; and whenever it reports a succession, one claim at most
    is selected, without conflict, its narrowed window around the instant. -/
theorem valid_at_pass_refines_fold (hrefs : (claims.map (·.claimRef)).Nodup)
    (supplied : ClaimRef → List ValidityAssertion) (asOf : Instant) (config : EngineConfig)
    (latest : ClaimRef → Option Disposition) (denied : ClaimRef → Bool) (t : Instant) :
    let folded := fold claims supplied asOf (some t) config latest
    let narrowed := narrowLiveClaimsForValidAt folded t denied config
    (2 ≤ (liveRows folded.allClaims).length → OnlyLiveBelieved denied folded.allClaims →
      narrowed.liveClaims = folded.liveClaims ∧ narrowed.hasConflict = folded.hasConflict ∧
        narrowed.successionSelected = folded.successionSelected) ∧
      (narrowed.successionSelected = true → SelectsOne t narrowed) := by
  have hnodup : ((foldRows config claims supplied asOf latest).map (·.claim.claimRef)).Nodup :=
    foldRows_nodup hrefs
  dsimp only
  constructor
  · intro htwo honly
    rw [narrow_eq_fold hrefs htwo honly]
    exact ⟨rfl, rfl, rfl⟩
  · intro hselected
    by_cases hs : isTrustedSuccession (((fold claims supplied asOf (some t) config
        latest).allClaims.filter (isCandidate denied)).map claimWithEffectiveWindow)
        config.validTimeConfidenceThreshold = true
    · exact selectsOne_of_candidates hnodup hs
    · have hfallback : narrowLiveClaimsForValidAt (fold claims supplied asOf (some t) config
          latest) t denied config = fold claims supplied asOf (some t) config latest := by
        unfold narrowLiveClaimsForValidAt
        dsimp only
        rw [if_neg hs]
      rw [hfallback] at hselected ⊢
      refine selectsOne_of_chain hnodup (foldStatuses_successionSelected.mp hselected)
        fun cs hcs => ?_
      obtain ⟨hmem, hlive⟩ := mem_liveRows.mp hcs
      obtain ⟨c, _, rfl⟩ := List.mem_map.mp hmem
      exact claimStatus_boundAt_of_live hlive

/-- A move of 5, and a query at 7. -/
def moved : List Claim :=
  [stamp (remember "Paris" (some (dated 1 (some 5)))) ⟨1⟩ 10,
    stamp (remember "Berlin" (some (dated 5 none))) ⟨2⟩ 20]

theorem moved_is_selected_once :
    let folded := fold moved (fun _ => []) 30 (some 7) EngineConfig.default fun _ => none
    let narrowed := narrowLiveClaimsForValidAt folded 7 (fun _ => false) EngineConfig.default
    (narrowed.liveClaims = folded.liveClaims ∧ narrowed.hasConflict = folded.hasConflict ∧
        narrowed.successionSelected = folded.successionSelected) ∧ SelectsOne 7 narrowed :=
  have hpass := @valid_at_pass_refines_fold moved (by decide) (fun _ => []) 30
    EngineConfig.default (fun _ => none) (fun _ => false) 7
  ⟨hpass.1 (by decide) (by decide), hpass.2 (by decide)⟩

end Main

end Mempill.ValidAtPass
