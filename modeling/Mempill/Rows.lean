import Mempill.ActiveBound
import Mempill.QueryMemory

set_option autoImplicit false

/-!
# Rows of a line

The rows that every fold of a subject line works on, read straight off the
tables, and what the fold and its two candidate sets do to a list of rows.
-/
namespace Mempill.Rows
open Mempill.Types Mempill.Persistence Mempill.TruthEngine Mempill.Ledger Mempill.ValidTimeHelpers
open Mempill.IngestClaim Mempill.QueryMemory Mempill.ActiveBound HalfOpen StampedLog

section Windows

/-- The window of a row up to its active bound. -/
def effectiveWindow (cs : ClaimWithStatus) : Span Instant :=
  (window cs.claim.validTime).cut cs.boundAt

theorem narrowedValidEnd_fst (claim : Claim) (boundAt : Option Instant)
    (granularity : Option DateGranularity) :
    (narrowedValidEnd claim boundAt granularity).1 = Span.minEnd claim.validTime.stop boundAt := by
  unfold narrowedValidEnd
  cases claim.validTime.stop with
  | none => cases boundAt <;> rfl
  | some oe =>
    cases boundAt with
    | none => rfl
    | some ba =>
      by_cases h : ba < oe
      · simp [h, Span.minEnd, min_eq_right (le_of_lt h)]
      · simp [h, Span.minEnd, min_eq_left (le_of_not_gt h)]

@[simp] theorem claimRef_claimWithEffectiveWindow (cs : ClaimWithStatus) :
    (claimWithEffectiveWindow cs).claimRef = cs.claim.claimRef := rfl

@[simp] theorem fact_claimWithEffectiveWindow (cs : ClaimWithStatus) :
    (claimWithEffectiveWindow cs).fact = cs.claim.fact := rfl

@[simp] theorem start_claimWithEffectiveWindow (cs : ClaimWithStatus) :
    (claimWithEffectiveWindow cs).validTime.start = cs.claim.validTime.start := rfl

@[simp] theorem claimIsTrusted_claimWithEffectiveWindow (cs : ClaimWithStatus) (threshold : F32) :
    claimIsTrusted (claimWithEffectiveWindow cs) threshold = claimIsTrusted cs.claim threshold :=
  rfl

theorem window_claimWithEffectiveWindow (cs : ClaimWithStatus) :
    window (claimWithEffectiveWindow cs).validTime = effectiveWindow cs := by
  have h := narrowedValidEnd_fst cs.claim cs.boundAt cs.boundAtGranularity
  simp only [claimWithEffectiveWindow, window, effectiveWindow, Span.cut, h]

end Windows

section Keys

variable {config : EngineConfig}

theorem claimRef_eq_of_orderingKey_eq {c d : Claim}
    (h : orderingKey c config = orderingKey d config) : c.claimRef = d.claimRef := by
  have huuid : c.claimRef.uuid = d.claimRef.uuid :=
    congrArg (fun k => (ofLex (ofLex k).2).2) h
  cases hc : c.claimRef
  cases hd : d.claimRef
  simp_all

/-- Claims of distinct references have one order, however they are listed. -/
theorem inOrder_claims_eq_of_perm {claims claims' : List Claim} (h : claims.Perm claims')
    (hrefs : (claims.map (·.claimRef)).Nodup) :
    inOrder (orderingKey · config) claims = inOrder (orderingKey · config) claims' := by
  refine inOrder_eq_of_perm _ h fun a ha b hb hkey => ?_
  exact List.inj_on_of_nodup_map hrefs ha hb (claimRef_eq_of_orderingKey_eq hkey)

end Keys

section Selection

theorem filter_eq_singleton {α : Type*} {xs : List α} (hnodup : xs.Nodup) {p : α → Bool} {x : α}
    (hx : x ∈ xs) (hp : p x = true) (huniq : ∀ y ∈ xs, p y = true → y = x) :
    xs.filter p = [x] := by
  have hperm : (xs.filter p).Perm [x] := by
    rw [List.perm_ext_iff_of_nodup (hnodup.filter p) (List.nodup_singleton x)]
    intro y
    rw [List.mem_filter, List.mem_singleton]
    exact ⟨fun h => huniq y h.1 h.2, fun h => h ▸ ⟨hx, hp⟩⟩
  exact List.perm_singleton.mp hperm

variable {rows : List ClaimWithStatus} {threshold : F32}
variable (hnodup : (rows.map (·.claim.claimRef)).Nodup)
variable (win : ClaimWithStatus → Claim) (href : ∀ cs, (win cs).claimRef = cs.claim.claimRef)

include hnodup href

/-- In a trusted succession the selection keeps the rows whose window contains
    the instant. -/
theorem selectMember_eq (hs : isTrustedSuccession (rows.map win) threshold = true)
    (t : Instant) :
    selectMember rows (rows.map win) t =
      rows.filter (fun cs => decide ((window (win cs).validTime).Mem t)) := by
  have hsel := selectByValidTimeInstant_iff hs t
  unfold selectMember
  cases hc : selectByValidTimeInstant (rows.map win) t with
  | none =>
    symm
    rw [List.filter_eq_nil_iff]
    intro cs hcs hmem
    have := (hsel (win cs)).mpr ⟨List.mem_map_of_mem hcs, of_decide_eq_true hmem⟩
    rw [hc] at this
    cases this
  | some c =>
    obtain ⟨hmem, hct⟩ := (hsel c).mp hc
    obtain ⟨cs₀, hcs₀, rfl⟩ := List.mem_map.mp hmem
    refine List.filter_congr fun cs hcs => ?_
    rw [Bool.eq_iff_iff, beq_iff_eq, decide_eq_true_iff]
    constructor
    · intro heq
      have hrow : cs = cs₀ := List.inj_on_of_nodup_map hnodup hcs hcs₀ (heq.trans (href cs₀))
      rw [hrow]
      exact hct
    · intro hcst
      have := (hsel (win cs)).mpr ⟨List.mem_map_of_mem hcs, hcst⟩
      rw [hc] at this
      rw [← href cs, Option.some.inj this]

theorem eq_of_mem_windows (hs : isTrustedSuccession (rows.map win) threshold = true)
    {t : Instant} {x y : ClaimWithStatus} (hx : x ∈ rows) (hy : y ∈ rows)
    (hxt : (window (win x).validTime).Mem t) (hyt : (window (win y).validTime).Mem t) : x = y := by
  have hapart := ((isTrustedSuccession_iff _ _).mp hs).2
  have hwin := eq_of_mem_of_apart (fun c : Claim => window c.validTime) hapart
    (List.mem_map_of_mem hx) (List.mem_map_of_mem hy) hxt hyt
  have hrefs := congrArg Claim.claimRef hwin
  rw [href, href] at hrefs
  exact List.inj_on_of_nodup_map hnodup hx hy hrefs

theorem filter_windows_eq_singleton (hs : isTrustedSuccession (rows.map win) threshold = true)
    {t : Instant} {x : ClaimWithStatus} (hx : x ∈ rows)
    (hxt : (window (win x).validTime).Mem t) :
    rows.filter (fun cs => decide ((window (win cs).validTime).Mem t)) = [x] :=
  filter_eq_singleton (hnodup.of_map _) hx (decide_eq_true hxt)
    fun _ hy hyt => eq_of_mem_windows hnodup win href hs hy hx (of_decide_eq_true hyt) hxt

theorem filter_windows_eq_singleton_iff
    (hs : isTrustedSuccession (rows.map win) threshold = true) {t : Instant}
    {x : ClaimWithStatus} :
    rows.filter (fun cs => decide ((window (win cs).validTime).Mem t)) = [x] ↔
      x ∈ rows ∧ (window (win x).validTime).Mem t := by
  refine ⟨fun h => ?_, fun h => filter_windows_eq_singleton hnodup win href hs h.1 h.2⟩
  have hx := List.mem_filter.mp (h ▸ List.mem_singleton_self x : x ∈ rows.filter _)
  exact ⟨hx.1, of_decide_eq_true hx.2⟩

end Selection

section Fold

def liveRows (rows : List ClaimWithStatus) : List ClaimWithStatus := rows.filter (·.isLive)

theorem mem_liveRows {rows : List ClaimWithStatus} {cs : ClaimWithStatus} :
    cs ∈ liveRows rows ↔ cs ∈ rows ∧ cs.isLive = true := List.mem_filter

theorem liveRows_nodup {rows : List ClaimWithStatus}
    (h : (rows.map (·.claim.claimRef)).Nodup) :
    ((liveRows rows).map (·.claim.claimRef)).Nodup :=
  h.sublist (List.filter_sublist.map _)

/-- Several live rows whose raw windows are a trusted succession. -/
def Chain (config : EngineConfig) (rows : List ClaimWithStatus) : Prop :=
  1 < (liveRows rows).length ∧
    isTrustedSuccession ((liveRows rows).map (·.claim)) config.validTimeConfidenceThreshold = true

def Rivalry (config : EngineConfig) (rows : List ClaimWithStatus) : Prop :=
  1 < (liveRows rows).length ∧
    isTrustedSuccession ((liveRows rows).map (·.claim)) config.validTimeConfidenceThreshold = false

instance (config : EngineConfig) (rows : List ClaimWithStatus) :
    Decidable (Chain config rows) := by unfold Chain; infer_instance

instance (config : EngineConfig) (rows : List ClaimWithStatus) :
    Decidable (Rivalry config rows) := by unfold Rivalry; infer_instance

theorem structuralConflict_iff (live : List ClaimWithStatus) :
    structuralConflict live = true ↔
      1 < live.length ∧ ∃ cs ∈ live, cs.claim.cardinality ≠ .setValued := by
  unfold structuralConflict
  rw [Bool.or_eq_true, Bool.and_eq_true, decide_eq_true_iff, decide_eq_true_iff,
    List.any_eq_true]
  constructor
  · rintro (h | ⟨hlen, cs, hcs, hne⟩)
    · have hle := List.countP_le_length (p := fun cs : ClaimWithStatus =>
        cs.claim.cardinality == .functional) (l := live)
      have hpos : 0 < live.countP (fun cs => cs.claim.cardinality == .functional) := by omega
      obtain ⟨cs, hcs, hf⟩ := List.countP_pos_iff.mp hpos
      refine ⟨by omega, cs, hcs, ?_⟩
      rw [beq_iff_eq] at hf
      rw [hf]
      decide
    · exact ⟨hlen, cs, hcs, by simpa using hne⟩
  · rintro ⟨hlen, cs, hcs, hne⟩
    exact .inr ⟨hlen, cs, hcs, by simpa using hne⟩

theorem structuralConflict_of_length_le {live : List ClaimWithStatus} (h : live.length ≤ 1) :
    structuralConflict live = false := by
  rw [Bool.eq_false_iff]
  intro hc
  have := ((structuralConflict_iff live).mp hc).1
  omega

@[simp] theorem foldStatuses_allClaims (rows : List ClaimWithStatus) (t : Instant)
    (config : EngineConfig) : (foldStatuses rows t config).allClaims = rows := rfl

@[simp] theorem foldStatuses_hasConflict (rows : List ClaimWithStatus) (t : Instant)
    (config : EngineConfig) :
    (foldStatuses rows t config).hasConflict =
      structuralConflict (foldStatuses rows t config).liveClaims := rfl

theorem foldStatuses_of_not_chain {config : EngineConfig} {rows : List ClaimWithStatus}
    (h : ¬ Chain config rows) (t : Instant) :
    (foldStatuses rows t config).liveClaims = liveRows rows := by
  unfold foldStatuses
  simp only [Chain, liveRows, not_and] at h ⊢
  by_cases hlen : 1 < (rows.filter (·.isLive)).length
  · rw [if_pos hlen, if_neg (h hlen)]
  · rw [if_neg hlen]

theorem foldStatuses_of_chain {config : EngineConfig} {rows : List ClaimWithStatus}
    (hnodup : (rows.map (·.claim.claimRef)).Nodup) (h : Chain config rows) (t : Instant) :
    (foldStatuses rows t config).liveClaims =
      (liveRows rows).filter (fun cs => decide ((window cs.claim.validTime).Mem t)) := by
  have hsel := selectMember_eq (liveRows_nodup hnodup) (·.claim) (fun _ => rfl) h.2 t
  have h1 : (rows.filter (·.isLive)).length > 1 := h.1
  have h2 : isTrustedSuccession ((rows.filter (·.isLive)).map (·.claim))
      config.validTimeConfidenceThreshold = true := h.2
  unfold foldStatuses
  simp only [liveRows] at hsel ⊢
  rw [if_pos h1, if_pos h2]
  exact hsel

theorem foldStatuses_subset {config : EngineConfig} {rows : List ClaimWithStatus}
    (hnodup : (rows.map (·.claim.claimRef)).Nodup) (t : Instant) {cs : ClaimWithStatus}
    (h : cs ∈ (foldStatuses rows t config).liveClaims) : cs ∈ rows ∧ cs.isLive = true := by
  by_cases hc : Chain config rows
  · rw [foldStatuses_of_chain hnodup hc] at h
    exact mem_liveRows.mp (List.mem_of_mem_filter h)
  · rw [foldStatuses_of_not_chain hc] at h
    exact mem_liveRows.mp h

theorem selected_nodup {config : EngineConfig} {rows : List ClaimWithStatus}
    (hnodup : (rows.map (·.claim.claimRef)).Nodup) {t : Instant} :
    ((foldStatuses rows t config).liveClaims.map (·.claim.claimRef)).Nodup := by
  by_cases hc : Chain config rows
  · rw [foldStatuses_of_chain hnodup hc]
    exact (liveRows_nodup hnodup).sublist (List.filter_sublist.map _)
  · rw [foldStatuses_of_not_chain hc]
    exact liveRows_nodup hnodup

theorem foldStatuses_chain_length {config : EngineConfig} {rows : List ClaimWithStatus}
    (hnodup : (rows.map (·.claim.claimRef)).Nodup) (h : Chain config rows) (t : Instant) :
    (foldStatuses rows t config).liveClaims.length ≤ 1 := by
  rw [foldStatuses_of_chain hnodup h]
  cases hl : (liveRows rows).filter (fun cs => decide ((window cs.claim.validTime).Mem t)) with
  | nil => simp
  | cons x xs =>
    have hx := List.mem_filter.mp (hl ▸ List.mem_cons_self : x ∈ (liveRows rows).filter _)
    have hsingle := filter_windows_eq_singleton (liveRows_nodup hnodup) (·.claim)
      (fun _ => rfl) h.2 hx.1 (of_decide_eq_true hx.2)
    rw [← hl, hsingle]
    simp

/-- Step 4 of the fold, on the live claims alone. -/
def selectLive (config : EngineConfig) (live : List Claim) (t : Instant) : List Claim :=
  if 1 < live.length then
    if isTrustedSuccession live config.validTimeConfidenceThreshold then
      match selectByValidTimeInstant live t with
      | some selected => live.filter fun c => c.claimRef == selected.claimRef
      | none => []
    else live
  else live

/-- The fold selects on claims and liveness only. -/
theorem selected_eq {rows : List ClaimWithStatus} {live : List Claim}
    {f : Claim → ClaimWithStatus} (hf : ∀ c, (f c).claim = c) (hlive : liveRows rows = live.map f)
    (t : Instant) (config : EngineConfig) :
    (foldStatuses rows t config).liveClaims = (selectLive config live t).map f := by
  have hclaims : ∀ xs : List Claim, (xs.map f).map (·.claim) = xs := fun xs => by
    rw [List.map_map]
    exact (List.map_congr_left fun c _ => hf c).trans xs.map_id
  unfold liveRows at hlive
  unfold foldStatuses selectLive
  simp only [hlive, hclaims, List.length_map, gt_iff_lt]
  by_cases hlen : 1 < live.length
  case neg => rw [if_neg hlen, if_neg hlen]
  rw [if_pos hlen, if_pos hlen]
  by_cases hs : isTrustedSuccession live config.validTimeConfidenceThreshold = true
  case neg => rw [if_neg hs, if_neg hs]
  rw [if_pos hs, if_pos hs]
  dsimp only
  unfold selectMember
  cases selectByValidTimeInstant live t with
  | none => rfl
  | some selected =>
    dsimp only
    rw [List.filter_map]
    exact congrArg _ (List.filter_congr fun c _ => by simp only [Function.comp_apply, hf])

end Fold

section Status

variable {supplied : ClaimRef → List ValidityAssertion} {asOf : Instant}
variable {latest : ClaimRef → Option Disposition} {claim : Claim}

theorem claimStatus_isLive :
    (claimStatus supplied asOf latest claim).isLive = true ↔
      activeBoundAt (supplied claim.claimRef) asOf = none ∧
        ∀ d, latest claim.claimRef = some d → isNonLiveDisposition d = false := by
  simp only [claimStatus, Bool.and_eq_true, Option.isNone_iff_eq_none]
  refine and_congr_right fun _ => ?_
  cases latest claim.claimRef with
  | none => simp
  | some d => simp

theorem claimStatus_boundAt_of_live
    (h : (claimStatus supplied asOf latest claim).isLive = true) :
    (claimStatus supplied asOf latest claim).boundAt = none := by
  simp only [claimStatus, (claimStatus_isLive.mp h).1, Option.map_none]

theorem claimStatus_isCandidate_of_live
    (h : (claimStatus supplied asOf latest claim).isLive = true) (denied : ClaimRef → Bool) :
    isCandidate denied (claimStatus supplied asOf latest claim) = true := by
  have hhard : ((claimStatus supplied asOf latest claim).lastDisposition.map
      isHardExcludedDisposition).getD false = false := by
    simp only [claimStatus]
    cases hl : latest claim.claimRef with
    | none => rfl
    | some d => exact isHardExcluded_of_isNonLive ((claimStatus_isLive.mp h).2 d hl)
  rw [isCandidate, hhard, h]
  rfl

/-- The rows that a fold works on. -/
def foldRows (config : EngineConfig) (claims : List Claim)
    (supplied : ClaimRef → List ValidityAssertion) (asOf : Instant)
    (latest : ClaimRef → Option Disposition) : List ClaimWithStatus :=
  (inOrder (orderingKey · config) claims).map (claimStatus supplied asOf latest)

theorem fold_eq_foldStatuses (claims : List Claim) (validAt : Option Instant)
    (config : EngineConfig) :
    fold claims supplied asOf validAt config latest =
      foldStatuses (foldRows config claims supplied asOf latest) (validAt.getD asOf) config := rfl

theorem foldRows_nodup {claims : List Claim} {config : EngineConfig}
    (hrefs : (claims.map (·.claimRef)).Nodup) :
    ((foldRows config claims supplied asOf latest).map (·.claim.claimRef)).Nodup := by
  rw [foldRows, List.map_map]
  exact (((inOrder_perm _ claims).map _).nodup_iff).mpr hrefs

end Status

section Tables

def entriesOf (σ : Store) (agentId : AgentId) (cutoff : Option Instant) (r : ClaimRef) :
    List LedgerEntry :=
  σ.ledger.filter fun e =>
    e.agentId == agentId && e.claimRef == r && withinCutoff cutoff e.recordedAt

def assertionsOf (σ : Store) (agentId : AgentId) (r : ClaimRef) : List ValidityAssertion :=
  σ.assertions.filter fun a => a.agentId == agentId && a.targetClaim == r

/-- The entry that decides a claim: of the latest, the one read first. -/
def latestOf (σ : Store) (agentId : AgentId) (cutoff : Option Instant) (r : ClaimRef) :
    Option Disposition :=
  (σ.ties.first LedgerEntry.recordedAt (entriesOf σ agentId cutoff r)).map (·.disposition)

def deniedOf (σ : Store) (agentId : AgentId) (cutoff : Option Instant) (r : ClaimRef) : Bool :=
  deniedByEntries
    (inOrder LedgerEntry.recordedAt (σ.ties.arrange (entriesOf σ agentId cutoff r)))

def rowOf (σ : Store) (agentId : AgentId) (cutoff : Option Instant) (asOf : Instant)
    (claim : Claim) : ClaimWithStatus :=
  claimStatus (assertionsOf σ agentId) asOf (latestOf σ agentId cutoff) claim

def lineClaims (config : EngineConfig) (σ : Store) (agentId : AgentId)
    (subject predicate : String) (cutoff : Option Instant) : List Claim :=
  inOrder (orderingKey · config) (loadSubjectLine σ agentId subject predicate cutoff)

/-- The rows of a line in key order, from the tables up to a cutoff. -/
def lineRows (config : EngineConfig) (σ : Store) (agentId : AgentId)
    (subject predicate : String) (cutoff : Option Instant) (asOf : Instant) :
    List ClaimWithStatus :=
  (lineClaims config σ agentId subject predicate cutoff).map (rowOf σ agentId cutoff asOf)

def candidateRows (config : EngineConfig) (σ : Store) (agentId : AgentId)
    (subject predicate : String) (cutoff : Option Instant) (asOf : Instant) :
    List ClaimWithStatus :=
  (lineRows config σ agentId subject predicate cutoff asOf).filter
    (isCandidate (deniedOf σ agentId cutoff))

@[simp] theorem rowOf_claim (σ : Store) (agentId : AgentId) (cutoff : Option Instant)
    (asOf : Instant) (claim : Claim) : (rowOf σ agentId cutoff asOf claim).claim = claim := rfl

@[simp] theorem rowOf_lastDisposition (σ : Store) (agentId : AgentId) (cutoff : Option Instant)
    (asOf : Instant) (claim : Claim) :
    (rowOf σ agentId cutoff asOf claim).lastDisposition =
      latestOf σ agentId cutoff claim.claimRef := rfl

@[simp] theorem rowOf_boundAt (σ : Store) (agentId : AgentId) (cutoff : Option Instant)
    (asOf : Instant) (claim : Claim) :
    (rowOf σ agentId cutoff asOf claim).boundAt =
      (activeBoundAt (assertionsOf σ agentId claim.claimRef) asOf).map (·.boundAt) := rfl

theorem rowOf_isLive (σ : Store) (agentId : AgentId) (cutoff : Option Instant)
    (asOf : Instant) (claim : Claim) :
    (rowOf σ agentId cutoff asOf claim).isLive = true ↔
      activeBoundAt (assertionsOf σ agentId claim.claimRef) asOf = none ∧
        ∀ d, latestOf σ agentId cutoff claim.claimRef = some d →
          isNonLiveDisposition d = false :=
  claimStatus_isLive

theorem rowOf_boundAt_of_live {σ : Store} {agentId : AgentId} {cutoff : Option Instant}
    {asOf : Instant} {claim : Claim} (h : (rowOf σ agentId cutoff asOf claim).isLive = true) :
    (rowOf σ agentId cutoff asOf claim).boundAt = none :=
  claimStatus_boundAt_of_live h

theorem mem_loadSubjectLine {σ : Store} {agentId : AgentId} {subject predicate : String}
    {cutoff : Option Instant} {c : Claim} :
    c ∈ loadSubjectLine σ agentId subject predicate cutoff ↔
      c ∈ σ.claims ∧ onLine agentId subject predicate c = true ∧
        withinCutoff cutoff c.transactionTime = true := by
  rw [loadSubjectLine, mem_inOrder, List.mem_filter, Bool.and_eq_true]

theorem mem_lineClaims {config : EngineConfig} {σ : Store} {agentId : AgentId}
    {subject predicate : String} {cutoff : Option Instant} {c : Claim} :
    c ∈ lineClaims config σ agentId subject predicate cutoff ↔
      c ∈ σ.claims ∧ onLine agentId subject predicate c = true ∧
        withinCutoff cutoff c.transactionTime = true := by
  rw [lineClaims, mem_inOrder, mem_loadSubjectLine]

theorem mem_lineRows {config : EngineConfig} {σ : Store} {agentId : AgentId}
    {subject predicate : String} {cutoff : Option Instant} {asOf : Instant}
    {cs : ClaimWithStatus} :
    cs ∈ lineRows config σ agentId subject predicate cutoff asOf ↔
      ∃ c ∈ lineClaims config σ agentId subject predicate cutoff,
        rowOf σ agentId cutoff asOf c = cs :=
  List.mem_map

theorem boundAt_of_live {config : EngineConfig} {σ : Store} {agentId : AgentId}
    {subject predicate : String} {cutoff : Option Instant} {asOf : Instant}
    {cs : ClaimWithStatus}
    (h : cs ∈ lineRows config σ agentId subject predicate cutoff asOf)
    (hlive : cs.isLive = true) : cs.boundAt = none := by
  obtain ⟨c, _, rfl⟩ := mem_lineRows.mp h
  exact rowOf_boundAt_of_live hlive

theorem effectiveWindow_of_live {config : EngineConfig} {σ : Store} {agentId : AgentId}
    {subject predicate : String} {cutoff : Option Instant} {asOf : Instant}
    {cs : ClaimWithStatus}
    (h : cs ∈ lineRows config σ agentId subject predicate cutoff asOf)
    (hlive : cs.isLive = true) : effectiveWindow cs = window cs.claim.validTime := by
  rw [effectiveWindow, boundAt_of_live h hlive, Span.cut_none]

theorem isCandidate_of_live {config : EngineConfig} {σ : Store} {agentId : AgentId}
    {subject predicate : String} {cutoff : Option Instant} {asOf : Instant}
    {cs : ClaimWithStatus}
    (h : cs ∈ lineRows config σ agentId subject predicate cutoff asOf)
    (hlive : cs.isLive = true) (denied : ClaimRef → Bool) : isCandidate denied cs = true := by
  obtain ⟨c, _, rfl⟩ := mem_lineRows.mp h
  exact claimStatus_isCandidate_of_live hlive denied

end Tables

section Reads

variable {config : EngineConfig} {σ : Store} {agentId : AgentId} {subject predicate : String}
variable {cutoff : Option Instant}

theorem filter_loadLedgerForClaims {refs : List ClaimRef} {r : ClaimRef} (h : r ∈ refs) :
    (loadLedgerForClaims σ agentId refs cutoff).filter (fun e => e.claimRef == r) =
      inOrder LedgerEntry.recordedAt (σ.ties.arrange (entriesOf σ agentId cutoff r)) := by
  rw [loadLedgerForClaims, filter_inOrder, TieOrder.filter_arrange, List.filter_filter, entriesOf]
  congr 2
  refine List.filter_congr fun e _ => ?_
  by_cases he : e.claimRef = r
  · subst he
    simp [h]
  · have hne : (e.claimRef == r) = false := beq_eq_false_iff_ne.mpr he
    simp [hne]

theorem buildLatestDispositionMap_load {refs : List ClaimRef} {r : ClaimRef} (h : r ∈ refs) :
    buildLatestDispositionMap (loadLedgerForClaims σ agentId refs cutoff) r =
      latestOf σ agentId cutoff r := by
  have hfilter : (loadLedgerForClaims σ agentId refs cutoff).filter
      (fun e => decide (e.claimRef = r)) =
        inOrder LedgerEntry.recordedAt (σ.ties.arrange (entriesOf σ agentId cutoff r)) := by
    rw [← filter_loadLedgerForClaims h]
    exact List.filter_congr fun e _ => by rw [Bool.eq_iff_iff]; simp
  rw [buildLatestDispositionMap, latestBy_eq, hfilter, TieOrder.first_inOrder, latestOf]

theorem buildDeniedViaAdjudicationSet_load {refs : List ClaimRef} {r : ClaimRef} (h : r ∈ refs) :
    buildDeniedViaAdjudicationSet (loadLedgerForClaims σ agentId refs cutoff) r =
      deniedOf σ agentId cutoff r := by
  rw [buildDeniedViaAdjudicationSet, filter_loadLedgerForClaims h, deniedOf,
    inOrder_eq_self _ (inOrder_pairwise _ _)]

theorem latestDispositionFromLedger_load {refs : List ClaimRef} {r : ClaimRef} (h : r ∈ refs) :
    latestDispositionFromLedger (loadLedgerForClaims σ agentId refs cutoff) r =
      (σ.ties.last LedgerEntry.recordedAt (entriesOf σ agentId cutoff r)).map (·.disposition) := by
  rw [latestDispositionFromLedger, filter_loadLedgerForClaims h,
    lastMax_inOrder _ _ fun _ _ h => h, TieOrder.last]

theorem activeBoundAt_load (r : ClaimRef) (asOf : Instant) :
    activeBoundAt (loadValidityAssertionsFor σ agentId r) asOf =
      activeBoundAt (assertionsOf σ agentId r) asOf :=
  activeBoundAt_inOrder _ _

theorem claimStatus_load {c : Claim}
    (h : c ∈ loadSubjectLine σ agentId subject predicate cutoff) (asOf : Instant) :
    claimStatus (loadValidityAssertionsFor σ agentId) asOf
      (readLine σ agentId subject predicate cutoff).latestDisposition c =
        rowOf σ agentId cutoff asOf c := by
  have hlatest : (readLine σ agentId subject predicate cutoff).latestDisposition c.claimRef =
      latestOf σ agentId cutoff c.claimRef :=
    buildLatestDispositionMap_load (List.mem_map_of_mem h)
  simp only [claimStatus, rowOf, hlatest, activeBoundAt_load]

theorem fold_readLine (asOf : Instant) (validAt : Option Instant) :
    fold (readLine σ agentId subject predicate cutoff).claims
        (loadValidityAssertionsFor σ agentId) asOf validAt config
        (readLine σ agentId subject predicate cutoff).latestDisposition =
      foldStatuses (lineRows config σ agentId subject predicate cutoff asOf)
        (validAt.getD asOf) config := by
  rw [fold, lineRows, lineClaims]
  congr 1
  refine List.map_congr_left fun c hc => ?_
  exact claimStatus_load ((mem_inOrder _).mp hc) asOf

theorem foldForWrite_eq (now : Instant) :
    foldForWrite config σ agentId subject predicate now =
      foldStatuses (lineRows config σ agentId subject predicate none now) now config :=
  fold_readLine now none

theorem filter_isCandidate_readLine (asOf : Instant) :
    (lineRows config σ agentId subject predicate cutoff asOf).filter
        (isCandidate (readLine σ agentId subject predicate cutoff).deniedViaAdjudication) =
      candidateRows config σ agentId subject predicate cutoff asOf := by
  refine List.filter_congr fun cs hcs => ?_
  obtain ⟨c, hc, rfl⟩ := mem_lineRows.mp hcs
  have hdenied : (readLine σ agentId subject predicate cutoff).deniedViaAdjudication c.claimRef =
      deniedOf σ agentId cutoff c.claimRef :=
    buildDeniedViaAdjudicationSet_load (List.mem_map_of_mem ((mem_inOrder _).mp hc))
  simp only [isCandidate, rowOf_claim, hdenied]

theorem conflictCandidates_eq (now : Instant) :
    conflictCandidates config σ agentId subject predicate now =
      (candidateRows config σ agentId subject predicate none now).map
        (fun cs => if cs.isLive then cs.claim else claimWithEffectiveWindow cs) := by
  rw [conflictCandidates, buildConflictCandidateClaims, foldForWrite_eq, foldStatuses_allClaims,
    filter_isCandidate_readLine]

theorem queryFold_of_none (config : EngineConfig) (σ : Store) (req : QueryMemoryRequest)
    (h : req.validAt = none) (now : Instant) :
    queryFold config σ req now =
      foldStatuses (lineRows config σ req.agentId req.subject req.predicate
        (some (req.asOfTxTime.getD now)) (req.asOfTxTime.getD now))
        (req.asOfTxTime.getD now) config := by
  unfold queryFold
  rw [h]
  exact fold_readLine _ none

/-- With one, it selects among the candidate rows where their effective windows
    are a trusted succession, and answers from the fold otherwise. -/
theorem queryFold_of_some {req : QueryMemoryRequest} {t : Instant} (h : req.validAt = some t)
    (now : Instant) :
    queryFold config σ req now =
      let asOf := req.asOfTxTime.getD now
      let rows := lineRows config σ req.agentId req.subject req.predicate (some asOf) asOf
      let candidates :=
        candidateRows config σ req.agentId req.subject req.predicate (some asOf) asOf
      let narrowed := candidates.map claimWithEffectiveWindow
      if isTrustedSuccession narrowed config.validTimeConfidenceThreshold then
        { liveClaims := selectMember candidates narrowed t
          hasConflict := false
          successionSelected := true
          allClaims := rows }
      else foldStatuses rows t config := by
  unfold queryFold
  rw [h]
  simp only [fold_readLine, narrowLiveClaimsForValidAt, foldStatuses_allClaims,
    filter_isCandidate_readLine, Option.getD_some]

def visibleRows (config : EngineConfig) (σ : Store) (agentId : AgentId)
    (subject predicate : String) (now : Instant) : List ClaimWithStatus :=
  lineRows config σ agentId subject predicate (some now) now

def report (config : EngineConfig) (rows : List ClaimWithStatus) (now : Instant)
    (ledgerEntries : List LedgerEntry) : BeliefProjection :=
  project (foldStatuses rows now config) ledgerEntries now config
    (anyContested (foldStatuses rows now config).liveClaims)

theorem recall_eq_report (config : EngineConfig) (σ : Store) (agentId : AgentId)
    (subject predicate : String) (now : Instant) :
    ∃ ledgerEntries, recallNow config σ agentId subject predicate now =
      report config (visibleRows config σ agentId subject predicate now) now ledgerEntries := by
  have hfold := queryFold_of_none config σ ⟨agentId, subject, predicate, none, none⟩ rfl now
  rw [Option.getD_none] at hfold
  unfold recallNow QueryMemory.execute report
  rw [hfold]
  exact ⟨_, rfl⟩

end Reads

end Mempill.Rows
