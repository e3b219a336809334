import Mempill.Ergonomic
import Mempill.Invariants

set_option autoImplicit false

/-!
# Shown facts

What the flat answer of a recall shows of the live claims of its line.
-/
namespace Mempill.ShownFacts
open Mempill.Types Mempill.Persistence Mempill.TruthEngine Mempill.Rows Mempill.IngestClaim
open Mempill.ValidTimeHelpers Mempill.QueryMemory Mempill.Engine Mempill.Invariants
open Mempill.Ergonomic HalfOpen

section Statement

/-- A stored claim as a detail. -/
def detailOf (claim : Claim) : BeliefDetail where
  claimRef := claim.claimRef
  value := claim.fact.value
  validFrom := claim.validTime.start
  validUntil := claim.validTime.stop
  validFromGranularity := claim.validTime.startGranularity
  validUntilGranularity := claim.validTime.stopGranularity
  valueConfidence := claim.confidence.valueConfidence
  provenance := provenanceLabelStr claim.provenance
  corroborationCount := 0

variable (config : EngineConfig) (rows : List ClaimWithStatus) (now : Instant)

/-- The live rows; of a succession, those whose window holds the instant. -/
def inForce : List ClaimWithStatus :=
  if Chain config rows then
    (liveRows rows).filter fun cs => decide ((window cs.claim.validTime).Mem now)
  else liveRows rows

/-- Several live members of a set that nothing contests. -/
structure Coexisting : Prop where
  many : 1 < (inForce config rows now).length
  members : ∀ cs ∈ inForce config rows now, cs.claim.cardinality = .setValued
  uncontested : ∀ cs ∈ inForce config rows now, cs.lastDisposition ≠ some .contested

instance : Decidable (Coexisting config rows now) :=
  decidable_of_iff (1 < (inForce config rows now).length ∧
      (∀ cs ∈ inForce config rows now, cs.claim.cardinality = .setValued) ∧
      ∀ cs ∈ inForce config rows now, cs.lastDisposition ≠ some .contested)
    ⟨fun h => ⟨h.1, h.2.1, h.2.2⟩, fun h => ⟨h.many, h.members, h.uncontested⟩⟩

/-- Each row in force is shown once, in key order and as stored, except that members of
    a set show nothing. A lone row is the primary unless it is contested. -/
structure ShowsInForce (r : RecallResult) : Prop where
  shown : r.shown =
    if Coexisting config rows now then []
    else (inForce config rows now).map fun cs => detailOf cs.claim
  contested : r.isContested = true ↔ ¬ Coexisting config rows now ∧
    (1 < (inForce config rows now).length ∨
      ∃ cs, inForce config rows now = [cs] ∧ cs.lastDisposition = some .contested)
  empty : r.isEmpty = true ↔ inForce config rows now = []
  candidates : r.candidates ≠ [] ↔ r.isContested = true
  value : r.value = r.primary.map (·.value)

end Statement

section Flat

variable {config : EngineConfig} {rows : List ClaimWithStatus} {now : Instant}

@[simp] theorem makeDetail_liveBelief (cs : ClaimWithStatus) :
    makeDetail (liveBelief now config cs) = detailOf cs.claim := rfl

@[simp] theorem contestCandidate_detail (b : Belief) :
    (contestCandidate b).detail = makeDetail b := rfl

@[simp] theorem detailOf_value (claim : Claim) :
    (detailOf claim).value = claim.fact.value := rfl

@[simp] theorem liveBelief_fact (cs : ClaimWithStatus) :
    (liveBelief now config cs).fact = cs.claim.fact := rfl

@[simp] theorem makeDetail_value (b : Belief) : (makeDetail b).value = b.fact.value := rfl

theorem liveClaims_eq_inForce (hnodup : (rows.map (·.claim.claimRef)).Nodup) :
    (foldStatuses rows now config).liveClaims = inForce config rows now := by
  unfold inForce
  by_cases hc : Chain config rows
  · rw [if_pos hc, foldStatuses_of_chain hnodup hc]
  · rw [if_neg hc, foldStatuses_of_not_chain hc]

theorem not_coexisting_of_length_le (h : (inForce config rows now).length ≤ 1) :
    ¬ Coexisting config rows now := fun hco => absurd hco.many (by omega)

/-- Several rows in force are contested unless they are members of a set. -/
theorem contested_of_many (hnodup : (rows.map (·.claim.claimRef)).Nodup)
    (hmany : 1 < (inForce config rows now).length) :
    (anyContested (foldStatuses rows now config).liveClaims ||
        (foldStatuses rows now config).hasConflict) = true ↔ ¬ Coexisting config rows now := by
  rw [foldStatuses_hasConflict, liveClaims_eq_inForce hnodup, Bool.or_eq_true,
    structuralConflict_iff, anyContested, List.any_eq_true]
  constructor
  · rintro (⟨cs, hcs, hd⟩ | ⟨_, cs, hcs, hcard⟩) hco
    · exact hco.uncontested cs hcs (eq_of_beq hd)
    · exact hcard (hco.members cs hcs)
  · intro hnot
    by_cases hall : ∀ cs ∈ inForce config rows now, cs.claim.cardinality = .setValued
    · left
      by_contra hnone
      refine hnot ⟨hmany, hall, fun cs hcs hd => hnone ⟨cs, hcs, ?_⟩⟩
      rw [hd]
      rfl
    · push Not at hall
      exact .inr ⟨hmany, hall⟩

theorem showsInForce_report (hnodup : (rows.map (·.claim.claimRef)).Nodup)
    (ledgerEntries : List LedgerEntry) :
    ShowsInForce config rows now (flatten (report config rows now ledgerEntries)) := by
  have hlive : (foldStatuses rows now config).liveClaims = inForce config rows now :=
    liveClaims_eq_inForce hnodup
  match hl : inForce config rows now with
  | [] =>
    -- nothing is in force
    obtain ⟨hstatus, _, _⟩ := project_of_nil ledgerEntries now config
      (anyContested (foldStatuses rows now config).liveClaims) (hlive.trans hl)
    have hnot : ¬ Coexisting config rows now := not_coexisting_of_length_le (by simp [hl])
    constructor <;>
      simp [flatten, report, hstatus, RecallResult.shown, RecallResult.isContested,
        RecallResult.isEmpty, hnot, hl]
  | [cs] =>
    have hconflict : (foldStatuses rows now config).hasConflict = false := by
      rw [foldStatuses_hasConflict, hlive, hl]
      exact structuralConflict_of_length_le (by simp)
    obtain ⟨hstatus, hprimary, halternatives⟩ := project_of_singleton ledgerEntries now config
      (anyContested (foldStatuses rows now config).liveClaims) (hlive.trans hl) hconflict
    have hflag : anyContested (foldStatuses rows now config).liveClaims =
        (cs.lastDisposition == some .contested) := by
      rw [hlive, hl]
      simp [anyContested]
    have hnot : ¬ Coexisting config rows now := not_coexisting_of_length_le (by simp [hl])
    by_cases hd : cs.lastDisposition = some .contested
    · rw [if_pos (by rw [hflag, hd]; rfl)] at hstatus
      constructor <;>
        simp [flatten, report, hstatus, hprimary, halternatives, RecallResult.shown,
          RecallResult.isContested, RecallResult.isEmpty, hnot, hl, hd]
    · rw [if_neg (by rw [hflag, beq_iff_eq]; exact hd)] at hstatus
      split_ifs at hstatus <;>
      · constructor <;>
          simp [flatten, report, hstatus, hprimary, RecallResult.shown,
            RecallResult.isContested, RecallResult.isEmpty, hnot, hl, hd]
  | x :: y :: rest =>
    have hmany : 1 < (inForce config rows now).length := by simp [hl]
    obtain ⟨hstatus, hprimary, halternatives⟩ := project_of_many ledgerEntries now config
      (anyContested (foldStatuses rows now config).liveClaims) (by rwa [hlive])
    have halternatives := halternatives.trans (congrArg (List.map _) (hlive.trans hl))
    have hcontested := contested_of_many hnodup hmany
    by_cases hco : Coexisting config rows now
    · rw [if_neg fun h => hcontested.mp h hco] at hstatus
      constructor <;>
        simp [flatten, report, hstatus, hprimary, RecallResult.shown, RecallResult.isContested,
          RecallResult.isEmpty, hco, hl]
    · rw [if_pos (hcontested.mpr hco)] at hstatus
      constructor <;>
        simp [flatten, report, hstatus, hprimary, halternatives, RecallResult.shown,
          RecallResult.isContested, RecallResult.isEmpty, hco, hl]

variable {r : RecallResult}

theorem ShowsInForce.primary_of_nil (h : ShowsInForce config rows now r)
    (hnil : inForce config rows now = []) : r.primary = none := by
  have hshown := h.shown
  rw [hnil, List.map_nil, ite_self] at hshown
  exact Option.toList_eq_nil_iff.mp (List.append_eq_nil_iff.mp hshown).1

/-- A lone row in force that is not contested is the primary. -/
theorem ShowsInForce.primary_of_singleton (h : ShowsInForce config rows now r)
    {cs : ClaimWithStatus} (hone : inForce config rows now = [cs])
    (hd : cs.lastDisposition ≠ some .contested) :
    r.primary = some (detailOf cs.claim) ∧ r.candidates = [] := by
  have hnot : ¬ Coexisting config rows now := not_coexisting_of_length_le (by simp [hone])
  have hcandidates : r.candidates = [] := by
    by_contra hne
    obtain ⟨_, hmany | ⟨_, heq, hcontested⟩⟩ := h.contested.mp (h.candidates.mp hne)
    · simp [hone] at hmany
    · rw [hone] at heq
      cases heq
      exact hd hcontested
  have hshown := h.shown
  rw [if_neg hnot, hone, RecallResult.shown, hcandidates] at hshown
  refine ⟨?_, hcandidates⟩
  cases hprimary : r.primary with
  | none => simp [hprimary] at hshown
  | some d => simpa [hprimary] using hshown

/-- A row alone on its line is in force while it is live. -/
theorem inForce_singleton (cs : ClaimWithStatus) :
    inForce config [cs] now = if cs.isLive then [cs] else [] := by
  have hchain : ¬ Chain config [cs] := fun hc => by
    have hlength := List.length_filter_le (·.isLive) [cs]
    exact absurd hc.1 (not_lt.mpr hlength)
  rw [inForce, if_neg hchain, liveRows, List.filter_singleton]
  cases cs.isLive <;> rfl

end Flat

section Main

variable {eng : Engine} {σ : Store}

/-- In every reachable store a recall shows the live claims of its line, or of a
    succession the one in force; only members of a set that co-exist are not shown. -/
theorem recall_shows_live_claims (hσ : Reachable eng σ) (config : EngineConfig)
    (agentId : AgentId) (subject predicate : String) (now : Instant) :
    ShowsInForce config (visibleRows config σ agentId subject predicate now) now
      (recallLine config σ agentId subject predicate now) := by
  obtain ⟨ledgerEntries, hrecall⟩ := recall_eq_report config σ agentId subject predicate now
  rw [recallLine, hrecall]
  exact showsInForce_report (visibleRows_nodup hσ config agentId subject predicate now) _

/-- The two cities of a set, the second of them queued. -/
def queuedMembers : List Op :=
  [.ingestClaim { remember "Paris" (some (dated 1 none)) with cardinality := .setValued } 10 ⟨1⟩
      (.ok 100),
    .ingestClaim { remember "Berlin" (some (dated 5 none)) with cardinality := .setValued } 20
      ⟨2⟩ (.ok 101)]

/-- Functional rivals are shown both; of the set nothing is, though it is not empty. -/
theorem rivals_are_shown :
    let recallOf (ops : List Op) :=
      recallLine EngineConfig.default (run (defaultEngine true) Store.sqlite ops) agent "user"
        "location" 30
    ShowsInForce EngineConfig.default
        (visibleRows EngineConfig.default (run (defaultEngine true) Store.sqlite rivals) agent
          "user" "location" 30) 30 (recallOf rivals) ∧
      (recallOf rivals).shown.map (·.claimRef.uuid) = [1, 2] ∧
      (recallOf queuedMembers).shown = [] ∧ (recallOf queuedMembers).isEmpty = false ∧
      (recallOf queuedMembers).isContested = false :=
  ⟨recall_shows_live_claims (run_reachable (by decide)) _ _ _ _ _, by decide, by decide,
    by decide, by decide⟩

end Main

end Mempill.ShownFacts
