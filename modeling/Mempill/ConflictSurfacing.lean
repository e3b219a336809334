import Mempill.ClaimLog
import Mempill.WriteGate

set_option autoImplicit false

/-!
# Conflict surfacing

When a write that overlaps a believed claim of another value is never answered
as committed cheaply.
-/
namespace Mempill.ConflictSurfacing
open Mempill.Types Mempill.Persistence Mempill.TruthEngine Mempill.Ledger Mempill.ValidTimeHelpers
open Mempill.Gate Mempill.Rows Mempill.ActiveBound Mempill.IngestClaim Mempill.Engine Mempill.Steps
open Mempill.Invariants Mempill.WriteGate Mempill.ClaimLog HalfOpen StampedLog

section Belief

/-- The instant of the bound that a claim's log ends on, reached or not. -/
def recordedBound (as : List ValidityAssertion) : Option Instant :=
  (as.getLast?.bind toBoundState).map (·.boundAt)

/-- A denying verdict with no reinstatement after it. -/
def deniedByOracle (es : List LedgerEntry) : Bool :=
  (afterLastReinstated es).any fun e => verdictField e == some "deny"

structure Believed (σ : Store) (agentId : AgentId) (c : Claim) : Prop where
  kept : (latestOf σ agentId none c.claimRef).any isHardExcludedDisposition = false
  undenied : deniedByOracle (entriesOf σ agentId none c.claimRef) = false

def believedWindow (σ : Store) (agentId : AgentId) (c : Claim) : Span Instant :=
  (window c.validTime).cut (recordedBound (assertionsOf σ agentId c.claimRef))

/-- The assertion that a claim's log ends on has been reached: it is recorded by
    `now`, and so is the instant it states. -/
def Reached (σ : Store) (agentId : AgentId) (r : ClaimRef) (now : Instant) : Prop :=
  ∀ a, (assertionsOf σ agentId r).getLast? = some a → Effective now a

end Belief

section Candidate

variable {ties : TieOrder LedgerEntry} {as : List ValidityAssertion} {es : List LedgerEntry}
variable {now : Instant}

theorem activeBoundAt_of_reached (h : LogInvariant ties as es)
    (hreached : ∀ a, as.getLast? = some a → Effective now a) :
    activeBoundAt as now = as.getLast?.bind toBoundState := by
  induction as using List.reverseRecOn with
  | nil => rfl
  | append_singleton as a _ =>
    have hlt : ∀ b ∈ as, b.assertedAt < a.assertedAt := fun b hb =>
      (List.pairwise_append.mp h.assertions).2.2 b hb a (List.mem_singleton_self a)
    rw [activeBoundAt_concat_of_lt hlt, if_pos (hreached a (by simp)), List.getLast?_concat]
    rfl

/-- A claim that the ledger scan excludes carries a denial still standing. -/
theorem deniedByOracle_of_denied (h : LogInvariant ties as es)
    (hd : deniedByEntries (inOrder LedgerEntry.recordedAt (ties.arrange es)) = true) :
    deniedByOracle es = true := by
  unfold deniedByEntries at hd
  rw [ties.getLast?_inOrder] at hd
  rcases ties.last_spec LedgerEntry.recordedAt es with ⟨hn, _⟩ | ⟨last, hl, hmem, hmax⟩
  · rw [hn] at hd
    cases hd
  rw [hl] at hd
  have hsup : last.disposition = .superseded := by
    by_contra hne
    simp [hne] at hd
  obtain ⟨v, hv⟩ := Option.isSome_iff_exists.mp (h.verdicts last hmem hsup)
  have hdeny : v = "deny" := by simpa [hsup, hv] using hd
  obtain ⟨before, after, rfl⟩ := List.append_of_mem hmem
  have hafter : ∀ e ∈ after.reverse, (e.disposition != .reinstated) = true := by
    intro e he
    have he' := List.mem_reverse.mp he
    have hpair := (List.pairwise_cons.mp (List.pairwise_append.mp h.reinstated).2.1).1 e he'
    have hle := hmax e (by simp [he'])
    simp only [bne_iff_ne, ne_eq]
    exact fun hre => absurd (hpair hre) (not_lt_of_ge hle)
  rw [deniedByOracle, List.any_eq_true]
  refine ⟨last, ?_, by rw [hv, hdeny]; rfl⟩
  unfold afterLastReinstated
  rw [List.mem_reverse, List.reverse_append, List.reverse_cons, List.append_assoc,
    List.takeWhile_append_of_pos hafter, List.mem_append]
  right
  simp [hsup]

variable {eng : Engine} {σ : Store} {req : IngestClaimRequest} {c : Claim}

/-- Along orderly runs a believed claim whose last assertion has been reached is a
    candidate, with the window it is believed for. -/
theorem candidate_of_believed (hσ : OrderlyReachable eng σ) (hc : c ∈ σ.claims)
    (hline : onLine req.agentId req.subject req.predicate c = true)
    (hbel : Believed σ req.agentId c) (hreached : Reached σ req.agentId c.claimRef now) :
    ∃ cs ∈ writeCandidates eng.config σ req now,
      cs.claim = c ∧ effectiveWindow cs = believedWindow σ req.agentId c := by
  have hinv := logInvariant_of_orderly hσ req.agentId c.claimRef
  have hactive := activeBoundAt_of_reached hinv hreached
  have hrow : rowOf σ req.agentId none now c ∈ writeRows eng.config σ req now :=
    mem_lineRows.mpr ⟨c, mem_lineClaims.mpr ⟨hc, hline, rfl⟩, rfl⟩
  have hbound : (rowOf σ req.agentId none now c).boundAt =
      recordedBound (assertionsOf σ req.agentId c.claimRef) := by
    rw [rowOf_boundAt, hactive, recordedBound]
  refine ⟨_, ?_, rfl, by rw [effectiveWindow, hbound]; rfl⟩
  by_cases hlive : (rowOf σ req.agentId none now c).isLive = true
  · exact mem_writeCandidates_of_live hrow hlive
  refine List.mem_filter.mpr ⟨hrow, ?_⟩
  have hhard : ((rowOf σ req.agentId none now c).lastDisposition.map
      isHardExcludedDisposition).getD false = false := by
    rw [rowOf_lastDisposition, ← hbel.kept]
    cases latestOf σ req.agentId none c.claimRef <;> rfl
  have hdenied : deniedOf σ req.agentId none c.claimRef = false := by
    rw [Bool.eq_false_iff]
    intro hd
    have := deniedByOracle_of_denied hinv hd
    rw [hbel.undenied] at this
    cases this
  have hsome : (rowOf σ req.agentId none now c).boundAt.isSome = true := by
    rw [hbound, recordedBound, Option.isSome_map]
    by_contra hnone
    rw [Option.not_isSome_iff_eq_none] at hnone
    refine hlive ((rowOf_isLive σ req.agentId none now c).mpr ⟨hactive.trans hnone, ?_⟩)
    intro d hd
    by_contra hdead
    have hkept := hbel.kept
    rw [hd] at hkept
    have hsup : d = .superseded :=
      (isNonLive_iff.mp (Bool.not_eq_false _ ▸ hdead)).resolve_right (by simpa using hkept)
    obtain ⟨a, ha, at_, granularity, hk⟩ := hinv.superseded (hsup ▸ hd)
    rw [ha, Option.bind_some, toBoundState, hk] at hnone
    cases hnone
  rw [isCandidate, hhard, rowOf_claim, hdenied, hsome]
  simp

end Candidate

section Main

variable {eng : Engine} {σ : Store} {req : IngestClaimRequest} {now : Instant}
variable {claimRef : ClaimRef} {reply : Except String Uuid} {resp : IngestClaimResponse}

theorem gate_of_clash {eng' : Engine} (hσ : Reachable eng' σ) (hfresh : Fresh claimRef.uuid σ)
    (hprov : req.provenance.isCheapPathEligible = true) {cs : ClaimWithStatus}
    (hcs : cs ∈ writeCandidates eng.config σ req now) (hclash : Clashes req cs) :
    let disposition := (gateDecision eng σ req (stamp req claimRef now) now).disposition
    disposition = .contested ∨ disposition = .queuedForAdjudication ∨
      disposition = .quarantined ∧
        isTemporallyIncoherent (stamp req claimRef now) eng.config = true := by
  have hover := (overlapsDifferentValue_iff eng now hfresh).mpr ⟨cs, hcs, hclash⟩
  have hsucc : isTrustedSuccession (writeGroup eng.config σ req claimRef now)
      eng.config.validTimeConfidenceThreshold = false := by
    rw [Bool.eq_false_iff]
    exact fun hs => hclash.2.2.2 (apart_of_succession hs hcs)
  obtain ⟨inc, hinc⟩ := exists_incumbentRow hσ hcs
  dsimp only
  rw [gate_disposition hσ hfresh hprov, hinc, hover, hsucc]
  by_cases hco : isTemporallyIncoherent (stamp req claimRef now) eng.config = true
  · simp [hco]
  · cases eng.oraclePresent <;> simp [hco]

/-- Along orderly runs a trusted external write that overlaps a believed claim of
    another value, whose last assertion has been reached, is never committed
    cheaply. -/
theorem overlapping_write_surfaces (hσ : OrderlyReachable eng σ)
    (hburst : 0 < eng.config.quarantineBurstThreshold) (hfresh : Fresh claimRef.uuid σ)
    (hprov : req.provenance.isCheapPathEligible = true)
    (htrust : claimIsTrusted (stamp req claimRef now) eng.config.validTimeConfidenceThreshold =
      true)
    {c : Claim} (hc : c ∈ σ.claims)
    (hline : onLine req.agentId req.subject req.predicate c = true)
    (hstart : c.validTime.start.isSome = true) (hvalue : c.fact.value ≠ req.value)
    (hbel : Believed σ req.agentId c)
    (hmeet : (requestWindow req).Meet (believedWindow σ req.agentId c))
    (hreached : Reached σ req.agentId c.claimRef now)
    (hresp : (IngestClaim.execute eng σ req now claimRef reply).1 = .ok resp) :
    resp.disposition = .contested ∨ resp.disposition = .queuedForAdjudication ∨
      resp.disposition = .quarantined ∧
        isTemporallyIncoherent (stamp req claimRef now) eng.config = true := by
  have hreach : Reachable eng σ := hσ.unrestrict
  obtain ⟨cs, hcs, hclaim, hwin⟩ := candidate_of_believed hσ hc hline hbel hreached
  have hclash : Clashes req cs := by
    refine ⟨hclaim ▸ hvalue, ?_, hclaim ▸ hstart, ?_⟩
    · exact ((Bool.and_eq_true _ _).mp htrust).2
    · rw [hwin]
      exact hmeet.not_apart
  rw [execute_of_admitted (admitted_of_external hprov hburst)] at hresp
  rw [executeAdmitted_ok hresp]
  exact gate_of_clash hreach hfresh hprov hcs hclash

def boundedParis (at_ : Instant) : Store :=
  run (defaultEngine false) Store.sqlite
    [.ingestClaim (remember "Paris" (some (dated 1 none))) 10 ⟨1⟩ (.ok 0),
      .assertValidity (assertOn 1 (.bound at_ none)) 20 50]

def paris : Claim := stamp (remember "Paris" (some (dated 1 none))) ⟨1⟩ 10

/-- A write from 5 on, and the answer it gets. -/
def berlin : IngestClaimRequest := remember "Berlin" (some (dated 5 none))

def answered (disposition : Disposition) (contestedWith : List ClaimRef) : IngestClaimResponse :=
  ⟨⟨2⟩, disposition, contestedWith⟩

theorem write_into_reached_bound_surfaces :
    (answered .contested [⟨1⟩]).disposition = .contested ∨
      (answered .contested [⟨1⟩]).disposition = .queuedForAdjudication ∨
      (answered .contested [⟨1⟩]).disposition = .quarantined ∧
        isTemporallyIncoherent (stamp berlin ⟨2⟩ 30) EngineConfig.default = true :=
  have hreach : OrderlyReachable (defaultEngine false) (boundedParis 15) :=
    run_reach_under (by decide)
  have hanswer : (IngestClaim.execute (defaultEngine false) (boundedParis 15) berlin 30 ⟨2⟩
      (.ok 0)).1 = .ok (answered .contested [⟨1⟩]) := rfl
  overlapping_write_surfaces (c := paris) hreach (by decide) (by decide) (by decide) (by decide)
    (by decide) (by decide) rfl (by decide) ⟨by decide, by decide⟩ ⟨7, by decide, by decide⟩
    (by unfold Reached; decide) hanswer

theorem write_before_future_bound_is_cheap :
    Reachable (defaultEngine false) (boundedParis 100) ∧ Fresh 2 (boundedParis 100) ∧
      claimIsTrusted (stamp berlin ⟨2⟩ 30)
        EngineConfig.default.validTimeConfidenceThreshold = true ∧
      paris ∈ (boundedParis 100).claims ∧ paris.fact.value ≠ berlin.value ∧
      onLine agent berlin.subject berlin.predicate paris = true ∧
      Believed (boundedParis 100) agent paris ∧
      (requestWindow berlin).Meet (believedWindow (boundedParis 100) agent paris) ∧
      (IngestClaim.execute (defaultEngine false) (boundedParis 100) berlin 30 ⟨2⟩ (.ok 0)).1 =
        .ok (answered .committedCheap []) :=
  ⟨run_reachable (by decide), by decide, by decide, by decide, by decide, by decide,
    ⟨by decide, by decide⟩, ⟨7, by decide, by decide⟩, rfl⟩

end Main

end Mempill.ConflictSurfacing
