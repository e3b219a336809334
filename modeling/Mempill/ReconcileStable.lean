import Mempill.ReconcilePass
import Mempill.Verdicts

set_option autoImplicit false

/-!
# Repeated passes

When a second reconcile pass repeats the first one, and neither changes what the
folds of any line read.
-/
namespace Mempill.ReconcileStable
open Mempill.Types Mempill.Persistence Mempill.TruthEngine Mempill.Ledger Mempill.Gate Mempill.Rows
open Mempill.IngestClaim Mempill.Reconcile Mempill.Engine Mempill.Invariants Mempill.WriteGate
open Mempill.ReconcilePass Mempill.Verdicts Mempill.ValidTimeHelpers StampedLog

section Statement

/-- The assertions, the raw liveness, the selected and the denied claims, and the
    conflict candidates of every line. -/
structure SameLines (config : EngineConfig) (σ τ : Store) : Prop where
  assertions : ∀ agentId r,
    loadValidityAssertionsFor τ agentId r = loadValidityAssertionsFor σ agentId r
  liveness : ∀ agentId subject predicate asOf,
    (foldForWrite config τ agentId subject predicate asOf).allClaims.map
        (fun cs => (cs.claim, cs.isLive)) =
      (foldForWrite config σ agentId subject predicate asOf).allClaims.map
        (fun cs => (cs.claim, cs.isLive))
  selected : ∀ agentId subject predicate asOf,
    (foldForWrite config τ agentId subject predicate asOf).liveClaims.map (·.claim) =
      (foldForWrite config σ agentId subject predicate asOf).liveClaims.map (·.claim)
  denied : ∀ agentId subject predicate r,
    (readLine τ agentId subject predicate none).deniedViaAdjudication r =
      (readLine σ agentId subject predicate none).deniedViaAdjudication r
  candidates : ∀ agentId subject predicate asOf,
    conflictCandidates config τ agentId subject predicate asOf =
      conflictCandidates config σ agentId subject predicate asOf

variable (eng : Engine) (σ : Store) (req : ReconcileRequest) (now : Instant)

structure Stable : Prop where
  first : SameLines eng.config σ (passed eng σ req now)
  second : SameLines eng.config (passed eng σ req now)
    (passed eng (passed eng σ req now) req now)
  outcomes : (Reconcile.execute eng (passed eng σ req now) req now).1.outcomes =
    (Reconcile.execute eng σ req now).1.outcomes

/-- A claim is not quarantined again, and it is not one of the denied ones, unless the
    entries stored for it are read ahead of the new ones. The two readers of a tie take
    opposite ends of it. -/
structure SteadyClaim (agentId : AgentId) (news : List LedgerEntry) (c : Claim) : Prop where
  coherent : c.provenance.isRecallReentry = true ∨
    isTemporallyIncoherent c eng.config = false ∨
      ¬ σ.ties.Overtakes LedgerEntry.recordedAt (entriesOf σ agentId none c.claimRef) news
  undenied : deniedOf σ agentId none c.claimRef = false ∨
    ¬ σ.ties.reverse.Overtakes LedgerEntry.recordedAt (entriesOf σ agentId none c.claimRef) news

def SteadyUnder (news : Claim → List LedgerEntry) : Prop :=
  ∀ line ∈ req.subjectLines,
    ∀ cs ∈ (foldForWrite eng.config σ req.agentId line.1 line.2 now).liveClaims,
      SteadyClaim eng σ req.agentId (news cs.claim) cs.claim

/-- Two passes that decide alike. -/
def Steady : Prop :=
  SteadyUnder eng σ req now fun c => passEntries eng σ req now c ++ passEntries eng σ req now c

instance (agentId : AgentId) (news : List LedgerEntry) (c : Claim) :
    Decidable (SteadyClaim eng σ agentId news c) :=
  decidable_of_iff
    ((c.provenance.isRecallReentry = true ∨ isTemporallyIncoherent c eng.config = false ∨
        ¬ σ.ties.Overtakes LedgerEntry.recordedAt (entriesOf σ agentId none c.claimRef) news) ∧
      (deniedOf σ agentId none c.claimRef = false ∨
        ¬ σ.ties.reverse.Overtakes LedgerEntry.recordedAt
          (entriesOf σ agentId none c.claimRef) news))
    ⟨fun h => ⟨h.1, h.2⟩, fun h => ⟨h.1, h.2⟩⟩

instance (news : Claim → List LedgerEntry) : Decidable (SteadyUnder eng σ req now news) :=
  inferInstanceAs (Decidable (∀ line ∈ req.subjectLines, _))

instance : Decidable (Steady eng σ req now) := inferInstanceAs (Decidable (SteadyUnder ..))

end Statement

section Log

variable {eng : Engine} {σ : Store} {req : ReconcileRequest} {now : Instant}
variable {agentId : AgentId}

/-- One pass. -/
abbrev SteadyOnce (eng : Engine) (σ : Store) (req : ReconcileRequest) (now : Instant) : Prop :=
  SteadyUnder eng σ req now (passEntries eng σ req now)

variable (agentId) in
/-- The two kinds of claims: one that the pass does not write for, and a steady live one. -/
theorem untouched_or_steady (hσ : Reachable eng σ) (hsteady : SteadyOnce eng σ req now)
    (r : ClaimRef) :
    passNews eng σ req now agentId r = [] ∨
      ∃ c ∈ σ.claims, c.claimRef = r ∧ (rowOf σ agentId none now c).isLive = true ∧
        SteadyClaim eng σ agentId (passNews eng σ req now agentId r) c := by
  cases hnews : passNews eng σ req now agentId r with
  | nil => exact .inl rfl
  | cons e rest =>
    right
    have he : e ∈ passNews eng σ req now agentId r := hnews ▸ List.mem_cons_self
    obtain ⟨rfl, line, hline, cs, hcs, rfl, _⟩ := mem_passNews_iff.mp he
    have hclaim := hsteady line hline cs (selectedRows_eq .. ▸ hcs)
    rw [← passNews_of_selected hσ req hcs, hnews] at hclaim
    obtain ⟨c, hc, _, rfl, hlive⟩ := live_of_selected hσ hcs
    exact ⟨c, hc, rfl, hlive, hclaim⟩

variable (agentId) in
/-- A pass over steady claims changes a latest disposition only among live ones. -/
theorem latestOf_passed (hσ : Reachable eng σ) (hsteady : SteadyOnce eng σ req now)
    (r : ClaimRef) :
    latestOf (passed eng σ req now) agentId none r = latestOf σ agentId none r ∨
      (∀ d, latestOf σ agentId none r = some d → isNonLiveDisposition d = false) ∧
        ∀ d, latestOf (passed eng σ req now) agentId none r = some d →
          isNonLiveDisposition d = false := by
  unfold latestOf
  rw [entriesOf_passed, passed_ties]
  rcases untouched_or_steady agentId hσ hsteady r with
    hnil | ⟨c, hc, rfl, hlive, hclaim⟩
  · rw [hnil, List.append_nil]
    exact .inl rfl
  · have hold := ((rowOf_isLive σ agentId none now c).mp hlive).2
    rcases hclaim.coherent with hrecall | hcoherent | hbehind
    case inr.inr =>
      left
      rw [σ.ties.first_append_of_not_overtakes _ hbehind]
    all_goals
      refine .inr ⟨hold, fun d hd => ?_⟩
      obtain ⟨e, he, rfl⟩ := Option.map_eq_some_iff.mp hd
      rcases σ.ties.first_append_cases _ he with h | h
      · exact hold _ (by rw [latestOf, h, Option.map_some])
      · rw [isNonLive_of_passNews hσ hc h]
        simp [*]

/-- A pass over steady claims denies and pardons none. -/
theorem deniedOf_passed (hσ : Reachable eng σ) (hτ : Reachable eng (passed eng σ req now))
    (hsteady : SteadyOnce eng σ req now) (r : ClaimRef) :
    deniedOf (passed eng σ req now) agentId none r = deniedOf σ agentId none r := by
  have hattrσ := attributed_of_reachable hσ
  have hattrτ := attributed_of_reachable hτ
  rcases untouched_or_steady agentId hσ hsteady r with
    hnil | ⟨c, _, rfl, _, hclaim⟩
  · rw [deniedOf, deniedOf, entriesOf_passed, passed_ties, hnil, List.append_nil]
  rcases hclaim.undenied with hfalse | hbehind
  · rw [hfalse, Bool.eq_false_iff, Ne, deniedOf_iff hattrτ, entriesOf_passed, passed_ties]
    rintro ⟨e, he, hsup, hv⟩
    rcases σ.ties.last_append_cases _ he with h | h
    · exact absurd ((deniedOf_iff hattrσ agentId none c.claimRef).mpr ⟨e, h, hsup, hv⟩)
        (by simp [hfalse])
    · have hquiet := passNews_quiet h
      rw [hsup] at hquiet
      cases hquiet
  · rw [Bool.eq_iff_iff, deniedOf_iff hattrτ, deniedOf_iff hattrσ, entriesOf_passed, passed_ties,
      TieOrder.last_eq_first_reverse, TieOrder.last_eq_first_reverse,
      σ.ties.reverse.first_append_of_not_overtakes _ hbehind]

end Log

section Lines

variable {eng : Engine} {σ : Store} {req : ReconcileRequest} {now : Instant}

/-- Rows of one claim that every fold and candidate set reads alike. -/
structure Alike (cs cs' : ClaimWithStatus) : Prop where
  claim : cs'.claim = cs.claim
  isLive : cs'.isLive = cs.isLive
  boundAt : cs'.boundAt = cs.boundAt
  boundAtGranularity : cs'.boundAtGranularity = cs.boundAtGranularity
  hardExcluded : cs'.lastDisposition.map isHardExcludedDisposition =
      cs.lastDisposition.map isHardExcludedDisposition ∨
    (∀ d, cs.lastDisposition = some d → isHardExcludedDisposition d = false) ∧
      ∀ d, cs'.lastDisposition = some d → isHardExcludedDisposition d = false

theorem rowOf_passed (hσ : Reachable eng σ) (hsteady : SteadyOnce eng σ req now)
    (agentId : AgentId) (asOf : Instant) (c : Claim) :
    Alike (rowOf σ agentId none asOf c) (rowOf (passed eng σ req now) agentId none asOf c) := by
  have hassertions : assertionsOf (passed eng σ req now) agentId = assertionsOf σ agentId := by
    funext r
    rw [assertionsOf, assertionsOf, passed_assertions]
  have hlatest := latestOf_passed agentId hσ hsteady c.claimRef
  have hlive : (rowOf (passed eng σ req now) agentId none asOf c).isLive =
      (rowOf σ agentId none asOf c).isLive := by
    rw [Bool.eq_iff_iff, rowOf_isLive, rowOf_isLive, hassertions]
    rcases hlatest with h | ⟨hold, hnew⟩
    · rw [h]
    · exact and_congr_right fun _ => iff_of_true hnew hold
  refine ⟨rfl, hlive, ?_, ?_, ?_⟩
  · rw [rowOf_boundAt, rowOf_boundAt, hassertions]
  · simp only [rowOf, claimStatus, hassertions]
  · rw [rowOf_lastDisposition, rowOf_lastDisposition]
    rcases hlatest with h | ⟨hold, hnew⟩
    · exact .inl (by rw [h])
    · exact .inr ⟨fun d hd => isHardExcluded_of_isNonLive (hold d hd),
        fun d hd => isHardExcluded_of_isNonLive (hnew d hd)⟩

theorem Alike.isCandidate {cs cs' : ClaimWithStatus} (h : Alike cs cs')
    {denied denied' : ClaimRef → Bool}
    (hdenied : denied' cs.claim.claimRef = denied cs.claim.claimRef) :
    isCandidate denied' cs' = isCandidate denied cs := by
  have hhard : (cs'.lastDisposition.map isHardExcludedDisposition).getD false =
      (cs.lastDisposition.map isHardExcludedDisposition).getD false := by
    rcases h.hardExcluded with heq | ⟨hold, hnew⟩
    · rw [heq]
    · cases hcs : cs.lastDisposition <;> cases hcs' : cs'.lastDisposition <;> simp_all
  unfold TruthEngine.isCandidate
  rw [hhard, h.claim, h.isLive, h.boundAt, hdenied]

theorem Alike.candidateClaim {cs cs' : ClaimWithStatus} (h : Alike cs cs') :
    candidateClaim cs' = candidateClaim cs := by
  unfold WriteGate.candidateClaim claimWithEffectiveWindow
  rw [h.claim, h.isLive, h.boundAt, h.boundAtGranularity]

theorem lineClaims_passed (config : EngineConfig) (agentId : AgentId)
    (subject predicate : String) :
    lineClaims config (passed eng σ req now) agentId subject predicate none =
      lineClaims config σ agentId subject predicate none := by
  rw [lineClaims, lineClaims, loadSubjectLine, loadSubjectLine, passed_claims]

theorem deniedViaAdjudication_eq (σ : Store) (agentId : AgentId) (subject predicate : String)
    (r : ClaimRef) :
    (readLine σ agentId subject predicate none).deniedViaAdjudication r =
      (((loadSubjectLine σ agentId subject predicate none).map (·.claimRef)).contains r &&
        deniedOf σ agentId none r) := by
  by_cases h : r ∈ (loadSubjectLine σ agentId subject predicate none).map (·.claimRef)
  · rw [List.contains_iff_mem.mpr h, Bool.true_and]
    exact buildDeniedViaAdjudicationSet_load h
  · have hnone : (loadLedgerForClaims σ agentId
        ((loadSubjectLine σ agentId subject predicate none).map (·.claimRef)) none).filter
          (fun e => e.claimRef == r) = [] := by
      rw [loadLedgerForClaims, List.filter_eq_nil_iff]
      intro e he hr
      have hp := List.of_mem_filter (σ.ties.mem_arrange.mp ((mem_inOrder _).mp he))
      simp only [Bool.and_eq_true, List.contains_iff_mem] at hp
      exact h (beq_iff_eq.mp hr ▸ hp.1.2)
    rw [List.contains_eq_mem, decide_eq_false h, Bool.false_and]
    unfold readLine buildDeniedViaAdjudicationSet
    dsimp only
    rw [hnone]
    rfl

theorem sameLines_of_steady (hσ : Reachable eng σ) (hτ : Reachable eng (passed eng σ req now))
    (hsteady : SteadyOnce eng σ req now) : SameLines eng.config σ (passed eng σ req now) := by
  have halike := rowOf_passed hσ hsteady
  have hdenied : ∀ agentId r, deniedOf (passed eng σ req now) agentId none r =
      deniedOf σ agentId none r := fun agentId r => deniedOf_passed hσ hτ hsteady r
  refine ⟨fun agentId r => ?_, fun agentId subject predicate asOf => ?_,
    fun agentId subject predicate asOf => ?_, fun agentId subject predicate r => ?_,
    fun agentId subject predicate asOf => ?_⟩
  · rw [loadValidityAssertionsFor, loadValidityAssertionsFor, passed_assertions]
  · simp only [foldForWrite_eq, foldStatuses_allClaims, lineRows, lineClaims_passed, List.map_map]
    refine List.map_congr_left fun c _ => ?_
    simp only [Function.comp_apply, rowOf_claim, (halike agentId asOf c).isLive]
  · rw [foldForWrite_eq, foldForWrite_eq]
    have hlive : ∀ τ : Store, liveRows (lineRows eng.config τ agentId subject predicate none asOf) =
        ((lineClaims eng.config τ agentId subject predicate none).filter fun c =>
          (rowOf τ agentId none asOf c).isLive).map (rowOf τ agentId none asOf) := fun τ => by
      rw [liveRows, lineRows, List.filter_map]
      rfl
    rw [selected_eq (rowOf_claim _ _ _ _) (hlive _), selected_eq (rowOf_claim _ _ _ _) (hlive _)]
    simp only [lineClaims_passed, (halike agentId asOf _).isLive, List.map_map]
    exact List.map_congr_left fun c _ => rfl
  · rw [deniedViaAdjudication_eq, deniedViaAdjudication_eq, hdenied, loadSubjectLine,
      loadSubjectLine, passed_claims]
  · rw [conflictCandidates_eq, conflictCandidates_eq, candidateRows, candidateRows, lineRows,
      lineRows, lineClaims_passed, List.filter_map, List.filter_map, List.map_map, List.map_map]
    have hcand : ∀ c, isCandidate (deniedOf (passed eng σ req now) agentId none)
        (rowOf (passed eng σ req now) agentId none asOf c) =
          isCandidate (deniedOf σ agentId none) (rowOf σ agentId none asOf c) := fun c =>
      (halike agentId asOf c).isCandidate (hdenied agentId _)
    simp only [Function.comp_def, hcand]
    exact List.map_congr_left fun c _ => (halike agentId asOf c).candidateClaim

end Lines

section Repeat

variable {eng : Engine} {σ : Store} {req : ReconcileRequest} {now : Instant}

theorem decisions_of_sameLines {τ : Store} (h : SameLines eng.config σ τ)
    (req : ReconcileRequest) (now : Instant) :
    decisions eng τ req now = decisions eng σ req now := by
  rw [decisions_eq, decisions_eq]
  refine List.flatMap_congr fun line _ => ?_
  rw [lineDecisions_eq, lineDecisions_eq, h.selected, h.candidates]

theorem passEntries_of_sameLines {τ : Store} (h : SameLines eng.config σ τ)
    (req : ReconcileRequest) (now : Instant) (c : Claim) :
    passEntries eng τ req now c = passEntries eng σ req now c := by
  simp only [passEntries, gateEntry, lineSelected, lineCandidates, h.selected, h.candidates]

theorem SteadyClaim.append_iff {agentId : AgentId} {news more : List LedgerEntry} {c : Claim}
    (h : SteadyClaim eng σ agentId news c)
    (hentries : entriesOf (passed eng σ req now) agentId none c.claimRef =
      entriesOf σ agentId none c.claimRef ++ news)
    (hdenied : deniedOf (passed eng σ req now) agentId none c.claimRef =
      deniedOf σ agentId none c.claimRef) :
    SteadyClaim eng σ agentId (news ++ more) c ↔
      SteadyClaim eng (passed eng σ req now) agentId more c := by
  obtain ⟨hcoherent, hundenied⟩ := h
  constructor
  all_goals
    rintro ⟨hcoherent', hundenied'⟩
    constructor
    · simp only [hentries, passed_ties, TieOrder.overtakes_append] at hcoherent' ⊢
      tauto
    · simp only [hentries, passed_ties, hdenied, TieOrder.overtakes_append] at hundenied' ⊢
      tauto

theorem SteadyClaim.of_append {agentId : AgentId} {news more : List LedgerEntry} {c : Claim}
    (h : SteadyClaim eng σ agentId (news ++ more) c) : SteadyClaim eng σ agentId news c where
  coherent := h.coherent.imp_right (Or.imp_right fun hbehind hnews =>
    hbehind ((TieOrder.overtakes_append _ _).mpr (.inl hnews)))
  undenied := h.undenied.imp_right fun hbehind hnews =>
    hbehind ((TieOrder.overtakes_append _ _).mpr (.inl hnews))

theorem once_of_steady (h : Steady eng σ req now) : SteadyOnce eng σ req now :=
  fun line hline cs hcs => (h line hline cs hcs).of_append

/-- After a steady pass, the next one writes the same entries behind the same rows. -/
theorem steady_iff_passed (hσ : Reachable eng σ) (hτ : Reachable eng (passed eng σ req now))
    (honce : SteadyOnce eng σ req now) :
    Steady eng σ req now ↔ SteadyOnce eng (passed eng σ req now) req now := by
  have hsame := sameLines_of_steady hσ hτ honce
  have hclaim : ∀ line ∈ req.subjectLines, ∀ cs ∈
      (foldForWrite eng.config σ req.agentId line.1 line.2 now).liveClaims,
      (SteadyClaim eng σ req.agentId
          (passEntries eng σ req now cs.claim ++ passEntries eng σ req now cs.claim) cs.claim ↔
        SteadyClaim eng (passed eng σ req now) req.agentId
          (passEntries eng (passed eng σ req now) req now cs.claim) cs.claim) := by
    intro line hline cs hcs
    have hentries : entriesOf (passed eng σ req now) req.agentId none cs.claim.claimRef =
        entriesOf σ req.agentId none cs.claim.claimRef ++
          passNews eng σ req now req.agentId cs.claim.claimRef := entriesOf_passed _ _
    rw [passNews_of_selected hσ req (selectedRows_eq .. ▸ hcs)] at hentries
    rw [passEntries_of_sameLines hsame]
    exact (honce line hline cs hcs).append_iff hentries (deniedOf_passed hσ hτ honce _)
  refine forall₂_congr fun line hline => ⟨fun h cs hcs => ?_, fun h cs hcs => ?_⟩
  · have hmem := List.mem_map_of_mem (f := ClaimWithStatus.claim) hcs
    rw [hsame.selected] at hmem
    obtain ⟨cs₀, hcs₀, hsameClaim⟩ := List.mem_map.mp hmem
    exact hsameClaim ▸ (hclaim line hline cs₀ hcs₀).mp (h cs₀ hcs₀)
  · have hmem := List.mem_map_of_mem (f := ClaimWithStatus.claim) hcs
    rw [← hsame.selected] at hmem
    obtain ⟨cs₀, hcs₀, hsameClaim⟩ := List.mem_map.mp hmem
    exact (hclaim line hline cs hcs).mpr (hsameClaim ▸ h cs₀ hcs₀)

/-- A pass that changes nothing a fold reads was steady. -/
theorem steady_of_sameLines (hσ : Reachable eng σ) (hτ : Reachable eng (passed eng σ req now))
    (hsame : SameLines eng.config σ (passed eng σ req now)) : SteadyOnce eng σ req now := by
  have hattrσ := attributed_of_reachable hσ
  have hattrτ := attributed_of_reachable hτ
  intro line hline cs hcs
  have hselected : cs.claim ∈
      (foldForWrite eng.config (passed eng σ req now) req.agentId line.1 line.2
        now).liveClaims.map (·.claim) := by
    rw [hsame.selected]
    exact List.mem_map_of_mem hcs
  rw [← selectedRows_eq] at hcs
  rw [← passNews_of_selected hσ req hcs]
  obtain ⟨c, hc, hline', rfl, hlive⟩ := live_of_selected hσ hcs
  rw [rowOf_claim] at hselected ⊢
  constructor
  · -- a quarantine that is read ahead would take the claim out of the selection
    by_contra hnot
    simp only [not_or, not_not, Bool.not_eq_false, Bool.not_eq_true] at hnot
    obtain ⟨hrecall, hincoherent, e, he, hfirst⟩ := hnot
    obtain ⟨cs', hcs', href⟩ := List.mem_map.mp hselected
    rw [← selectedRows_eq] at hcs'
    obtain ⟨c', _, _, rfl, hlive'⟩ := live_of_selected hτ hcs'
    rw [rowOf_claim] at href
    have hkept := ((rowOf_isLive _ _ _ _ _).mp hlive').2 e.disposition
      (by rw [latestOf, href, entriesOf_passed, passed_ties, hfirst, Option.map_some])
    rw [isNonLive_of_passNews hσ hc he] at hkept
    simp [hrecall, hincoherent] at hkept
  · -- an entry of the pass that the other reader takes would lift the denial
    by_contra hnot
    simp only [not_or, not_not, Bool.not_eq_false] at hnot
    obtain ⟨hdenied, a, ha, hahead⟩ := hnot
    have hmem : c.claimRef ∈
        (loadSubjectLine σ req.agentId line.1 line.2 none).map (·.claimRef) :=
      List.mem_map_of_mem (mem_loadSubjectLine.mpr ⟨hc, hline', rfl⟩)
    have hkept := hsame.denied req.agentId line.1 line.2 c.claimRef
    rw [deniedViaAdjudication_eq, deniedViaAdjudication_eq, loadSubjectLine, passed_claims,
      ← loadSubjectLine, List.contains_iff_mem.mpr hmem, hdenied, Bool.true_and, Bool.and_true,
      deniedOf_iff hattrτ, entriesOf_passed, passed_ties, TieOrder.last_eq_first_reverse,
      hahead] at hkept
    obtain ⟨e, hlast, hsup, _⟩ := hkept
    cases hlast
    have hquiet := passNews_quiet ha
    rw [hsup] at hquiet
    cases hquiet

end Repeat

section Main

variable {eng : Engine} {σ : Store} {req : ReconcileRequest} {now : Instant}

theorem reachable_passed (hσ : Reachable eng σ) (req : ReconcileRequest) (now : Instant) :
    Reachable eng (passed eng σ req now) :=
  hσ.step (i := .reconcile req now) ⟨trivial, rfl⟩

theorem reconcile_stable_iff (hσ : Reachable eng σ) (req : ReconcileRequest) (now : Instant) :
    Stable eng σ req now ↔ Steady eng σ req now := by
  have hτ := reachable_passed hσ req now
  constructor
  · intro h
    exact (steady_iff_passed hσ hτ (steady_of_sameLines hσ hτ h.first)).mpr
      (steady_of_sameLines hτ (reachable_passed hτ req now) h.second)
  · intro hsteady
    have honce := once_of_steady hsteady
    have hsame := sameLines_of_steady hσ hτ honce
    refine ⟨hsame, ?_, ?_⟩
    · exact sameLines_of_steady hτ (reachable_passed hτ req now)
        ((steady_iff_passed hσ hτ honce).mp hsteady)
    · rw [outcomes_eq, outcomes_eq, decisions_of_sameLines hsame]

def cityTwice : ReconcileRequest := ⟨agent, [("user", "location"), ("user", "location")]⟩

def rivalsReconciled : Store :=
  run (defaultEngine false) Store.sqlite (rivals ++ [.reconcile cityTwice 30])

theorem rivals_reconciled_stable : Stable (defaultEngine false) rivalsReconciled cityTwice 40 :=
  (reconcile_stable_iff (run_reachable (by decide)) cityTwice 40).mpr (by decide)

/-- A reopened claim of an untenable window is live until a pass quarantines it again. -/
theorem reopened_claim_quarantined_again :
    let σ := run (defaultEngine false) Store.sqlite
      [.ingestClaim (remember "Paris" (some (dated 50 none))) 10 ⟨1⟩ (.ok 100),
        .assertValidity (assertOn 1 (.bound 60 none)) 70 201,
        .assertValidity (assertOn 1 .reopen) 80 202]
    Reachable (defaultEngine false) σ ∧
      (Reconcile.execute (defaultEngine false) σ cityTwice 90).1.outcomes =
        [(⟨1⟩, .quarantined), (⟨1⟩, .quarantined)] ∧
      (Reconcile.execute (defaultEngine false)
        (passed (defaultEngine false) σ cityTwice 90) cityTwice 90).1.outcomes = [] ∧
      ¬ Stable (defaultEngine false) σ cityTwice 90 := by
  intro σ
  have hfirst : (Reconcile.execute (defaultEngine false) σ cityTwice 90).1.outcomes =
      [(⟨1⟩, .quarantined), (⟨1⟩, .quarantined)] := by decide
  have hsecond : (Reconcile.execute (defaultEngine false)
      (passed (defaultEngine false) σ cityTwice 90) cityTwice 90).1.outcomes = [] := by decide
  refine ⟨run_reachable (by decide), hfirst, hsecond, fun h => ?_⟩
  have hsame := h.outcomes
  rw [hfirst, hsecond] at hsame
  cases hsame

end Main

end Mempill.ReconcileStable
