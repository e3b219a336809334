import Mempill.PendingRows

set_option autoImplicit false

/-!
# Affirm

When an affirming verdict settles the dispute on its line.
-/
namespace Mempill.AffirmSettles
open Mempill.Types Mempill.Persistence Mempill.TruthEngine Mempill.Rows Mempill.IngestClaim
open Mempill.SubmitAdjudication Mempill.Engine Mempill.Steps Mempill.Invariants Mempill.PendingRows
open HalfOpen StampedLog

section Statement

/-- The instants a valid time may cover; a missing end point leaves it open. -/
def Covers (vt : ValidTime) (t : Instant) : Prop :=
  vt.start.all (fun s => decide (s ≤ t)) = true ∧ EndsAfter t vt.stop

instance (vt : ValidTime) (t : Instant) : Decidable (Covers vt t) := by
  unfold Covers; infer_instance

def Overlaps (vt vt' : ValidTime) : Prop := ∃ t, Covers vt t ∧ Covers vt' t

/-- After the verdict: the bound on the incumbent is not before its start, the
    challenger is live, and no live claim of another value overlaps it. -/
structure Settles (config : EngineConfig) (τ : Store) (row : PendingAdjudicationRow)
    (challenger incumbent : Claim) (boundAt q : Instant) : Prop where
  coherent : ∀ s, incumbent.validTime.start = some s → s ≤ boundAt
  live : ∃ cs ∈ liveRows (visibleRows config τ row.agentId row.subject row.predicate q),
    cs.claim = challenger
  alone : ∀ cs ∈ liveRows (visibleRows config τ row.agentId row.subject row.predicate q),
    cs.claim.fact.value ≠ challenger.fact.value →
      ¬ Overlaps cs.claim.validTime challenger.validTime

end Statement

section Condition

variable (σ : Store) (row : PendingAdjudicationRow) (boundAt : Instant)
variable (evidence : ProvenanceLabel) (now q : Instant)

def affirmEntries : List LedgerEntry :=
  [supersededEntry row.agentId row.incumbentClaimRef row.challengerClaimRef boundAt now
      "affirm"] ++
    cascadeEntries row.agentId row.incumbentClaimRef row.challengerClaimRef now
      (loadEdgesFor σ row.agentId row.incumbentClaimRef) ++
    [resolvedEntry row.agentId row.challengerClaimRef .committedCheap (affirmRationale evidence)
      now]

/-- The entries that the verdict writes for one claim. -/
def affirmEntriesFor (r : ClaimRef) : List LedgerEntry :=
  (affirmEntries σ row boundAt evidence now).filter fun x =>
    x.agentId == row.agentId && x.claimRef == r && withinCutoff none x.recordedAt

/-- An entry of the verdict decides the claim: it is later than the stored ones, or read
    ahead of those it ties with. -/
def ReadAhead (r : ClaimRef) : Prop :=
  σ.ties.Overtakes LedgerEntry.recordedAt (entriesOf σ row.agentId none r)
    (affirmEntriesFor σ row boundAt evidence now r)

/-- The verdict also flags the claim for review, and the flag decides it. -/
def FlagAhead (r : ClaimRef) : Prop :=
  ∃ e ∈ affirmEntriesFor σ row boundAt evidence now r, e.disposition = .pendingReview ∧
    σ.ties.first LedgerEntry.recordedAt
      (entriesOf σ row.agentId none r ++ affirmEntriesFor σ row boundAt evidence now r) = some e

def DispositionLive (r : ClaimRef) : Prop :=
  (latestOf σ row.agentId none r).all (fun d => !isNonLiveDisposition d) = true

def Unbound (r : ClaimRef) : Prop :=
  activeBoundAt (assertionsOf σ row.agentId r) q = none

/-- Rows that outweigh the verdict's bound keep the incumbent live: an assertion with a
    later key, and a live entry that the verdict is not read ahead of, or the flag of an
    incumbent that depends on itself. -/
def IncumbentSurvives (granularity : Option DateGranularity) (assertionRef : Uuid) : Prop :=
  activeBoundAt (assertionsOf σ row.agentId row.incumbentClaimRef ++
      [oracleAssertion row.agentId row.incumbentClaimRef boundAt granularity now assertionRef]) q =
    none ∧
    (¬ ReadAhead σ row boundAt evidence now row.incumbentClaimRef ∧
        DispositionLive σ row row.incumbentClaimRef ∨
      FlagAhead σ row boundAt evidence now row.incumbentClaimRef)

/-- A claim other than the two disputed ones stays live, or is revived by the flag that it
    gets as a dependent of the incumbent. -/
def StaysLive (r : ClaimRef) : Prop :=
  Unbound σ row q r ∧ (ReadAhead σ row boundAt evidence now r ∨ DispositionLive σ row r)

/-- The condition on the store before the verdict. -/
structure Settleable (challenger incumbent : Claim) (granularity : Option DateGranularity)
    (assertionRef : Uuid) : Prop where
  coherent : ∀ s, incumbent.validTime.start = some s → s ≤ boundAt
  challengerLive : Unbound σ row q challenger.claimRef ∧
    (ReadAhead σ row boundAt evidence now challenger.claimRef ∨
      DispositionLive σ row challenger.claimRef)
  incumbentEnds : incumbent.fact.value ≠ challenger.fact.value →
    Overlaps incumbent.validTime challenger.validTime →
      ¬ IncumbentSurvives σ row boundAt evidence now q granularity assertionRef
  othersEnd : ∀ c ∈ σ.claims, onLine row.agentId row.subject row.predicate c = true →
    c.claimRef ≠ challenger.claimRef → c.claimRef ≠ incumbent.claimRef →
      c.fact.value ≠ challenger.fact.value →
        Overlaps c.validTime challenger.validTime →
          ¬ StaysLive σ row boundAt evidence now q c.claimRef

end Condition

section Written

variable {config : EngineConfig} {σ τ : Store} {row : PendingAdjudicationRow}
variable {challenger : Claim} {response : AdjudicationResponse} {now q : Instant}
variable {assertionRef : Uuid}

theorem mem_affirmEntries {boundAt : Instant} {evidence : ProvenanceLabel} {x : LedgerEntry}
    (h : x ∈ affirmEntries σ row boundAt evidence now) :
    (x.claimRef = row.incumbentClaimRef ∧ x.disposition = .superseded) ∨
      x.disposition = .pendingReview ∨
      (x.claimRef = row.challengerClaimRef ∧ x.disposition = .committedCheap) := by
  unfold affirmEntries cascadeEntries at h
  simp only [List.cons_append, List.nil_append, List.mem_cons, List.mem_append, List.mem_map,
    List.not_mem_nil, or_false] at h
  rcases h with rfl | ⟨_, _, rfl⟩ | rfl
  · exact .inl ⟨rfl, rfl⟩
  · exact .inr (.inl rfl)
  · exact .inr (.inr ⟨rfl, rfl⟩)

theorem mem_affirmEntriesFor {boundAt : Instant} {evidence : ProvenanceLabel} {r : ClaimRef}
    {x : LedgerEntry} (h : x ∈ affirmEntriesFor σ row boundAt evidence now r) :
    x ∈ affirmEntries σ row boundAt evidence now ∧ x.claimRef = r := by
  obtain ⟨hmem, hp⟩ := List.mem_filter.mp h
  simp only [Bool.and_eq_true, beq_iff_eq] at hp
  exact ⟨hmem, hp.1.2⟩

/-- Only the bound on the incumbent records a disposition that is not live. -/
theorem live_of_affirmEntriesFor {boundAt : Instant} {evidence : ProvenanceLabel} {r : ClaimRef}
    (hinc : r ≠ row.incumbentClaimRef) :
    ∀ x ∈ affirmEntriesFor σ row boundAt evidence now r,
      isNonLiveDisposition x.disposition = false := by
  intro x hx
  obtain ⟨hmem, href⟩ := mem_affirmEntriesFor hx
  rcases mem_affirmEntries hmem with ⟨hi, _⟩ | hd | ⟨_, hd⟩
  · exact absurd (href.symm.trans hi) hinc
  · rw [hd]; rfl
  · rw [hd]; rfl

/-- An affirming verdict on a pending row, and the store it leaves. -/
structure Affirmed (config : EngineConfig) (σ τ : Store) (row : PendingAdjudicationRow)
    (challenger : Claim) (evidence : ProvenanceLabel) (now : Instant) (assertionRef : Uuid) :
    Prop where
  claims : τ.claims = σ.claims
  assertions : τ.assertions = σ.assertions ++
    [oracleAssertion row.agentId row.incumbentClaimRef (affirmBoundAt config challenger now).1
      (affirmBoundAt config challenger now).2 now assertionRef]
  ledger : τ.ledger = σ.ledger ++
    affirmEntries σ row (affirmBoundAt config challenger now).1 evidence now
  ties : τ.ties = σ.ties

theorem affirmed_of_appends (hverdict : response.verdict = .affirm)
    (h : Appends σ τ (verdictWritten config σ row challenger response now assertionRef)) :
    Affirmed config σ τ row challenger response.evidenceProvenance now assertionRef := by
  have hc := h.claims
  have ha := h.assertions
  have hl := h.ledger
  simp only [verdictWritten_claims, List.append_nil] at hc
  simp only [verdictWritten, hverdict] at ha hl
  exact ⟨hc, ha, hl, h.ties⟩

end Written

section Live

variable {config : EngineConfig} {σ τ : Store} {row : PendingAdjudicationRow}
variable {challenger : Claim} {evidence : ProvenanceLabel} {now q : Instant}
variable {assertionRef : Uuid}

theorem dispositionLive_iff {r : ClaimRef} :
    DispositionLive σ row r ↔
      ∀ d, latestOf σ row.agentId none r = some d → isNonLiveDisposition d = false := by
  unfold DispositionLive
  cases latestOf σ row.agentId none r <;> simp

variable (h : Affirmed config σ τ row challenger evidence now assertionRef)

include h

theorem assertionsOf_affirmed (r : ClaimRef) :
    assertionsOf τ row.agentId r = assertionsOf σ row.agentId r ++
      if r = row.incumbentClaimRef then
        [oracleAssertion row.agentId row.incumbentClaimRef
          (affirmBoundAt config challenger now).1 (affirmBoundAt config challenger now).2 now
          assertionRef]
      else [] := by
  rw [assertionsOf, h.assertions, List.filter_append, ← assertionsOf]
  congr 1
  by_cases hr : r = row.incumbentClaimRef
  · simp [oracleAssertion, hr]
  · simp [oracleAssertion, hr, Ne.symm hr]

theorem latestOf_affirmed (r : ClaimRef) :
    latestOf τ row.agentId none r =
      (σ.ties.first LedgerEntry.recordedAt (entriesOf σ row.agentId none r ++
        affirmEntriesFor σ row (affirmBoundAt config challenger now).1 evidence now r)).map
          (·.disposition) := by
  rw [latestOf, entriesOf, h.ledger, h.ties, List.filter_append, ← entriesOf, affirmEntriesFor]

theorem dispositionLive_affirmed {r : ClaimRef} (hinc : r ≠ row.incumbentClaimRef) :
    DispositionLive τ row r ↔
      ReadAhead σ row (affirmBoundAt config challenger now).1 evidence now r ∨
        DispositionLive σ row r := by
  unfold DispositionLive
  rw [latestOf_affirmed h]
  by_cases hahead : ReadAhead σ row (affirmBoundAt config challenger now).1 evidence now r
  · refine iff_of_true ?_ (.inl hahead)
    obtain ⟨e, he, hfirst⟩ := hahead
    simp [hfirst, live_of_affirmEntriesFor hinc e he]
  · rw [σ.ties.first_append_of_not_overtakes _ hahead, ← latestOf]
    simp only [hahead, false_or]

theorem dispositionLive_incumbent (hne : row.challengerClaimRef ≠ row.incumbentClaimRef) :
    DispositionLive τ row row.incumbentClaimRef ↔
      ¬ ReadAhead σ row (affirmBoundAt config challenger now).1 evidence now
          row.incumbentClaimRef ∧ DispositionLive σ row row.incumbentClaimRef ∨
        FlagAhead σ row (affirmBoundAt config challenger now).1 evidence now
          row.incumbentClaimRef := by
  unfold DispositionLive
  rw [latestOf_affirmed h]
  by_cases hahead : ReadAhead σ row (affirmBoundAt config challenger now).1 evidence now
      row.incumbentClaimRef
  · simp only [hahead, not_true_eq_false, false_and, false_or]
    obtain ⟨e, he, hfirst⟩ := hahead
    obtain ⟨hmem, href⟩ := mem_affirmEntriesFor he
    rcases mem_affirmEntries hmem with ⟨_, hd⟩ | hd | ⟨hch, _⟩
    · refine iff_of_false (by simp [hfirst, hd, isNonLiveDisposition]) ?_
      rintro ⟨e', _, hflag, hfirst'⟩
      rw [Option.some.inj (hfirst.symm.trans hfirst'), hflag] at hd
      cases hd
    · exact iff_of_true (by simp [hfirst, hd, isNonLiveDisposition]) ⟨e, he, hd, hfirst⟩
    · exact absurd (hch.symm.trans href) hne
  · have hflag : ¬ FlagAhead σ row (affirmBoundAt config challenger now).1 evidence now
        row.incumbentClaimRef := by
      rintro ⟨e, he, _, hfirst⟩
      exact hahead ⟨e, he, hfirst⟩
    rw [σ.ties.first_append_of_not_overtakes _ hahead, ← latestOf]
    simp only [hahead, hflag, not_false_eq_true, true_and, or_false]

theorem challenger_live_iff (hch : challenger.claimRef = row.challengerClaimRef)
    (hne : row.challengerClaimRef ≠ row.incumbentClaimRef) :
    (rowOf τ row.agentId none q challenger).isLive = true ↔
      Unbound σ row q challenger.claimRef ∧
        (ReadAhead σ row (affirmBoundAt config challenger now).1 evidence now
            challenger.claimRef ∨ DispositionLive σ row challenger.claimRef) := by
  have hinc : challenger.claimRef ≠ row.incumbentClaimRef := hch ▸ hne
  rw [rowOf_isLive, ← dispositionLive_iff, assertionsOf_affirmed h, if_neg hinc, List.append_nil]
  exact and_congr Iff.rfl (dispositionLive_affirmed h hinc)

theorem incumbent_live_iff {incumbent : Claim}
    (hinc : incumbent.claimRef = row.incumbentClaimRef)
    (hne : row.challengerClaimRef ≠ row.incumbentClaimRef) :
    (rowOf τ row.agentId none q incumbent).isLive = true ↔
      IncumbentSurvives σ row (affirmBoundAt config challenger now).1 evidence now q
        (affirmBoundAt config challenger now).2 assertionRef := by
  rw [rowOf_isLive, ← dispositionLive_iff, hinc, assertionsOf_affirmed h, if_pos rfl]
  exact and_congr Iff.rfl (dispositionLive_incumbent h hne)

theorem other_live_iff {c : Claim} (hinc : c.claimRef ≠ row.incumbentClaimRef) :
    (rowOf τ row.agentId none q c).isLive = true ↔
      StaysLive σ row (affirmBoundAt config challenger now).1 evidence now q c.claimRef := by
  rw [rowOf_isLive, ← dispositionLive_iff, assertionsOf_affirmed h, if_neg hinc, List.append_nil]
  exact and_congr Iff.rfl (dispositionLive_affirmed h hinc)

end Live

section Main

variable {eng : Engine} {σ : Store} {row : PendingAdjudicationRow} {handleId : Uuid}
variable {response : AdjudicationResponse} {now q : Instant} {assertionRef : Uuid}
variable {challenger incumbent : Claim} {outcome : AdjudicationOutcome}

theorem mem_liveRows_visible {τ : Store} {config : EngineConfig} (hstamps : StampsBy τ q)
    {cs : ClaimWithStatus} :
    cs ∈ liveRows (visibleRows config τ row.agentId row.subject row.predicate q) ↔
      cs.claim ∈ τ.claims ∧ onLine row.agentId row.subject row.predicate cs.claim = true ∧
        rowOf τ row.agentId none q cs.claim = cs ∧
        (rowOf τ row.agentId none q cs.claim).isLive = true := by
  rw [mem_liveRows, visibleRows, lineRows_of_stampsBy hstamps, mem_lineRows]
  constructor
  · rintro ⟨⟨c, hc, rfl⟩, hlive⟩
    obtain ⟨hmem, hline, _⟩ := mem_lineClaims.mp hc
    exact ⟨hmem, hline, rfl, hlive⟩
  · rintro ⟨hmem, hline, hrow, hlive⟩
    exact ⟨⟨cs.claim, mem_lineClaims.mpr ⟨hmem, hline, rfl⟩, hrow⟩, hrow ▸ hlive⟩

def disputed : Store :=
  run (defaultEngine true) Store.sqlite
    [.ingestClaim (remember "Paris" (some (dated 1 none))) 10 ⟨1⟩ (.ok 100),
      .ingestClaim (remember "Berlin" (some (dated 5 none))) 20 ⟨2⟩ (.ok 101)]

def affirmative (handleId : Uuid) : AdjudicationResponse :=
  ⟨handleId, .affirm, .external .externalFirstHand⟩

def disputedRow : PendingAdjudicationRow := (getPending disputed 101).get (by decide)

def incumbentParis : Claim := stamp (remember "Paris" (some (dated 1 none))) ⟨1⟩ 10

def challengerBerlin : Claim := stamp (remember "Berlin" (some (dated 5 none))) ⟨2⟩ 20

/-- Mary disputes Linda's window, her request names John, and John is bounded before
    his own start while Linda stays live. -/
def misnamed : Store :=
  run (defaultEngine true) Store.sqlite
    [.ingestClaim (remember "Linda" (some (dated 1 (some 5)))) 10 ⟨1⟩ (.ok 100),
      .ingestClaim (remember "John" (some (dated 5 none))) 10 ⟨2⟩ (.ok 101),
      .ingestClaim (remember "Mary" (some (dated 2 (some 4)))) 20 ⟨3⟩ (.ok 102)]

end Main

end Mempill.AffirmSettles
