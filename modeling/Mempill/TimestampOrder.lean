import Mempill.Lib.Timestamp
import Mempill.RowRoundTrip
import Mempill.SharedStore

set_option autoImplicit false

/-!
# Timestamp order

The selects of the SQLite adapter compare, order and take the maximum of timestamps as
texts. For the texts that `to_rfc3339` prints of four-digit years they select what the
comparisons of instants do.
-/
namespace Mempill.TimestampOrder
open Mempill.Types Mempill.Persistence Mempill.Queries Mempill.SubmitAdjudication
open Mempill.SqliteRows hiding loadSubjectLine loadClaim loadValidityAssertionsFor
open Mempill.SharedStore hiding listExpired
open Mempill.Sweep hiding sweepExpiredAdjudications
open Mempill.Engine Mempill.RowRoundTrip StampedLog

section Selects

variable (f : Formats)

/-- `stamp <= ?` where a cutoff is given. -/
def textWithin (asOf : Option Instant) (stamp : Instant) : Bool :=
  asOf.all fun t => decide (f.toRfc3339 stamp ≤ f.toRfc3339 t)

def storedPredicates (σ : Store) (agentId : AgentId) (subject : String)
    (asOfTxTime : Option Instant) : List String :=
  ((σ.claims.filter fun c => c.agentId == agentId && c.fact.subject == subject &&
    textWithin f asOfTxTime c.transactionTime).map (·.fact.predicate)).dedup

def storedLedger (σ : Store) (agentId : AgentId) (from_ : Option Instant) (limit : ℕ) :
    List LedgerEntry :=
  (inOrder (fun e => f.toRfc3339 e.recordedAt) (σ.ties.arrange (σ.ledger.filter fun e =>
    e.agentId == agentId &&
      from_.all fun t => decide (f.toRfc3339 t ≤ f.toRfc3339 e.recordedAt)))).take limit

/-- One statement for each 900 references, ordered by itself. -/
def storedLedgerForClaims (σ : Store) (agentId : AgentId) (claimRefs : List ClaimRef)
    (asOfTxTime : Option Instant) : List LedgerEntry :=
  (claimRefs.toChunks 900).flatMap fun chunk =>
    inOrder (fun e => f.toRfc3339 e.recordedAt) (σ.ties.arrange (σ.ledger.filter fun e =>
      e.agentId == agentId && chunk.contains e.claimRef &&
        textWithin f asOfTxTime e.recordedAt))

/-- Ordered by `MIN(recorded_at)` of each claim. -/
def storedInjectedClaims (σ : Store) (agentId : AgentId) : List ClaimRef :=
  ((inOrder (fun e => f.toRfc3339 e.recordedAt) (σ.ties.arrange (σ.ledger.filter fun e =>
    e.agentId == agentId && e.eventKind == .servedAsInjected))).map (·.claimRef)).eraseDups

def storedEdges (σ : Store) (agentId : AgentId) (claimRef : ClaimRef) : List ClaimEdge :=
  inOrder (fun e => f.toRfc3339 e.createdAt) (σ.edges.filter fun e =>
    e.agentId == agentId && (e.fromClaim == claimRef || e.toClaim == claimRef))

/-- `recorded_at = (SELECT MAX(recorded_at) …)` over the entries of its claim. -/
def isStoredMax (σ : Store) (entry : LedgerEntry) : Bool :=
  lastMax id ((σ.ledger.filter fun e => e.claimRef == entry.claimRef &&
    e.agentId == entry.agentId).map fun e => f.toRfc3339 e.recordedAt) ==
      some (f.toRfc3339 entry.recordedAt)

/-- `find_committed_cheap_claim`. -/
def storedCommittedCheap (σ : Store) (agentId : AgentId) (subject predicate : String) :
    Option ClaimRef :=
  (firstMax (fun e => f.toRfc3339 e.recordedAt) (σ.ledger.filter fun e =>
    e.agentId == agentId && e.disposition == .committedCheap && isStoredMax f σ e &&
      (claimsOf σ e).any fun c =>
        c.fact.subject == subject && c.fact.predicate == predicate)).map (·.claimRef)

/-- `list_queued_orphan_claims`. -/
def storedOrphans (σ : Store) : List OrphanedQueuedClaim :=
  (σ.ledger.filter fun e => e.disposition == .queuedForAdjudication && isStoredMax f σ e &&
      !hasPendingRow σ e.agentId e.claimRef).flatMap fun e =>
    (claimsOf σ e).map fun c =>
      { agentId := e.agentId
        challengerClaimRef := e.claimRef
        incumbentClaimRef := storedCommittedCheap f σ e.agentId c.fact.subject c.fact.predicate
        subject := c.fact.subject
        predicate := c.fact.predicate }

end Selects

section Alike

/-- `to_rfc3339` of a four-digit year: 0, 3, 6 or 9 fractional digits as needed, and the
    offset `+00:00`. -/
def Prints (f : Formats) : Prop :=
  ∀ t, FourDigitYear t → f.toRfc3339 t = String.ofList (Timestamp.rfc3339 t)

/-- Every timestamp in the store has a four-digit year. -/
structure FourDigitStamps (σ : Store) : Prop where
  claims : ∀ c ∈ σ.claims, FourDigitYear c.transactionTime
  assertions : ∀ a ∈ σ.assertions, FourDigitYear a.assertedAt
  ledger : ∀ e ∈ σ.ledger, FourDigitYear e.recordedAt
  edges : ∀ e ∈ σ.edges, FourDigitYear e.createdAt
  queuedAt : ∀ row ∈ σ.pending, FourDigitYear row.queuedAt
  expiresAt : ∀ row ∈ σ.pending, ∀ t ∈ row.expiresAt, FourDigitYear t

/-- The selects by texts answer as those by instants. -/
structure SelectsAlike (f : PendingFormats) (σ : Store) : Prop where
  subjectLine : ∀ agentId subject predicate asOf, (∀ t ∈ asOf, FourDigitYear t) →
    storedLine f.toFormats σ agentId subject predicate asOf =
      loadSubjectLine σ agentId subject predicate asOf
  predicates : ∀ agentId subject asOf, (∀ t ∈ asOf, FourDigitYear t) →
    storedPredicates f.toFormats σ agentId subject asOf =
      listPredicatesForSubject σ agentId subject asOf
  assertions : ∀ agentId claimRef,
    storedAssertions f.toFormats σ agentId claimRef = loadValidityAssertionsFor σ agentId claimRef
  ledger : ∀ agentId from_ limit, (∀ t ∈ from_, FourDigitYear t) →
    storedLedger f.toFormats σ agentId from_ limit = loadLedger σ agentId from_ limit
  ledgerForClaims : ∀ agentId claimRefs asOf, (∀ t ∈ asOf, FourDigitYear t) →
    storedLedgerForClaims f.toFormats σ agentId claimRefs asOf =
      (claimRefs.toChunks 900).flatMap fun chunk => loadLedgerForClaims σ agentId chunk asOf
  injected : ∀ agentId, storedInjectedClaims f.toFormats σ agentId = loadInjectedClaims σ agentId
  edges : ∀ agentId claimRef,
    storedEdges f.toFormats σ agentId claimRef = loadEdgesFor σ agentId claimRef
  pending : ∀ agentId, listPending f σ agentId =
    (inOrder PendingAdjudicationRow.queuedAt (σ.pending.filter fun row =>
      Option.all (row.agentId == ·) agentId && row.status == .pending)).mapM (rowToPending f)
  expired : ∀ now, FourDigitYear now → expiredRows f σ now = listExpired σ now
  orphans : storedOrphans f.toFormats σ = listQueuedOrphanClaims σ

end Alike

section Order

variable {f : Formats}

theorem fourDigits_of_fourDigitYear {t : Instant} (h : FourDigitYear t) : Timestamp.FourDigits t :=
  (Timestamp.fourDigits_iff t).mpr h

theorem Prints.lt_iff (hf : Prints f) {t u : Instant} (ht : FourDigitYear t)
    (hu : FourDigitYear u) : f.toRfc3339 t < f.toRfc3339 u ↔ t < u := by
  rw [hf t ht, hf u hu, String.lt_iff_toList_lt, String.toList_ofList, String.toList_ofList]
  exact Timestamp.rfc3339_lt_iff (fourDigits_of_fourDigitYear ht) (fourDigits_of_fourDigitYear hu)

/-- What reading the rows back in order rests on. -/
theorem Prints.ordered (hf : Prints f) : Ordered f := fun t u ht hu => by
  rw [← not_lt, hf.lt_iff hu ht, not_lt]

theorem toRfc3339_inj (hf : Ordered f) {t u : Instant} (ht : FourDigitYear t)
    (hu : FourDigitYear u) : f.toRfc3339 t = f.toRfc3339 u ↔ t = u := by
  refine ⟨fun h => le_antisymm ?_ ?_, congrArg f.toRfc3339⟩
  · exact (hf t u ht hu).mp h.le
  · exact (hf u t hu ht).mp h.ge

theorem textWithin_eq (hf : Ordered f) {asOf : Option Instant} {stamp : Instant}
    (hasOf : ∀ t ∈ asOf, FourDigitYear t) (hstamp : FourDigitYear stamp) :
    textWithin f asOf stamp = withinCutoff asOf stamp := by
  cases asOf with
  | none => rfl
  | some t => exact decide_eq_decide.mpr (hf stamp t hstamp (hasOf t rfl))

/-- Ordering by the text of a four-digit stamp is ordering by the stamp. -/
theorem inOrder_text {α : Type} (hf : Ordered f) {stamp : α → Instant} {log : List α}
    (h : ∀ a ∈ log, FourDigitYear (stamp a)) :
    inOrder (fun a => f.toRfc3339 (stamp a)) log = inOrder stamp log :=
  inOrder_congr _ fun a ha b hb => hf _ _ (h a ha) (h b hb)

theorem fourDigit_of_mem_arrange {σ : Store} (hσ : FourDigitStamps σ) {p : LedgerEntry → Bool} :
    ∀ e ∈ σ.ties.arrange (σ.ledger.filter p), FourDigitYear e.recordedAt := fun e he =>
  hσ.ledger e (List.mem_of_mem_filter (σ.ties.mem_arrange.mp he))

end Order

section Main

variable {f : PendingFormats} {σ : Store}

theorem storedLedgerForClaims_eq (hf : Ordered f.toFormats) (hσ : FourDigitStamps σ)
    {asOf : Option Instant} (hasOf : ∀ t ∈ asOf, FourDigitYear t) (agentId : AgentId)
    (claimRefs : List ClaimRef) :
    storedLedgerForClaims f.toFormats σ agentId claimRefs asOf =
      (claimRefs.toChunks 900).flatMap fun chunk => loadLedgerForClaims σ agentId chunk asOf := by
  refine List.flatMap_congr fun chunk _ => ?_
  rw [inOrder_text hf (fourDigit_of_mem_arrange hσ), loadLedgerForClaims]
  congr 2
  refine List.filter_congr fun e he => ?_
  rw [textWithin_eq hf hasOf (hσ.ledger e he)]

theorem storedLedger_eq (hf : Ordered f.toFormats) (hσ : FourDigitStamps σ)
    {from_ : Option Instant} (hfrom : ∀ t ∈ from_, FourDigitYear t) (agentId : AgentId)
    (limit : ℕ) :
    storedLedger f.toFormats σ agentId from_ limit = loadLedger σ agentId from_ limit := by
  rw [storedLedger, inOrder_text hf (fourDigit_of_mem_arrange hσ), loadLedger]
  congr 3
  refine List.filter_congr fun e he => congrArg (_ && ·) ?_
  cases from_ with
  | none => rfl
  | some t => exact decide_eq_decide.mpr (hf _ _ (hfrom t rfl) (hσ.ledger e he))

/-- The entry bears the greatest text of its claim's entries exactly if it bears their
    greatest stamp. -/
theorem isStoredMax_eq (hf : Ordered f.toFormats) (hσ : FourDigitStamps σ) {entry : LedgerEntry}
    (hentry : entry ∈ σ.ledger) : isStoredMax f.toFormats σ entry = isLatestEntry σ entry := by
  let own := σ.ledger.filter fun e => e.claimRef == entry.claimRef && e.agentId == entry.agentId
  have hmem : ∀ e, e ∈ own ↔
      e ∈ σ.ledger ∧ e.claimRef = entry.claimRef ∧ e.agentId = entry.agentId := by
    simp [own]
  have hlatest : isLatestEntry σ entry = true ↔ ∀ e ∈ own, e.recordedAt ≤ entry.recordedAt := by
    simp only [isLatestEntry, List.all_eq_true, Bool.or_eq_true, Bool.not_eq_true',
      Bool.and_eq_false_iff, beq_eq_false_iff_ne, decide_eq_true_eq, hmem]
    grind
  have hself : entry ∈ own := (hmem entry).mpr ⟨hentry, rfl, rfl⟩
  have hyear : ∀ e ∈ own, FourDigitYear e.recordedAt :=
    fun e he => hσ.ledger e (List.mem_of_mem_filter he)
  rw [Bool.eq_iff_iff, hlatest, isStoredMax, beq_iff_eq]
  constructor
  · intro hmax e he
    exact (hf _ _ (hyear e he) (hyear entry hself)).mp
      (le_of_lastMax id hmax (List.mem_map_of_mem he))
  · intro hle
    rcases lastMax_spec id (own.map fun e => f.toRfc3339 e.recordedAt) with
      ⟨_, hnil⟩ | ⟨text, hmax, htext, hgreatest⟩
    · rw [List.map_eq_nil_iff.mp hnil] at hself
      exact absurd hself List.not_mem_nil
    · obtain ⟨e, he, rfl⟩ := List.mem_map.mp htext
      have hge := hgreatest _ (List.mem_map_of_mem hself)
      have hlt := (hf _ _ (hyear e he) (hyear entry hself)).mpr (hle e he)
      exact hmax.trans (congrArg some (le_antisymm hlt hge))

theorem storedCommittedCheap_eq (hf : Ordered f.toFormats) (hσ : FourDigitStamps σ)
    (agentId : AgentId) (subject predicate : String) :
    storedCommittedCheap f.toFormats σ agentId subject predicate =
      findCommittedCheapClaim σ agentId subject predicate := by
  have hfilter : (σ.ledger.filter fun e => e.agentId == agentId &&
      e.disposition == .committedCheap && isStoredMax f.toFormats σ e &&
        (claimsOf σ e).any fun c =>
          c.fact.subject == subject && c.fact.predicate == predicate) =
      σ.ledger.filter fun e => e.agentId == agentId &&
        e.disposition == .committedCheap && isLatestEntry σ e &&
          (claimsOf σ e).any fun c =>
            c.fact.subject == subject && c.fact.predicate == predicate :=
    List.filter_congr fun e he => by rw [isStoredMax_eq hf hσ he]
  rw [storedCommittedCheap, findCommittedCheapClaim, hfilter]
  refine congrArg _ (firstMax_congr _ fun e he e' he' => ?_)
  exact hf _ _ (hσ.ledger e (List.mem_of_mem_filter he)) (hσ.ledger e' (List.mem_of_mem_filter he'))

theorem storedOrphans_eq (hf : Ordered f.toFormats) (hσ : FourDigitStamps σ) :
    storedOrphans f.toFormats σ = listQueuedOrphanClaims σ := by
  have hfilter : (σ.ledger.filter fun e => e.disposition == .queuedForAdjudication &&
      isStoredMax f.toFormats σ e && !hasPendingRow σ e.agentId e.claimRef) =
      σ.ledger.filter fun e => e.disposition == .queuedForAdjudication &&
        isLatestEntry σ e && !hasPendingRow σ e.agentId e.claimRef :=
    List.filter_congr fun e he => by rw [isStoredMax_eq hf hσ he]
  rw [storedOrphans, listQueuedOrphanClaims, hfilter]
  simp only [storedCommittedCheap_eq hf hσ]

theorem expiredRows_eq (hf : Ordered f.toFormats) (hσ : FourDigitStamps σ) {now : Instant}
    (hnow : FourDigitYear now) : expiredRows f σ now = listExpired σ now := by
  have hfilter : σ.pending.filter (lapsed f now) = σ.pending.filter fun row =>
      row.expiresAt.any (fun t => decide (t ≤ now)) && row.status == .pending := by
    refine List.filter_congr fun row hrow => congrArg (· && _) ?_
    have hyear := hσ.expiresAt row hrow
    cases hexpires : row.expiresAt with
    | none => rfl
    | some t => exact decide_eq_decide.mpr (hf t now (hyear t hexpires) hnow)
  rw [expiredRows, listExpired, hfilter]
  refine inOrder_congr _ fun row hrow row' hrow' => ?_
  obtain ⟨hmem, hlapsed⟩ := List.mem_filter.mp hrow
  obtain ⟨hmem', hlapsed'⟩ := List.mem_filter.mp hrow'
  obtain ⟨t, ht, _⟩ := (Option.any_eq_true _ _).mp (Bool.and_eq_true_iff.mp hlapsed).1
  obtain ⟨u, hu, _⟩ := (Option.any_eq_true _ _).mp (Bool.and_eq_true_iff.mp hlapsed').1
  have horder := hf t u (hσ.expiresAt row hmem t ht) (hσ.expiresAt row' hmem' u hu)
  simpa [ht, hu] using horder

theorem selectsAlike_of_ordered (hf : Ordered f.toFormats) (hσ : FourDigitStamps σ) :
    SelectsAlike f σ where
  subjectLine agentId subject predicate asOf hasOf := by
    rw [storedLine, inOrder_text hf fun c hc => hσ.claims c (List.mem_of_mem_filter hc),
      loadSubjectLine]
    congr 1
    refine List.filter_congr fun c hc => congrArg (onLine agentId subject predicate c && ·) ?_
    exact textWithin_eq hf hasOf (hσ.claims c hc)
  predicates agentId subject asOf hasOf := by
    rw [storedPredicates, listPredicatesForSubject]
    congr 2
    refine List.filter_congr fun c hc => ?_
    rw [textWithin_eq hf hasOf (hσ.claims c hc)]
  assertions agentId claimRef :=
    inOrder_text hf fun a ha => hσ.assertions a (List.mem_of_mem_filter ha)
  ledger agentId from_ limit hfrom := storedLedger_eq hf hσ hfrom agentId limit
  ledgerForClaims agentId claimRefs asOf hasOf :=
    storedLedgerForClaims_eq hf hσ hasOf agentId claimRefs
  injected agentId := by
    rw [storedInjectedClaims, inOrder_text hf (fourDigit_of_mem_arrange hσ)]
    rfl
  edges agentId claimRef := inOrder_text hf fun e he => hσ.edges e (List.mem_of_mem_filter he)
  pending agentId := by
    rw [listPending, inOrder_text hf fun row hrow => hσ.queuedAt row (List.mem_of_mem_filter hrow)]
  expired now hnow := expiredRows_eq hf hσ hnow
  orphans := storedOrphans_eq hf hσ

/-- The texts of four-digit years sort as the instants, byte by byte too, and equal only
    for equal instants; so where all timestamps have such years, the selects answer as by
    the instants. -/
theorem texts_sort_as_instants (f : PendingFormats) (hf : Prints f.toFormats) :
    (∀ t u, FourDigitYear t → FourDigitYear u →
      (f.toRfc3339 t < f.toRfc3339 u ↔ t < u) ∧
        (DigitText.utf8 (f.toRfc3339 t).toList < DigitText.utf8 (f.toRfc3339 u).toList ↔ t < u) ∧
          (f.toRfc3339 t = f.toRfc3339 u ↔ t = u)) ∧
      ∀ σ, FourDigitStamps σ → SelectsAlike f σ := by
  refine ⟨fun t u ht hu => ⟨hf.lt_iff ht hu, ?_, toRfc3339_inj hf.ordered ht hu⟩,
    fun σ hσ => selectsAlike_of_ordered hf.ordered hσ⟩
  rw [hf t ht, hf u hu, String.toList_ofList, String.toList_ofList]
  exact Timestamp.utf8_rfc3339_lt_iff (fourDigits_of_fourDigitYear ht)
    (fourDigits_of_fourDigitYear hu)

/-- The sample texts, with the timestamps printed in full. -/
def printing : PendingFormats :=
  { sample with
    toRfc3339 := fun t => String.ofList (Timestamp.rfc3339 t)
    rereadPayload := .ok }

/-- A second and its first nanosecond, and a store with a queued challenger. -/
theorem queued_selects_alike :
    printing.toRfc3339 0 < printing.toRfc3339 1 ∧
      SelectsAlike printing (run (defaultEngine true) Store.sqlite rivals) := by
  have hprints : Prints printing.toFormats := fun t _ => rfl
  have hsorted := texts_sort_as_instants printing hprints
  exact ⟨(hsorted.1 0 1 (by decide) (by decide)).1.mpr (by decide),
    hsorted.2 _ ⟨by decide, by decide, by decide, by decide, by decide, by decide⟩⟩

end Main

end Mempill.TimestampOrder
