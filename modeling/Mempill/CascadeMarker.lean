import Mempill.HandleOnce
import Mempill.Lib.FirstOccurrence
import Mempill.WrittenClaims

set_option autoImplicit false

/-!
# Cascade markers

What the pending-review entry of a verdict does to a claim that depends on the
bounded one.
-/
namespace Mempill.CascadeMarker
open Mempill.Types Mempill.Persistence Mempill.TruthEngine Mempill.Rows Mempill.IngestClaim
open Mempill.SubmitAdjudication Mempill.QueryMemory Mempill.Engine Mempill.Steps Mempill.Invariants
open Mempill.ClaimLog Mempill.QueueRows Mempill.Verdicts Mempill.HandleOnce StampedLog
open FirstOccurrence

section Statement

/-- The dependents that a verdict flags. -/
def flagged (σ : Store) (row : PendingAdjudicationRow) (verdict : AdjudicationVerdict) :
    List ClaimRef :=
  match boundTarget row verdict with
  | some target => dependentsOf target (loadEdgesFor σ row.agentId target)
  | none => []

/-- Who folds a line: a write, on the whole ledger, or a query, on its past. -/
inductive View where
  | write (now : Instant)
  | query (asOf : Instant)

def View.cutoff : View → Option Instant
  | .write _ => none
  | .query asOf => some asOf

def View.asOf : View → Instant
  | .write now => now
  | .query asOf => asOf

/-- A stored claim that a view reads. -/
structure Reads (σ : Store) (agentId : AgentId) (d : ClaimRef) (view : View) (c : Claim) :
    Prop where
  stored : c ∈ σ.claims
  agentId : c.agentId = agentId
  claimRef : c.claimRef = d
  visible : withinCutoff view.cutoff c.transactionTime = true

/-- No view, and no verdict to come, can tell whether the claim has been flagged. -/
structure OnlyMarked (σ σ' : Store) (agentId : AgentId) (d : ClaimRef) : Prop where
  live : ∀ view c, Reads σ agentId d view c →
    (rowOf σ' agentId view.cutoff view.asOf c).isLive =
      (rowOf σ agentId view.cutoff view.asOf c).isLive
  denied : ∀ view : View, deniedOf σ' agentId view.cutoff d = deniedOf σ agentId view.cutoff d
  candidate : ∀ view c, Reads σ agentId d view c →
    isCandidate (deniedOf σ' agentId view.cutoff) (rowOf σ' agentId view.cutoff view.asOf c) =
      isCandidate (deniedOf σ agentId view.cutoff) (rowOf σ agentId view.cutoff view.asOf c)
  accepted : ∀ handleId now row challenger, row.agentId = agentId →
    row.challengerClaimRef = d →
    (VerdictAccepted σ' handleId now row challenger ↔
      VerdictAccepted σ handleId now row challenger)

/-- The marker that a verdict puts on a dependent. -/
def marker (row : PendingAdjudicationRow) (verdict : AdjudicationVerdict) (now : Instant)
    (dependent : ClaimRef) : LedgerEntry where
  agentId := row.agentId
  claimRef := dependent
  eventKind := .dependentFlaggedPendingReview
  disposition := .pendingReview
  rationale := some (match verdict with
    | .deny => cascadeRationale row.challengerClaimRef row.incumbentClaimRef
    | _ => cascadeRationale row.incumbentClaimRef row.challengerClaimRef)
  recordedAt := now

/-- The entries of the claim are read ahead of the marker: by the fold, which takes the
    first of a tie, or by the verdicts and the scan for denials, which take the last. -/
def Outlasts (σ : Store) (m : LedgerEntry) (view : View) : Prop :=
  ¬ σ.ties.Overtakes LedgerEntry.recordedAt (entriesOf σ m.agentId view.cutoff m.claimRef) [m]

def Outdates (σ : Store) (m : LedgerEntry) (view : View) : Prop :=
  ¬ σ.ties.reverse.Overtakes LedgerEntry.recordedAt
    (entriesOf σ m.agentId view.cutoff m.claimRef) [m]

/-- A claim that is excluded, ended without a bound, denied or up for a verdict keeps
    the entry that says so. -/
structure Bears (σ : Store) (m : LedgerEntry) : Prop where
  excluded : ∀ view c, Reads σ m.agentId m.claimRef view c →
    withinCutoff view.cutoff m.recordedAt = true →
    (latestOf σ m.agentId view.cutoff m.claimRef).any isHardExcludedDisposition = true →
    deniedOf σ m.agentId view.cutoff m.claimRef = false → Outlasts σ m view
  unbound : ∀ view c, Reads σ m.agentId m.claimRef view c →
    withinCutoff view.cutoff m.recordedAt = true →
    (latestOf σ m.agentId view.cutoff m.claimRef).any isNonLiveDisposition = true →
    activeBoundAt (assertionsOf σ m.agentId m.claimRef) view.asOf = none → Outlasts σ m view
  denied : ∀ view : View, withinCutoff view.cutoff m.recordedAt = true →
    deniedOf σ m.agentId view.cutoff m.claimRef = true → Outdates σ m view
  accepted : ∀ handleId t row challenger, row.agentId = m.agentId →
    row.challengerClaimRef = m.claimRef → VerdictAccepted σ handleId t row challenger →
      Outdates σ m (.write t)

end Statement

section Written

variable {config : EngineConfig} {σ σ' : Store} {row : PendingAdjudicationRow}
variable {challenger : Claim} {response : AdjudicationResponse} {now : Instant}
variable {assertionRef : Uuid} {d : ClaimRef}

theorem filter_cascadeEntries {agentId : AgentId} {target overturning : ClaimRef}
    {edges : List ClaimEdge} (hd : d ∈ dependentsOf target edges) :
    (cascadeEntries agentId target overturning now edges).filter
        (fun e => e.agentId == agentId && e.claimRef == d) =
      [{ agentId := agentId
         claimRef := d
         eventKind := .dependentFlaggedPendingReview
         disposition := .pendingReview
         rationale := some (cascadeRationale target overturning)
         recordedAt := now }] := by
  have hnodup : (dependentsOf target edges).Nodup := (firstOccurrences_eraseDups _).nodup
  have hone : (dependentsOf target edges).filter (fun x => x == d) = [d] := by
    rw [List.filter_beq, List.count_eq_one_of_mem hnodup hd]
    rfl
  simp only [cascadeEntries, List.filter_map, Function.comp_def, beq_self_eq_true, Bool.true_and,
    hone, List.map_cons, List.map_nil]

/-- The verdict's one trace on a flagged claim that it does not name is its marker. -/
theorem marker_of_flagged (hd : d ∈ flagged σ row response.verdict)
    (hch : d ≠ row.challengerClaimRef) (hinc : d ≠ row.incumbentClaimRef) :
    newEntries (verdictWritten config σ row challenger response now assertionRef) row.agentId d =
      [marker row response.verdict now d] := by
  have hother : ∀ e : LedgerEntry, d ≠ e.claimRef →
      [e].filter (fun e => e.agentId == row.agentId && e.claimRef == d) = [] := by
    intro e hne
    simp [hne.symm]
  cases hv : response.verdict with
  | affirm =>
    rw [hv] at hd
    rw [newEntries]
    simp only [verdictWritten, hv, List.filter_append]
    rw [hother _ hinc, filter_cascadeEntries hd, hother _ hch]
    rfl
  | deny =>
    rw [hv] at hd
    rw [newEntries]
    simp only [verdictWritten, hv, List.filter_append]
    rw [hother _ hch, filter_cascadeEntries hd]
    rfl
  | unknown =>
    rw [hv] at hd
    cases hd

theorem newAssertions_of_unnamed (hch : d ≠ row.challengerClaimRef)
    (hinc : d ≠ row.incumbentClaimRef) :
    newAssertions (verdictWritten config σ row challenger response now assertionRef)
      row.agentId d = [] := by
  rw [newAssertions, List.filter_eq_nil_iff]
  intro a ha htarget
  simp only [Bool.and_eq_true, beq_iff_eq] at htarget
  cases hv : response.verdict with
  | affirm =>
    simp only [verdictWritten, hv, List.mem_singleton] at ha
    exact hinc (by rw [← htarget.2, ha]; rfl)
  | deny =>
    simp only [verdictWritten, hv, List.mem_singleton] at ha
    exact hch (by rw [← htarget.2, ha]; rfl)
  | unknown =>
    simp only [verdictWritten, hv] at ha
    cases ha

end Written

section Views

/-- After the verdict: the claims, the pending rows and the assertions of the flagged
    claim as before, and a marker behind its entries. -/
structure Marked (σ σ' : Store) (m : LedgerEntry) : Prop where
  claims : σ'.claims = σ.claims
  ties : σ'.ties = σ.ties
  pending : ∀ handleId row, row.challengerClaimRef = m.claimRef →
    (getPending σ' handleId = some row ↔ getPending σ handleId = some row)
  bounds : ∀ asOf, activeBoundAt (assertionsOf σ' m.agentId m.claimRef) asOf =
    activeBoundAt (assertionsOf σ m.agentId m.claimRef) asOf
  review : m.disposition = .pendingReview
  entries : ∀ cutoff, entriesOf σ' m.agentId cutoff m.claimRef =
    entriesOf σ m.agentId cutoff m.claimRef ++ if withinCutoff cutoff m.recordedAt then [m] else []

variable {eng : Engine} {σ σ' : Store} {m : LedgerEntry} {view : View}

theorem entriesOf_of_unseen (h : Marked σ σ' m)
    (hcut : withinCutoff view.cutoff m.recordedAt = false) :
    entriesOf σ' m.agentId view.cutoff m.claimRef =
      entriesOf σ m.agentId view.cutoff m.claimRef := by
  rw [h.entries, hcut]
  exact List.append_nil _

theorem entriesOf_of_seen (h : Marked σ σ' m)
    (hcut : withinCutoff view.cutoff m.recordedAt = true) :
    entriesOf σ' m.agentId view.cutoff m.claimRef =
      entriesOf σ m.agentId view.cutoff m.claimRef ++ [m] := by
  rw [h.entries, hcut]
  rfl

theorem latestOf_kept (h : Marked σ σ' m) (houtlasts : Outlasts σ m view) :
    latestOf σ' m.agentId view.cutoff m.claimRef =
      latestOf σ m.agentId view.cutoff m.claimRef := by
  cases hcut : withinCutoff view.cutoff m.recordedAt with
  | false => rw [latestOf, entriesOf_of_unseen h hcut, h.ties, latestOf]
  | true =>
    rw [latestOf, entriesOf_of_seen h hcut, h.ties,
      σ.ties.first_append_of_not_overtakes _ houtlasts, latestOf]

theorem eq_of_overtakes {ties : TieOrder LedgerEntry} {es : List LedgerEntry}
    (h : ties.Overtakes LedgerEntry.recordedAt es [m]) :
    ties.first LedgerEntry.recordedAt (es ++ [m]) = some m := by
  obtain ⟨e, he, hfirst⟩ := h
  exact List.mem_singleton.mp he ▸ hfirst

theorem latestOf_marked (h : Marked σ σ' m)
    (hcut : withinCutoff view.cutoff m.recordedAt = true) (hnot : ¬ Outlasts σ m view) :
    latestOf σ' m.agentId view.cutoff m.claimRef = some .pendingReview := by
  rw [latestOf, entriesOf_of_seen h hcut, h.ties, eq_of_overtakes (not_not.mp hnot),
    Option.map_some, h.review]

theorem last_kept {es : List LedgerEntry}
    (hout : ¬ σ.ties.reverse.Overtakes LedgerEntry.recordedAt es [m]) :
    σ.ties.last LedgerEntry.recordedAt (es ++ [m]) = σ.ties.last LedgerEntry.recordedAt es := by
  rw [TieOrder.last_eq_first_reverse, TieOrder.last_eq_first_reverse,
    σ.ties.reverse.first_append_of_not_overtakes _ hout]

theorem last_marked {es : List LedgerEntry}
    (hnot : ¬ ¬ σ.ties.reverse.Overtakes LedgerEntry.recordedAt es [m]) :
    σ.ties.last LedgerEntry.recordedAt (es ++ [m]) = some m := by
  rw [TieOrder.last_eq_first_reverse, eq_of_overtakes (not_not.mp hnot)]

theorem deniedOf_kept (hσ : Reachable eng σ) (hσ' : Reachable eng σ') (h : Marked σ σ' m)
    (hout : Outdates σ m view) :
    deniedOf σ' m.agentId view.cutoff m.claimRef =
      deniedOf σ m.agentId view.cutoff m.claimRef := by
  cases hcut : withinCutoff view.cutoff m.recordedAt with
  | false => rw [deniedOf, entriesOf_of_unseen h hcut, h.ties, deniedOf]
  | true =>
    rw [Bool.eq_iff_iff, deniedOf_iff (attributed_of_reachable hσ'),
      deniedOf_iff (attributed_of_reachable hσ), entriesOf_of_seen h hcut, h.ties, last_kept hout]

theorem deniedOf_marked (hσ' : Reachable eng σ') (h : Marked σ σ' m)
    (hcut : withinCutoff view.cutoff m.recordedAt = true) (hnot : ¬ Outdates σ m view) :
    deniedOf σ' m.agentId view.cutoff m.claimRef = false := by
  rw [Bool.eq_false_iff]
  intro hdenied
  obtain ⟨e, he, hsup, _⟩ := (deniedOf_iff (attributed_of_reachable hσ') ..).mp hdenied
  rw [entriesOf_of_seen h hcut, h.ties, last_marked hnot] at he
  cases he
  rw [h.review] at hsup
  cases hsup

theorem denied_kept_iff (hσ : Reachable eng σ) (hσ' : Reachable eng σ') (h : Marked σ σ' m)
    (view : View) :
    deniedOf σ' m.agentId view.cutoff m.claimRef = deniedOf σ m.agentId view.cutoff m.claimRef ↔
      (withinCutoff view.cutoff m.recordedAt = true →
        deniedOf σ m.agentId view.cutoff m.claimRef = true → Outdates σ m view) := by
  constructor
  · intro heq hcut hdenied
    by_contra hnot
    rw [← heq, deniedOf_marked hσ' h hcut hnot] at hdenied
    cases hdenied
  · intro hkeeps
    by_cases hout : Outdates σ m view
    · exact deniedOf_kept hσ hσ' h hout
    · cases hcut : withinCutoff view.cutoff m.recordedAt with
      | false => rw [deniedOf, entriesOf_of_unseen h hcut, h.ties, deniedOf]
      | true =>
        rw [deniedOf_marked hσ' h hcut hout]
        exact (Bool.eq_false_iff.mpr fun hdenied => hout (hkeeps hcut hdenied)).symm

theorem currentDisposition_kept (h : Marked σ σ' m) {t : Instant} (hout : Outdates σ m (.write t)) :
    currentDisposition σ' m.agentId m.claimRef = currentDisposition σ m.agentId m.claimRef := by
  have hlast : σ.ties.last LedgerEntry.recordedAt
      (entriesOf σ m.agentId none m.claimRef ++ [m]) =
        σ.ties.last LedgerEntry.recordedAt (entriesOf σ m.agentId none m.claimRef) :=
    last_kept hout
  have hafter : entriesOf σ' m.agentId none m.claimRef =
      entriesOf σ m.agentId none m.claimRef ++ [m] := h.entries none
  rw [currentDisposition_eq, currentDisposition_eq, hafter, h.ties, hlast]

theorem currentDisposition_marked (h : Marked σ σ' m) {t : Instant}
    (hnot : ¬ Outdates σ m (.write t)) :
    currentDisposition σ' m.agentId m.claimRef = some .pendingReview := by
  have hlast : σ.ties.last LedgerEntry.recordedAt
      (entriesOf σ m.agentId none m.claimRef ++ [m]) = some m := last_marked hnot
  have hafter : entriesOf σ' m.agentId none m.claimRef =
      entriesOf σ m.agentId none m.claimRef ++ [m] := h.entries none
  rw [currentDisposition_eq, hafter, h.ties, hlast, Option.map_some, h.review]

section Accepted

variable {handleId : Uuid} {t : Instant} {row : PendingAdjudicationRow} {challenger : Claim}
variable (hagent : row.agentId = m.agentId) (hch : row.challengerClaimRef = m.claimRef)

include hagent hch

theorem outdates_of_accepted (h : Marked σ σ' m)
    (haccepted : VerdictAccepted σ' handleId t row challenger) : Outdates σ m (.write t) := by
  by_contra hnot
  have hqueued := haccepted.queued
  rw [hagent, hch, currentDisposition_marked h hnot] at hqueued
  cases hqueued

theorem accepted_iff_of_outdates (h : Marked σ σ' m) (hout : Outdates σ m (.write t)) :
    VerdictAccepted σ' handleId t row challenger ↔
      VerdictAccepted σ handleId t row challenger := by
  have hload : loadClaim σ' row.agentId row.challengerClaimRef =
      loadClaim σ row.agentId row.challengerClaimRef := by
    rw [loadClaim, loadClaim, h.claims]
  have hcurrent : currentDisposition σ' row.agentId row.challengerClaimRef =
      currentDisposition σ row.agentId row.challengerClaimRef := by
    rw [hagent, hch, currentDisposition_kept h hout]
  constructor
  · exact fun haccepted => ⟨(h.pending handleId row hch).mp haccepted.pending,
      haccepted.unexpired, hcurrent ▸ haccepted.queued, hload ▸ haccepted.load⟩
  · exact fun haccepted => ⟨(h.pending handleId row hch).mpr haccepted.pending,
      haccepted.unexpired, hcurrent.symm ▸ haccepted.queued, hload.symm ▸ haccepted.load⟩

end Accepted

theorem accepted_kept_iff (h : Marked σ σ' m) :
    (∀ handleId t row challenger, row.agentId = m.agentId →
      row.challengerClaimRef = m.claimRef →
      (VerdictAccepted σ' handleId t row challenger ↔
        VerdictAccepted σ handleId t row challenger)) ↔
      ∀ handleId t row challenger, row.agentId = m.agentId →
        row.challengerClaimRef = m.claimRef →
        VerdictAccepted σ handleId t row challenger → Outdates σ m (.write t) := by
  constructor
  · intro hsame handleId t row challenger hagent hch haccepted
    exact outdates_of_accepted hagent hch h
      ((hsame handleId t row challenger hagent hch).mpr haccepted)
  · intro hkeeps handleId t row challenger hagent hch
    constructor
    · intro haccepted
      have hout := outdates_of_accepted hagent hch h haccepted
      exact (accepted_iff_of_outdates hagent hch h hout).mp haccepted
    · intro haccepted
      have hout := hkeeps handleId t row challenger hagent hch haccepted
      exact (accepted_iff_of_outdates hagent hch h hout).mpr haccepted

theorem rowOf_isLive_eq (σ : Store) (agentId : AgentId) (cutoff : Option Instant)
    (asOf : Instant) (c : Claim) :
    (rowOf σ agentId cutoff asOf c).isLive =
      ((activeBoundAt (assertionsOf σ agentId c.claimRef) asOf).isNone &&
        !(latestOf σ agentId cutoff c.claimRef).any isNonLiveDisposition) := by
  simp only [rowOf, claimStatus]
  cases latestOf σ agentId cutoff c.claimRef <;> rfl

theorem isCandidate_rowOf (σ : Store) (agentId : AgentId) (cutoff : Option Instant)
    (asOf : Instant) (c : Claim) (denied : ClaimRef → Bool) :
    isCandidate denied (rowOf σ agentId cutoff asOf c) =
      (!(latestOf σ agentId cutoff c.claimRef).any isHardExcludedDisposition &&
        ((rowOf σ agentId cutoff asOf c).isLive ||
          ((activeBoundAt (assertionsOf σ agentId c.claimRef) asOf).isSome &&
            !denied c.claimRef))) := by
  rw [isCandidate, rowOf_lastDisposition, rowOf_boundAt, Option.isSome_map]
  cases latestOf σ agentId cutoff c.claimRef with
  | none => simp
  | some d => cases hd : isHardExcludedDisposition d <;> simp [hd]

/-- A view whose latest entry is kept sees the same row. -/
theorem row_kept {c : Claim} (h : Marked σ σ' m)
    (hread : Reads σ m.agentId m.claimRef view c)
    (hlatest : latestOf σ' m.agentId view.cutoff m.claimRef =
      latestOf σ m.agentId view.cutoff m.claimRef)
    (hdenied : deniedOf σ' m.agentId view.cutoff m.claimRef =
      deniedOf σ m.agentId view.cutoff m.claimRef) :
    (rowOf σ' m.agentId view.cutoff view.asOf c).isLive =
        (rowOf σ m.agentId view.cutoff view.asOf c).isLive ∧
      isCandidate (deniedOf σ' m.agentId view.cutoff)
          (rowOf σ' m.agentId view.cutoff view.asOf c) =
        isCandidate (deniedOf σ m.agentId view.cutoff)
          (rowOf σ m.agentId view.cutoff view.asOf c) := by
  have hlive : (rowOf σ' m.agentId view.cutoff view.asOf c).isLive =
      (rowOf σ m.agentId view.cutoff view.asOf c).isLive := by
    rw [rowOf_isLive_eq, rowOf_isLive_eq, hread.claimRef, h.bounds, hlatest]
  refine ⟨hlive, ?_⟩
  rw [isCandidate_rowOf, isCandidate_rowOf, hlive, hread.claimRef, h.bounds, hlatest, hdenied]

/-- A view that reads the marker first takes the claim for live up to its bound, and for
    a candidate unless it is denied. -/
theorem row_marked {c : Claim} (h : Marked σ σ' m)
    (hread : Reads σ m.agentId m.claimRef view c)
    (hcut : withinCutoff view.cutoff m.recordedAt = true) (hnot : ¬ Outlasts σ m view) :
    (rowOf σ' m.agentId view.cutoff view.asOf c).isLive =
        (activeBoundAt (assertionsOf σ m.agentId m.claimRef) view.asOf).isNone ∧
      isCandidate (deniedOf σ' m.agentId view.cutoff)
          (rowOf σ' m.agentId view.cutoff view.asOf c) =
        ((activeBoundAt (assertionsOf σ m.agentId m.claimRef) view.asOf).isNone ||
          !deniedOf σ' m.agentId view.cutoff m.claimRef) := by
  have hlatest := latestOf_marked h hcut hnot
  have hlive : (rowOf σ' m.agentId view.cutoff view.asOf c).isLive =
      (activeBoundAt (assertionsOf σ m.agentId m.claimRef) view.asOf).isNone := by
    rw [rowOf_isLive_eq, hread.claimRef, h.bounds, hlatest]
    simp [isNonLiveDisposition]
  refine ⟨hlive, ?_⟩
  rw [isCandidate_rowOf, hlive, hread.claimRef, h.bounds, hlatest]
  cases activeBoundAt (assertionsOf σ m.agentId m.claimRef) view.asOf <;> rfl

theorem bears_of_onlyMarked (hσ : Reachable eng σ) (hσ' : Reachable eng σ')
    (h : Marked σ σ' m) (honly : OnlyMarked σ σ' m.agentId m.claimRef) : Bears σ m where
  excluded view c hread hcut hhard hfree := by
    by_contra hnot
    have hmarked := (row_marked h hread hcut hnot).2
    rw [honly.candidate view c hread, isCandidate_rowOf, hread.claimRef, hhard, honly.denied,
      hfree] at hmarked
    simp at hmarked
  unbound view c hread hcut hdead hbound := by
    by_contra hnot
    have hmarked := (row_marked h hread hcut hnot).1
    rw [honly.live view c hread, rowOf_isLive_eq, hread.claimRef, hdead, hbound] at hmarked
    cases hmarked
  denied view := (denied_kept_iff hσ hσ' h view).mp (honly.denied view)
  accepted := (accepted_kept_iff h).mp honly.accepted

theorem row_of_bears {c : Claim} (hσ : Reachable eng σ) (hσ' : Reachable eng σ')
    (h : Marked σ σ' m) (hbears : Bears σ m) (hread : Reads σ m.agentId m.claimRef view c) :
    (rowOf σ' m.agentId view.cutoff view.asOf c).isLive =
        (rowOf σ m.agentId view.cutoff view.asOf c).isLive ∧
      isCandidate (deniedOf σ' m.agentId view.cutoff)
          (rowOf σ' m.agentId view.cutoff view.asOf c) =
        isCandidate (deniedOf σ m.agentId view.cutoff)
          (rowOf σ m.agentId view.cutoff view.asOf c) := by
  have hdenied := (denied_kept_iff hσ hσ' h view).mpr (hbears.denied view)
  by_cases hout : Outlasts σ m view
  · exact row_kept h hread (latestOf_kept h hout) hdenied
  cases hcut : withinCutoff view.cutoff m.recordedAt with
  | false =>
    refine row_kept h hread ?_ hdenied
    rw [latestOf, entriesOf_of_unseen h hcut, h.ties, latestOf]
  | true =>
    obtain ⟨hlive, hcandidate⟩ := row_marked h hread hcut hout
    have hsame : (rowOf σ m.agentId view.cutoff view.asOf c).isLive =
        (activeBoundAt (assertionsOf σ m.agentId m.claimRef) view.asOf).isNone := by
      rw [rowOf_isLive_eq, hread.claimRef]
      cases hbound : activeBoundAt (assertionsOf σ m.agentId m.claimRef) view.asOf with
      | some b => rfl
      | none =>
        have halive : (latestOf σ m.agentId view.cutoff m.claimRef).any
            isNonLiveDisposition = false :=
          Bool.eq_false_iff.mpr fun hdead => hout (hbears.unbound view c hread hcut hdead hbound)
        rw [halive]
        rfl
    refine ⟨hlive.trans hsame.symm, ?_⟩
    rw [hcandidate, isCandidate_rowOf, hsame, hread.claimRef, hdenied]
    cases hbound : activeBoundAt (assertionsOf σ m.agentId m.claimRef) view.asOf with
    | some b =>
      -- a denied claim is no candidate, whatever its latest entry says
      cases hfree : deniedOf σ m.agentId view.cutoff m.claimRef with
      | true => simp
      | false =>
        have hsoft : (latestOf σ m.agentId view.cutoff m.claimRef).any
            isHardExcludedDisposition = false :=
          Bool.eq_false_iff.mpr fun hhard => hout (hbears.excluded view c hread hcut hhard hfree)
        rw [hsoft]
        rfl
    | none =>
      have hsoft : (latestOf σ m.agentId view.cutoff m.claimRef).any
          isHardExcludedDisposition = false := by
        refine Bool.eq_false_iff.mpr fun hhard =>
          hout (hbears.unbound view c hread hcut ?_ hbound)
        obtain ⟨d, hd, hhard⟩ := (Option.any_eq_true _ _).mp hhard
        exact (Option.any_eq_true _ _).mpr ⟨d, hd, isNonLive_iff.mpr (.inr hhard)⟩
      rw [hsoft]
      rfl

theorem onlyMarked_iff (hσ : Reachable eng σ) (hσ' : Reachable eng σ') (h : Marked σ σ' m) :
    OnlyMarked σ σ' m.agentId m.claimRef ↔ Bears σ m := by
  refine ⟨bears_of_onlyMarked hσ hσ' h, fun hbears => ?_⟩
  exact ⟨fun view c hread => (row_of_bears hσ hσ' h hbears hread).1,
    fun view => (denied_kept_iff hσ hσ' h view).mpr (hbears.denied view),
    fun view c hread => (row_of_bears hσ hσ' h hbears hread).2,
    (accepted_kept_iff h).mpr hbears.accepted⟩

end Views

section Main

variable {eng : Engine} {σ : Store} {handleId : Uuid}

theorem marked_of_verdict {response : AdjudicationResponse} {now : Instant}
    {assertionRef : Uuid} {row : PendingAdjudicationRow} {challenger : Claim} {d : ClaimRef}
    {written : Store} (hpending : getPending σ handleId = some row)
    (happ : Appends σ written
      (verdictWritten eng.config σ row challenger response now assertionRef))
    (htable : written.pending = σ.pending) (hd : d ∈ flagged σ row response.verdict)
    (hch : d ≠ row.challengerClaimRef) (hinc : d ≠ row.incumbentClaimRef) :
    Marked σ (markResolved written handleId) (marker row response.verdict now d) where
  ties := happ.ties
  review := rfl
  claims := by
    have hclaims := happ.claims
    rw [verdictWritten_claims, List.append_nil] at hclaims
    exact hclaims
  pending handleId' row' hrow' := by
    have hmarked : (markResolved written handleId).pending =
        σ.pending.map (withStatus handleId .resolved) := by
      rw [← htable]
      rfl
    exact getPending_marked_iff hmarked hpending (hrow'.symm ▸ hch)
  bounds asOf := by
    have happ' := setPendingStatus_appends happ handleId .resolved
    rw [show markResolved written handleId = setPendingStatus written handleId .resolved from rfl,
      assertionsOf_append happ']
    have hnone : newAssertions (verdictWritten eng.config σ row challenger response now
        assertionRef) row.agentId d = [] := newAssertions_of_unnamed hch hinc
    exact congrArg (activeBoundAt · asOf) ((congrArg _ hnone).trans (List.append_nil _))
  entries := by
    have happ' := setPendingStatus_appends happ handleId .resolved
    have hstamp : ∀ e ∈ (verdictWritten eng.config σ row challenger response now
        assertionRef).ledger, e.recordedAt = now := fun e he => (verdictEntry_of_mem he).recordedAt
    intro cutoff
    rw [← marker_of_flagged hd hch hinc]
    exact entriesOf_of_stamp happ' hstamp row.agentId cutoff d

/-- A cascade leaves no more than a marker on a flagged claim exactly when the claim
    bears one. -/
theorem cascade_only_marks_iff (hσ : Reachable eng σ) {response : AdjudicationResponse}
    {now : Instant} {assertionRef : Uuid} {row : PendingAdjudicationRow}
    {outcome : AdjudicationOutcome} (hfresh : Fresh assertionRef σ)
    (hrow : getPending σ handleId = some row)
    (hok : (SubmitAdjudication.execute eng.config σ handleId response now assertionRef).1 =
      .ok outcome) {d : ClaimRef} (hd : d ∈ flagged σ row response.verdict)
    (hch : d ≠ row.challengerClaimRef) (hinc : d ≠ row.incumbentClaimRef) :
    OnlyMarked σ (SubmitAdjudication.execute eng.config σ handleId response now assertionRef).2
        row.agentId d ↔
      Bears σ (marker row response.verdict now d) := by
  have hσ' : Reachable eng
      (SubmitAdjudication.execute eng.config σ handleId response now assertionRef).2 :=
    hσ.step (i := .submitAdjudication handleId response now assertionRef) ⟨hfresh, rfl⟩
  refine onlyMarked_iff (m := marker row response.verdict now d) hσ hσ' ?_
  rcases submit_spec eng.config σ handleId response now assertionRef with
    ⟨row', challenger, written, haccepted, hexec, happ, htable⟩ |
    ⟨_, _, _, _, _, _, hexec⟩ | ⟨_, hexec⟩ <;> rw [hexec] at hok ⊢
  · have hsame := haccepted.pending
    rw [hrow] at hsame
    cases Option.some.inj hsame
    exact marked_of_verdict hrow happ htable hd hch hinc
  · cases hok
  · cases hok

theorem exists_entry_of_latestOf {agentId : AgentId} {cutoff : Option Instant} {r : ClaimRef}
    {p : Disposition → Bool} (h : (latestOf σ agentId cutoff r).any p = true) :
    ∃ e ∈ entriesOf σ agentId none r, p e.disposition = true := by
  obtain ⟨disposition, hlatest, hp⟩ := (Option.any_eq_true _ _).mp h
  obtain ⟨e, he, rfl⟩ := Option.map_eq_some_iff.mp hlatest
  obtain ⟨hmem, htarget⟩ := List.mem_filter.mp (σ.ties.mem_of_first _ he)
  simp only [Bool.and_eq_true] at htarget
  exact ⟨e, List.mem_filter.mpr ⟨hmem, by simp [htarget.1, withinCutoff]⟩, hp⟩

def aboutWork (req : IngestClaimRequest) (predicate : String) : IngestClaimRequest :=
  { req with predicate := predicate }

def dependsOnParis (claimRef : Uuid) : Op :=
  .appendEdge ⟨agent, ⟨claimRef⟩, ⟨1⟩, .dependsOn, 26⟩

/-- Two overlapping facts, the second up for a verdict on handle 101, and an employer
    that depends on the first. -/
def employed : List Op :=
  rivals ++ [.ingestClaim (aboutWork (remember "Acme" none) "employer") 25 ⟨3⟩ (.ok 0),
    dependsOnParis 3]

theorem employer_is_only_marked :
    let σ := run (defaultEngine true) Store.sqlite employed
    OnlyMarked σ (apply (defaultEngine true) σ (verdictOn 101 .affirm 30 50)) agent ⟨3⟩ := by
  intro σ
  have hσ : Reachable (defaultEngine true) σ := run_reachable (by decide)
  have hrow : getPending σ 101 = some ((getPending σ 101).get (by decide)) := rfl
  have hok : (SubmitAdjudication.execute EngineConfig.default σ 101
      ⟨101, .affirm, .external .externalFirstHand⟩ 30 50).1 = .ok ⟨101, .committedCheap, ⟨2⟩⟩ :=
    rfl
  have hcheap : ∀ e ∈ entriesOf σ agent none ⟨3⟩, e.disposition = .committedCheap := by decide
  have hlive : ∀ (cutoff : Option Instant) (p : Disposition → Bool),
      p .committedCheap = false → (latestOf σ agent cutoff ⟨3⟩).any p = true → False := by
    intro cutoff p hp hany
    obtain ⟨e, he, hpe⟩ := exists_entry_of_latestOf hany
    rw [hcheap e he, hp] at hpe
    cases hpe
  refine (cascade_only_marks_iff hσ (by decide) hrow hok (by decide) (by decide)
    (by decide)).mpr ⟨fun view _ _ _ hhard _ => (hlive view.cutoff _ rfl hhard).elim,
      fun view _ _ _ hdead _ => (hlive view.cutoff _ rfl hdead).elim, fun view _ hdenied => ?_,
      fun handleId t row challenger _ hch haccepted => ?_⟩
  · obtain ⟨e, he, hsup, _⟩ :=
      (deniedOf_iff (attributed_of_reachable hσ) agent view.cutoff ⟨3⟩).mp hdenied
    obtain ⟨hmem, htarget⟩ := List.mem_filter.mp (σ.ties.mem_of_last _ he)
    simp only [Bool.and_eq_true] at htarget
    have hentry : e ∈ entriesOf σ agent none ⟨3⟩ :=
      List.mem_filter.mpr ⟨hmem, by rw [htarget.1.1, htarget.1.2]; rfl⟩
    rw [hcheap e hentry] at hsup
    cases hsup
  · have hrows : ∀ row ∈ σ.pending, row.challengerClaimRef ≠ ⟨3⟩ := by decide
    exact absurd hch (hrows row (handleId_of_getPending haccepted.pending).1)

/-- As above, with a quarantined employer, and a team whose challenger waits on
    handle 105. -/
def entangled : List Op :=
  rivals ++ [
    .ingestClaim (aboutWork (remember "Acme" (some (dated 50 none))) "employer") 25 ⟨3⟩ (.ok 0),
    .ingestClaim (aboutWork (remember "Red" (some (dated 1 none))) "team") 25 ⟨4⟩ (.ok 0),
    .ingestClaim (aboutWork (remember "Blue" (some (dated 5 none))) "team") 25 ⟨5⟩ (.ok 105),
    dependsOnParis 3, dependsOnParis 5]

/-- The marker revives the quarantined employer and takes the team off the queue. -/
theorem marker_revives_and_unqueues :
    let σ := run (defaultEngine true) Store.sqlite entangled
    let affirmed := SubmitAdjudication.execute EngineConfig.default σ 101
      ⟨101, .affirm, .external .externalFirstHand⟩ 30 50
    let onTeam (τ : Store) := (SubmitAdjudication.execute EngineConfig.default τ 105
      ⟨105, .affirm, .external .externalFirstHand⟩ 40 51).1
    Reachable (defaultEngine true) σ ∧ affirmed.1 = .ok ⟨101, .committedCheap, ⟨2⟩⟩ ∧
      (recallNow EngineConfig.default σ agent "user" "employer" 60).primary = none ∧
      (recallNow EngineConfig.default affirmed.2 agent "user" "employer" 60).primary.map
        (·.claimRef) = some ⟨3⟩ ∧
      onTeam σ = .ok ⟨105, .committedCheap, ⟨5⟩⟩ ∧
      onTeam affirmed.2 = .error (.adjudicationHandleNotFound 105) ∧
      ¬ OnlyMarked σ affirmed.2 agent ⟨3⟩ := by
  intro σ affirmed onTeam
  refine ⟨run_reachable (by decide), rfl, by decide, by decide, rfl, rfl, fun h => ?_⟩
  have hread : ∃ c ∈ σ.claims, c.claimRef = ⟨3⟩ ∧ c.agentId = agent ∧
      (rowOf affirmed.2 agent none 60 c).isLive ≠ (rowOf σ agent none 60 c).isLive := by decide
  obtain ⟨c, hc, href, hagent, hne⟩ := hread
  exact hne (h.live (.write 60) c ⟨hc, hagent, href, rfl⟩)

end Main

end Mempill.CascadeMarker
