import Mempill.Engine

set_option autoImplicit false

/-!
# The latest disposition

The four places that read the latest disposition of a claim off a slice of the
ledger, and when they all name the entry appended last.
-/
namespace Mempill.LatestDisposition
open Mempill.Types Mempill.Persistence Mempill.Ledger Mempill.SubmitAdjudication Mempill.Engine
open StampedLog

section Readers

def entriesAbout (r : ClaimRef) (ledger : List LedgerEntry) : List LedgerEntry :=
  ledger.filter fun e => e.claimRef == r

/-- The sweep has its own copy of the scan that verdicts use. -/
def sweepLatestDisposition (ledger : List LedgerEntry) (target : ClaimRef) :
    Option Disposition :=
  (lastMax LedgerEntry.recordedAt (ledger.filter (fun e => e.claimRef == target))).map
    (·.disposition)

/-- The disposition that the denied scan tests: that of the last entry of a stable sort. -/
def lastInspected (ledger : List LedgerEntry) (r : ClaimRef) : Option Disposition :=
  (inOrder LedgerEntry.recordedAt (entriesAbout r ledger)).getLast?.map (·.disposition)

theorem lastInspected_of_denied {ledger : List LedgerEntry} {r : ClaimRef}
    (h : buildDeniedViaAdjudicationSet ledger r = true) :
    lastInspected ledger r = some .superseded := by
  unfold buildDeniedViaAdjudicationSet deniedByEntries at h
  unfold lastInspected entriesAbout
  split at h
  · cases h
  · rename_i last hlast
    rw [hlast]
    split at h
    · cases h
    · rename_i hne
      simpa using hne

/-- The log holds the entries in the order in which they were appended. -/
def appendedLast (log : List LedgerEntry) (r : ClaimRef) : Option Disposition :=
  (entriesAbout r log).getLast?.map (·.disposition)

/-- All readers of the slice see the disposition that the log appended last. -/
structure ReadersAgree (log slice : List LedgerEntry) (r : ClaimRef) : Prop where
  map : buildLatestDispositionMap slice r = appendedLast log r
  verdict : latestDispositionFromLedger slice r = appendedLast log r
  sweep : sweepLatestDisposition slice r = appendedLast log r
  scan : lastInspected slice r = appendedLast log r

instance instDecidableReadersAgree (log slice : List LedgerEntry) (r : ClaimRef) :
    Decidable (ReadersAgree log slice r) :=
  decidable_of_iff
    (buildLatestDispositionMap slice r = appendedLast log r ∧
      latestDispositionFromLedger slice r = appendedLast log r ∧
      sweepLatestDisposition slice r = appendedLast log r ∧
      lastInspected slice r = appendedLast log r)
    ⟨fun h => ⟨h.1, h.2.1, h.2.2.1, h.2.2.2⟩, fun h => ⟨h.map, h.verdict, h.sweep, h.scan⟩⟩

/-- The entries of the claim with the greatest stamp agree with the one appended last. -/
def LastStands (log : List LedgerEntry) (r : ClaimRef) : Prop :=
  Tops LedgerEntry.recordedAt (fun e => some e.disposition = appendedLast log r)
    (entriesAbout r log)

end Readers

section Agreement

variable {log slice : List LedgerEntry} {r : ClaimRef}

theorem latestDispositionMap_eq (slice : List LedgerEntry) (r : ClaimRef) :
    buildLatestDispositionMap slice r =
      (firstMax LedgerEntry.recordedAt (entriesAbout r slice)).map (·.disposition) := by
  rw [buildLatestDispositionMap, latestBy_eq, entriesAbout]
  rfl

theorem lastInspected_eq (slice : List LedgerEntry) (r : ClaimRef) :
    lastInspected slice r =
      (lastMax LedgerEntry.recordedAt (entriesAbout r slice)).map (·.disposition) := by
  rw [lastInspected, getLast?_inOrder]

theorem readersAgree_of_tops (hperm : slice.Perm log) (h : LastStands log r) :
    ReadersAgree log slice r := by
  have htops : Tops LedgerEntry.recordedAt (fun e => some e.disposition = appendedLast log r)
      (entriesAbout r slice) := Tops.perm _ h (hperm.symm.filter _)
  have hempty : entriesAbout r slice = [] → appendedLast log r = none := by
    intro hnil
    have hlog : (entriesAbout r log).Perm [] := hnil ▸ (hperm.filter _).symm
    rw [appendedLast, List.perm_nil.mp hlog, List.getLast?_nil, Option.map_none]
  have hfirst : (firstMax LedgerEntry.recordedAt (entriesAbout r slice)).map (·.disposition) =
      appendedLast log r := by
    rcases firstMax_spec LedgerEntry.recordedAt (entriesAbout r slice) with
      ⟨hnone, hnil⟩ | ⟨e, he, _⟩
    · rw [hnone, hempty hnil, Option.map_none]
    · rw [he]
      exact htops.firstMax _ he
  have hlast : (lastMax LedgerEntry.recordedAt (entriesAbout r slice)).map (·.disposition) =
      appendedLast log r := by
    rcases lastMax_spec LedgerEntry.recordedAt (entriesAbout r slice) with
      ⟨hnone, hnil⟩ | ⟨e, he, _⟩
    · rw [hnone, hempty hnil, Option.map_none]
    · rw [he]
      exact htops.lastMax _ he
  exact ⟨(latestDispositionMap_eq slice r).trans hfirst, hlast, hlast,
    (lastInspected_eq slice r).trans hlast⟩

/-- Any entry of greatest stamp can be returned first, and the map then keeps it. -/
theorem lastStands_of_agree (h : ∀ slice, slice.Perm log → ReadersAgree log slice r) :
    LastStands log r := by
  intro e he hmax
  obtain ⟨hmem, href⟩ := List.mem_filter.mp he
  have hperm : (e :: log.erase e).Perm log := (List.perm_cons_erase hmem).symm
  have hmap := (h _ hperm).map
  have hslice : entriesAbout r (e :: log.erase e) = e :: entriesAbout r (log.erase e) := by
    rw [entriesAbout, List.filter_cons, if_pos href, entriesAbout]
  have hrest : ∀ e' ∈ entriesAbout r (log.erase e), e'.recordedAt ≤ e.recordedAt := by
    intro e' he'
    obtain ⟨hin, href'⟩ := List.mem_filter.mp he'
    exact hmax e' (List.mem_filter.mpr ⟨List.mem_of_mem_erase hin, href'⟩)
  rw [latestDispositionMap_eq, hslice, firstMax_cons_of_le _ hrest] at hmap
  exact hmap

end Agreement

section Main

/-- However the entries are returned, all readers name the disposition appended last
    exactly if all entries of greatest stamp carry it. -/
theorem latest_readers_agree_iff (log : List LedgerEntry) (r : ClaimRef) :
    (∀ slice, slice.Perm log → ReadersAgree log slice r) ↔ LastStands log r :=
  ⟨lastStands_of_agree, fun h _ hperm => readersAgree_of_tops hperm h⟩

/-- The queued challenger depends on the incumbent that its affirmation bounds. -/
def affirmedDependent : List Op :=
  rivals ++ [.appendEdge ⟨agent, ⟨2⟩, ⟨1⟩, .dependsOn, 25⟩, verdictOn 101 .affirm 30 500]

theorem affirmed_dependent_splits_readers :
    let σ := run (defaultEngine true) Store.sqlite affirmedDependent
    Reachable (defaultEngine true) σ ∧
      buildLatestDispositionMap σ.ledger ⟨2⟩ = some .pendingReview ∧
      latestDispositionFromLedger σ.ledger ⟨2⟩ = some .committedCheap ∧
      ¬ ∀ slice, slice.Perm σ.ledger → ReadersAgree σ.ledger slice ⟨2⟩ := by
  refine ⟨run_reachable (by decide), by decide, by decide, fun h => ?_⟩
  have hagree := h _ (List.Perm.refl _)
  revert hagree
  decide

end Main

end Mempill.LatestDisposition
