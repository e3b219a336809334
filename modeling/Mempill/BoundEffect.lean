import Mempill.RowEffects
import Mempill.Verdicts

set_option autoImplicit false

/-!
# When a bound takes effect

The rows of a claim at every instant after an accepted bound on it.
-/
namespace Mempill.BoundEffect
open Mempill.Types Mempill.Persistence Mempill.TruthEngine Mempill.Ledger Mempill.ValidTimeHelpers
open Mempill.Rows Mempill.ActiveBound Mempill.AssertValidity Mempill.IngestClaim Mempill.Engine
open Mempill.Steps Mempill.Invariants Mempill.Verdicts Transition HalfOpen StampedLog

section Statement

variable (config : EngineConfig) (σ : Store) (c : Claim)

abbrev ownRow (cutoff : Option Instant) (now : Instant) : ClaimWithStatus :=
  rowOf σ c.agentId cutoff now c

/-- The rows and the candidates of the claim's own line. -/
abbrev ownLine (cutoff : Option Instant) (now : Instant) : List ClaimWithStatus :=
  lineRows config σ c.agentId c.fact.subject c.fact.predicate cutoff now

abbrev ownCandidates (cutoff : Option Instant) (now : Instant) : List ClaimWithStatus :=
  candidateRows config σ c.agentId c.fact.subject c.fact.predicate cutoff now

/-- The claim is live in the fold of a recall and of a write at `now`, and in the
    valid-at and the conflict candidate set. -/
structure StillLive (now : Instant) : Prop where
  recalled : ownRow σ c (some now) now ∈ liveRows (ownLine config σ c (some now) now)
  write : ownRow σ c none now ∈ liveRows (ownLine config σ c none now)
  validAt : ownRow σ c (some now) now ∈ ownCandidates config σ c (some now) now
  conflict : ownRow σ c none now ∈ ownCandidates config σ c none now

/-- The claim is not live at `now`, and is recalled up to `e` only. -/
structure ClosedAt (e now : Instant) : Prop where
  recalled : ownRow σ c (some now) now ∉ liveRows (ownLine config σ c (some now) now)
  write : ownRow σ c none now ∉ liveRows (ownLine config σ c none now)
  validAt : ownRow σ c (some now) now ∈ ownCandidates config σ c (some now) now
  window : effectiveWindow (ownRow σ c (some now) now) = (window c.validTime).cut (some e)

/-- From the stamp of the bound on, the claim is live before `e` and closed at `e`
    from there. -/
structure TakesEffect (e now : Instant) : Prop where
  before : ∀ q, now ≤ q → q < e → StillLive config σ c q
  after : ∀ q, now ≤ q → e ≤ q → ClosedAt config σ c e q

end Statement

section Condition

/-- The entry written with the bound is read ahead of the claim's stored entries: they are
    earlier, or come after it where they tie. -/
def EndsAtOnce (σ : Store) (c : Claim) (req : AssertValidityRequest) (e now : Instant) : Prop :=
  σ.ties.Overtakes LedgerEntry.recordedAt (entriesOf σ c.agentId none c.claimRef)
    [hostEntry req .superseded (hostBoundRationale e) now]

instance (σ : Store) (c : Claim) (req : AssertValidityRequest) (e now : Instant) :
    Decidable (EndsAtOnce σ c req e now) := by
  unfold EndsAtOnce; infer_instance

/-- With the new bound the toggle walk yields a bound at `e` from `e` on, and none
    before. -/
def Unimpeded (as : List ValidityAssertion) (e now : Instant) : Prop :=
  ∀ q, now ≤ q →
    (activeBoundAt as q).map (·.boundAt) = if e ≤ q then some e else none

/-- Stamped after the claim's other assertions, the bound is impeded only by an
    older one that becomes active before `e`. -/
theorem unimpeded_concat_iff {as : List ValidityAssertion} {a : ValidityAssertion} {e : Instant}
    {granularity : Option DateGranularity} (hlt : ∀ b ∈ as, b.assertedAt < a.assertedAt)
    (ha : a.kind = .bound e granularity) :
    Unimpeded (as ++ [a]) e a.assertedAt ↔
      ∀ q, a.assertedAt ≤ q → q < e → activeBoundAt as q = none := by
  have hstated : statedInstant a = e := by rw [statedInstant, ha]
  have hstate : toBoundState a = some ⟨e, a.assertionRef, granularity⟩ := by rw [toBoundState, ha]
  refine forall_congr' fun q => forall_congr' fun hq => ?_
  rw [activeBoundAt_concat_of_lt hlt]
  by_cases he : e ≤ q
  · have heff : Effective q a := ⟨hq, hstated ▸ he⟩
    rw [if_pos heff, if_pos he, hstate]
    exact iff_of_true rfl fun hlt => absurd he (not_le_of_gt hlt)
  · have heff : ¬ Effective q a := fun h => he (hstated ▸ h.2)
    rw [if_neg heff, if_neg he, Option.map_eq_none_iff]
    exact ⟨fun h _ => h, fun h => h (not_le.mp he)⟩

end Condition

section Log

variable {σ : Store} {c : Claim} {now : Instant}

theorem entriesOf_of_le {agentId : AgentId} {r : ClaimRef} {q : Instant}
    (h : ∀ x ∈ entriesOf σ agentId none r, x.recordedAt ≤ q) :
    entriesOf σ agentId (some q) r = entriesOf σ agentId none r := by
  unfold entriesOf
  refine List.filter_congr fun x hx => ?_
  by_cases hp : (x.agentId == agentId && x.claimRef == r) = true
  · have hle := h x (by simpa [entriesOf, withinCutoff] using ⟨hx, by simpa using hp⟩)
    simp [withinCutoff, hle]
  · simp [hp]

theorem rowOf_of_le {agentId : AgentId} {q : Instant}
    (h : ∀ x ∈ entriesOf σ agentId none c.claimRef, x.recordedAt ≤ q) :
    rowOf σ agentId (some q) q c = rowOf σ agentId none q c := by
  simp only [rowOf, claimStatus, latestOf, entriesOf_of_le h]

theorem deniedOf_of_free {agentId : AgentId} {r : ClaimRef}
    (h : underAdjudication σ agentId r = false) : deniedOf σ agentId none r = false := by
  rw [← buildDeniedViaAdjudicationSet_load (List.mem_singleton_self r)]
  simp only [underAdjudication, Bool.or_eq_false_iff] at h
  exact h.2

theorem mem_ownLine (config : EngineConfig) {cutoff : Option Instant} {q : Instant}
    (hc : c ∈ σ.claims) (hcut : withinCutoff cutoff c.transactionTime = true) :
    ownRow σ c cutoff q ∈ ownLine config σ c cutoff q :=
  mem_lineRows.mpr ⟨c, mem_lineClaims.mpr ⟨hc, by simp [onLine], hcut⟩, rfl⟩

theorem mem_claims_of_ownLine {config : EngineConfig} {cutoff : Option Instant} {q : Instant}
    (h : ownRow σ c cutoff q ∈ ownLine config σ c cutoff q) :
    c ∈ σ.claims ∧ withinCutoff cutoff c.transactionTime = true := by
  obtain ⟨c', hc', hrow⟩ := mem_lineRows.mp h
  obtain rfl : c' = c := congrArg ClaimWithStatus.claim hrow
  obtain ⟨hc, _, hcut⟩ := mem_lineClaims.mp hc'
  exact ⟨hc, hcut⟩

theorem claims_subset_of_run {eng : Engine} {σ' : Store} {ops : List Op}
    (h : Run (Step eng) σ ops σ') (hc : c ∈ σ.claims) : c ∈ σ'.claims := by
  refine h.preserves (P := fun τ => c ∈ τ.claims) hc fun τ op τ' hτ hst => ?_
  obtain ⟨w, _, happ⟩ := apply_outcome eng τ op
  rw [hst.2, happ.claims]
  exact List.mem_append_left _ hτ

theorem loadClaim_eq {eng : Engine} (hσ : Reachable eng σ) (hc : c ∈ σ.claims) {target : Claim}
    (h : loadClaim σ c.agentId c.claimRef = some target) : target = c := by
  obtain ⟨hmem, _, href⟩ := mem_of_loadClaim h
  exact eq_of_claimRef hσ hmem hc href

end Log

section After

variable {eng : Engine} {σ τ : Store} {c : Claim} {req : AssertValidityRequest}
variable {e now q : Instant} {granularity : Option DateGranularity} {assertionRef : Uuid}

/-- The claim's log in a later store is the one that the bound left. -/
structure LogAfter (σ τ : Store) (c : Claim) (req : AssertValidityRequest) (e : Instant)
    (granularity : Option DateGranularity) (now : Instant) (assertionRef : Uuid) : Prop where
  mem : c ∈ τ.claims
  assertions : assertionsOf τ c.agentId c.claimRef = assertionsOf σ c.agentId c.claimRef ++
    [hostAssertion req (.bound e granularity) now assertionRef]
  entries : entriesOf τ c.agentId none c.claimRef = entriesOf σ c.agentId none c.claimRef ++
    [hostEntry req .superseded (hostBoundRationale e) now]
  ties : τ.ties = σ.ties

variable (h : LogAfter σ τ c req e granularity now assertionRef)
variable (hlast : ∀ x ∈ entriesOf σ c.agentId none c.claimRef, x.recordedAt ≤ now)

include h hlast

theorem LogAfter.entries_le (hq : now ≤ q) :
    ∀ x ∈ entriesOf τ c.agentId none c.claimRef, x.recordedAt ≤ q := by
  intro x hx
  rw [h.entries] at hx
  rcases List.mem_append.mp hx with hx | hx
  · exact le_trans (hlast x hx) hq
  · rw [List.mem_singleton.mp hx]
    exact hq

omit hlast in
/-- The scan for denials meets an entry that it met before, or the new one, which names the
    host. -/
theorem LogAfter.undenied_in_full (hσ : Attributed σ) (hτ : Attributed τ)
    (hfree : deniedOf σ c.agentId none c.claimRef = false) :
    deniedOf τ c.agentId none c.claimRef = false := by
  rw [Bool.eq_false_iff]
  intro hdenied
  obtain ⟨x, hx, hsup, hdeny⟩ := (deniedOf_iff hτ c.agentId none c.claimRef).mp hdenied
  rw [h.entries, h.ties] at hx
  rcases σ.ties.last_append_cases _ hx with hold | hnew
  · have hstood := (deniedOf_iff hσ c.agentId none c.claimRef).mpr ⟨x, hold, hsup, hdeny⟩
    rw [hfree] at hstood
    cases hstood
  · rw [List.mem_singleton.mp hnew] at hdeny
    have hhost : verdictHostBound = "deny" := Option.some.inj hdeny
    exact absurd hhost (by decide)

theorem LogAfter.undenied (hσ : Attributed σ) (hτ : Attributed τ)
    (hfree : deniedOf σ c.agentId none c.claimRef = false) (hq : now ≤ q) :
    deniedOf τ c.agentId (some q) c.claimRef = false := by
  rw [deniedOf, entriesOf_of_le (h.entries_le hlast hq), ← deniedOf]
  exact h.undenied_in_full hσ hτ hfree

omit hlast in
theorem LogAfter.latest :
    latestOf τ c.agentId none c.claimRef =
      if EndsAtOnce σ c req e now then some .superseded
      else latestOf σ c.agentId none c.claimRef := by
  rw [latestOf, h.entries, h.ties]
  split
  · rename_i hahead
    obtain ⟨x, hx, hfirst⟩ := hahead
    rw [hfirst, List.mem_singleton.mp hx]
    rfl
  · rename_i hahead
    rw [σ.ties.first_append_of_not_overtakes _ hahead, ← latestOf]

omit h hlast in
theorem hard_of_live {d : Option Disposition}
    (hd : ∀ x, d = some x → isNonLiveDisposition x = false) :
    (d.map isHardExcludedDisposition).getD false = false := by
  cases d with
  | none => rfl
  | some x => exact isHardExcluded_of_isNonLive (hd x rfl)

variable (hlive : ∀ d, latestOf σ c.agentId none c.claimRef = some d →
  isNonLiveDisposition d = false)

include hlive

omit hlast in
theorem LogAfter.kept :
    ((latestOf τ c.agentId none c.claimRef).map isHardExcludedDisposition).getD false = false := by
  rw [h.latest]
  split
  · rfl
  · exact hard_of_live hlive

omit hlast in
theorem LogAfter.disposition_live_iff :
    (∀ d, latestOf τ c.agentId none c.claimRef = some d → isNonLiveDisposition d = false) ↔
      ¬ EndsAtOnce σ c req e now := by
  rw [h.latest]
  split
  · rename_i hahead
    refine iff_of_false (fun hd => ?_) (not_not_intro hahead)
    cases hd .superseded rfl
  · rename_i hahead
    exact iff_of_true hlive hahead

theorem LogAfter.stillLive_iff (hq : now ≤ q) (htx : c.transactionTime ≤ now) :
    StillLive eng.config τ c q ↔
      activeBoundAt (assertionsOf τ c.agentId c.claimRef) q = none ∧
        ¬ EndsAtOnce σ c req e now := by
  have hrow : ownRow τ c (some q) q = ownRow τ c none q := rowOf_of_le (h.entries_le hlast hq)
  have hcut : withinCutoff (some q) c.transactionTime = true := by
    simpa [withinCutoff] using le_trans htx hq
  have hmem : ownRow τ c (some q) q ∈ ownLine eng.config τ c (some q) q := mem_ownLine _ h.mem hcut
  have hmem' : ownRow τ c none q ∈ ownLine eng.config τ c none q := mem_ownLine _ h.mem rfl
  have hiff : (ownRow τ c none q).isLive = true ↔
      activeBoundAt (assertionsOf τ c.agentId c.claimRef) q = none ∧
        ¬ EndsAtOnce σ c req e now := by
    rw [rowOf_isLive, h.disposition_live_iff hlive]
  rw [← hiff]
  constructor
  · exact fun hs => (mem_liveRows.mp hs.write).2
  · intro hl
    have hl' : (ownRow τ c (some q) q).isLive = true := hrow ▸ hl
    exact ⟨mem_liveRows.mpr ⟨hmem, hl'⟩, mem_liveRows.mpr ⟨hmem', hl⟩,
      List.mem_filter.mpr ⟨hmem, isCandidate_of_live hmem hl' _⟩,
      List.mem_filter.mpr ⟨hmem', isCandidate_of_live hmem' hl _⟩⟩

omit h hlast hlive in
theorem cut_eq_cut_iff {s : Span Instant} {b : Option Instant}
    (hin : ∀ oe, s.stop = some oe → e < oe) : s.cut b = s.cut (some e) ↔ b = some e := by
  refine ⟨fun hcut => ?_, fun hb => by rw [hb]⟩
  have hstop : Span.minEnd s.stop b = Span.minEnd s.stop (some e) := congrArg Span.stop hcut
  cases hs : s.stop with
  | none =>
    rw [hs] at hstop
    cases b <;> simp_all [Span.minEnd]
  | some oe =>
    have hlt := hin oe hs
    rw [hs] at hstop
    cases b with
    | none =>
      simp only [Span.minEnd, Option.some.injEq, min_eq_right (le_of_lt hlt)] at hstop
      exact absurd hstop (ne_of_gt hlt)
    | some b =>
      simp only [Span.minEnd, Option.some.injEq, min_eq_right (le_of_lt hlt)] at hstop
      rcases min_choice oe b with hmin | hmin
      · exact absurd (hmin.symm.trans hstop) (ne_of_gt hlt)
      · rw [← hmin, hstop]

theorem LogAfter.closedAt_iff (hσ : Attributed σ) (hτ : Attributed τ)
    (hfree : deniedOf σ c.agentId none c.claimRef = false) (hq : now ≤ q)
    (htx : c.transactionTime ≤ now)
    (hin : ∀ oe, c.validTime.stop = some oe → e < oe) :
    ClosedAt eng.config τ c e q ↔
      (activeBoundAt (assertionsOf τ c.agentId c.claimRef) q).map (·.boundAt) = some e := by
  have hcut : withinCutoff (some q) c.transactionTime = true := by
    simpa [withinCutoff] using le_trans htx hq
  have hmem : ownRow τ c (some q) q ∈ ownLine eng.config τ c (some q) q := mem_ownLine _ h.mem hcut
  rw [← rowOf_boundAt τ c.agentId (some q) q c, ← cut_eq_cut_iff (s := window c.validTime) hin]
  refine ⟨fun hcl => hcl.window, fun hwin => ?_⟩
  have hb := (cut_eq_cut_iff (s := window c.validTime) hin).mp hwin
  have hdead : ∀ cutoff, (ownRow τ c cutoff q).isLive ≠ true := by
    intro cutoff hl
    have := rowOf_boundAt_of_live hl
    rw [rowOf_boundAt] at this hb
    rw [this] at hb
    cases hb
  refine ⟨fun hm => hdead _ (mem_liveRows.mp hm).2, fun hm => hdead _ (mem_liveRows.mp hm).2,
    List.mem_filter.mpr ⟨hmem, ?_⟩, hwin⟩
  have hkept : ((ownRow τ c (some q) q).lastDisposition.map
      isHardExcludedDisposition).getD false = false := by
    rw [rowOf_lastDisposition, latestOf, entriesOf_of_le (h.entries_le hlast hq), ← latestOf]
    exact h.kept hlive
  rw [isCandidate, hkept, rowOf_claim, h.undenied hlast hσ hτ hfree hq, hb]
  simp

/-- The bound takes effect exactly when no other assertion interferes and, for a bound
    after its own stamp, its entry is not read ahead of the claim's older ones. -/
theorem LogAfter.takesEffect_iff (hσ : Attributed σ) (hτ : Attributed τ)
    (hfree : deniedOf σ c.agentId none c.claimRef = false) (htx : c.transactionTime ≤ now)
    (hin : ∀ oe, c.validTime.stop = some oe → e < oe) :
    TakesEffect eng.config τ c e now ↔
      Unimpeded (assertionsOf τ c.agentId c.claimRef) e now ∧
        (e ≤ now ∨ ¬ EndsAtOnce σ c req e now) := by
  constructor
  · intro ht
    refine ⟨fun q hq => ?_, ?_⟩
    · split
      · rename_i he
        exact (h.closedAt_iff hlast hlive hσ hτ hfree hq htx hin).mp (ht.after q hq he)
      · rename_i he
        rw [((h.stillLive_iff hlast hlive hq htx).mp (ht.before q hq (not_le.mp he))).1]
        rfl
    · by_cases he : e ≤ now
      · exact .inl he
      · exact .inr ((h.stillLive_iff hlast hlive le_rfl htx).mp
          (ht.before now le_rfl (not_le.mp he))).2
  · rintro ⟨hun, hcase⟩
    refine ⟨fun q hq he => ?_, fun q hq he => ?_⟩
    · have hnone := hun q hq
      rw [if_neg (not_le_of_gt he), Option.map_eq_none_iff] at hnone
      refine (h.stillLive_iff hlast hlive hq htx).mpr ⟨hnone, ?_⟩
      exact hcase.resolve_left fun hle => absurd (le_trans hle hq) (not_le_of_gt he)
    · have hsome := hun q hq
      rw [if_pos he] at hsome
      exact (h.closedAt_iff hlast hlive hσ hτ hfree hq htx hin).mpr hsome

end After

section Main

variable {eng : Engine} {σ τ : Store} {c : Claim} {req : AssertValidityRequest}
variable {e now : Instant} {granularity : Option DateGranularity} {assertionRef : Uuid}
variable {resp : AssertValidityResponse}

def justParis : Store :=
  run (defaultEngine false) Store.sqlite
    [.ingestClaim (remember "Paris" (some (dated 1 none))) 10 ⟨1⟩ (.ok 0)]

def parisClaim : Claim := stamp (remember "Paris" (some (dated 1 none))) ⟨1⟩ 10

end Main

end Mempill.BoundEffect
