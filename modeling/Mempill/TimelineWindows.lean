import Mempill.DeniedClaims
import Mempill.HistoryAgreement

set_option autoImplicit false

/-!
# Timeline windows

When the windows that a timeline displays are in order and disjoint.
-/
namespace Mempill.TimelineWindows
open Mempill.Types Mempill.Persistence Mempill.TruthEngine Mempill.ValidTimeHelpers Mempill.Rows
open Mempill.IngestClaim Mempill.QueryHistory Mempill.Engine Mempill.Invariants Mempill.DeniedClaims
open Mempill.HistoryAgreement HalfOpen StampedLog

section Statement

variable (config : EngineConfig) (σ : Store) (agentId : AgentId)

/-- The claim is trusted and not quarantined. -/
structure Vouched (c : Claim) : Prop where
  trusted : claimIsTrusted c config.validTimeConfidenceThreshold = true
  admitted : latestOf σ agentId none c.claimRef ≠ some .quarantined

/-- The claim is vouched for and no oracle has denied it. -/
structure Eligible (c : Claim) : Prop extends Vouched config σ agentId c where
  undenied : ¬ Denied σ agentId c.claimRef

instance (c : Claim) : Decidable (Vouched config σ agentId c) :=
  decidable_of_iff (claimIsTrusted c config.validTimeConfidenceThreshold = true ∧
    latestOf σ agentId none c.claimRef ≠ some .quarantined)
    ⟨fun h => ⟨h.1, h.2⟩, fun h => ⟨h.trusted, h.admitted⟩⟩

instance (c : Claim) : Decidable (Eligible config σ agentId c) :=
  decidable_of_iff (Vouched config σ agentId c ∧ ¬ Denied σ agentId c.claimRef)
    ⟨fun h => ⟨h.1, h.2⟩, fun h => ⟨h.toVouched, h.undenied⟩⟩

/-- The half-open window that an entry displays. -/
def shown (e : HistoryEntry) : Span Instant := ⟨e.validFrom.getD 0, e.validUntil⟩

/-- The claim of an entry. -/
def ShowsClaim (e : HistoryEntry) (c : Claim) : Prop := c ∈ σ.claims ∧ c.claimRef = e.claimRef

structure WellFormed (subject predicate : String) (now : Instant) : Prop where
  ordered : ∀ e ∈ timeline config σ agentId subject predicate now, ∀ c, ShowsClaim σ e c →
    Vouched config σ agentId c → ∀ start stop, e.validFrom = some start →
      e.validUntil = some stop → start ≤ stop
  disjoint : ∀ e ∈ timeline config σ agentId subject predicate now, ∀ c, ShowsClaim σ e c →
    ∀ e' ∈ timeline config σ agentId subject predicate now, ∀ c', ShowsClaim σ e' c' →
      Eligible config σ agentId c → Eligible config σ agentId c' → e.claimRef ≠ e'.claimRef →
        e.status ≠ .contested → e'.status ≠ .contested → ¬ (shown e).Meet (shown e')

end Statement

section Condition

variable (config : EngineConfig) (rows : List ClaimWithStatus)

/-- The stated end or the active bound of a row lies before its start. -/
def Inverted (cs : ClaimWithStatus) : Prop :=
  ∃ start ∈ cs.claim.validTime.start, ∃ stop ∈ (effectiveWindow cs).stop, stop < start

instance (cs : ClaimWithStatus) : Decidable (Inverted cs) := by unfold Inverted; infer_instance

/-- A live row that runs into its successor, or that is one of several rivals. -/
def InConflict (cs : ClaimWithStatus) : Prop :=
  cs.isLive = true ∧ (RunsIntoSuccessor config rows cs ∨
    Rivalry config rows ∧ ∃ x ∈ liveRows rows, x.claim.cardinality ≠ .setValued)

instance (cs : ClaimWithStatus) : Decidable (InConflict config rows cs) := by
  unfold InConflict; infer_instance

/-- Both effective windows contain the start of the second row, which is the start of
    the first too, or the first row is closed and yet runs into its successor. -/
def Spills (x y : ClaimWithStatus) : Prop :=
  (effectiveWindow x).Mem (window y.claim.validTime).start ∧
    (effectiveWindow y).Mem (window y.claim.validTime).start ∧
    ((window x.claim.validTime).start = (window y.claim.validTime).start ∨
      x.isLive = false ∧ RunsIntoSuccessor config rows x)

instance (x y : ClaimWithStatus) : Decidable (Spills config rows x y) := by
  unfold Spills; infer_instance

/-- No vouched row is inverted, and no eligible row outside a conflict spills into
    another. -/
structure Tidy (σ : Store) (agentId : AgentId) : Prop where
  upright : ∀ cs ∈ rows, Vouched config σ agentId cs.claim → ¬ Inverted cs
  apart : ∀ x ∈ rows, ∀ y ∈ rows, Eligible config σ agentId x.claim →
    Eligible config σ agentId y.claim → x.claim.claimRef ≠ y.claim.claimRef →
      ¬ InConflict config rows x → ¬ InConflict config rows y → ¬ Spills config rows x y

end Condition

section Entry

variable {config : EngineConfig} {rows : List ClaimWithStatus} {now t : Instant}
variable {cs x y : ClaimWithStatus} {e e' : HistoryEntry}

/-- What the entry of a row displays. -/
structure EntryOf (config : EngineConfig) (rows : List ClaimWithStatus) (now : Instant)
    (cs : ClaimWithStatus) (e : HistoryEntry) : Prop where
  claimRef : e.claimRef = cs.claim.claimRef
  validFrom : e.validFrom = cs.claim.validTime.start
  endsAfter : ∀ t, EndsAfter t e.validUntil ↔ EndsAfter t (effectiveWindow cs).stop ∧
    (RunsIntoSuccessor config rows cs ∨
      ∀ z ∈ rows, primaryKey cs.claim config < primaryKey z.claim config →
        t < primaryKey z.claim config)
  contested : e.status = .contested ↔ InConflict config rows cs

theorem hasConflict_iff (hnodup : (rows.map (·.claim.claimRef)).Nodup) :
    (foldStatuses rows now config).hasConflict = true ↔
      Rivalry config rows ∧ ∃ x ∈ liveRows rows, x.claim.cardinality ≠ .setValued := by
  by_cases hr : Rivalry config rows
  · have hchain : ¬ Chain config rows := fun hc => by simpa [hr.2] using hc.2
    rw [foldStatuses_hasConflict, foldStatuses_of_not_chain hchain, structuralConflict_iff]
    exact and_congr_left fun _ => iff_of_true hr.1 hr
  · have hfew := length_liveClaims_le_one now hnodup hr
    rw [foldStatuses_hasConflict, structuralConflict_of_length_le hfew]
    exact iff_of_false Bool.false_ne_true fun h => hr h.1

theorem entryOf_historyEntry {pre later : List ClaimWithStatus}
    (h : KeyOrdered config (pre ++ cs :: later)) :
    EntryOf config (pre ++ cs :: later) now cs
      (historyEntry (foldStatuses (pre ++ cs :: later) now config).liveClaims cs
        (historyWindow cs later
          (foldStatuses (pre ++ cs :: later) now config).hasConflict now config)) where
  claimRef := rfl
  validFrom := rfl
  endsAfter := endsAfter_validUntil_iff h
    (foldStatuses (pre ++ cs :: later) now config).hasConflict now
  contested := by
    refine (entryStatus_eq_contested _ _ _).trans (and_congr_right fun hlive => ?_)
    rw [contested_historyWindow, ← runsIntoSuccessor_iff h, hlive, Bool.true_and,
      hasConflict_iff h.nodup]

/-- Every entry is the entry of a row, and every row has one. -/
theorem exists_row_of_entry (h : KeyOrdered config rows) (he : e ∈ entriesFor config rows now) :
    ∃ cs ∈ rows, EntryOf config rows now cs e := by
  obtain ⟨pre, cs, later, rfl, rfl⟩ := (mem_zipWith_windows _ _ _ _).mp he
  exact ⟨cs, by simp, entryOf_historyEntry h⟩

theorem exists_entry_of_row (h : KeyOrdered config rows) (hcs : cs ∈ rows) :
    ∃ e ∈ entriesFor config rows now, EntryOf config rows now cs e := by
  obtain ⟨pre, later, rfl⟩ := List.append_of_mem hcs
  exact ⟨_, (mem_zipWith_windows _ _ _ _).mpr ⟨pre, cs, later, rfl, rfl⟩, entryOf_historyEntry h⟩

theorem primaryKey_of_trusted {c : Claim}
    (h : claimIsTrusted c config.validTimeConfidenceThreshold = true) :
    primaryKey c config = (window c.validTime).start := by
  obtain ⟨hconf, start, hstart⟩ := (claimIsTrusted_iff _ _).mp h
  rw [primaryKey, if_pos hconf, hstart, window_eq hstart, Option.getD_some]

theorem EntryOf.start (h : EntryOf config rows now cs e) :
    (shown e).start = (window cs.claim.validTime).start := by
  rw [shown, h.validFrom, window]

theorem EntryOf.mem_shown (h : EntryOf config rows now cs e) :
    (shown e).Mem t ↔ (effectiveWindow cs).Mem t ∧ (RunsIntoSuccessor config rows cs ∨
      ∀ z ∈ rows, primaryKey cs.claim config < primaryKey z.claim config →
        t < primaryKey z.claim config) := by
  rw [Span.Mem, h.start, Span.Mem, and_assoc]
  exact and_congr_right fun _ => h.endsAfter t

/-- Up to its own start no later row cuts a trusted row. -/
theorem EntryOf.endsAfter_of_le (h : EntryOf config rows now cs e)
    (htrust : claimIsTrusted cs.claim config.validTimeConfidenceThreshold = true)
    (ht : t ≤ (window cs.claim.validTime).start) :
    EndsAfter t e.validUntil ↔ EndsAfter t (effectiveWindow cs).stop := by
  rw [h.endsAfter, and_iff_left]
  refine .inr fun z _ hlt => lt_of_le_of_lt ht ?_
  rwa [primaryKey_of_trusted htrust] at hlt

theorem endsAfter_before_iff {start : Instant} {stop : Option Instant} :
    (∀ s, stop = some s → start ≤ s) ↔ ∀ t < start, EndsAfter t stop := by
  cases stop with
  | none => simp [EndsAfter]
  | some s =>
    simp only [Option.some.injEq, forall_eq', EndsAfter]
    constructor
    · exact fun h t ht => lt_of_lt_of_le ht h
    · exact fun h => le_of_not_gt fun hlt => lt_irrefl _ (h s hlt)

theorem EntryOf.ordered_iff (h : EntryOf config rows now cs e)
    (htrust : claimIsTrusted cs.claim config.validTimeConfidenceThreshold = true) :
    (∀ start stop, e.validFrom = some start → e.validUntil = some stop → start ≤ stop) ↔
      ¬ Inverted cs := by
  obtain ⟨_, start, hstart⟩ := (claimIsTrusted_iff _ _).mp htrust
  have hwin : (window cs.claim.validTime).start = start := by rw [window_eq hstart]
  have hcut : (∀ stop, e.validUntil = some stop → start ≤ stop) ↔
      ∀ stop, (effectiveWindow cs).stop = some stop → start ≤ stop := by
    rw [endsAfter_before_iff, endsAfter_before_iff]
    exact forall₂_congr fun t ht => h.endsAfter_of_le htrust (hwin ▸ ht.le)
  rw [h.validFrom, Inverted, hstart]
  constructor
  · rintro hord ⟨_, ⟨⟩, stop, hstop, hlt⟩
    exact not_lt_of_ge (hcut.mp (fun s hs => hord start s rfl hs) stop hstop) hlt
  · rintro hup _ stop ⟨⟩ hstop
    refine hcut.mpr (fun s hs => le_of_not_gt fun hlt => hup ?_) stop hstop
    exact ⟨start, rfl, s, hs, hlt⟩

/-- Of two trusted rows the one that starts first is displayed into the other exactly if
    it spills into it, neither being in a conflict. -/
theorem meet_shown_iff (hx : EntryOf config rows now x e) (hy : EntryOf config rows now y e')
    (hymem : y ∈ rows)
    (htx : claimIsTrusted x.claim config.validTimeConfidenceThreshold = true)
    (hty : claimIsTrusted y.claim config.validTimeConfidenceThreshold = true)
    (hfree : ¬ InConflict config rows x)
    (hle : (window x.claim.validTime).start ≤ (window y.claim.validTime).start) :
    (shown e).Meet (shown e') ↔ Spills config rows x y := by
  have hxkey := primaryKey_of_trusted htx
  have hykey := primaryKey_of_trusted hty
  have hself : (shown e').Mem (window y.claim.validTime).start ↔
      (effectiveWindow y).Mem (window y.claim.validTime).start := by
    rw [hy.mem_shown, and_iff_left]
    exact .inr fun z _ hlt => hykey ▸ hlt
  rw [Span.meet_iff (by rwa [hx.start, hy.start]), hy.start, hself, hx.mem_shown, Spills, and_assoc]
  refine and_congr_right fun _ => and_comm.trans (and_congr_right fun _ => ?_)
  constructor
  · rintro (hruns | hcut)
    · refine .inr ⟨Bool.eq_false_iff.mpr fun hlive => hfree ⟨hlive, .inl hruns⟩, hruns⟩
    · refine .inl (hle.eq_of_not_lt fun hlt => ?_)
      rw [← hxkey, ← hykey] at hlt
      exact absurd (hcut y hymem hlt) (hykey ▸ lt_irrefl _)
  · rintro (heq | ⟨_, hruns⟩)
    · refine .inr fun z _ hlt => ?_
      rwa [hxkey, heq] at hlt
    · exact .inl hruns

end Entry

section Main

variable {eng : Engine} {σ : Store} {agentId : AgentId} {subject predicate : String}
variable {now : Instant}

theorem showsClaim_iff (hσ : Reachable eng σ) {cs : ClaimWithStatus} {e : HistoryEntry}
    (hcs : cs ∈ lineRows eng.config σ agentId subject predicate none now)
    (he : e.claimRef = cs.claim.claimRef) {c : Claim} : ShowsClaim σ e c ↔ c = cs.claim := by
  obtain ⟨d, hd, rfl⟩ := mem_lineRows.mp hcs
  have hmem := (mem_lineClaims.mp hd).1
  rw [ShowsClaim, he]
  constructor
  · exact fun h => eq_of_claimRef hσ h.1 hmem h.2
  · rintro rfl
    exact ⟨hmem, rfl⟩

/-- A timeline is well formed exactly if the rows of its line are tidy. -/
theorem timeline_wellFormed_iff (hσ : Reachable eng σ) (agentId : AgentId)
    (subject predicate : String) (now : Instant) :
    WellFormed eng.config σ agentId subject predicate now ↔
      Tidy eng.config (lineRows eng.config σ agentId subject predicate none now) σ agentId := by
  have hkey := lineRows_keyOrdered eng.config hσ agentId subject predicate none now
  constructor
  · refine fun hwell => ⟨fun cs hcs hv => ?_, fun x hx y hy hex hey hne hfx hfy hspill => ?_⟩
    · obtain ⟨e, he, hentry⟩ := exists_entry_of_row hkey hcs
      rw [← timeline_eq_entriesFor] at he
      refine (hentry.ordered_iff hv.trusted).mp ?_
      exact hwell.ordered e he _ ((showsClaim_iff hσ hcs hentry.claimRef).mpr rfl) hv
    · obtain ⟨e, he, hxe⟩ := exists_entry_of_row hkey hx
      obtain ⟨e', he', hye⟩ := exists_entry_of_row hkey hy
      rw [← timeline_eq_entriesFor] at he he'
      have hle : (window x.claim.validTime).start ≤ (window y.claim.validTime).start :=
        hspill.1.1
      refine hwell.disjoint e he _ ((showsClaim_iff hσ hx hxe.claimRef).mpr rfl) e' he' _
        ((showsClaim_iff hσ hy hye.claimRef).mpr rfl) hex hey ?_ ?_ ?_ ?_
      · rwa [hxe.claimRef, hye.claimRef]
      · exact fun hc => hfx (hxe.contested.mp hc)
      · exact fun hc => hfy (hye.contested.mp hc)
      · exact (meet_shown_iff hxe hye hy hex.trusted hey.trusted hfx hle).mpr hspill
  · refine fun htidy => ⟨fun e he c hc hv => ?_,
      fun e he c hc e' he' c' hc' hec hec' hne hse hse' hmeet => ?_⟩
    · rw [timeline_eq_entriesFor] at he
      obtain ⟨cs, hcs, hentry⟩ := exists_row_of_entry hkey he
      obtain rfl := (showsClaim_iff hσ hcs hentry.claimRef).mp hc
      exact (hentry.ordered_iff hv.trusted).mpr (htidy.upright cs hcs hv)
    · rw [timeline_eq_entriesFor] at he he'
      obtain ⟨x, hx, hxe⟩ := exists_row_of_entry hkey he
      obtain ⟨y, hy, hye⟩ := exists_row_of_entry hkey he'
      obtain rfl := (showsClaim_iff hσ hx hxe.claimRef).mp hc
      obtain rfl := (showsClaim_iff hσ hy hye.claimRef).mp hc'
      rw [hxe.claimRef, hye.claimRef] at hne
      have hfx : ¬ InConflict eng.config _ x := fun h => hse (hxe.contested.mpr h)
      have hfy : ¬ InConflict eng.config _ y := fun h => hse' (hye.contested.mpr h)
      -- the two entries may come in either order
      rcases le_total (window x.claim.validTime).start (window y.claim.validTime).start with
        hle | hle
      · refine htidy.apart x hx y hy hec hec' hne hfx hfy ?_
        exact (meet_shown_iff hxe hye hy hec.trusted hec'.trusted hfx hle).mp hmeet
      · refine htidy.apart y hy x hx hec' hec hne.symm hfy hfx ?_
        exact (meet_shown_iff hye hxe hx hec'.trusted hec.trusted hfy hle).mp hmeet.symm

/-- The first fact is ended where the second begins. -/
def handover : List Op :=
  [.ingestClaim (remember "Paris" (some (dated 1 none))) 10 ⟨1⟩ (.ok 0),
    .assertValidity (assertOn 1 (.bound 5 none)) 20 500,
    .ingestClaim (remember "Berlin" (some (dated 5 none))) 30 ⟨2⟩ (.ok 0)]

theorem handover_wellFormed :
    WellFormed EngineConfig.default (run (defaultEngine false) Store.sqlite handover) agent "user"
      "location" 40 :=
  (timeline_wellFormed_iff (run_reachable (by decide) : Reachable (defaultEngine false) _)
    agent "user" "location" 40).mpr
    ⟨by decide, by decide⟩

/-- The first fact is ended after the second begins: it is closed, and no entry shows a
    contest. -/
def lateEnd : List Op :=
  [.ingestClaim (remember "Paris" (some (dated 1 none))) 10 ⟨1⟩ (.ok 0),
    .assertValidity (assertOn 1 (.bound 7 none)) 20 500,
    .ingestClaim (remember "Berlin" (some (dated 5 none))) 30 ⟨2⟩ (.ok 0)]

theorem lateEnd_first_entry :
    ∃ e ∈ timeline EngineConfig.default (run (defaultEngine false) Store.sqlite lateEnd) agent
      "user" "location" 40, e.claimRef = ⟨1⟩ ∧ e.validFrom = some 1 ∧ e.validUntil = some 7 ∧
        e.status ≠ .contested := by decide

/-- The affirmed challenger began before the incumbent. -/
def affirmedEarlier : List Op :=
  [.ingestClaim (remember "Berlin" (some (dated 5 none))) 10 ⟨1⟩ (.ok 100),
    .ingestClaim (remember "Paris" (some (dated 1 none))) 20 ⟨2⟩ (.ok 101),
    verdictOn 101 .affirm 30 500]

theorem bounds_break_timelines :
    let late := run (defaultEngine false) Store.sqlite lateEnd
    let affirmed := run (defaultEngine true) Store.sqlite affirmedEarlier
    (Reachable (defaultEngine false) late ∧
        ¬ WellFormed EngineConfig.default late agent "user" "location" 40) ∧
      Reachable (defaultEngine true) affirmed ∧
        ¬ WellFormed EngineConfig.default affirmed agent "user" "location" 40 := by
  refine ⟨⟨run_reachable (by decide), fun h => ?_⟩, run_reachable (by decide), fun h => ?_⟩
  · obtain ⟨e, he, href, hfrom, huntil, hst⟩ := lateEnd_first_entry
    obtain ⟨e', he', href', hfrom', huntil', hst'⟩ : ∃ e ∈ timeline EngineConfig.default
        (run (defaultEngine false) Store.sqlite lateEnd) agent "user" "location" 40,
        e.claimRef = ⟨2⟩ ∧ e.validFrom = some 5 ∧ e.validUntil = none ∧
          e.status ≠ .contested := by decide
    refine h.disjoint e he (stamp (remember "Paris" (some (dated 1 none))) ⟨1⟩ 10)
      ⟨by decide, href.symm⟩ e' he' (stamp (remember "Berlin" (some (dated 5 none))) ⟨2⟩ 30)
      ⟨by decide, href'.symm⟩ (by decide) (by decide) (by rw [href, href']; decide) hst hst'
      ⟨6, ?_, ?_⟩
    · rw [shown, hfrom, huntil]; decide
    · rw [shown, hfrom', huntil']; decide
  · obtain ⟨e, he, href, hfrom, huntil⟩ : ∃ e ∈ timeline EngineConfig.default
        (run (defaultEngine true) Store.sqlite affirmedEarlier) agent "user" "location" 40,
        e.claimRef = ⟨1⟩ ∧ e.validFrom = some 5 ∧ e.validUntil = some 1 := by decide
    have hle := h.ordered e he (stamp (remember "Berlin" (some (dated 5 none))) ⟨1⟩ 10)
      ⟨by decide, href.symm⟩ (by decide) 5 1 hfrom huntil
    exact absurd hle (by decide)

end Main

end Mempill.TimelineWindows
