import Mempill.Answers
import Mempill.SweepDrains

set_option autoImplicit false

/-!
# Settled lines

When a reconcile pass over a line that is not contested, and a sweep after it, leave
the answer of the line as it was.
-/
namespace Mempill.SettledLines
open Mempill.Types Mempill.Persistence Mempill.TruthEngine Mempill.Gate Mempill.Rows
open Mempill.IngestClaim Mempill.QueryMemory Mempill.Sweep Mempill.SubmitAdjudication
open Mempill.Reconcile Mempill.Engine Mempill.Invariants Mempill.ClaimLog Mempill.QueueRows
open Mempill.ReconcilePass Mempill.Verdicts Mempill.HandleOnce Mempill.QueueCorrespondence
open Mempill.SweepDrains StampedLog

section Statement

def lineRequest (line : SubjectLineRef) : ReconcileRequest :=
  ⟨line.agentId, [(line.subject, line.predicate)]⟩

def lineAnswer (config : EngineConfig) (σ : Store) (line : SubjectLineRef) (t : Instant) :
    BeliefProjection :=
  recallNow config σ line.agentId line.subject line.predicate t

structure SameAnswer (config : EngineConfig) (σ υ : Store) (line : SubjectLineRef)
    (t : Instant) : Prop where
  status : (lineAnswer config υ line t).status = (lineAnswer config σ line t).status
  primary : (lineAnswer config υ line t).primary = (lineAnswer config σ line t).primary

variable (eng : Engine) (σ : Store) (line : SubjectLineRef) (now later : Instant)

def linePassed : Store := passed eng σ (lineRequest line) now

def sweptAfter : Store := (sweepExpiredAdjudications eng (linePassed eng σ line now) later).2

/-- What a pass at `now`, and a sweep at `later` after it, promise of a settled line. -/
structure StaysSettled : Prop where
  undecided : ∀ c, lineSelected eng.config σ line now = [c] →
    ∀ outcome ∈ (Reconcile.execute eng σ (lineRequest line) now).1.outcomes,
      outcome.1 = c.claimRef →
        outcome.2 ≠ .contested ∧ outcome.2 ≠ .queuedForAdjudication
  afterPass : SameAnswer eng.config σ (linePassed eng σ line now) line now
  afterSweep : (lineAnswer eng.config σ line later).status ≠ .contested →
    SameAnswer eng.config σ (sweptAfter eng σ line now later) line later

/-- The live claims of the line, in key order. -/
def liveOn (config : EngineConfig) (t : Instant) : List Claim :=
  (lineClaims config σ line.agentId line.subject line.predicate none).filter fun c =>
    (rowOf σ line.agentId none t c).isLive

/-- What the pass appends for a claim of the line. -/
def lineNews (c : Claim) : List LedgerEntry :=
  if c ∈ lineSelected eng.config σ line now then [gateEntry eng σ line.agentId now c] else []

/-- The folds take the entry of the pass for the latest, -/
def passRead (c : Claim) : Bool :=
  decide (σ.ties.Overtakes LedgerEntry.recordedAt (entriesOf σ line.agentId none c.claimRef)
    (lineNews eng σ line now c))

/-- and so do the verdicts and the sweep. -/
def passTaken (c : Claim) : Bool :=
  decide (Overtaken σ line.agentId c.claimRef (lineNews eng σ line now c))

/-- The pass quarantines the claim, by an entry that becomes its latest. -/
def requarantined (c : Claim) : Bool :=
  passRead eng σ line now c && !c.provenance.isRecallReentry &&
    isTemporallyIncoherent c eng.config

def leftContested (c : Claim) : Bool :=
  passRead eng σ line now c && disputedOn eng.config σ line now c && !eng.oraclePresent

/-- The claim is on the queue once the pass is done. -/
def onQueue (c : Claim) : Bool :=
  if passTaken eng σ line now c then disputedOn eng.config σ line now c && eng.oraclePresent
  else currentDisposition σ line.agentId c.claimRef == some .queuedForAdjudication

/-- No pending row keeps the claim on the queue beyond the sweep. -/
def reverted (c : Claim) : Bool :=
  eng.pendingStorePresent && onQueue eng σ line now c && σ.pending.all fun row =>
    !(row.agentId == line.agentId && row.challengerClaimRef == c.claimRef &&
      row.status == .pending) || row.expiresAt.any fun t => decide (t ≤ later)

/-- The folds take an entry of the sweep for the latest: one of a later stamp, or of the
    stamp of the pass and ahead of the entries that it ties with. -/
def sweepRead (c : Claim) : Bool :=
  reverted eng σ line now later c && (decide (now < later) || decide
    (σ.ties.Overtakes LedgerEntry.recordedAt
      (entriesOf σ line.agentId none c.claimRef ++ lineNews eng σ line now c)
      (σ.ties.reverse.untilTaken LedgerEntry.recordedAt
        (entriesOf σ line.agentId none c.claimRef ++ lineNews eng σ line now c)
        (reversions (linePassed eng σ line now) later line.agentId c.claimRef))))

/-- The live claims once the pass is done: not those that it quarantines, -/
def liveAfterPass (t : Instant) : List Claim :=
  (liveOn σ line eng.config t).filter fun c => !requarantined eng σ line now c

/-- and after the sweep also those that it takes off the queue up to their bound. -/
def liveAfterSweep (t : Instant) : List Claim :=
  (lineClaims eng.config σ line.agentId line.subject line.predicate none).filter fun c =>
    if sweepRead eng σ line now later c then
      (activeBoundAt (assertionsOf σ line.agentId c.claimRef) t).isNone
    else (rowOf σ line.agentId none t c).isLive && !requarantined eng σ line now c

/-- The selection stays the same or still has several members, and no member is marked. -/
structure KeepsSelection (config : EngineConfig) (live after : List Claim)
    (marked : Claim → Bool) (t : Instant) : Prop where
  selection : selectLive config after t = selectLive config live t ∨
    1 < (selectLive config live t).length ∧ 1 < (selectLive config after t).length
  unmarked : ∀ c ∈ selectLive config after t, marked c = false

instance (config : EngineConfig) (live after : List Claim) (marked : Claim → Bool)
    (t : Instant) : Decidable (KeepsSelection config live after marked t) :=
  decidable_of_iff
    ((selectLive config after t = selectLive config live t ∨
        1 < (selectLive config live t).length ∧ 1 < (selectLive config after t).length) ∧
      ∀ c ∈ selectLive config after t, marked c = false)
    ⟨fun h => ⟨h.1, h.2⟩, fun h => ⟨h.1, h.2⟩⟩

structure Undisturbed : Prop where
  sole : ∀ c, lineSelected eng.config σ line now = [c] → disputedOn eng.config σ line now c = false
  pass : KeepsSelection eng.config (liveOn σ line eng.config now)
    (liveAfterPass eng σ line now now) (leftContested eng σ line now) now
  sweep : (lineAnswer eng.config σ line later).status ≠ .contested →
    KeepsSelection eng.config (liveOn σ line eng.config later)
      (liveAfterSweep eng σ line now later later)
      (fun c => leftContested eng σ line now c || sweepRead eng σ line now later c) later

end Statement

section Selection

variable {config : EngineConfig} {live live' : List Claim} {t : Instant}

theorem selectLive_sublist (config : EngineConfig) (live : List Claim) (t : Instant) :
    (selectLive config live t).Sublist live := by
  unfold selectLive
  split
  · split
    · split
      · exact List.filter_sublist
      · exact List.nil_sublist _
    · exact List.Sublist.refl _
  · exact List.Sublist.refl _

theorem filter_ref_length_le (hnodup : (live.map (·.claimRef)).Nodup) (r : ClaimRef) :
    (live.filter fun c => c.claimRef == r).length ≤ 1 := by
  rw [← List.countP_eq_length_filter]
  have hcount := List.nodup_iff_count_le_one.mp hnodup r
  rwa [List.count, List.countP_map] at hcount

/-- Several claims are selected only when all live ones are. -/
theorem selectLive_of_many (hnodup : (live.map (·.claimRef)).Nodup)
    (hmany : 1 < (selectLive config live t).length) : selectLive config live t = live := by
  unfold selectLive at hmany ⊢
  split at hmany
  · rename_i hlen
    rw [if_pos hlen]
    split at hmany
    · split at hmany
      · exact absurd hmany (not_lt_of_ge (filter_ref_length_le hnodup _))
      · cases hmany
    · rename_i hs
      rw [if_neg hs]
  · rename_i hlen
    exact absurd hmany hlen

end Selection

section Report

variable {config : EngineConfig} {rows : List ClaimWithStatus} {live : List Claim} {t : Instant}
variable {f : Claim → ClaimWithStatus} {ledgerEntries : List LedgerEntry}

/-- What the recall reports on the selected claims. -/
structure Reports (f : Claim → ClaimWithStatus) (config : EngineConfig) (selected : List Claim)
    (t : Instant) (answer : BeliefProjection) : Prop where
  empty : selected = [] → answer.status = .noBelief ∧ answer.primary = none
  single : ∀ c, selected = [c] →
    answer.primary = some (liveBelief t config (f c)) ∧
      answer.status = if (f c).lastDisposition = some .contested then .contested
        else if c.validTime.isUnknown then .timingUncertain else .resolved
  many : 1 < selected.length → answer.primary = none ∧
    (answer.status = .contested ∨ answer.status = .resolved) ∧
    (answer.status = .resolved ↔ (∀ c ∈ selected, (f c).lastDisposition ≠ some .contested) ∧
      structuralConflict (selected.map f) = false)

theorem reports (hf : ∀ c, (f c).claim = c) (hlive : liveRows rows = live.map f) :
    Reports f config (selectLive config live t) t (report config rows t ledgerEntries) := by
  have hselected := selected_eq hf hlive t config
  have hconflict : (foldStatuses rows t config).hasConflict =
      structuralConflict ((selectLive config live t).map f) := by
    rw [foldStatuses_hasConflict, hselected]
  have hcontested : anyContested (foldStatuses rows t config).liveClaims = true ↔
      ∃ c ∈ selectLive config live t, (f c).lastDisposition = some .contested := by
    rw [hselected, anyContested, List.any_map, List.any_eq_true]
    simp
  unfold report
  refine ⟨fun h => ?_, fun c h => ?_, fun h => ?_⟩
  · rw [h, List.map_nil] at hselected
    obtain ⟨hstatus, hprimary, _⟩ := project_of_nil ledgerEntries t config
      (anyContested (foldStatuses rows t config).liveClaims) hselected
    exact ⟨hstatus, hprimary⟩
  · rw [h, List.map_singleton] at hselected hconflict
    obtain ⟨hstatus, hprimary, _⟩ := project_of_singleton ledgerEntries t config
      (anyContested (foldStatuses rows t config).liveClaims) hselected
      (hconflict.trans (structuralConflict_of_length_le (le_refl 1)))
    refine ⟨hprimary, hstatus.trans ?_⟩
    rw [h] at hcontested
    simp only [List.mem_singleton, exists_eq_left] at hcontested
    simp only [hcontested, hf]
  · have hlen : 1 < (foldStatuses rows t config).liveClaims.length := by
      rw [hselected, List.length_map]
      exact h
    obtain ⟨hstatus, hprimary, _⟩ := project_of_many ledgerEntries t config
      (anyContested (foldStatuses rows t config).liveClaims) hlen
    rw [hconflict] at hstatus
    refine ⟨hprimary, ?_, ?_⟩
    · rw [hstatus]
      split <;> simp
    · rw [hstatus]
      cases hs : structuralConflict ((selectLive config live t).map f) <;>
        cases ha : anyContested (foldStatuses rows t config).liveClaims <;>
        simp_all

/-- Two lines with one current claim each. -/
theorem same_single_report_iff {c c' : Claim} {f' : Claim → ClaimWithStatus}
    {answer answer' : BeliefProjection} (hf : ∀ c, (f c).claim = c) (hf' : ∀ c, (f' c).claim = c)
    (h : Reports f config [c] t answer) (h' : Reports f' config [c'] t answer')
    (href : c'.claimRef = c.claimRef → c' = c) (hsettled : answer.status ≠ .contested) :
    (answer'.status = answer.status ∧ answer'.primary = answer.primary) ↔
      c' = c ∧ (f' c').lastDisposition ≠ some .contested := by
  obtain ⟨hprimary, hstatus⟩ := h.single c rfl
  obtain ⟨hprimary', hstatus'⟩ := h'.single c' rfl
  have hc : (f c).lastDisposition ≠ some .contested := fun hd => by
    rw [if_pos hd] at hstatus
    exact hsettled hstatus
  have hbelief : liveBelief t config (f' c) = liveBelief t config (f c) := by
    unfold liveBelief
    rw [hf, hf']
  constructor
  · rintro ⟨hs, hp⟩
    rw [hprimary, hprimary'] at hp
    have hsame := congrArg Belief.claimRef (Option.some.inj hp)
    rw [liveBelief_claimRef, liveBelief_claimRef, hf, hf'] at hsame
    refine ⟨href hsame, fun hcontested => ?_⟩
    rw [if_pos hcontested] at hstatus'
    exact hsettled (hs.symm.trans hstatus')
  · rintro ⟨rfl, hunmarked⟩
    rw [if_neg hunmarked] at hstatus'
    rw [if_neg hc] at hstatus
    exact ⟨hstatus'.trans hstatus.symm, by rw [hprimary', hprimary, hbelief]⟩

/-- Two recalls of a line, of which the first is not contested, agree exactly when they
    select the same or both several claims and no claim selected by the second is left
    contested. -/
theorem same_report_iff {selected selected' : List Claim} {f' : Claim → ClaimWithStatus}
    {answer answer' : BeliefProjection} (hf : ∀ c, (f c).claim = c) (hf' : ∀ c, (f' c).claim = c)
    (h : Reports f config selected t answer) (h' : Reports f' config selected' t answer')
    (hrefs : ∀ c ∈ selected, ∀ c' ∈ selected', c'.claimRef = c.claimRef → c' = c)
    (hsub : 1 < selected.length → ∀ c ∈ selected',
      (f' c).lastDisposition ≠ some .contested → c ∈ selected)
    (hsettled : answer.status ≠ .contested) :
    (answer'.status = answer.status ∧ answer'.primary = answer.primary) ↔
      (selected' = selected ∨ 1 < selected.length ∧ 1 < selected'.length) ∧
        ∀ c ∈ selected', (f' c).lastDisposition ≠ some .contested := by
  match selected, selected' with
  | [], [] => simp [h.empty rfl, h'.empty rfl]
  | [], [c'] =>
    refine iff_of_false (fun hsame => ?_) (by simp)
    rw [(h.empty rfl).2, (h'.single c' rfl).1] at hsame
    cases hsame.2
  | [], c' :: d' :: rest' =>
    refine iff_of_false (fun hsame => ?_) (by simp)
    have hstatus := (h'.many (by simp)).2.1
    rw [hsame.1, (h.empty rfl).1] at hstatus
    simp at hstatus
  | [c], [] =>
    refine iff_of_false (fun hsame => ?_) (by simp)
    rw [(h.single c rfl).1, (h'.empty rfl).2] at hsame
    cases hsame.2
  | [c], [c'] =>
    rw [same_single_report_iff hf hf' h h' (hrefs c (by simp) c' (by simp)) hsettled]
    simp
  | [c], c' :: d' :: rest' =>
    refine iff_of_false (fun hsame => ?_) (by simp)
    rw [(h.single c rfl).1, (h'.many (by simp)).1] at hsame
    cases hsame.2
  | c :: d :: rest, [] =>
    refine iff_of_false (fun hsame => ?_) (by simp)
    have hstatus := (h.many (by simp)).2.1
    rw [← hsame.1, (h'.empty rfl).1] at hstatus
    simp at hstatus
  | c :: d :: rest, [c'] =>
    refine iff_of_false (fun hsame => ?_) (by simp)
    rw [(h.many (by simp)).1, (h'.single c' rfl).1] at hsame
    cases hsame.2
  | c :: d :: rest, c' :: d' :: rest' =>
    obtain ⟨hprimary, hstatus, hresolved⟩ := h.many (by simp)
    obtain ⟨hprimary', _, hresolved'⟩ := h'.many (by simp)
    have hanswer := hstatus.resolve_left hsettled
    have hplural := (hresolved.mp hanswer).2
    have hplural' : (∀ x ∈ c' :: d' :: rest', (f' x).lastDisposition ≠ some .contested) →
        structuralConflict ((c' :: d' :: rest').map f') = false := by
      intro hunmarked
      rw [Bool.eq_false_iff, Ne, structuralConflict_iff] at hplural ⊢
      rintro ⟨_, cs, hcs, hne⟩
      obtain ⟨x, hx, rfl⟩ := List.mem_map.mp hcs
      refine hplural ⟨by simp, f x,
        List.mem_map_of_mem (hsub (by simp) x hx (hunmarked x hx)), ?_⟩
      rwa [hf, ← hf' x]
    rw [hanswer, hprimary, hprimary', hresolved', and_iff_left_of_imp hplural']
    simp

end Report

section Pass

variable {eng eng' : Engine} {σ : Store} {line : SubjectLineRef} {now later : Instant}

/-- What the gate makes of a selected claim. -/
def decided (eng : Engine) (σ : Store) (line : SubjectLineRef) (now : Instant) (c : Claim) :
    Disposition :=
  if disputedOn eng.config σ line now c then
    if eng.oraclePresent then .queuedForAdjudication else .contested
  else if c.provenance.isRecallReentry then .committedCheap
  else if isTemporallyIncoherent c eng.config then .quarantined
  else if c.provenance = .modelDerived then .committedInferred
  else .committedCheap

theorem gateEntry_disposition (hσ : Reachable eng' σ) {c : Claim}
    (hc : c ∈ lineSelected eng.config σ line now) :
    (gateEntry eng σ line.agentId now c).disposition = decided eng σ line now c := by
  rw [gateEntry_of_line eng σ now (onLine_of_selected hσ hc).2.1]
  obtain ⟨cs, hcs, rfl⟩ := List.mem_map.mp hc
  have hselected : cs ∈ selectedRows eng σ line.agentId now (line.subject, line.predicate) := by
    rw [selectedRows_eq]
    exact hcs
  have hdecision := rowDecision_disposition hσ eng hselected
  rw [rowDecision_eq] at hdecision
  exact hdecision

theorem mem_lineNews {c : Claim} {e : LedgerEntry} : e ∈ lineNews eng σ line now c ↔
    c ∈ lineSelected eng.config σ line now ∧ e = gateEntry eng σ line.agentId now c := by
  unfold lineNews
  split <;> simp [*]

theorem lineNews_spec (hσ : Reachable eng' σ) {c : Claim} {e : LedgerEntry}
    (he : e ∈ lineNews eng σ line now c) :
    c ∈ lineSelected eng.config σ line now ∧ e.recordedAt = now ∧
      e.disposition = decided eng σ line now c := by
  obtain ⟨hc, rfl⟩ := mem_lineNews.mp he
  exact ⟨hc, rfl, gateEntry_disposition hσ hc⟩

variable (eng line now) in
theorem passNews_lineRequest (hσ : Reachable eng' σ) {c : Claim} (hc : c ∈ σ.claims) :
    passNews eng σ (lineRequest line) now line.agentId c.claimRef =
      lineNews eng σ line now c := by
  unfold lineNews
  split
  · rename_i hselected
    have hline := (onLine_of_selected hσ hselected).2.1
    simp only [onLine, Bool.and_eq_true, beq_iff_eq] at hline
    obtain ⟨cs, hcs, rfl⟩ := List.mem_map.mp hselected
    have hrow : cs ∈ selectedRows eng σ line.agentId now (line.subject, line.predicate) := by
      rw [selectedRows_eq]
      exact hcs
    have hcount : (lineRequest line).subjectLines.count
        (cs.claim.fact.subject, cs.claim.fact.predicate) = 1 := by
      rw [hline.1.2, hline.2, lineRequest, List.count_singleton_self]
    refine (passNews_of_selected hσ (lineRequest line) hrow).trans ?_
    rw [passEntries, hcount]
    rfl
  · rename_i hnot
    refine List.eq_nil_iff_forall_not_mem.mpr fun e he => hnot ?_
    obtain ⟨_, place, hplace, cs, hcs, href, _⟩ := mem_passNews_iff.mp he
    rw [List.mem_singleton.mp hplace, selectedRows_eq] at hcs
    have hmem : cs.claim ∈ lineSelected eng.config σ line now := List.mem_map_of_mem hcs
    exact eq_of_claimRef hσ (onLine_of_selected hσ hmem).1 hc href ▸ hmem

variable (eng line now) in
theorem entriesOf_linePassed (hσ : Reachable eng' σ) {c : Claim} (hc : c ∈ σ.claims) :
    entriesOf (linePassed eng σ line now) line.agentId none c.claimRef =
      entriesOf σ line.agentId none c.claimRef ++ lineNews eng σ line now c := by
  rw [← passNews_lineRequest eng line now hσ hc]
  exact entriesOf_passed line.agentId c.claimRef

variable (eng line now) in
/-- The pass decides the latest disposition of a claim where its entry is read. -/
theorem latestOf_linePassed (hσ : Reachable eng' σ) {c : Claim} (hc : c ∈ σ.claims) :
    latestOf (linePassed eng σ line now) line.agentId none c.claimRef =
      if passRead eng σ line now c then some (decided eng σ line now c)
      else latestOf σ line.agentId none c.claimRef := by
  rw [latestOf, entriesOf_linePassed eng line now hσ hc, linePassed, passed_ties]
  by_cases hread : passRead eng σ line now c = true
  · obtain ⟨e, he, hfirst⟩ := of_decide_eq_true hread
    rw [hfirst, if_pos hread, Option.map_some, (lineNews_spec hσ he).2.2]
  · rw [if_neg hread, σ.ties.first_append_of_not_overtakes _ fun h => hread (decide_eq_true h),
      latestOf]

variable (eng line now) in
/-- What the pass leaves on the queue. -/
theorem queued_linePassed_iff (hσ : Reachable eng' σ) {c : Claim} (hc : c ∈ σ.claims) :
    Queued (linePassed eng σ line now) line.agentId c.claimRef ↔
      onQueue eng σ line now c = true := by
  rw [Queued, currentDisposition_eq, entriesOf_linePassed eng line now hσ hc, linePassed,
    passed_ties, TieOrder.last_eq_first_reverse]
  unfold onQueue
  by_cases htaken : passTaken eng σ line now c = true
  · obtain ⟨e, he, hfirst⟩ := of_decide_eq_true htaken
    rw [hfirst, if_pos htaken, Option.map_some, (lineNews_spec hσ he).2.2]
    unfold decided
    cases disputedOn eng.config σ line now c <;> cases eng.oraclePresent <;> simp
    all_goals split_ifs <;> simp
  · rw [if_neg htaken, σ.ties.reverse.first_append_of_not_overtakes _ fun h =>
      htaken (decide_eq_true h), beq_iff_eq, currentDisposition_eq, TieOrder.last_eq_first_reverse]

end Pass

section Sweep

variable {eng eng' : Engine} {σ : Store} {line : SubjectLineRef} {now later : Instant}

/-- A later store that holds the pass, and reads a contested entry for each claim of the
    line that is marked as reverted. -/
structure Continues (eng : Engine) (σ : Store) (line : SubjectLineRef) (now later : Instant)
    (rev : Claim → Bool) (υ : Store) : Prop where
  claims : υ.claims = σ.claims
  assertions : υ.assertions = σ.assertions
  stamps : StampsBy υ later
  latest : ∀ c ∈ σ.claims, latestOf υ line.agentId none c.claimRef =
    if rev c then some .contested
    else latestOf (linePassed eng σ line now) line.agentId none c.claimRef

variable (eng line) in
theorem stampsBy_linePassed (hnow : StampsBy σ now) (hle : now ≤ later) :
    StampsBy (linePassed eng σ line now) later := by
  have happ := passed_appends eng σ (lineRequest line) now
  have hlater := hnow.mono hle
  refine ⟨fun c hc => ?_, fun a ha => ?_, fun e he => ?_⟩
  · rw [linePassed, passed_claims] at hc
    exact hlater.claims c hc
  · rw [linePassed, passed_assertions] at ha
    exact hlater.assertions a ha
  · rw [linePassed, happ.ledger] at he
    rcases List.mem_append.mp he with he | he
    · exact hlater.ledger e he
    · obtain ⟨d, _, rfl⟩ := List.mem_map.mp he
      exact hle

variable (eng line) in
theorem continues_pass (hnow : StampsBy σ now) :
    Continues eng σ line now now (fun _ => false) (linePassed eng σ line now) where
  claims := passed_claims
  assertions := passed_assertions
  stamps := stampsBy_linePassed eng line hnow (le_refl now)
  latest _ _ := rfl

theorem pending_linePassed : (linePassed eng σ line now).pending = σ.pending := by
  unfold linePassed passed Reconcile.execute
  split <;> rfl

theorem queuedStored_linePassed (hσ : Reachable eng' σ) :
    QueuedStored (linePassed eng σ line now) := by
  intro e he hqueued
  rw [linePassed, passed_claims]
  rw [linePassed, (passed_appends eng σ (lineRequest line) now).ledger] at he
  rcases List.mem_append.mp he with he | he
  · exact stored_of_queued hσ e he hqueued
  · obtain ⟨d, hd, rfl⟩ := List.mem_map.mp he
    obtain ⟨place, _, cs, hcs, rfl⟩ := mem_decisions_iff.mp hd
    obtain ⟨c, hc, hline, rfl, _⟩ := live_of_selected hσ hcs
    simp only [onLine, Bool.and_eq_true, beq_iff_eq] at hline
    exact ⟨c, hc, rfl, hline.1.1⟩

theorem reverted_iff {c : Claim} : reverted eng σ line now later c = true ↔
    eng.pendingStorePresent = true ∧ onQueue eng σ line now c = true ∧
      ∀ row, PendingFor σ line.agentId c.claimRef row → row ∈ listExpired σ later := by
  unfold reverted
  rw [Bool.and_eq_true, Bool.and_eq_true, and_assoc, List.all_eq_true]
  refine and_congr_right fun _ => and_congr_right fun _ => forall_congr' fun row => ?_
  simp only [Bool.or_eq_true, Bool.not_eq_true', Bool.and_eq_false_iff, beq_eq_false_iff_ne,
    Option.any_eq_true, decide_eq_true_iff, PendingFor, mem_listExpired]
  constructor
  · rintro h ⟨hrow, hstatus, hagent, href⟩
    exact ⟨hrow, hstatus, (h hrow).resolve_left (by simp [hagent, href, hstatus])⟩
  · intro h hrow
    by_cases hfor : row.status = .pending ∧ row.agentId = line.agentId ∧
        row.challengerClaimRef = c.claimRef
    · exact .inr (h ⟨hrow, hfor⟩).2.2
    · left
      tauto

theorem distinctRows_linePassed (hσ : Reachable eng' σ) :
    DistinctRows (linePassed eng σ line now) := by
  obtain ⟨hhandles, hchallengers⟩ := distinctRows_of_reachable hσ
  exact ⟨by rwa [pending_linePassed], by rwa [pending_linePassed]⟩

theorem keptRow_linePassed_iff {c : Claim} {row : PendingAdjudicationRow} :
    PendingFor (linePassed eng σ line now) line.agentId c.claimRef row ∧
        row ∉ listExpired (linePassed eng σ line now) later ↔
      PendingFor σ line.agentId c.claimRef row ∧ row ∉ listExpired σ later := by
  unfold PendingFor listExpired
  rw [pending_linePassed]

section Swept

variable {c : Claim}

/-- The entries that the sweep writes for a claim of the line. -/
def sweptEntries (eng : Engine) (σ : Store) (line : SubjectLineRef) (now later : Instant)
    (c : Claim) : List LedgerEntry :=
  σ.ties.reverse.untilTaken LedgerEntry.recordedAt
    (entriesOf (linePassed eng σ line now) line.agentId none c.claimRef)
    (reversions (linePassed eng σ line now) later line.agentId c.claimRef)

theorem entriesOf_sweptAfter_of_kept (hσ : Reachable eng' σ) (hc : c ∈ σ.claims)
    (hrev : ¬ reverted eng σ line now later c = true) :
    entriesOf (sweptAfter eng σ line now later) line.agentId none c.claimRef =
      entriesOf (linePassed eng σ line now) line.agentId none c.claimRef := by
  rw [reverted_iff] at hrev
  by_cases hstore : eng.pendingStorePresent = true
  case neg => rw [sweptAfter, sweep_of_no_store _ _ hstore]
  rw [sweptAfter, entriesOf_swept hstore]
  by_cases hq : onQueue eng σ line now c = true
  case neg => rw [if_neg (mt (queued_linePassed_iff eng line now hσ hc).mp hq), List.append_nil]
  have hrow : ∃ row, PendingFor σ line.agentId c.claimRef row ∧ row ∉ listExpired σ later := by
    by_contra hnone
    exact hrev ⟨hstore, hq, fun row hfor => by_contra fun hun => hnone ⟨row, hfor, hun⟩⟩
  obtain ⟨row, hrow⟩ := hrow
  obtain ⟨hfor, hun⟩ := keptRow_linePassed_iff.mpr hrow
  rw [reversions_of_row (distinctRows_linePassed hσ) hfor hun]
  simp [TieOrder.untilTaken]

theorem entriesOf_sweptAfter (hσ : Reachable eng' σ) (hc : c ∈ σ.claims)
    (hrev : reverted eng σ line now later c = true) :
    entriesOf (sweptAfter eng σ line now later) line.agentId none c.claimRef =
      entriesOf (linePassed eng σ line now) line.agentId none c.claimRef ++
        sweptEntries eng σ line now later c := by
  obtain ⟨hstore, hq, _⟩ := reverted_iff.mp hrev
  rw [sweptAfter, entriesOf_swept hstore,
    if_pos ((queued_linePassed_iff eng line now hσ hc).mpr hq), sweptEntries,
    show (linePassed eng σ line now).ties = σ.ties from passed_ties]

/-- A sweep that comes later is read whatever the order of ties. -/
theorem sweepRead_iff_overtakes (hσ : Reachable eng' σ) (hnow : StampsBy σ now)
    (hc : c ∈ σ.claims) (hrev : reverted eng σ line now later c = true) :
    sweepRead eng σ line now later c = true ↔
      σ.ties.Overtakes LedgerEntry.recordedAt
        (entriesOf (linePassed eng σ line now) line.agentId none c.claimRef)
        (sweptEntries eng σ line now later c) := by
  obtain ⟨_, hq, hexpired⟩ := reverted_iff.mp hrev
  rw [sweepRead, hrev, Bool.true_and, Bool.or_eq_true, decide_eq_true_iff, decide_eq_true_iff,
    ← entriesOf_linePassed eng line now hσ hc, ← sweptEntries]
  refine or_iff_right_of_imp fun hlt => ?_
  have hne : reversions (linePassed eng σ line now) later line.agentId c.claimRef ≠ [] :=
    reversions_ne_nil (distinctRows_linePassed hσ) (queuedStored_linePassed hσ)
      ((queued_linePassed_iff eng line now hσ hc).mpr hq) <| by
        rintro ⟨row, hrow⟩
        obtain ⟨hpending, hkept⟩ := keptRow_linePassed_iff.mp hrow
        exact hkept (hexpired row hpending)
  obtain ⟨e, rest, hready⟩ := List.exists_cons_of_ne_nil hne
  rw [sweptEntries, hready]
  refine σ.ties.overtakes_of_lt _ (List.cons_ne_nil _ _) fun x hx =>
    ⟨e, List.mem_cons_self, ?_⟩
  have he : e ∈ reversions (linePassed eng σ line now) later line.agentId c.claimRef :=
    hready ▸ List.mem_cons_self
  rw [(reversions_contested he).2]
  exact lt_of_le_of_lt
    ((stampsBy_linePassed eng line hnow (le_refl now)).ledger x (List.mem_of_mem_filter hx)) hlt

variable (eng line) in
/-- What the folds read of a claim after the sweep. -/
theorem latestOf_sweptAfter (hσ : Reachable eng' σ) (hnow : StampsBy σ now) (hc : c ∈ σ.claims) :
    latestOf (sweptAfter eng σ line now later) line.agentId none c.claimRef =
      if sweepRead eng σ line now later c then some .contested
      else latestOf (linePassed eng σ line now) line.agentId none c.claimRef := by
  have hties : (sweptAfter eng σ line now later).ties = σ.ties :=
    (swept_ties eng _ later).trans passed_ties
  have hpassed : (linePassed eng σ line now).ties = σ.ties := passed_ties
  rw [latestOf, hties]
  by_cases hrev : reverted eng σ line now later c = true
  · have hread := sweepRead_iff_overtakes hσ hnow hc hrev
    rw [entriesOf_sweptAfter hσ hc hrev]
    by_cases htaken : sweepRead eng σ line now later c = true
    · obtain ⟨e, he, hfirst⟩ := hread.mp htaken
      rw [if_pos htaken, hfirst, Option.map_some,
        (reversions_contested (TieOrder.mem_of_untilTaken _ _ he)).1]
    · rw [if_neg htaken, σ.ties.first_append_of_not_overtakes _ (mt hread.mpr htaken), latestOf,
        hpassed]
  · have hunread : sweepRead eng σ line now later c = false := by simp [sweepRead, hrev]
    rw [entriesOf_sweptAfter_of_kept hσ hc hrev, hunread, latestOf, hpassed]
    rfl

end Swept

variable (eng line) in
theorem continues_sweep (hσ : Reachable eng' σ) (hnow : StampsBy σ now) (hle : now ≤ later) :
    Continues eng σ line now later (sweepRead eng σ line now later)
      (sweptAfter eng σ line now later) := by
  obtain ⟨es, happ, hes⟩ := swept_written eng (linePassed eng σ line now) later
  have hpass := stampsBy_linePassed eng line hnow hle
  refine ⟨?_, ?_, ?_, fun c hc => latestOf_sweptAfter eng line hσ hnow hc⟩
  · exact happ.claims.trans ((List.append_nil _).trans passed_claims)
  · exact happ.assertions.trans ((List.append_nil _).trans passed_assertions)
  · refine ⟨fun c hc => hpass.claims c ?_, fun a ha => hpass.assertions a ?_, fun e he => ?_⟩
    · simpa [sweptAfter, happ.claims] using hc
    · simpa [sweptAfter, happ.assertions] using ha
    · rw [sweptAfter, happ.ledger] at he
      rcases List.mem_append.mp he with he | he
      · exact hpass.ledger e he
      · exact le_of_eq (hes e he).2

end Sweep

section Later

variable {eng eng' : Engine} {σ υ : Store} {line : SubjectLineRef} {now later : Instant}
variable {rev : Claim → Bool} {c : Claim}

theorem leftContested_iff : leftContested eng σ line now c = true ↔
    passRead eng σ line now c = true ∧ decided eng σ line now c = .contested := by
  unfold leftContested decided
  cases disputedOn eng.config σ line now c <;> cases eng.oraclePresent <;> simp
  all_goals split_ifs <;> simp

theorem coherent_of_disputedOn (h : disputedOn eng.config σ line now c = true) :
    isTemporallyIncoherent c eng.config = false := by
  unfold disputedOn disputed at h
  simp only [Bool.and_eq_true, Bool.not_eq_true'] at h
  exact h.1.2

theorem requarantined_iff : requarantined eng σ line now c = true ↔
    passRead eng σ line now c = true ∧ decided eng σ line now c = .quarantined := by
  unfold requarantined decided
  cases hd : disputedOn eng.config σ line now c with
  | true =>
    rw [coherent_of_disputedOn hd]
    cases eng.oraclePresent <;> simp
  | false =>
    cases c.provenance.isRecallReentry <;> cases isTemporallyIncoherent c eng.config <;> simp
    all_goals split_ifs <;> simp

theorem isNonLive_decided (h : decided eng σ line now c ≠ .quarantined) :
    isNonLiveDisposition (decided eng σ line now c) = false := by
  unfold decided at h ⊢
  split_ifs at h ⊢ <;> first | rfl | exact absurd rfl h

theorem live_of_selected_claim (hσ : Reachable eng' σ)
    (hc : c ∈ lineSelected eng.config σ line now) :
    ∀ d, latestOf σ line.agentId none c.claimRef = some d → isNonLiveDisposition d = false :=
  ((rowOf_isLive _ _ _ _ _).mp (onLine_of_selected hσ hc).2.2).2

/-- What the pass and the sweep leave live. -/
theorem Continues.isLive_eq (h : Continues eng σ line now later rev υ) (hσ : Reachable eng' σ)
    (hc : c ∈ σ.claims) (t : Instant) :
    (rowOf υ line.agentId none t c).isLive =
      if rev c then (activeBoundAt (assertionsOf σ line.agentId c.claimRef) t).isNone
      else (rowOf σ line.agentId none t c).isLive && !requarantined eng σ line now c := by
  have hassertions : assertionsOf υ line.agentId = assertionsOf σ line.agentId := by
    funext r
    rw [assertionsOf, assertionsOf, h.assertions]
  have hlatest := h.latest c hc
  by_cases hrev : rev c = true
  · rw [if_pos hrev] at hlatest ⊢
    rw [Bool.eq_iff_iff, rowOf_isLive, hassertions, hlatest, Option.isNone_iff_eq_none]
    simp [isNonLiveDisposition]
  rw [if_neg hrev, latestOf_linePassed eng line now hσ hc] at hlatest
  rw [if_neg hrev, Bool.eq_iff_iff, Bool.and_eq_true, rowOf_isLive, rowOf_isLive, hassertions,
    hlatest, and_assoc]
  refine and_congr_right fun _ => ?_
  by_cases hquarantined : requarantined eng σ line now c = true
  · obtain ⟨hread, hdecided⟩ := requarantined_iff.mp hquarantined
    rw [if_pos hread, hdecided]
    simp [hquarantined, isNonLiveDisposition]
  rw [Bool.eq_false_iff.mpr hquarantined, Bool.not_false, and_iff_left rfl]
  split
  · rename_i hread
    obtain ⟨e, he, _⟩ := of_decide_eq_true hread
    refine iff_of_true (fun d hd => ?_) (live_of_selected_claim hσ (mem_lineNews.mp he).1)
    rw [← Option.some.inj hd]
    exact isNonLive_decided fun hdecided =>
      hquarantined (requarantined_iff.mpr ⟨hread, hdecided⟩)
  · rfl

theorem Continues.contested_of_marked (h : Continues eng σ line now later rev υ)
    (hσ : Reachable eng' σ) (hc : c ∈ σ.claims)
    (hmarked : (leftContested eng σ line now c || rev c) = true) :
    latestOf υ line.agentId none c.claimRef = some .contested := by
  rw [h.latest c hc]
  split
  · rfl
  · rename_i hrev
    have hleft := (Bool.or_eq_true_iff.mp hmarked).resolve_right hrev
    obtain ⟨hread, hdecided⟩ := leftContested_iff.mp hleft
    rw [latestOf_linePassed eng line now hσ hc, if_pos hread, hdecided]

theorem Continues.not_contested (h : Continues eng σ line now later rev υ)
    (hσ : Reachable eng' σ) (hc : c ∈ σ.claims)
    (hunmarked : (leftContested eng σ line now c || rev c) = false)
    (hold : latestOf σ line.agentId none c.claimRef ≠ some .contested) :
    latestOf υ line.agentId none c.claimRef ≠ some .contested := by
  obtain ⟨hleft, hrev⟩ := Bool.or_eq_false_iff.mp hunmarked
  rw [h.latest c hc, hrev, if_neg Bool.false_ne_true, latestOf_linePassed eng line now hσ hc]
  split
  · rename_i hread
    intro hdecided
    have hcontested := leftContested_iff.mpr ⟨hread, Option.some.inj hdecided⟩
    rw [hleft] at hcontested
    cases hcontested
  · exact hold

end Later

section Main

variable {eng eng' : Engine} {σ υ : Store} {line : SubjectLineRef} {now later : Instant}
variable {rev : Claim → Bool}

theorem liveRows_liveOn (config : EngineConfig) (σ : Store) (line : SubjectLineRef)
    (t : Instant) :
    liveRows (lineRows config σ line.agentId line.subject line.predicate none t) =
      (liveOn σ line config t).map (rowOf σ line.agentId none t) := by
  rw [liveRows, lineRows, liveOn, List.filter_map]
  rfl

variable (line) in
theorem liveOn_nodup (hσ : Reachable eng' σ) (config : EngineConfig) (t : Instant) :
    ((liveOn σ line config t).map (·.claimRef)).Nodup :=
  (lineClaims_nodup hσ config line.agentId line.subject line.predicate none).sublist
    (List.filter_sublist.map _)

/-- The live claims of the line after the pass and the sweep. -/
def liveLater (eng : Engine) (σ : Store) (line : SubjectLineRef) (now : Instant)
    (rev : Claim → Bool) (t : Instant) : List Claim :=
  (lineClaims eng.config σ line.agentId line.subject line.predicate none).filter fun c =>
    if rev c then (activeBoundAt (assertionsOf σ line.agentId c.claimRef) t).isNone
    else (rowOf σ line.agentId none t c).isLive && !requarantined eng σ line now c

theorem liveLater_of_pass (eng : Engine) (σ : Store) (line : SubjectLineRef) (now t : Instant) :
    liveLater eng σ line now (fun _ => false) t = liveAfterPass eng σ line now t := by
  rw [liveLater, liveAfterPass, liveOn, List.filter_filter]
  refine List.filter_congr fun c _ => ?_
  rw [if_neg Bool.false_ne_true, Bool.and_comm]

theorem Continues.liveOn_eq (h : Continues eng σ line now later rev υ) (hσ : Reachable eng' σ)
    (t : Instant) : liveOn υ line eng.config t = liveLater eng σ line now rev t := by
  have hclaims : lineClaims eng.config υ line.agentId line.subject line.predicate none =
      lineClaims eng.config σ line.agentId line.subject line.predicate none := by
    rw [lineClaims, lineClaims, loadSubjectLine, loadSubjectLine, h.claims]
  rw [liveOn, liveLater, hclaims]
  exact List.filter_congr fun c hc => h.isLive_eq hσ (mem_lineClaims.mp hc).1 t

theorem lineAnswer_reports (config : EngineConfig) (line : SubjectLineRef) {t : Instant}
    (hstamps : StampsBy σ t) :
    Reports (rowOf σ line.agentId none t) config (selectLive config (liveOn σ line config t) t) t
      (lineAnswer config σ line t) := by
  obtain ⟨entries, hanswer⟩ := recall_eq_report_of_stampsBy config line.agentId line.subject
    line.predicate hstamps
  rw [lineAnswer, hanswer]
  exact reports (rowOf_claim _ _ _ _) (liveRows_liveOn config σ line t)

/-- No selected claim of a line that is not contested is left contested. -/
theorem Reports.uncontested {config : EngineConfig} {selected : List Claim} {t : Instant}
    {f : Claim → ClaimWithStatus} {answer : BeliefProjection}
    (h : Reports f config selected t answer) (hsettled : answer.status ≠ .contested) :
    ∀ c ∈ selected, (f c).lastDisposition ≠ some .contested := by
  match selected with
  | [] => simp
  | [c] =>
    intro d hd hcontested
    rw [List.mem_singleton.mp hd] at hcontested
    have hstatus := (h.single c rfl).2
    rw [if_pos hcontested] at hstatus
    exact hsettled hstatus
  | c :: d :: rest =>
    obtain ⟨_, hstatus, hresolved⟩ := h.many (by simp)
    exact (hresolved.mp (hstatus.resolve_left hsettled)).1

/-- The answer survives the pass and the sweep exactly when the selection does and no
    selected claim is marked. -/
theorem sameAnswer_iff (h : Continues eng σ line now later rev υ) (hσ : Reachable eng' σ)
    (hnow : StampsBy σ now) (hle : now ≤ later)
    (hsettled : (lineAnswer eng.config σ line later).status ≠ .contested) :
    SameAnswer eng.config σ υ line later ↔
      KeepsSelection eng.config (liveOn σ line eng.config later)
        (liveLater eng σ line now rev later)
        (fun c => leftContested eng σ line now c || rev c) later := by
  have hreports := lineAnswer_reports eng.config line (hnow.mono hle)
  have hreports' := lineAnswer_reports eng.config line h.stamps
  rw [h.liveOn_eq hσ] at hreports'
  have hstored : ∀ {c}, c ∈ selectLive eng.config (liveOn σ line eng.config later) later →
      c ∈ σ.claims := fun hc =>
    (mem_lineClaims.mp (List.mem_of_mem_filter ((selectLive_sublist _ _ _).subset hc))).1
  have hstored' : ∀ {c}, c ∈ selectLive eng.config (liveLater eng σ line now rev later) later →
      c ∈ σ.claims := fun hc =>
    (mem_lineClaims.mp (List.mem_of_mem_filter ((selectLive_sublist _ _ _).subset hc))).1
  -- of several claims all are selected, and those that are not reverted were live before
  have hsub : 1 < (selectLive eng.config (liveOn σ line eng.config later) later).length →
      ∀ c ∈ selectLive eng.config (liveLater eng σ line now rev later) later, rev c = false →
        c ∈ selectLive eng.config (liveOn σ line eng.config later) later := by
    intro hmany c hc hrev
    obtain ⟨hline, hlive⟩ := List.mem_filter.mp ((selectLive_sublist _ _ _).subset hc)
    rw [hrev, if_neg Bool.false_ne_true, Bool.and_eq_true] at hlive
    rw [selectLive_of_many (liveOn_nodup line hσ eng.config later) hmany]
    exact List.mem_filter.mpr ⟨hline, hlive.1⟩
  have hunread : ∀ c ∈ selectLive eng.config (liveLater eng σ line now rev later) later,
      latestOf υ line.agentId none c.claimRef ≠ some .contested → rev c = false := by
    intro c hc hne
    by_contra hrev
    exact hne (h.contested_of_marked hσ (hstored' hc)
      (by rw [eq_true_of_ne_false hrev, Bool.or_true]))
  have hiff := same_report_iff (rowOf_claim σ line.agentId none later)
    (rowOf_claim υ line.agentId none later) hreports hreports'
    (fun c hc c' hc' href => eq_of_claimRef hσ (hstored' hc') (hstored hc) href)
    (fun hmany c hc hne => hsub hmany c hc (hunread c hc hne)) hsettled
  constructor
  · rintro ⟨hstatus, hprimary⟩
    obtain ⟨hselection, hunmarked⟩ := hiff.mp ⟨hstatus, hprimary⟩
    refine ⟨hselection, fun c hc => ?_⟩
    rw [Bool.eq_false_iff]
    exact fun hmarked => hunmarked c hc (h.contested_of_marked hσ (hstored' hc) hmarked)
  · rintro ⟨hselection, hunmarked⟩
    have hboth := hiff.mpr ⟨hselection, fun c hc => ?_⟩
    · exact ⟨hboth.1, hboth.2⟩
    have hold : c ∈ selectLive eng.config (liveOn σ line eng.config later) later := by
      rcases hselection with hsame | ⟨hmany, _⟩
      · rwa [hsame] at hc
      · exact hsub hmany c hc (Bool.or_eq_false_iff.mp (hunmarked c hc)).2
    exact h.not_contested hσ (hstored' hc) (hunmarked c hc)
      (hreports.uncontested hsettled c hold)

theorem disposition_of_outcome (hσ : Reachable eng' σ) {c : Claim} (hc : c ∈ σ.claims)
    {outcome : ClaimRef × Disposition}
    (h : outcome ∈ (Reconcile.execute eng σ (lineRequest line) now).1.outcomes)
    (href : outcome.1 = c.claimRef) : outcome.2 = decided eng σ line now c := by
  rw [outcomes_eq] at h
  obtain ⟨d, hd, rfl⟩ := List.mem_map.mp h
  have hnews : decisionEntry line.agentId now d ∈
      passNews eng σ (lineRequest line) now line.agentId c.claimRef :=
    mem_newEntries.mpr ⟨List.mem_map_of_mem hd, rfl, href⟩
  rw [passNews_lineRequest eng line now hσ hc] at hnews
  exact (lineNews_spec hσ hnews).2.2

theorem exists_outcome (hσ : Reachable eng' σ) {c : Claim}
    (hc : c ∈ lineSelected eng.config σ line now) :
    ∃ outcome ∈ (Reconcile.execute eng σ (lineRequest line) now).1.outcomes,
      outcome.1 = c.claimRef := by
  have he : gateEntry eng σ line.agentId now c ∈
      passNews eng σ (lineRequest line) now line.agentId c.claimRef := by
    rw [passNews_lineRequest eng line now hσ (onLine_of_selected hσ hc).1]
    exact mem_lineNews.mpr ⟨hc, rfl⟩
  obtain ⟨hmem, _, href⟩ := mem_newEntries.mp he
  obtain ⟨d, hd, heq⟩ := List.mem_map.mp hmem
  rw [outcomes_eq]
  exact ⟨_, List.mem_map_of_mem hd, (congrArg LedgerEntry.claimRef heq).trans href⟩

theorem disputedOn_eq_false_iff {c : Claim} : disputedOn eng.config σ line now c = false ↔
    decided eng σ line now c ≠ .contested ∧
      decided eng σ line now c ≠ .queuedForAdjudication := by
  unfold decided
  cases disputedOn eng.config σ line now c <;> cases eng.oraclePresent <;> simp
  all_goals split_ifs <;> simp

/-- On a line that is not contested, a pass writes no dispute for a sole current claim
    and the answer survives the pass, and a sweep after it, exactly when that claim is
    undisputed, the claims that the pass quarantines can be spared, and none of the
    others is left contested by the pass or taken off the queue by the sweep. -/
theorem settled_line_stays_settled_iff (hσ : Reachable eng' σ) (eng : Engine)
    (hnow : StampsBy σ now) (hle : now ≤ later)
    (hsettled : (lineAnswer eng.config σ line now).status ≠ .contested) :
    StaysSettled eng σ line now later ↔ Undisturbed eng σ line now later := by
  have hsole : ∀ c, lineSelected eng.config σ line now = [c] →
      ((∀ outcome ∈ (Reconcile.execute eng σ (lineRequest line) now).1.outcomes,
        outcome.1 = c.claimRef →
          outcome.2 ≠ .contested ∧ outcome.2 ≠ .queuedForAdjudication) ↔
        disputedOn eng.config σ line now c = false) := by
    intro c hc
    have hselected : c ∈ lineSelected eng.config σ line now := by simp [hc]
    have hmem := (onLine_of_selected hσ hselected).1
    rw [disputedOn_eq_false_iff]
    constructor
    · intro h
      obtain ⟨outcome, hout, href⟩ := exists_outcome hσ hselected
      rw [← disposition_of_outcome hσ hmem hout href]
      exact h outcome hout href
    · intro h outcome hout href
      rwa [disposition_of_outcome hσ hmem hout href]
  have hpass := sameAnswer_iff (continues_pass eng line hnow) hσ hnow
    (le_refl now) hsettled
  rw [liveLater_of_pass] at hpass
  simp only [Bool.or_false] at hpass
  have hsweep := sameAnswer_iff (continues_sweep eng line hσ hnow hle) hσ hnow
    hle
  constructor
  · intro h
    exact ⟨fun c hc => (hsole c hc).mp (h.undecided c hc), hpass.mp h.afterPass,
      fun hlater => (hsweep hlater).mp (h.afterSweep hlater)⟩
  · intro h
    exact ⟨fun c hc => (hsole c hc).mpr (h.sole c hc), hpass.mpr h.pass,
      fun hlater => (hsweep hlater).mpr (h.sweep hlater)⟩

def locationLine : SubjectLineRef := ⟨agent, "user", "location"⟩

def affirmedCity (paris berlin : Option ValidTime) : Store :=
  run (defaultEngine true) Store.sqlite
    [.ingestClaim (remember "Paris" paris) 10 ⟨1⟩ (.ok 100),
      .ingestClaim (remember "Berlin" berlin) 20 ⟨2⟩ (.ok 101), verdictOn 101 .affirm 30 50]

theorem dated_line_stays_settled :
    StaysSettled (defaultEngine true)
      (affirmedCity (some (dated 1 none)) (some (dated 5 none))) locationLine 40 50 := by
  have hreach : Reachable (defaultEngine true)
      (affirmedCity (some (dated 1 none)) (some (dated 5 none))) := run_reachable (by decide)
  refine (settled_line_stays_settled_iff hreach (defaultEngine true)
    ⟨by decide, by decide, by decide⟩ (by decide) (by decide)).mpr ?_
  refine ⟨fun c hc => ?_, by decide, fun _ => by decide⟩
  have hall : ∀ c ∈ lineSelected (defaultEngine true).config
      (affirmedCity (some (dated 1 none)) (some (dated 5 none))) locationLine 40,
      disputedOn (defaultEngine true).config
        (affirmedCity (some (dated 1 none)) (some (dated 5 none))) locationLine 40 c = false := by
    decide
  exact hall c (hc ▸ List.mem_singleton_self c)

/-- The affirmed claim of an undated line is disputed again by the claim that it
    closed. -/
theorem undated_line_disputed_again :
    let σ := affirmedCity none none
    Reachable (defaultEngine true) σ ∧ StampsBy σ 40 ∧
      (lineAnswer EngineConfig.default σ locationLine 40).status = .timingUncertain ∧
      (Reconcile.execute (defaultEngine true) σ (lineRequest locationLine) 40).1.outcomes =
        [(⟨2⟩, .queuedForAdjudication)] ∧
      (lineAnswer EngineConfig.default (sweptAfter (defaultEngine true) σ locationLine 40 50)
        locationLine 50).status = .contested ∧
      (lineAnswer EngineConfig.default (linePassed (defaultEngine false) σ locationLine 40)
        locationLine 40).status = .contested ∧
      ¬ StaysSettled (defaultEngine true) σ locationLine 40 50 ∧
      ¬ StaysSettled (defaultEngine false) σ locationLine 40 50 := by
  intro σ
  have hstatus : (lineAnswer EngineConfig.default σ locationLine 40).status = .timingUncertain := by
    decide
  have hlater : (lineAnswer EngineConfig.default σ locationLine 50).status = .timingUncertain := by
    decide
  have hswept : (lineAnswer EngineConfig.default
      (sweptAfter (defaultEngine true) σ locationLine 40 50) locationLine 50).status =
        .contested := by decide
  have hpassed : (lineAnswer EngineConfig.default
      (linePassed (defaultEngine false) σ locationLine 40) locationLine 40).status =
        .contested := by decide
  refine ⟨run_reachable (by decide), ⟨by decide, by decide, by decide⟩, hstatus, by decide, hswept,
    hpassed, fun h => ?_, fun h => ?_⟩
  · have hne : (lineAnswer EngineConfig.default σ locationLine 50).status ≠ .contested := by
      rw [hlater]
      decide
    have hsame := hswept.symm.trans ((h.afterSweep hne).status.trans hlater)
    cases hsame
  · have hsame := hpassed.symm.trans (h.afterPass.status.trans hstatus)
    cases hsame

end Main

end Mempill.SettledLines
