import Mempill.Invariants

set_option autoImplicit false

/-!
# History and recall

When the audit timeline and the recall path of one line tell the same story.
-/
namespace Mempill.HistoryAgreement
open Mempill.Types Mempill.Persistence Mempill.TruthEngine Mempill.ValidTimeHelpers Mempill.Rows
open Mempill.IngestClaim Mempill.QueryMemory Mempill.QueryHistory Mempill.Engine Mempill.Invariants
open HalfOpen StampedLog

section Statement

variable (config : EngineConfig) (σ : Store) (agentId : AgentId) (subject predicate : String)
variable (now : Instant)

def timeline : List HistoryEntry :=
  QueryHistory.execute config σ ⟨agentId, subject, predicate⟩ now

/-- Recall answers with this claim and no contest. -/
def RecalledAs (c : ClaimRef) : Prop :=
  ((recallNow config σ agentId subject predicate now).status = .resolved ∨
      (recallNow config σ agentId subject predicate now).status = .timingUncertain) ∧
    ∃ b, (recallNow config σ agentId subject predicate now).primary = some b ∧ b.claimRef = c

def SoleCurrent (c : ClaimRef) : Prop :=
  ((timeline config σ agentId subject predicate now).filter (·.status == .current)).map
    (·.claimRef) = [c]

def ShowsContest : Prop :=
  ∃ e ∈ timeline config σ agentId subject predicate now, e.status = .contested

structure Agrees : Prop where
  current : ∀ c, RecalledAs config σ agentId subject predicate now c ↔
    SoleCurrent config σ agentId subject predicate now c ∧
      ¬ ShowsContest config σ agentId subject predicate now
  contested : ShowsContest config σ agentId subject predicate now ↔
    (recallNow config σ agentId subject predicate now).status = .contested

end Statement

section Condition

variable (config : EngineConfig) (rows : List ClaimWithStatus) (now : Instant)

/-- The sole live row, or the member of a live chain that is in effect. -/
def InForce (cs : ClaimWithStatus) : Prop :=
  cs ∈ liveRows rows ∧ (1 < (liveRows rows).length → (window cs.claim.validTime).Mem now)

/-- The row, live or not, of least ordering key among those with a later primary key. -/
def Successor (cs succ : ClaimWithStatus) : Prop :=
  succ ∈ rows ∧ primaryKey cs.claim config < primaryKey succ.claim config ∧
    ∀ x ∈ rows, primaryKey cs.claim config < primaryKey x.claim config →
      orderingKey succ.claim config ≤ orderingKey x.claim config

instance (cs succ : ClaimWithStatus) : Decidable (Successor config rows cs succ) := by
  unfold Successor; infer_instance

/-- The effective window reaches into the stored window of the successor row. -/
def RunsIntoSuccessor (cs : ClaimWithStatus) : Prop :=
  ∃ succ, Successor config rows cs succ ∧
    claimIsTrusted cs.claim config.validTimeConfidenceThreshold = true ∧
    claimIsTrusted succ.claim config.validTimeConfidenceThreshold = true ∧
    ¬ (effectiveWindow cs).Apart (window succ.claim.validTime)

instance (cs : ClaimWithStatus) : Decidable (RunsIntoSuccessor config rows cs) :=
  decidable_of_iff (∃ succ ∈ rows, Successor config rows cs succ ∧
    claimIsTrusted cs.claim config.validTimeConfidenceThreshold = true ∧
    claimIsTrusted succ.claim config.validTimeConfidenceThreshold = true ∧
    ¬ (effectiveWindow cs).Apart (window succ.claim.validTime))
    ⟨fun ⟨succ, _, h⟩ => ⟨succ, h⟩, fun ⟨succ, h⟩ => ⟨succ, h.1.1, h⟩⟩

/-- Begun, not ended, and no later row has begun. -/
def Underway (cs : ClaimWithStatus) : Prop :=
  (∀ start, cs.claim.validTime.start = some start → start ≤ now) ∧
    EndsAfter now (effectiveWindow cs).stop ∧
    ∀ x ∈ rows, primaryKey cs.claim config < primaryKey x.claim config →
      now < primaryKey x.claim config

/-- The rows on which the two read paths tell the same story: the live ones are
    rivals; or a live row runs into its successor row just when the row in force
    was left contested, and an uncontested row in force is underway. -/
def Aligned : Prop :=
  Rivalry config rows ∨
    ((∃ cs ∈ liveRows rows, RunsIntoSuccessor config rows cs) ↔
        ∃ cs, InForce rows now cs ∧ cs.lastDisposition = some .contested) ∧
      ∀ cs, InForce rows now cs → cs.lastDisposition ≠ some .contested →
        Underway config rows now cs

end Condition

section Successor

variable {config : EngineConfig} {rows : List ClaimWithStatus}

theorem primaryKeyAndGranularity_fst (claim : Claim) (config : EngineConfig) :
    (primaryKeyAndGranularity claim config).1 = primaryKey claim config := by
  unfold primaryKeyAndGranularity primaryKey
  split
  · cases claim.validTime.start <;> rfl
  · rfl

theorem primaryKey_le_of_orderingKey_le {c d : Claim}
    (h : orderingKey c config ≤ orderingKey d config) :
    primaryKey c config ≤ primaryKey d config := by
  unfold orderingKey at h
  rw [Prod.Lex.toLex_le_toLex] at h
  rcases h with h | ⟨h, _⟩
  · exact le_of_lt h
  · exact le_of_eq h

structure KeyOrdered (config : EngineConfig) (rows : List ClaimWithStatus) : Prop where
  sorted : rows.Pairwise fun x y => orderingKey x.claim config ≤ orderingKey y.claim config
  nodup : (rows.map (·.claim.claimRef)).Nodup

variable {pre later : List ClaimWithStatus} {cs succ : ClaimWithStatus}

theorem mem_later_of_later_key
    (hsorted : (pre ++ cs :: later).Pairwise fun x y =>
      orderingKey x.claim config ≤ orderingKey y.claim config)
    {x : ClaimWithStatus} (hx : x ∈ pre ++ cs :: later)
    (hlt : primaryKey cs.claim config < primaryKey x.claim config) : x ∈ later := by
  obtain ⟨_, _, hcross⟩ := List.pairwise_append.mp hsorted
  rcases List.mem_append.mp hx with hx | hx
  · have := primaryKey_le_of_orderingKey_le (hcross x hx cs List.mem_cons_self)
    exact absurd hlt (not_lt_of_ge this)
  · rcases List.mem_cons.mp hx with rfl | hx
    · exact absurd hlt (lt_irrefl _)
    · exact hx

theorem successor_of_successorRow
    (hsorted : (pre ++ cs :: later).Pairwise fun x y =>
      orderingKey x.claim config ≤ orderingKey y.claim config)
    (h : successorRow cs later config = some succ) :
    Successor config (pre ++ cs :: later) cs succ := by
  have hlater : later.Pairwise fun x y =>
      orderingKey x.claim config ≤ orderingKey y.claim config :=
    (List.pairwise_cons.mp (List.pairwise_append.mp hsorted).2.1).2
  unfold successorRow at h
  simp only [primaryKeyAndGranularity_fst] at h
  obtain ⟨hp, l₁, l₂, heq, hnot⟩ := List.find?_eq_some_iff_append.mp h
  have hmem : succ ∈ later := by rw [heq]; simp
  refine ⟨List.mem_append_right _ (List.mem_cons_of_mem _ hmem), of_decide_eq_true hp, ?_⟩
  intro x hx hlt
  have hxl := mem_later_of_later_key hsorted hx hlt
  rw [heq] at hxl hlater
  rcases List.mem_append.mp hxl with hx₁ | hx₂
  · have := hnot x hx₁
    simp [hlt] at this
  · rcases List.mem_cons.mp hx₂ with rfl | hx₂
    · exact le_rfl
    · exact (List.pairwise_cons.mp (List.pairwise_append.mp hlater).2.1).1 x hx₂

theorem successorRow_eq_some_iff (h : KeyOrdered config (pre ++ cs :: later)) :
    successorRow cs later config = some succ ↔
      Successor config (pre ++ cs :: later) cs succ := by
  refine ⟨successor_of_successorRow h.sorted, ?_⟩
  rintro ⟨hmem, hlt, hleast⟩
  cases hf : successorRow cs later config with
  | none =>
    unfold successorRow at hf
    simp only [primaryKeyAndGranularity_fst] at hf
    have := List.find?_eq_none.mp hf succ (mem_later_of_later_key h.sorted hmem hlt)
    simp [hlt] at this
  | some found =>
    obtain ⟨hfound, hfoundLt, hfoundLeast⟩ := successor_of_successorRow h.sorted hf
    have href := claimRef_eq_of_orderingKey_eq
      (le_antisymm (hfoundLeast succ hmem hlt) (hleast found hfound hfoundLt))
    exact congrArg some (List.inj_on_of_nodup_map h.nodup hfound hmem href)

theorem overlapsSuccessor_iff :
    overlapsSuccessor cs succ config = true ↔
      claimIsTrusted cs.claim config.validTimeConfidenceThreshold = true ∧
        claimIsTrusted succ.claim config.validTimeConfidenceThreshold = true ∧
        ¬ (effectiveWindow cs).Apart (window succ.claim.validTime) := by
  unfold overlapsSuccessor
  rw [Bool.and_eq_true, Bool.and_eq_true, and_assoc]
  refine and_congr_right fun hcs => and_congr_right fun hsucc => ?_
  obtain ⟨_, start, hs⟩ := (claimIsTrusted_iff _ _).mp hcs
  obtain ⟨_, succStart, ht⟩ := (claimIsTrusted_iff _ _).mp hsucc
  have hwin : effectiveWindow cs =
      ⟨start, (narrowedValidEnd cs.claim cs.boundAt cs.boundAtGranularity).1⟩ := by
    rw [effectiveWindow, window_eq hs, narrowedValidEnd_fst, Span.cut]
  rw [hs, ht, hwin, window_eq ht]
  dsimp only
  rw [Bool.not_eq_true', Bool.eq_false_iff]
  exact not_congr (windowsNonOverlappingBounds_iff _ _ _ _)

theorem runsIntoSuccessor_iff (h : KeyOrdered config (pre ++ cs :: later)) :
    RunsIntoSuccessor config (pre ++ cs :: later) cs ↔
      ∃ succ, successorRow cs later config = some succ ∧
        overlapsSuccessor cs succ config = true := by
  unfold RunsIntoSuccessor
  refine exists_congr fun succ => ?_
  rw [← successorRow_eq_some_iff h, overlapsSuccessor_iff]

theorem contested_historyWindow (cs : ClaimWithStatus) (later : List ClaimWithStatus)
    (hasConflict : Bool) (now : Instant) (config : EngineConfig) :
    (historyWindow cs later hasConflict now config).contested = true ↔
      (∃ succ, successorRow cs later config = some succ ∧
        overlapsSuccessor cs succ config = true) ∨ (cs.isLive && hasConflict) = true := by
  unfold historyWindow
  cases hsucc : successorRow cs later config with
  | none => simp
  | some succ =>
    cases hend : (narrowedValidEnd cs.claim cs.boundAt cs.boundAtGranularity).1 with
    | none => cases ho : overlapsSuccessor cs succ config <;> simp [hend, ho]
    | some oe =>
      cases ho : overlapsSuccessor cs succ config with
      | true => simp [hend, ho]
      | false =>
        by_cases hle : oe ≤ (primaryKeyAndGranularity succ.claim config).1 <;>
          simp [hend, ho, hle]

/-- A row is displayed up to its effective end, cut at the key of its successor unless it
    overlaps it. -/
theorem endsAfter_validUntil (cs : ClaimWithStatus) (later : List ClaimWithStatus)
    (hasConflict : Bool) (now : Instant) (config : EngineConfig) (t : Instant) :
    EndsAfter t (historyWindow cs later hasConflict now config).validUntil ↔
      EndsAfter t (effectiveWindow cs).stop ∧
        ∀ succ, successorRow cs later config = some succ →
          overlapsSuccessor cs succ config = true ∨ t < primaryKey succ.claim config := by
  have hstop : (effectiveWindow cs).stop =
      (narrowedValidEnd cs.claim cs.boundAt cs.boundAtGranularity).1 := by
    rw [narrowedValidEnd_fst]; rfl
  rw [hstop]
  unfold historyWindow
  cases hsucc : successorRow cs later config with
  | none => simp
  | some succ =>
    simp only [← primaryKeyAndGranularity_fst]
    cases hend : (narrowedValidEnd cs.claim cs.boundAt cs.boundAtGranularity).1 with
    | none => cases ho : overlapsSuccessor cs succ config <;> simp [ho, EndsAfter]
    | some oe =>
      cases ho : overlapsSuccessor cs succ config with
      | true => simp [ho]
      | false =>
        by_cases hle : oe ≤ (primaryKeyAndGranularity succ.claim config).1
        · simp only [ho, hle, if_true, if_false, Bool.false_eq_true, EndsAfter, false_or,
            Option.some.injEq, forall_eq']
          exact ⟨fun hlt => ⟨hlt, lt_of_lt_of_le hlt hle⟩, fun hlt => hlt.1⟩
        · simp only [ho, hle, if_false, Bool.false_eq_true, EndsAfter, false_or,
            Option.some.injEq, forall_eq']
          exact ⟨fun hlt => ⟨lt_trans hlt (lt_of_not_ge hle), hlt⟩, fun hlt => hlt.2⟩

theorem containsNow_historyWindow (cs : ClaimWithStatus) (later : List ClaimWithStatus)
    (hasConflict : Bool) (now : Instant) (config : EngineConfig) :
    (historyWindow cs later hasConflict now config).containsNow = true ↔
      (∀ start, cs.claim.validTime.start = some start → start ≤ now) ∧
        EndsAfter now (historyWindow cs later hasConflict now config).validUntil := by
  have hstart : (cs.claim.validTime.start.all fun s => decide (s ≤ now)) = true ↔
      ∀ start, cs.claim.validTime.start = some start → start ≤ now := by
    cases cs.claim.validTime.start <;> simp
  rw [← hstart]
  cases hend : (historyWindow cs later hasConflict now config).validUntil <;>
    simp_all [historyWindow, EndsAfter]

/-- Unless a row runs into its successor, every later row cuts its displayed window. -/
theorem endsAfter_validUntil_iff (h : KeyOrdered config (pre ++ cs :: later)) (hasConflict : Bool)
    (now t : Instant) :
    EndsAfter t (historyWindow cs later hasConflict now config).validUntil ↔
      EndsAfter t (effectiveWindow cs).stop ∧
        (RunsIntoSuccessor config (pre ++ cs :: later) cs ∨
          ∀ x ∈ pre ++ cs :: later, primaryKey cs.claim config < primaryKey x.claim config →
            t < primaryKey x.claim config) := by
  rw [endsAfter_validUntil, runsIntoSuccessor_iff h]
  refine and_congr_right fun _ => ?_
  cases hfound : successorRow cs later config with
  | none =>
    simp only [reduceCtorEq, false_implies, implies_true, true_iff]
    refine .inr fun x hx hlt => absurd hlt ?_
    obtain ⟨_, _, hcross⟩ := List.pairwise_append.mp h.sorted
    rcases List.mem_append.mp hx with hx | hx
    · exact not_lt_of_ge (primaryKey_le_of_orderingKey_le (hcross x hx cs List.mem_cons_self))
    · rcases List.mem_cons.mp hx with rfl | hx
      · exact lt_irrefl _
      · unfold successorRow at hfound
        have := List.find?_eq_none.mp hfound x hx
        simpa [primaryKeyAndGranularity_fst] using this
  | some succ =>
    obtain ⟨hmem, hlt, hleast⟩ := (successorRow_eq_some_iff h).mp hfound
    simp only [Option.some.injEq, forall_eq', exists_eq_left']
    refine or_congr_right ⟨fun ht x hx hx' => ?_, fun hall => hall succ hmem hlt⟩
    exact lt_of_lt_of_le ht (primaryKey_le_of_orderingKey_le (hleast x hx hx'))

theorem underway_iff (h : KeyOrdered config (pre ++ cs :: later)) {hasConflict : Bool}
    {now : Instant} (hno : ¬ RunsIntoSuccessor config (pre ++ cs :: later) cs) :
    (historyWindow cs later hasConflict now config).containsNow = true ↔
      Underway config (pre ++ cs :: later) now cs := by
  rw [containsNow_historyWindow, endsAfter_validUntil_iff h, Underway, or_iff_right hno]

end Successor

section Timeline

variable {config : EngineConfig} {now : Instant}

theorem mem_zipWith_windows (f : ClaimWithStatus → HistoryWindow → HistoryEntry)
    (hasConflict : Bool) (rows : List ClaimWithStatus) (e : HistoryEntry) :
    e ∈ List.zipWith f rows (computeHistoryWindows rows hasConflict now config) ↔
      ∃ pre cs later, rows = pre ++ cs :: later ∧
        e = f cs (historyWindow cs later hasConflict now config) := by
  induction rows with
  | nil => simp [computeHistoryWindows]
  | cons row rows ih =>
    rw [computeHistoryWindows, List.zipWith_cons_cons, List.mem_cons, ih]
    constructor
    · rintro (rfl | ⟨pre, cs, later, rfl, rfl⟩)
      · exact ⟨[], row, rows, rfl, rfl⟩
      · exact ⟨row :: pre, cs, later, rfl, rfl⟩
    · rintro ⟨pre, cs, later, heq, rfl⟩
      cases pre with
      | nil =>
        obtain ⟨rfl, rfl⟩ := List.cons.inj heq
        exact .inl rfl
      | cons _ pre =>
        obtain ⟨rfl, rfl⟩ := List.cons.inj heq
        exact .inr ⟨pre, cs, later, rfl, rfl⟩

theorem map_claimRef_zipWith (liveClaims : List ClaimWithStatus) (hasConflict : Bool)
    (rows : List ClaimWithStatus) :
    (List.zipWith (historyEntry liveClaims) rows
        (computeHistoryWindows rows hasConflict now config)).map (·.claimRef) =
      rows.map (·.claim.claimRef) := by
  induction rows with
  | nil => rfl
  | cons row rows ih =>
    rw [computeHistoryWindows, List.zipWith_cons_cons, List.map_cons, List.map_cons, ih]
    rfl

theorem entryStatus_eq_contested (liveClaims : List ClaimWithStatus) (cs : ClaimWithStatus)
    (w : HistoryWindow) :
    entryStatus liveClaims cs w = .contested ↔ cs.isLive = true ∧ w.contested = true := by
  unfold entryStatus
  cases cs.isLive <;> cases w.contested <;> simp
  split <;> simp

theorem entryStatus_eq_current (liveClaims : List ClaimWithStatus) (cs : ClaimWithStatus)
    (w : HistoryWindow) :
    entryStatus liveClaims cs w = .current ↔
      cs.isLive = true ∧ w.contested = false ∧
        (∃ live ∈ liveClaims, live.claim.claimRef = cs.claim.claimRef) ∧
        w.containsNow = true := by
  unfold entryStatus
  cases cs.isLive <;> cases w.contested <;> cases w.containsNow <;> simp

theorem map_filter_eq_singleton {α β : Type*} {xs : List α} {f : α → β} {p : α → Bool} {b : β}
    (hnodup : (xs.map f).Nodup) :
    (xs.filter p).map f = [b] ↔
      (∃ x ∈ xs, p x = true ∧ f x = b) ∧ ∀ x ∈ xs, p x = true → f x = b := by
  constructor
  · intro h
    have hmem : ∀ x ∈ xs, p x = true → f x = b := fun x hx hp => by
      have : f x ∈ (xs.filter p).map f := List.mem_map_of_mem (List.mem_filter.mpr ⟨hx, hp⟩)
      rw [h] at this
      exact List.mem_singleton.mp this
    obtain ⟨x, hx, hxb⟩ := List.mem_map.mp (h ▸ List.mem_singleton_self b : b ∈ (xs.filter p).map f)
    exact ⟨⟨x, (List.mem_filter.mp hx).1, (List.mem_filter.mp hx).2, hxb⟩, hmem⟩
  · rintro ⟨⟨x, hx, hp, rfl⟩, huniq⟩
    have hfilter : xs.filter p = [x] := filter_eq_singleton (hnodup.of_map _) hx hp
      fun y hy hpy => List.inj_on_of_nodup_map hnodup hy hx (huniq y hy hpy)
    rw [hfilter]
    rfl

end Timeline

section Agreement

variable {config : EngineConfig} {rows : List ClaimWithStatus} (now : Instant)

/-- Outside a rivalry the fold puts forward exactly the rows in force. -/
theorem mem_liveClaims_iff_inForce (hnodup : (rows.map (·.claim.claimRef)).Nodup)
    (hr : ¬ Rivalry config rows) (cs : ClaimWithStatus) :
    cs ∈ (foldStatuses rows now config).liveClaims ↔ InForce rows now cs := by
  unfold InForce
  by_cases hc : Chain config rows
  · rw [foldStatuses_of_chain hnodup hc, List.mem_filter, decide_eq_true_iff]
    exact and_congr_right fun _ => ⟨fun h _ => h, fun h => h hc.1⟩
  · have hlen : ¬ 1 < (liveRows rows).length := by
      intro hlen
      cases hs : isTrustedSuccession ((liveRows rows).map (·.claim))
        config.validTimeConfidenceThreshold with
      | true => exact hc ⟨hlen, hs⟩
      | false => exact hr ⟨hlen, hs⟩
    rw [foldStatuses_of_not_chain hc]
    exact ⟨fun h => ⟨h, fun hl => absurd hl hlen⟩, fun h => h.1⟩

theorem length_liveClaims_le_one (hnodup : (rows.map (·.claim.claimRef)).Nodup)
    (hr : ¬ Rivalry config rows) :
    (foldStatuses rows now config).liveClaims.length ≤ 1 := by
  by_cases hc : Chain config rows
  · exact foldStatuses_chain_length hnodup hc now
  · rw [foldStatuses_of_not_chain hc]
    by_contra hlen
    cases hs : isTrustedSuccession ((liveRows rows).map (·.claim))
      config.validTimeConfidenceThreshold with
    | true => exact hc ⟨by omega, hs⟩
    | false => exact hr ⟨by omega, hs⟩

theorem structuralConflict_of_rivalry
    (hset : (liveRows rows).countP (·.claim.cardinality == .setValued) ≤ 1)
    (hr : Rivalry config rows) : structuralConflict (liveRows rows) = true := by
  refine (structuralConflict_iff _).mpr ⟨hr.1, ?_⟩
  by_contra hall
  push Not at hall
  have hcount : (liveRows rows).countP (·.claim.cardinality == .setValued) =
      (liveRows rows).length :=
    List.countP_eq_length.mpr fun cs hcs => by simp [hall cs hcs]
  have := hr.1
  omega

theorem lineRows_keyOrdered (config : EngineConfig) {eng : Engine} {σ : Store} (h : Reachable eng σ)
    (agentId : AgentId) (subject predicate : String) (cutoff : Option Instant) (asOf : Instant) :
    KeyOrdered config (lineRows config σ agentId subject predicate cutoff asOf) := by
  refine ⟨?_, lineRows_nodup h config agentId subject predicate cutoff asOf⟩
  unfold lineRows lineClaims
  rw [List.pairwise_map]
  exact inOrder_pairwise (fun c : Claim => orderingKey c config) _

variable (h : KeyOrdered config rows)

def entriesFor (config : EngineConfig) (rows : List ClaimWithStatus) (now : Instant) :
    List HistoryEntry :=
  List.zipWith (historyEntry (foldStatuses rows now config).liveClaims) rows
    (computeHistoryWindows rows (foldStatuses rows now config).hasConflict now config)

include h

theorem hasConflict_eq_false (hr : ¬ Rivalry config rows) :
    (foldStatuses rows now config).hasConflict = false :=
  structuralConflict_of_length_le (length_liveClaims_le_one now h.nodup hr)

theorem exists_contested_entry_iff (hr : ¬ Rivalry config rows) :
    (∃ e ∈ entriesFor config rows now, e.status = .contested) ↔
      ∃ cs ∈ liveRows rows, RunsIntoSuccessor config rows cs := by
  have hc := hasConflict_eq_false now h hr
  unfold entriesFor
  rw [hc]
  constructor
  · rintro ⟨e, he, hstatus⟩
    obtain ⟨pre, cs, later, rfl, rfl⟩ := (mem_zipWith_windows _ _ _ _).mp he
    obtain ⟨hlive, hcontested⟩ := (entryStatus_eq_contested _ _ _).mp hstatus
    refine ⟨cs, mem_liveRows.mpr ⟨by simp, hlive⟩, (runsIntoSuccessor_iff h).mpr ?_⟩
    rcases (contested_historyWindow _ _ _ _ _).mp hcontested with hover | hover
    · exact hover
    · simp at hover
  · rintro ⟨cs, hcs, hover⟩
    obtain ⟨hmem, hlive⟩ := mem_liveRows.mp hcs
    obtain ⟨pre, later, rfl⟩ := List.append_of_mem hmem
    refine ⟨_, (mem_zipWith_windows _ _ _ _).mpr ⟨pre, cs, later, rfl, rfl⟩, ?_⟩
    refine (entryStatus_eq_contested _ _ _).mpr ⟨hlive, ?_⟩
    exact (contested_historyWindow _ _ _ _ _).mpr (.inl ((runsIntoSuccessor_iff h).mp hover))

/-- Where no live row runs into its successor, the current entries are the rows
    that are in force and underway. -/
theorem exists_current_entry_iff (hr : ¬ Rivalry config rows)
    (hno : ¬ ∃ cs ∈ liveRows rows, RunsIntoSuccessor config rows cs) (c : ClaimRef) :
    (∃ e ∈ entriesFor config rows now, e.status = .current ∧ e.claimRef = c) ↔
      ∃ cs, InForce rows now cs ∧ Underway config rows now cs ∧ cs.claim.claimRef = c := by
  have hc := hasConflict_eq_false now h hr
  have hlive := fun cs => mem_liveClaims_iff_inForce now h.nodup hr cs
  unfold entriesFor
  rw [hc]
  constructor
  · rintro ⟨e, he, hstatus, rfl⟩
    obtain ⟨pre, cs, later, rfl, rfl⟩ := (mem_zipWith_windows _ _ _ _).mp he
    obtain ⟨hcs, _, ⟨live, hmem, href⟩, hnow⟩ := (entryStatus_eq_current _ _ _).mp hstatus
    have hrow : live = cs := List.inj_on_of_nodup_map h.nodup
      (foldStatuses_subset h.nodup now hmem).1 (by simp) href
    subst hrow
    have hrun : ¬ RunsIntoSuccessor config (pre ++ live :: later) live :=
      fun hover => hno ⟨live, mem_liveRows.mpr ⟨by simp, hcs⟩, hover⟩
    exact ⟨live, (hlive live).mp hmem, (underway_iff h hrun).mp hnow, rfl⟩
  · rintro ⟨cs, hforce, hunder, rfl⟩
    obtain ⟨hmem, hcs⟩ := mem_liveRows.mp hforce.1
    obtain ⟨pre, later, rfl⟩ := List.append_of_mem hmem
    have hrun : ¬ RunsIntoSuccessor config (pre ++ cs :: later) cs :=
      fun hover => hno ⟨cs, hforce.1, hover⟩
    refine ⟨_, (mem_zipWith_windows _ _ _ _).mpr ⟨pre, cs, later, rfl, rfl⟩, ?_, rfl⟩
    refine (entryStatus_eq_current _ _ _).mpr
      ⟨hcs, ?_, ⟨cs, (hlive cs).mpr hforce, rfl⟩, (underway_iff h hrun).mpr hunder⟩
    rw [Bool.eq_false_iff]
    intro hcontested
    rcases (contested_historyWindow _ _ _ _ _).mp hcontested with hover | hover
    · exact hrun ((runsIntoSuccessor_iff h).mpr hover)
    · simp at hover

omit h in
theorem inForce_unique (hnodup : (rows.map (·.claim.claimRef)).Nodup)
    (hr : ¬ Rivalry config rows) {x y : ClaimWithStatus} (hx : InForce rows now x)
    (hy : InForce rows now y) : x = y := by
  have hlen := length_liveClaims_le_one now hnodup hr
  have hxm := (mem_liveClaims_iff_inForce now hnodup hr x).mpr hx
  have hym := (mem_liveClaims_iff_inForce now hnodup hr y).mpr hy
  cases hl : (foldStatuses rows now config).liveClaims with
  | nil => rw [hl] at hxm; cases hxm
  | cons z zs =>
    rw [hl] at hlen hxm hym
    have hzs : zs = [] := by simpa using hlen
    subst hzs
    rw [List.mem_singleton.mp hxm, List.mem_singleton.mp hym]

theorem sole_current_iff (hr : ¬ Rivalry config rows)
    (hno : ¬ ∃ cs ∈ liveRows rows, RunsIntoSuccessor config rows cs) (c : ClaimRef) :
    ((entriesFor config rows now).filter (·.status == .current)).map (·.claimRef) = [c] ↔
      ∃ cs, InForce rows now cs ∧ Underway config rows now cs ∧ cs.claim.claimRef = c := by
  have hnodup : ((entriesFor config rows now).map (·.claimRef)).Nodup := by
    unfold entriesFor
    rw [map_claimRef_zipWith]
    exact h.nodup
  rw [map_filter_eq_singleton hnodup]
  have hiff := exists_current_entry_iff now h hr hno
  simp only [beq_iff_eq]
  constructor
  · rintro ⟨hex, _⟩
    exact (hiff c).mp hex
  · intro hex
    refine ⟨(hiff c).mpr hex, fun e he hstatus => ?_⟩
    obtain ⟨cs, hforce, _, href⟩ := (hiff e.claimRef).mp ⟨e, he, hstatus, rfl⟩
    obtain ⟨cs', hforce', _, rfl⟩ := hex
    rw [← href, inForce_unique now h.nodup hr hforce hforce']

end Agreement

section Recall

variable {config : EngineConfig} {rows : List ClaimWithStatus} (now : Instant)
variable (ledgerEntries : List LedgerEntry)

theorem report_cases (hnodup : (rows.map (·.claim.claimRef)).Nodup)
    (hr : ¬ Rivalry config rows) :
    ((∀ cs, ¬ InForce rows now cs) ∧
        (report config rows now ledgerEntries).status = .noBelief ∧
        (report config rows now ledgerEntries).primary = none) ∨
      ∃ cs, InForce rows now cs ∧
        (report config rows now ledgerEntries).status =
          (if cs.lastDisposition = some .contested then .contested
            else if cs.claim.validTime.isUnknown then .timingUncertain else .resolved) ∧
        (report config rows now ledgerEntries).primary = some (liveBelief now config cs) := by
  have hmem := fun cs => mem_liveClaims_iff_inForce now hnodup hr cs
  have hlen := length_liveClaims_le_one now hnodup hr
  have hconflict : (foldStatuses rows now config).hasConflict = false :=
    structuralConflict_of_length_le hlen
  unfold report
  cases hl : (foldStatuses rows now config).liveClaims with
  | nil =>
    left
    have hp := project_of_nil ledgerEntries now config (anyContested []) hl
    exact ⟨fun cs hcs => by simpa [hl] using (hmem cs).mpr hcs, hp.1, hp.2.1⟩
  | cons cs rest =>
    right
    have hrest : rest = [] := by simpa [hl] using hlen
    subst hrest
    have hp := project_of_singleton ledgerEntries now config (anyContested [cs]) hl hconflict
    refine ⟨cs, (hmem cs).mp (by simp [hl]), ?_, hp.2.1⟩
    rw [hp.1]
    simp [anyContested]

theorem report_status_contested_iff (hnodup : (rows.map (·.claim.claimRef)).Nodup)
    (hr : ¬ Rivalry config rows) :
    (report config rows now ledgerEntries).status = .contested ↔
      ∃ cs, InForce rows now cs ∧ cs.lastDisposition = some .contested := by
  rcases report_cases now ledgerEntries hnodup hr with
    ⟨hnone, hs, _⟩ | ⟨cs, hforce, hs, _⟩
  · rw [hs]
    simp only [reduceCtorEq, false_iff]
    rintro ⟨cs, hcs, _⟩
    exact hnone cs hcs
  · rw [hs]
    constructor
    · intro hif
      refine ⟨cs, hforce, ?_⟩
      by_contra hd
      rw [if_neg hd] at hif
      split at hif <;> cases hif
    · rintro ⟨cs', hforce', hd⟩
      rw [inForce_unique now hnodup hr hforce hforce', if_pos hd]

theorem report_recalled_iff (hnodup : (rows.map (·.claim.claimRef)).Nodup)
    (hr : ¬ Rivalry config rows) (c : ClaimRef) :
    (((report config rows now ledgerEntries).status = .resolved ∨
        (report config rows now ledgerEntries).status = .timingUncertain) ∧
      ∃ b, (report config rows now ledgerEntries).primary = some b ∧ b.claimRef = c) ↔
      ∃ cs, InForce rows now cs ∧ cs.lastDisposition ≠ some .contested ∧
        cs.claim.claimRef = c := by
  rcases report_cases now ledgerEntries hnodup hr with
    ⟨hnone, hs, _⟩ | ⟨cs, hforce, hs, hp⟩
  · rw [hs]
    simp only [reduceCtorEq, or_self, false_and, false_iff]
    rintro ⟨cs, hcs, _⟩
    exact hnone cs hcs
  · rw [hs, hp]
    constructor
    · rintro ⟨hstatus, b, hb, rfl⟩
      refine ⟨cs, hforce, fun hd => ?_, by rw [← Option.some.inj hb]; rfl⟩
      rw [if_pos hd] at hstatus
      rcases hstatus with hstatus | hstatus <;> cases hstatus
    · rintro ⟨cs', hforce', hd, rfl⟩
      rw [inForce_unique now hnodup hr hforce' hforce] at hd ⊢
      rw [if_neg hd]
      exact ⟨by split <;> simp, _, rfl, rfl⟩

end Recall

section Main

variable {eng : Engine} {σ : Store} {now : Instant}

theorem timeline_eq_entriesFor (config : EngineConfig) (σ : Store) (agentId : AgentId)
    (subject predicate : String) (now : Instant) :
    timeline config σ agentId subject predicate now =
      entriesFor config (lineRows config σ agentId subject predicate none now) now := by
  unfold timeline QueryHistory.execute
  rw [foldForWrite_eq]
  rfl

theorem agrees_of_rivalry {config : EngineConfig} {agentId : AgentId}
    {subject predicate : String} (hσ : Reachable eng σ) (hnow : StampsBy σ now)
    (hset : (liveRows (lineRows config σ agentId subject predicate none now)).countP
      (·.claim.cardinality == .setValued) ≤ 1)
    (hr : Rivalry config (lineRows config σ agentId subject predicate none now)) :
    Agrees config σ agentId subject predicate now := by
  have hkey := lineRows_keyOrdered config hσ agentId subject predicate none now
  set rows := lineRows config σ agentId subject predicate none now with hrows
  have hnc : ¬ Chain config rows := fun hc => by simpa [hr.2] using hc.2
  have hlive : (foldStatuses rows now config).liveClaims = liveRows rows :=
    foldStatuses_of_not_chain hnc now
  have hconflict : (foldStatuses rows now config).hasConflict = true := by
    rw [foldStatuses_hasConflict, hlive]
    exact structuralConflict_of_rivalry hset hr
  obtain ⟨ledgerEntries, hrecall⟩ :=
    recall_eq_report_of_stampsBy config agentId subject predicate hnow
  rw [← hrows] at hrecall
  have hmany : 1 < (foldStatuses rows now config).liveClaims.length := by
    rw [hlive]
    exact hr.1
  have hreport := project_of_many ledgerEntries now config
    (anyContested (foldStatuses rows now config).liveClaims) hmany
  have hstatus : (recallNow config σ agentId subject predicate now).status = .contested := by
    rw [hrecall, report, hreport.1, hconflict, Bool.or_true, if_pos rfl]
  have hshow : ShowsContest config σ agentId subject predicate now := by
    obtain ⟨cs, hcs⟩ := List.exists_mem_of_length_pos (lt_trans Nat.zero_lt_one hr.1)
    obtain ⟨hmem, hcsl⟩ := mem_liveRows.mp hcs
    obtain ⟨pre, later, hsplit⟩ := List.append_of_mem hmem
    rw [ShowsContest, timeline_eq_entriesFor, ← hrows, entriesFor]
    refine ⟨_, (mem_zipWith_windows _ _ _ _).mpr ⟨pre, cs, later, hsplit, rfl⟩, ?_⟩
    refine (entryStatus_eq_contested _ _ _).mpr ⟨hcsl, ?_⟩
    exact (contested_historyWindow _ _ _ _ _).mpr (.inr (by rw [hcsl, hconflict]; rfl))
  refine ⟨fun c => ?_, fun _ => hstatus, fun _ => hshow⟩
  refine ⟨fun hrec => ?_, fun hsole => absurd hshow hsole.2⟩
  have := hrec.1
  rw [hstatus] at this
  rcases this with this | this <;> cases this

/-- Timeline and recall of a line agree exactly when its rows are aligned. -/
theorem history_agrees_with_recall_iff (hσ : Reachable eng σ) (agentId : AgentId)
    (subject predicate : String) (hnow : StampsBy σ now)
    (hset : (liveRows (lineRows eng.config σ agentId subject predicate none now)).countP
      (·.claim.cardinality == .setValued) ≤ 1) :
    Agrees eng.config σ agentId subject predicate now ↔
      Aligned eng.config (lineRows eng.config σ agentId subject predicate none now) now := by
  have hkey := lineRows_keyOrdered eng.config hσ agentId subject predicate none now
  set rows := lineRows eng.config σ agentId subject predicate none now
  by_cases hr : Rivalry eng.config rows
  · exact ⟨fun _ => .inl hr, fun _ => agrees_of_rivalry hσ hnow hset hr⟩
  obtain ⟨ledgerEntries, hrecall⟩ :=
    recall_eq_report_of_stampsBy eng.config agentId subject predicate hnow
  have hcontest := report_status_contested_iff now ledgerEntries hkey.nodup hr
  have hrecalled := report_recalled_iff now ledgerEntries hkey.nodup hr
  have hshow : ShowsContest eng.config σ agentId subject predicate now ↔
      ∃ cs ∈ liveRows rows, RunsIntoSuccessor eng.config rows cs := by
    rw [ShowsContest, timeline_eq_entriesFor]
    exact exists_contested_entry_iff now hkey hr
  rw [← hrecall] at hcontest hrecalled
  constructor
  · intro hagree
    refine .inr ⟨hshow.symm.trans (hagree.contested.trans hcontest), fun cs hforce hd => ?_⟩
    have hrec := (hrecalled cs.claim.claimRef).mpr ⟨cs, hforce, hd, rfl⟩
    obtain ⟨hsole, hno⟩ := (hagree.current _).mp hrec
    rw [SoleCurrent, timeline_eq_entriesFor,
      sole_current_iff now hkey hr (fun h => hno (hshow.mpr h))] at hsole
    obtain ⟨cs', hforce', hunder, _⟩ := hsole
    rw [inForce_unique now hkey.nodup hr hforce hforce']
    exact hunder
  · rintro (hr' | ⟨hiff, hunder⟩)
    · exact absurd hr' hr
    refine ⟨fun c => ?_, hshow.trans (hiff.trans hcontest.symm)⟩
    refine (hrecalled c).trans ?_
    constructor
    · rintro ⟨cs, hforce, hd, rfl⟩
      have hno : ¬ ∃ cs ∈ liveRows rows, RunsIntoSuccessor eng.config rows cs := by
        rw [hiff]
        rintro ⟨cs', hforce', hd'⟩
        exact hd (inForce_unique now hkey.nodup hr hforce hforce' ▸ hd')
      refine ⟨?_, fun hs => hno (hshow.mp hs)⟩
      rw [SoleCurrent, timeline_eq_entriesFor, sole_current_iff now hkey hr hno]
      exact ⟨cs, hforce, hunder cs hforce hd, rfl⟩
    · rintro ⟨hsole, hs⟩
      have hno := fun h => hs (hshow.mpr h)
      rw [SoleCurrent, timeline_eq_entriesFor, sole_current_iff now hkey hr hno] at hsole
      obtain ⟨cs, hforce, _, rfl⟩ := hsole
      exact ⟨cs, hforce, fun hd => hno (hiff.mpr ⟨cs, hforce, hd⟩), rfl⟩

def rivalRun : List Op :=
  [.ingestClaim (remember "Paris" (some (dated 1 none))) 10 ⟨1⟩ (.ok 0),
    .ingestClaim (remember "Berlin" (some (dated 5 none))) 20 ⟨2⟩ (.ok 0)]

theorem history_agrees_on_rivals :
    Agrees EngineConfig.default (run (defaultEngine false) Store.sqlite rivalRun) agent "user"
      "location" 30 :=
  (history_agrees_with_recall_iff (run_reachable (by decide) : Reachable (defaultEngine false) _)
    agent "user" "location" (by constructor <;> decide) (by decide)).mpr (.inl (by decide))

/-- The oracle denies the challenger: its row ends at the verdict, yet it still
    counts as the successor of the incumbent. -/
def deniedRun : List Op :=
  [.ingestClaim (remember "Paris" (some (dated 1 none))) 10 ⟨1⟩ (.ok 100),
    .ingestClaim (remember "Berlin" (some (dated 5 none))) 20 ⟨2⟩ (.ok 101),
    verdictOn 101 .deny 30 500]

theorem denied_challenger_still_contests_history :
    let σ := run (defaultEngine true) Store.sqlite deniedRun
    Reachable (defaultEngine true) σ ∧ StampsBy σ 40 ∧
      (liveRows (lineRows EngineConfig.default σ agent "user" "location" none 40)).countP
        (·.claim.cardinality == .setValued) ≤ 1 ∧
      (recallNow EngineConfig.default σ agent "user" "location" 40).status = .resolved ∧
      ¬ Agrees EngineConfig.default σ agent "user" "location" 40 := by
  refine ⟨run_reachable (by decide), by constructor <;> decide, by decide, by decide, ?_⟩
  intro h
  have hshow : ShowsContest EngineConfig.default
      (run (defaultEngine true) Store.sqlite deniedRun) agent "user" "location" 40 := by
    unfold ShowsContest
    decide
  exact absurd (h.contested.mp hshow) (by decide)

end Main

end Mempill.HistoryAgreement
