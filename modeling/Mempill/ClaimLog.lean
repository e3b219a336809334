import Mempill.Invariants

set_option autoImplicit false

/-!
# Claim logs

The assertions and entries of one claim along runs whose bounds and reopens are
stamped in the order in which they are executed.
-/
namespace Mempill.ClaimLog
open Mempill.Types Mempill.Persistence Mempill.Ledger Mempill.Gate Mempill.Rows Mempill.IngestClaim
open Mempill.AssertValidity Mempill.SubmitAdjudication Mempill.Reconcile Mempill.Engine
open Mempill.Steps Mempill.Invariants Transition StampedLog

section Orderly

/-- A stamp later than every assertion and entry stored for a claim. -/
structure Timely (σ : Store) (agentId : AgentId) (r : ClaimRef) (now : Instant) : Prop where
  assertions : ∀ a ∈ assertionsOf σ agentId r, a.assertedAt < now
  entries : ∀ e ∈ entriesOf σ agentId none r, e.recordedAt < now

instance (σ : Store) (agentId : AgentId) (r : ClaimRef) (now : Instant) :
    Decidable (Timely σ agentId r now) :=
  decidable_of_iff
    ((∀ a ∈ assertionsOf σ agentId r, a.assertedAt < now) ∧
      ∀ e ∈ entriesOf σ agentId none r, e.recordedAt < now)
    ⟨fun h => ⟨h.1, h.2⟩, fun h => ⟨h.1, h.2⟩⟩

def boundTarget (row : PendingAdjudicationRow) : AdjudicationVerdict → Option ClaimRef
  | .affirm => some row.incumbentClaimRef
  | .deny => some row.challengerClaimRef
  | .unknown => none

/-- The claim whose assertions an operation can extend, with its agent and stamp. -/
def assertionTarget (σ : Store) : Op → Option (AgentId × ClaimRef × Instant)
  | .assertValidity req now _ => some (req.agentId, req.target, now)
  | .submitAdjudication handleId response now _ => do
    let row ← getPending σ handleId
    let r ← boundTarget row response.verdict
    some (row.agentId, r, now)
  | _ => none

/-- An operation that can write an assertion is stamped after the rows of its target. -/
def Orderly (σ : Store) (op : Op) : Prop :=
  ∀ agentId r now, assertionTarget σ op = some (agentId, r, now) → Timely σ agentId r now

instance (σ : Store) (op : Op) : Decidable (Orderly σ op) :=
  match h : assertionTarget σ op with
  | none => .isTrue fun _ _ _ ht => by rw [h] at ht; cases ht
  | some (agentId, r, now) =>
    decidable_of_iff (Timely σ agentId r now)
      ⟨fun ht _ _ _ heq => by rw [h] at heq; cases heq; exact ht, fun ht => ht _ _ _ h⟩

end Orderly

section Effect

/-- A disposition that neither ends nor restores a claim. -/
def quiet (d : Disposition) : Bool := d != .superseded && d != .reinstated

/-- What one step appends to the assertions and the entries of one claim. -/
inductive Effect (timely : Instant → Prop) :
    List ValidityAssertion → List LedgerEntry → Prop where
  | noted {es : List LedgerEntry} (hes : ∀ e ∈ es, quiet e.disposition = true) :
      Effect timely [] es
  | bounded {a : ValidityAssertion} {e : LedgerEntry} {es : List LedgerEntry} {at_ : Instant}
      {granularity : Option DateGranularity} (htimely : timely a.assertedAt)
      (ha : a.kind = .bound at_ granularity) (he : e.disposition = .superseded)
      (hv : (verdictField e).isSome = true) (hes : ∀ e ∈ es, quiet e.disposition = true) :
      Effect timely [a] (e :: es)
  | reopened {a : ValidityAssertion} {e : LedgerEntry} (htimely : timely a.assertedAt)
      (ha : a.kind = .reopen a.assertedAt) (he : e.disposition = .reinstated)
      (hstamp : e.recordedAt = a.assertedAt) : Effect timely [a] [e]

theorem adjudicate_quiet (proposal : Proposal) (config : EngineConfig) :
    quiet (adjudicate proposal config).disposition = true := by
  unfold adjudicate
  dsimp only
  split_ifs <;> rfl

theorem quiet_of_mem_cascadeEntries {agentId : AgentId} {target overturning : ClaimRef}
    {now : Instant} {edges : List ClaimEdge} {e : LedgerEntry}
    (h : e ∈ cascadeEntries agentId target overturning now edges) :
    quiet e.disposition = true := by
  obtain ⟨_, _, rfl⟩ := List.mem_map.mp h
  rfl

variable {eng : Engine} {σ : Store} {op : Op} {w : Written} {agentId : AgentId} {r : ClaimRef}

def newAssertions (w : Written) (agentId : AgentId) (r : ClaimRef) : List ValidityAssertion :=
  w.assertions.filter fun a => a.agentId == agentId && a.targetClaim == r

def newEntries (w : Written) (agentId : AgentId) (r : ClaimRef) : List LedgerEntry :=
  w.ledger.filter fun e => e.agentId == agentId && e.claimRef == r

theorem mem_newEntries {e : LedgerEntry} :
    e ∈ newEntries w agentId r ↔ e ∈ w.ledger ∧ e.agentId = agentId ∧ e.claimRef = r := by
  simp [newEntries]

theorem newEntries_single {e : LedgerEntry} (hw : w.ledger = [e]) :
    newEntries w agentId r = if e.agentId = agentId ∧ e.claimRef = r then [e] else [] := by
  rw [newEntries, hw, List.filter_cons]
  simp only [Bool.and_eq_true, beq_iff_eq, List.filter_nil]

theorem newAssertions_single {a : ValidityAssertion} (hw : w.assertions = [a]) :
    newAssertions w agentId r = if a.agentId = agentId ∧ a.targetClaim = r then [a] else [] := by
  rw [newAssertions, hw, List.filter_cons]
  simp only [Bool.and_eq_true, beq_iff_eq, List.filter_nil]

theorem entriesOf_newEntries {σ' : Store} (h : Appends σ σ' w) (agentId : AgentId)
    (r : ClaimRef) :
    entriesOf σ' agentId none r = entriesOf σ agentId none r ++ newEntries w agentId r := by
  rw [entriesOf_append h]
  congr 1
  exact List.filter_congr fun e _ => by simp [withinCutoff]

/-- A cutoff sees all of the entries written under one stamp, or none. -/
theorem entriesOf_of_stamp {σ' : Store} {now : Instant} (h : Appends σ σ' w)
    (hstamp : ∀ e ∈ w.ledger, e.recordedAt = now) (agentId : AgentId) (cutoff : Option Instant)
    (r : ClaimRef) :
    entriesOf σ' agentId cutoff r = entriesOf σ agentId cutoff r ++
      if withinCutoff cutoff now then newEntries w agentId r else [] := by
  rw [entriesOf_append h]
  congr 1
  cases hcut : withinCutoff cutoff now with
  | true => exact List.filter_congr fun e he => by rw [hstamp e he, hcut, Bool.and_true]
  | false =>
    refine List.filter_eq_nil_iff.mpr fun e he => ?_
    rw [hstamp e he, hcut, Bool.and_false]
    exact Bool.false_ne_true

theorem effect_of_quiet {timely : Instant → Prop} (ha : newAssertions w agentId r = [])
    (he : ∀ e ∈ w.ledger, quiet e.disposition = true) :
    Effect timely (newAssertions w agentId r) (newEntries w agentId r) := by
  rw [ha]
  exact .noted fun e hmem => he e (List.mem_of_mem_filter hmem)

theorem effect_of_bound {timely : Instant → Prop} {a : ValidityAssertion} {e : LedgerEntry}
    {es : List LedgerEntry} {at_ : Instant} {granularity : Option DateGranularity}
    (hw : w.assertions = [a]) (hl : w.ledger = e :: es) (hagent : e.agentId = a.agentId)
    (href : e.claimRef = a.targetClaim) (ha : a.kind = .bound at_ granularity)
    (he : e.disposition = .superseded) (hv : (verdictField e).isSome = true)
    (hes : ∀ e ∈ es, quiet e.disposition = true)
    (htimely : a.agentId = agentId → a.targetClaim = r → timely a.assertedAt) :
    Effect timely (newAssertions w agentId r) (newEntries w agentId r) := by
  unfold newAssertions newEntries
  rw [hw, hl, List.filter_cons, List.filter_cons, hagent, href]
  cases ht : (a.agentId == agentId && a.targetClaim == r) with
  | true =>
    simp only [Bool.and_eq_true, beq_iff_eq] at ht
    exact .bounded (htimely ht.1 ht.2) ha he hv fun e he => hes e (List.mem_of_mem_filter he)
  | false => exact .noted fun e he => hes e (List.mem_of_mem_filter he)

theorem quiet_of_mem_decisions {req : ReconcileRequest} {now : Instant}
    {d : ClaimRef × GateDecision} (h : d ∈ decisions eng σ req now) :
    quiet d.2.disposition = true := by
  obtain ⟨line, _, hd⟩ := List.mem_flatMap.mp h
  obtain ⟨cs, _, rfl⟩ := List.mem_map.mp hd
  exact adjudicate_quiet _ _

/-- A verdict bounds its target and leaves a quiet entry elsewhere. -/
theorem effect_of_verdict {handleId : Uuid} {response : AdjudicationResponse} {now : Instant}
    {assertionRef : Uuid} {row : PendingAdjudicationRow} {challenger : Claim}
    (hrow : getPending σ handleId = some row)
    (horder : Orderly σ (.submitAdjudication handleId response now assertionRef)) :
    let w := verdictWritten eng.config σ row challenger response now assertionRef
    Effect (Timely σ agentId r) (newAssertions w agentId r) (newEntries w agentId r) := by
  dsimp only
  have htarget : ∀ target, boundTarget row response.verdict = some target →
      Timely σ row.agentId target now := fun target ht =>
    horder row.agentId target now (by simp [assertionTarget, hrow, ht])
  cases hv : response.verdict with
  | affirm =>
    rw [hv] at htarget
    have ht := htarget _ rfl
    simp only [verdictWritten, hv]
    have hledger : ∀ (e : LedgerEntry) (es es' : List LedgerEntry),
        [e] ++ es ++ es' = e :: (es ++ es') := fun _ _ _ => rfl
    refine effect_of_bound rfl (hledger _ _ _) rfl rfl rfl rfl rfl (fun e he => ?_)
      fun h1 h2 => ?_
    · rcases List.mem_append.mp he with he | he
      · exact quiet_of_mem_cascadeEntries he
      · rw [List.mem_singleton.mp he]
        rfl
    · subst h1 h2
      exact ht
  | deny =>
    rw [hv] at htarget
    have ht := htarget _ rfl
    simp only [verdictWritten, hv]
    refine effect_of_bound rfl rfl rfl rfl rfl rfl rfl
      (fun e he => quiet_of_mem_cascadeEntries he) fun h1 h2 => ?_
    subst h1 h2
    exact ht
  | unknown =>
    simp only [verdictWritten, hv]
    refine effect_of_quiet rfl fun e he => ?_
    simp only [List.mem_cons, List.not_mem_nil, or_false] at he
    rcases he with rfl | rfl <;> rfl

theorem effect_of_outcome (h : Outcome eng σ op w) (horder : Orderly σ op) (agentId : AgentId)
    (r : ClaimRef) :
    Effect (Timely σ agentId r) (newAssertions w agentId r) (newEntries w agentId r) := by
  cases h with
  | silent _ => exact effect_of_quiet rfl (by simp)
  | ingested _ =>
    refine effect_of_quiet rfl fun e he => ?_
    rw [List.mem_singleton.mp he]
    exact adjudicate_quiet _ _
  | bounded _ _ =>
    refine effect_of_bound rfl rfl rfl rfl rfl rfl rfl (by simp) fun h1 h2 => ?_
    subst h1 h2
    exact horder _ _ _ rfl
  | @reopened req now assertionRef hassert haccepted =>
    by_cases ht : req.agentId = agentId ∧ req.target = r
    · obtain ⟨rfl, rfl⟩ := ht
      have htimely := horder req.agentId req.target now rfl
      simp only [newAssertions, newEntries, hostAssertion, hostEntry, BEq.rfl, Bool.and_self,
        List.filter_cons_of_pos, List.filter_nil]
      exact .reopened htimely rfl rfl rfl
    · have hne : (req.agentId == agentId && req.target == r) = false := by simpa using ht
      simp only [newAssertions, newEntries, hostAssertion, hostEntry, hne, Bool.false_eq_true,
        not_false_eq_true, List.filter_cons_of_neg, List.filter_nil]
      exact .noted (by simp)
  | resolved haccepted => exact effect_of_verdict haccepted.pending horder
  | reconciled =>
    refine effect_of_quiet rfl fun e he => ?_
    obtain ⟨d, hd, rfl⟩ := List.mem_map.mp he
    exact quiet_of_mem_decisions hd
  | edged => exact effect_of_quiet rfl (by simp)
  | _ =>
    refine effect_of_quiet rfl fun e he => ?_
    rw [List.mem_singleton.mp he]
    rfl

end Effect

section Invariant

structure LogInvariant (ties : TieOrder LedgerEntry) (as : List ValidityAssertion)
    (es : List LedgerEntry) : Prop where
  /-- Assertions are recorded in stamp order. -/
  assertions : as.Pairwise fun a b => a.assertedAt < b.assertedAt
  /-- A reopen states its own stamp. -/
  reopens : ∀ a ∈ as, ∀ t, a.kind = .reopen t → t = a.assertedAt
  /-- A reinstatement is stamped after everything recorded before it. -/
  reinstated : es.Pairwise fun x y => y.disposition = .reinstated → x.recordedAt < y.recordedAt
  /-- A superseding entry says where it comes from. -/
  verdicts : ∀ e ∈ es, e.disposition = .superseded → (verdictField e).isSome = true
  /-- A claim that is superseded by its ledger ends on a bound. -/
  superseded : (ties.first LedgerEntry.recordedAt es).map (·.disposition) = some .superseded →
    ∃ a, as.getLast? = some a ∧ ∃ at_ granularity, a.kind = .bound at_ granularity

variable {ties : TieOrder LedgerEntry} {as newAs : List ValidityAssertion}
variable {es newEs : List LedgerEntry}

theorem not_superseded_of_quiet {e : LedgerEntry} (h : quiet e.disposition = true) :
    e.disposition ≠ .superseded ∧ e.disposition ≠ .reinstated := by
  simpa [quiet] using h

theorem LogInvariant.assertions_concat {a : ValidityAssertion} (h : LogInvariant ties as es)
    (hassert : ∀ x ∈ as, x.assertedAt < a.assertedAt) :
    (as ++ [a]).Pairwise fun a b => a.assertedAt < b.assertedAt :=
  List.pairwise_append.mpr ⟨h.assertions, List.pairwise_singleton _ _,
    fun x hx _ hy => List.mem_singleton.mp hy ▸ hassert x hx⟩

theorem LogInvariant.reopens_concat {a : ValidityAssertion} (h : LogInvariant ties as es)
    (ha : ∀ t, a.kind = .reopen t → t = a.assertedAt) :
    ∀ x ∈ as ++ [a], ∀ t, x.kind = .reopen t → t = x.assertedAt := by
  intro x hx t hk
  rcases List.mem_append.mp hx with hx | hx
  · exact h.reopens x hx t hk
  · rw [List.mem_singleton.mp hx] at hk ⊢
    exact ha t hk

/-- Entries that reinstate nothing may bear any stamps. -/
theorem LogInvariant.reinstated_append (h : LogInvariant ties as es)
    (hnews : ∀ e ∈ newEs, e.disposition ≠ .reinstated) :
    (es ++ newEs).Pairwise fun x y =>
      y.disposition = .reinstated → x.recordedAt < y.recordedAt := by
  refine List.pairwise_append.mpr ⟨h.reinstated, ?_, fun x _ y hy hre => absurd hre (hnews y hy)⟩
  exact List.pairwise_of_forall_mem_list fun x _ y hy hre => absurd hre (hnews y hy)

theorem LogInvariant.quiet (h : LogInvariant ties as es)
    (hes : ∀ e ∈ newEs, quiet e.disposition = true) : LogInvariant ties as (es ++ newEs) := by
  refine ⟨h.assertions, h.reopens, ?_, fun e he hsup => ?_, fun hlatest => ?_⟩
  · exact h.reinstated_append fun e he => (not_superseded_of_quiet (hes e he)).2
  · rcases List.mem_append.mp he with he | he
    · exact h.verdicts e he hsup
    · exact absurd hsup (not_superseded_of_quiet (hes e he)).1
  · obtain ⟨e, he, hsup⟩ := Option.map_eq_some_iff.mp hlatest
    rcases ties.first_append_cases _ he with hold | hnew
    · exact h.superseded (by rw [hold, Option.map_some, hsup])
    · exact absurd hsup (not_superseded_of_quiet (hes e hnew)).1

theorem LogInvariant.bounded {a : ValidityAssertion} {e : LedgerEntry} {at_ : Instant}
    {granularity : Option DateGranularity} (h : LogInvariant ties as es)
    (hassert : ∀ x ∈ as, x.assertedAt < a.assertedAt) (ha : a.kind = .bound at_ granularity)
    (he : e.disposition = .superseded) (hv : (verdictField e).isSome = true)
    (hes : ∀ e ∈ newEs, ClaimLog.quiet e.disposition = true) :
    LogInvariant ties (as ++ [a]) (es ++ e :: newEs) := by
  have hcons : ∀ x ∈ e :: newEs, x.disposition ≠ .reinstated := by
    intro x hx
    rcases List.mem_cons.mp hx with rfl | hx
    · rw [he]
      decide
    · exact (not_superseded_of_quiet (hes x hx)).2
  refine ⟨?_, ?_, ?_, ?_, fun _ => ⟨a, by simp, at_, granularity, ha⟩⟩
  · exact h.assertions_concat hassert
  · refine h.reopens_concat fun t hk => ?_
    rw [ha] at hk
    cases hk
  · exact h.reinstated_append hcons
  · intro x hx hsup
    rcases List.mem_append.mp hx with hx | hx
    · exact h.verdicts x hx hsup
    · rcases List.mem_cons.mp hx with rfl | hx
      · exact hv
      · exact absurd hsup (not_superseded_of_quiet (hes x hx)).1

theorem LogInvariant.reopened {a : ValidityAssertion} {e : LedgerEntry}
    (h : LogInvariant ties as es)
    (hassert : ∀ x ∈ as, x.assertedAt < a.assertedAt)
    (hentry : ∀ x ∈ es, x.recordedAt < e.recordedAt) (ha : a.kind = .reopen a.assertedAt)
    (he : e.disposition = .reinstated) : LogInvariant ties (as ++ [a]) (es ++ [e]) := by
  refine ⟨?_, ?_, ?_, ?_, fun hlatest => ?_⟩
  · exact h.assertions_concat hassert
  · refine h.reopens_concat fun t hk => ?_
    rw [ha] at hk
    cases hk
    rfl
  · exact List.pairwise_append.mpr ⟨h.reinstated, List.pairwise_singleton _ _,
      fun x hx y hy _ => List.mem_singleton.mp hy ▸ hentry x hx⟩
  · intro x hx hsup
    rcases List.mem_append.mp hx with hx | hx
    · exact h.verdicts x hx hsup
    · rw [List.mem_singleton.mp hx, he] at hsup
      cases hsup
  · rw [ties.first_concat_of_lt _ hentry, Option.map_some, he] at hlatest
    cases hlatest

theorem LogInvariant.step {timely : Instant → Prop} (h : LogInvariant ties as es)
    (heff : Effect timely newAs newEs)
    (htimely : ∀ t, timely t → (∀ a ∈ as, a.assertedAt < t) ∧ ∀ e ∈ es, e.recordedAt < t) :
    LogInvariant ties (as ++ newAs) (es ++ newEs) := by
  cases heff with
  | noted hes => exact (List.append_nil as).symm ▸ h.quiet hes
  | bounded ht ha he hv hes => exact h.bounded (htimely _ ht).1 ha he hv hes
  | reopened ht ha he hstamp =>
    obtain ⟨hassert, hentry⟩ := htimely _ ht
    exact h.reopened hassert (hstamp ▸ hentry) ha he

theorem logInvariant_nil : LogInvariant ties [] [] := by
  refine ⟨.nil, by simp, .nil, by simp, fun h => ?_⟩
  rw [ties.first_nil] at h
  cases h

end Invariant

section Runs

/-- Reached by steps whose assertion writers are stamped after the rows of their
    target. -/
abbrev OrderlyReachable (eng : Engine) : Store → Prop :=
  Reach Store.New (Restrict (Step eng) Orderly)

variable {eng : Engine} {σ σ' : Store} {op : Op}

theorem log_of_step (h : Restrict (Step eng) Orderly σ op σ') (agentId : AgentId)
    (r : ClaimRef) :
    ∃ newAs newEs, Effect (Timely σ agentId r) newAs newEs ∧
      assertionsOf σ' agentId r = assertionsOf σ agentId r ++ newAs ∧
      entriesOf σ' agentId none r = entriesOf σ agentId none r ++ newEs ∧ σ'.ties = σ.ties := by
  obtain ⟨horder, _, rfl⟩ := h
  obtain ⟨w, ho, happ⟩ := apply_outcome eng σ op
  exact ⟨_, _, effect_of_outcome ho horder agentId r, assertionsOf_append happ agentId r,
    entriesOf_newEntries happ agentId r, happ.ties⟩

/-- The log of every claim keeps its invariant along an orderly run. -/
theorem logInvariant_of_orderly (h : OrderlyReachable eng σ) (agentId : AgentId)
    (r : ClaimRef) :
    LogInvariant σ.ties (assertionsOf σ agentId r) (entriesOf σ agentId none r) := by
  refine Reach.invariant
    (P := fun σ => LogInvariant σ.ties (assertionsOf σ agentId r) (entriesOf σ agentId none r)) h
    (fun σ hσ => ?_) fun σ op σ' _ hP hst => ?_
  · obtain ⟨ties, rfl⟩ := hσ
    exact logInvariant_nil
  · obtain ⟨newAs, newEs, heff, has, hes, hties⟩ := log_of_step hst agentId r
    rw [has, hes, hties]
    exact hP.step heff fun t ht => ⟨ht.assertions, ht.entries⟩

end Runs

end Mempill.ClaimLog
