import Mempill.FixedHistory
import Mempill.WrittenClaims

set_option autoImplicit false

/-!
# Answered history

Write requests that take their stamp before they wait for the write lock, and what
a late one can do to an answer about the past.
-/
namespace Mempill.AnsweredHistory
open Mempill.Types Mempill.Persistence Mempill.Rows Mempill.IngestClaim Mempill.AssertValidity
open Mempill.QueryMemory Mempill.Engine Mempill.Steps Mempill.Invariants Mempill.FixedHistory
open Mempill.WrittenClaims Transition

section System

/-- One engine handle: its store, the clock, and the requests that wait for the lock. -/
structure State where
  store : Store
  clock : Instant
  waiting : List Op

inductive Action where
  | tick (now : Instant)
  /-- A request reads the clock and queues up for the lock. -/
  | stamp (op : Op)
  /-- A request gets the lock and runs to its end. -/
  | execute (op : Op)

inductive Moves (eng : Engine) : State → Action → State → Prop where
  | tick {s : State} {now : Instant} (h : s.clock ≤ now) :
      Moves eng s (.tick now) { s with clock := now }
  | stamp {s : State} {op : Op} (h : stampOf op = s.clock) :
      Moves eng s (.stamp op) { s with waiting := s.waiting ++ [op] }
  | execute {s : State} {op : Op} {pre post : List Op} (h : s.waiting = pre ++ op :: post)
      (hsup : Supplied s.store op) :
      Moves eng s (.execute op) ⟨apply eng s.store op, s.clock, pre ++ post⟩

def Started (s : State) : Prop := s.store.New ∧ s.waiting = []

end System

section Condition

/-- The claims that a query can see. -/
def visible (σ : Store) (req : QueryMemoryRequest) (asOf : Instant) : List Claim :=
  loadSubjectLine σ req.agentId req.subject req.predicate (some asOf)

/-- The operation adds a claim to the queried line. -/
def AddsTo (eng : Engine) (σ : Store) (req : QueryMemoryRequest) : Op → Prop
  | .ingestClaim ingest now claimRef _ => ingest.agentId = req.agentId ∧
    ingest.subject = req.subject ∧ ingest.predicate = req.predicate ∧
    Admitted eng.config σ ingest claimRef now
  | _ => False

/-- A request stamped up to the instant that the query asks about reaches its line. -/
def Backdates (eng : Engine) (σ : Store) (req : QueryMemoryRequest) (asOf : Instant)
    (op : Op) : Prop :=
  stampOf op ≤ asOf ∧ (AddsTo eng σ req op ∨
    ∃ c ∈ visible σ req asOf, WritesAbout eng σ req.agentId c.claimRef op)

/-- The requests that run once the query is answered do not backdate it. -/
def Keeps (eng : Engine) (req : QueryMemoryRequest) (asOf : Instant) (s : State) :
    Action → Prop
  | .execute op => ¬ Backdates eng s.store req asOf op
  | _ => True

end Condition

section Step

variable {eng : Engine} {σ σ' : Store} {op : Op} {w : Written} {asOf : Instant}

/-- Rows stamped later, or about other claims, leave the line as the query sees it. -/
theorem sameLine_of_appends {agentId : AgentId} {subject predicate : String}
    (happ : Appends σ σ' w)
    (hclaims : ∀ c ∈ w.claims, onLine agentId subject predicate c = true →
      asOf < c.transactionTime)
    (hledger : ∀ c ∈ loadSubjectLine σ agentId subject predicate (some asOf), ∀ e ∈ w.ledger,
      e.agentId = agentId → e.claimRef = c.claimRef → asOf < e.recordedAt)
    (hassert : ∀ c ∈ loadSubjectLine σ agentId subject predicate (some asOf),
      ∀ a ∈ w.assertions, a.agentId = agentId → a.targetClaim = c.claimRef →
        asOf < a.assertedAt) :
    SameLine σ σ' agentId subject predicate asOf where
  claims := by
    have hnone : w.claims.filter (fun c => onLine agentId subject predicate c &&
        withinCutoff (some asOf) c.transactionTime) = [] := by
      rw [List.filter_eq_nil_iff]
      intro c hc hseen
      simp only [Bool.and_eq_true, withinCutoff, Option.all_some, decide_eq_true_eq] at hseen
      exact absurd hseen.2 (not_le_of_gt (hclaims c hc hseen.1))
    rw [loadSubjectLine, loadSubjectLine, happ.claims, List.filter_append, hnone,
      List.append_nil]
  entries c hc := by
    have hnone : w.ledger.filter (fun e => e.agentId == agentId && e.claimRef == c.claimRef &&
        withinCutoff (some asOf) e.recordedAt) = [] := by
      rw [List.filter_eq_nil_iff]
      intro e he hseen
      simp only [Bool.and_eq_true, beq_iff_eq, withinCutoff, Option.all_some,
        decide_eq_true_eq] at hseen
      exact absurd hseen.2 (not_le_of_gt (hledger c hc e he hseen.1.1 hseen.1.2))
    rw [entriesOf_append happ, hnone, List.append_nil, happ.ties]
  bounds c hc := by
    have hnone : (w.assertions.filter fun a =>
        a.agentId == agentId && a.targetClaim == c.claimRef).filter
          (fun a => decide (a.assertedAt ≤ asOf)) = [] := by
      rw [List.filter_eq_nil_iff]
      intro a ha hseen
      obtain ⟨hmem, htarget⟩ := List.mem_filter.mp ha
      simp only [Bool.and_eq_true, beq_iff_eq] at htarget
      exact absurd (of_decide_eq_true hseen)
        (not_le_of_gt (hassert c hc a hmem htarget.1 htarget.2))
    rw [activeBoundAt_seen, activeBoundAt_seen (assertionsOf σ' agentId c.claimRef),
      assertionsOf_append happ,
      List.filter_append (p := fun a : ValidityAssertion => decide (a.assertedAt ≤ asOf)), hnone,
      List.append_nil]

theorem sameLine_of_step {req : QueryMemoryRequest} (hsup : Supplied σ op)
    (h : ¬ Backdates eng σ req asOf op) :
    SameLine σ (apply eng σ op) req.agentId req.subject req.predicate asOf := by
  obtain ⟨w, ho, happ⟩ := apply_outcome eng σ op
  have hentry : ∀ c ∈ visible σ req asOf, ∀ e ∈ w.ledger, e.agentId = req.agentId →
      e.claimRef = c.claimRef → asOf < e.recordedAt := by
    intro c hc e he hagent href
    obtain ⟨hstamp, habout⟩ := writesAbout_of_entry ho he
    by_contra hle
    refine h ⟨hstamp ▸ not_lt.mp hle, .inr ⟨c, hc, ?_⟩⟩
    rcases habout with ⟨new, hnew, hsame⟩ | habout
    · obtain ⟨ingest, now, claimRef, reply, rfl, rfl, _⟩ := claims_of_outcome ho hnew
      have hfresh : Fresh claimRef.uuid σ := hsup
      exact absurd (congrArg ClaimRef.uuid (href.symm.trans hsame.symm))
        (Fresh.claim hfresh (mem_loadSubjectLine.mp hc).1)
    · rwa [hagent, href] at habout
  refine sameLine_of_appends happ (fun c hc hline => ?_) hentry fun c hc a ha hagent href => ?_
  · obtain ⟨ingest, now, claimRef, reply, rfl, rfl, hadmitted⟩ := claims_of_outcome ho hc
    by_contra hle
    simp only [onLine, stamp, Bool.and_eq_true, beq_iff_eq] at hline
    exact h ⟨not_lt.mp hle, .inl ⟨hline.1.1, hline.1.2, hline.2, hadmitted⟩⟩
  · obtain ⟨e, he, hagent', href', hstamp⟩ := exists_entry_of_assertion ho ha
    rw [← hstamp]
    exact hentry c hc e he (hagent'.trans hagent) (href'.trans href)

theorem answer_of_move {req : QueryMemoryRequest} {now : Instant} {s s' : State} {a : Action}
    (hmove : Moves eng s a s') (hkeeps : Keeps eng req (req.asOfTxTime.getD now) s a) :
    QueryMemory.execute eng.config s'.store req now =
      QueryMemory.execute eng.config s.store req now := by
  cases hmove with
  | tick _ => rfl
  | stamp _ => rfl
  | execute _ hsup => exact (execute_congr eng.config (sameLine_of_step hsup hkeeps)).symm

end Step

section Main

variable {eng : Engine}

/-- Along a run whose requests do not backdate the query, its answer never changes. -/
theorem answered_history_stands {req : QueryMemoryRequest} {asOf : Instant} (now : Instant)
    (hasOf : req.asOfTxTime = some asOf) {s s' : State} {actions : List Action}
    (hrun : Run (Restrict (Moves eng) (Keeps eng req asOf)) s actions s') :
    QueryMemory.execute eng.config s'.store req now =
      QueryMemory.execute eng.config s.store req now := by
  have hinstant : req.asOfTxTime.getD now = asOf := by rw [hasOf, Option.getD_some]
  induction hrun with
  | nil _ => rfl
  | @cons t _ _ a _ hst _ ih =>
    have hkeeps : Keeps eng req (req.asOfTxTime.getD now) t a := by
      rw [hinstant]
      exact hst.1
    rw [ih, answer_of_move hst.2 hkeeps]

def remembered (predicate : String) (now : Instant) (claimRef : Uuid) : Op :=
  .ingestClaim { remember "Paris" none with predicate := predicate } now ⟨claimRef⟩ (.ok 0)

def whereAt (asOf : Instant) : QueryMemoryRequest :=
  ⟨agent, "user", "location", some asOf, none⟩

/-- The clock stands at 20, and two requests stamped at 10 wait for the lock. -/
def answering : State :=
  ⟨Store.sqlite, 20, [remembered "location" 10 1, remembered "employer" 10 2]⟩

theorem answering_reached : Reach Started (Moves (defaultEngine false)) answering :=
  .step (.step (.step (.init (s := ⟨Store.sqlite, 10, []⟩) ⟨Store.new_sqlite, rfl⟩)
    (.stamp (show stampOf (remembered "location" 10 1) = 10 from rfl)))
    (.stamp (show stampOf (remembered "employer" 10 2) = 10 from rfl))) (.tick (by decide))

/-- A request about another line, and one stamped once the query is answered. -/
theorem answer_stands_at_fifteen :
    let later := remembered "location" 20 3
    let s' : State := ⟨run (defaultEngine false) Store.sqlite [remembered "employer" 10 2, later],
      20, [remembered "location" 10 1]⟩
    QueryMemory.execute EngineConfig.default s'.store (whereAt 15) 30 =
      QueryMemory.execute EngineConfig.default answering.store (whereAt 15) 30 := by
  intro later s'
  let employed := apply (defaultEngine false) Store.sqlite (remembered "employer" 10 2)
  have hother : Keeps (defaultEngine false) (whereAt 15) 15 answering
      (.execute (remembered "employer" 10 2)) := by
    rintro ⟨_, hadds | ⟨_, _, habout⟩⟩
    · exact absurd hadds.2.2.1 (by decide)
    · exact habout
  have hlater : Keeps (defaultEngine false) (whereAt 15) 15
      ⟨employed, 20, [remembered "location" 10 1, later]⟩ (.execute later) :=
    fun h => absurd h.1 (by decide)
  have hrun : Run (Restrict (Moves (defaultEngine false))
      (Keeps (defaultEngine false) (whereAt 15) 15)) answering
      [.execute (remembered "employer" 10 2), .stamp later, .execute later] s' :=
    .cons ⟨hother, .execute (show _ = [remembered "location" 10 1] ++ _ :: [] from rfl)
        (by decide)⟩
      (.cons ⟨trivial, .stamp rfl⟩
        (.cons ⟨hlater, .execute (show _ = [remembered "location" 10 1] ++ _ :: [] from rfl)
            (by decide)⟩
          (.nil _)))
  exact answered_history_stands 30 rfl hrun

/-- The fact stamped at 10 gets the lock after the query as of 15 is answered. -/
theorem late_request_rewrites_answer :
    let s' : State := ⟨apply (defaultEngine false) Store.sqlite (remembered "location" 10 1), 20,
      [remembered "employer" 10 2]⟩
    Reach Started (Moves (defaultEngine false)) answering ∧ 15 ≤ answering.clock ∧
      Moves (defaultEngine false) answering (.execute (remembered "location" 10 1)) s' ∧
      (QueryMemory.execute EngineConfig.default answering.store (whereAt 15) 30).status =
        .noBelief ∧
      (QueryMemory.execute EngineConfig.default s'.store (whereAt 15) 30).status =
        .timingUncertain :=
  ⟨answering_reached, by decide, .execute (show _ = [] ++ _ :: _ from rfl) (by decide),
    by decide, by decide⟩

end Main

end Mempill.AnsweredHistory
