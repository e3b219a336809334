import Mempill.AgentView
import Mempill.WritePhases

set_option autoImplicit false

/-!
# Agent plans

A use case plans from the rows of one agent, and its plan writes rows of that agent alone.
-/
namespace Mempill.AgentPlans
open Mempill.Types Mempill.Persistence Mempill.Gate Mempill.IngestClaim Mempill.AssertValidity
open Mempill.SubmitAdjudication Mempill.Reconcile Mempill.Sweep Mempill.Engine
open Mempill.WritePhases Mempill.QueueRows Mempill.AgentView

section Owners

def appendedFor : Append → AgentId
  | .claim c => c.agentId
  | .assertion a => a.agentId
  | .entry e => e.agentId
  | .edge e => e.agentId

/-- The row of a handle, if there is one, is the agent's. -/
def HandleOf (σ : Store) (a : AgentId) (handleId : Uuid) : Prop :=
  ∀ row ∈ σ.pending, row.handleId = handleId → row.agentId = a

/-- An operation for an agent, on rows of that agent. -/
def Owns (σ : Store) (a : AgentId) : Op → Prop
  | .ingestClaim req _ _ _ => req.agentId = a
  | .assertValidity req _ _ => req.agentId = a
  | .submitAdjudication handleId _ _ _ => HandleOf σ a handleId
  | .reconcile req _ => req.agentId = a
  | .sweepExpired row _ => row.agentId = a ∧ HandleOf σ a row.handleId
  | .sweepOrphan orphan _ => orphan.agentId = a
  | .appendEdge edge => edge.agentId = a

def AfterFor (σ : Store) (a : AgentId) : AfterCommit → Prop
  | .nothing => True
  | .queue _ row => ∀ handleId, (row handleId).agentId = a
  | .resolve handleId | .expire handleId | .expireLazily handleId => HandleOf σ a handleId

def PlanFor {α : Type} (σ : Store) (a : AgentId) : Planned α → Prop
  | .answered _ => True
  | .write appends after _ => (∀ x ∈ appends, appendedFor x = a) ∧ AfterFor σ a after

end Owners

section Plans

variable {eng : Engine} {config : EngineConfig} {σ : Store} {a : AgentId} {now : Instant}

theorem getPending_view {handleId : Uuid} (h : HandleOf σ a handleId) :
    getPending (view a σ) handleId = getPending σ handleId :=
  find?_own a PendingAdjudicationRow.agentId fun row hrow hp => h row hrow (beq_iff_eq.mp hp)

theorem agentId_of_getPending {handleId : Uuid} {row : PendingAdjudicationRow}
    (h : HandleOf σ a handleId) (hrow : getPending σ handleId = some row) : row.agentId = a :=
  h row (handleId_of_getPending hrow).1 (handleId_of_getPending hrow).2

theorem planIngest_view {req : IngestClaimRequest} (h : req.agentId = a) (claimRef : ClaimRef)
    (oracleReply : Except String Uuid) :
    planIngest eng (view a σ) req now claimRef oracleReply =
      planIngest eng σ req now claimRef oracleReply := by
  have hincumbent : incumbentFor eng.config (view a σ) req.agentId req.subject req.predicate now =
      incumbentFor eng.config σ req.agentId req.subject req.predicate now := by
    subst h
    exact incumbentFor_view _ σ _ _ _ now
  simp only [planIngest, planAdmitted, injected_view h, gateDecision_view h, hincumbent]

theorem planAssert_view {req : AssertValidityRequest} (h : req.agentId = a) (assertionRef : Uuid) :
    planAssert (view a σ) req now assertionRef = planAssert σ req now assertionRef := by
  subst h
  simp only [planAssert, planBound, loadClaim_view, loadValidityAssertionsFor_view,
    underAdjudication_view]

theorem planSubmit_view {handleId : Uuid} (h : HandleOf σ a handleId)
    (response : AdjudicationResponse) (assertionRef : Uuid) :
    planSubmit config (view a σ) handleId response now assertionRef =
      planSubmit config σ handleId response now assertionRef := by
  unfold planSubmit
  rw [getPending_view h]
  cases hrow : getPending σ handleId with
  | none => rfl
  | some row =>
    have hagent := agentId_of_getPending h hrow
    subst hagent
    simp only [currentDisposition_view, loadClaim_view, loadEdgesFor_view]

theorem planReconcile_view {req : ReconcileRequest} (h : req.agentId = a) :
    planReconcile eng (view a σ) req now = planReconcile eng σ req now := by
  subst h
  have hdecisions : decisions eng (view req.agentId σ) req now = decisions eng σ req now := by
    unfold decisions decideLine
    simp only [loadSubjectLine_view, loadLedgerForClaims_view, loadValidityAssertionsFor_view]
  simp only [planReconcile, hdecisions]

/-- The read phase of an operation reads rows of its agent. -/
theorem planOf_view {op : Op} (h : Owns σ a op) : planOf eng (view a σ) op = planOf eng σ op := by
  cases op with
  | ingestClaim req now claimRef oracleReply =>
    simp only [planOf, planIngest_view (show req.agentId = a from h)]
  | assertValidity req now assertionRef =>
    simp only [planOf, planAssert_view (show req.agentId = a from h)]
  | submitAdjudication handleId response now assertionRef =>
    simp only [planOf, planSubmit_view (show HandleOf σ a handleId from h)]
  | reconcile req now => simp only [planOf, planReconcile_view (show req.agentId = a from h)]
  | sweepExpired row now =>
    obtain ⟨rfl, _⟩ := h
    simp only [planOf, planExpiredRow, currentDisposition_view]
  | sweepOrphan orphan now =>
    have hagent : orphan.agentId = a := h
    subst hagent
    simp only [planOf, planOrphan, currentDisposition_view]
  | appendEdge edge => rfl

theorem planIngest_for {req : IngestClaimRequest} (h : req.agentId = a) (claimRef : ClaimRef)
    (oracleReply : Except String Uuid) :
    PlanFor σ a (planIngest eng σ req now claimRef oracleReply) := by
  have hadmitted : PlanFor σ a
      (planAdmitted eng σ req (stamp req claimRef now) now oracleReply) := by
    refine ⟨?_, ?_⟩
    · intro x hx
      simp only [ingestAppends, List.mem_append, List.mem_cons, List.not_mem_nil, or_false,
        List.mem_map, lineageEdges] at hx
      obtain (rfl | rfl) | ⟨e, ⟨parent, _, rfl⟩, rfl⟩ := hx <;> exact h
    · show AfterFor σ a (if _ then _ else _)
      split_ifs
      · cases incumbentFor eng.config σ req.agentId req.subject req.predicate now with
        | none => trivial
        | some incumbent => exact fun _ => h
      · trivial
  unfold planIngest
  dsimp only
  split
  · trivial
  · trivial
  · exact hadmitted
  · exact hadmitted

theorem planAssert_for {req : AssertValidityRequest} (h : req.agentId = a) (assertionRef : Uuid) :
    PlanFor σ a (planAssert σ req now assertionRef) := by
  have htwo : ∀ (assertion : ValidityAssertion) (entry : LedgerEntry)
      (result : Except MemError AssertValidityResponse), assertion.agentId = a →
      entry.agentId = a →
      PlanFor σ a (.write [.assertion assertion, .entry entry] .nothing result) := by
    intro assertion entry result hassertion hentry
    refine ⟨fun x hx => ?_, trivial⟩
    simp only [List.mem_cons, List.not_mem_nil, or_false] at hx
    rcases hx with rfl | rfl
    · exact hassertion
    · exact hentry
  unfold planAssert
  split_ifs
  · trivial
  · split
    · trivial
    · dsimp only
      split
      · unfold planBound
        split_ifs
        · trivial
        · trivial
        · split
          · split_ifs <;> trivial
          · split
            · trivial
            · exact htwo _ _ _ h h
      · unfold planReopen
        split
        · trivial
        · exact htwo _ _ _ h h

theorem verdictAppends_for {verdict : AdjudicationVerdict} {provenance : ProvenanceLabel}
    {challenger incumbent : ClaimRef} {boundAt : Instant}
    {boundAtGranularity : Option DateGranularity} {incumbentEdges challengerEdges : List ClaimEdge}
    {assertionRef : Uuid} : ∀ x ∈ verdictAppends verdict provenance a challenger incumbent now
      boundAt boundAtGranularity incumbentEdges challengerEdges assertionRef,
        appendedFor x = a := by
  have hbound : ∀ (target overturning : ClaimRef) (at_ : Instant)
      (granularity : Option DateGranularity) (edges : List ClaimEdge) (text : String),
      ∀ x ∈ boundAppends a target overturning at_ granularity now edges text assertionRef,
        appendedFor x = a := by
    intro target overturning at_ granularity edges text x hx
    simp only [boundAppends, List.mem_append, List.mem_cons, List.not_mem_nil, or_false,
      List.mem_map, cascadeEntries] at hx
    obtain (rfl | rfl) | ⟨e, he, rfl⟩ := hx
    · rfl
    · rfl
    · obtain ⟨edge, _, rfl⟩ := he
      rfl
  intro x hx
  cases verdict with
  | affirm =>
    rcases List.mem_append.mp hx with hx | hx
    · exact hbound _ _ _ _ _ _ x hx
    · rw [List.mem_singleton.mp hx]
      rfl
  | deny => exact hbound _ _ _ _ _ _ x hx
  | unknown =>
    simp only [verdictAppends, List.mem_cons, List.not_mem_nil, or_false] at hx
    rcases hx with rfl | rfl <;> rfl

theorem planSubmit_for {handleId : Uuid} (h : HandleOf σ a handleId)
    (response : AdjudicationResponse) (assertionRef : Uuid) :
    PlanFor σ a (planSubmit config σ handleId response now assertionRef) := by
  unfold planSubmit
  cases hrow : getPending σ handleId with
  | none => trivial
  | some row =>
    have hagent := agentId_of_getPending h hrow
    have hhandle := (handleId_of_getPending hrow).2
    dsimp only
    split
    · split_ifs
      · refine ⟨fun x hx => ?_, ?_⟩
        · rw [List.mem_singleton.mp hx]
          exact hagent
        · rw [hhandle]
          exact h
      · trivial
    · split_ifs
      · trivial
      · split
        · trivial
        · refine ⟨?_, h⟩
          rw [hagent]
          exact verdictAppends_for

/-- A plan writes rows of its agent. -/
theorem planOf_for {op : Op} (h : Owns σ a op) : PlanFor σ a (planOf eng σ op) := by
  have hmap : ∀ {α β : Type} (f : α → β) {p : Planned α}, PlanFor σ a p →
      PlanFor σ a (p.map f) := by
    intro α β f p hp
    cases p with
    | answered result => trivial
    | write appends after result => exact hp
  have hone : ∀ {α : Type} (entry : LedgerEntry) (after : AfterCommit) (result : Except MemError α),
      entry.agentId = a → AfterFor σ a after →
        PlanFor σ a (.write [.entry entry] after result) := by
    intro α entry after result hentry hafter
    refine ⟨fun x hx => ?_, hafter⟩
    rw [List.mem_singleton.mp hx]
    exact hentry
  cases op with
  | ingestClaim req now claimRef oracleReply => exact hmap _ (planIngest_for h _ _)
  | assertValidity req now assertionRef => exact hmap _ (planAssert_for h _)
  | submitAdjudication handleId response now assertionRef => exact hmap _ (planSubmit_for h _ _)
  | reconcile req now =>
    refine hmap _ ?_
    unfold planReconcile
    split_ifs
    · trivial
    · refine ⟨fun x hx => ?_, trivial⟩
      obtain ⟨_, he, rfl⟩ := List.mem_map.mp hx
      obtain ⟨d, _, rfl⟩ := List.mem_map.mp he
      exact h
  | sweepExpired row now =>
    refine hmap _ ?_
    unfold planExpiredRow
    split_ifs
    · trivial
    · exact hone _ _ _ h.1 h.2
  | sweepOrphan orphan now =>
    refine hmap _ ?_
    unfold planOrphan
    split_ifs
    · trivial
    · exact hone _ _ _ h trivial
  | appendEdge edge =>
    refine ⟨fun x hx => ?_, trivial⟩
    rw [List.mem_singleton.mp hx]
    exact h

end Plans

section Effects

variable {σ τ : Store} {a b : AgentId} {appends : List Append} {faults : Faults} {α : Type}
  {result : Except MemError α} {after : AfterCommit}

/-- Up to their status the pending rows stay. -/
def RowsKept (σ τ : Store) : Prop :=
  ∀ row ∈ σ.pending, ∃ stored ∈ τ.pending, { stored with status := row.status } = row

theorem RowsKept.refl (σ : Store) : RowsKept σ σ := fun row hrow => ⟨row, hrow, rfl⟩

theorem RowsKept.trans {υ : Store} (h : RowsKept σ τ) (h' : RowsKept τ υ) : RowsKept σ υ := by
  intro row hrow
  obtain ⟨stored, hstored, hsame⟩ := h row hrow
  obtain ⟨later, hlater, hlast⟩ := h' stored hstored
  refine ⟨later, hlater, ?_⟩
  rw [← hsame, ← hlast]

def DistinctHandles (σ : Store) : Prop := (σ.pending.map (·.handleId)).Nodup

theorem DistinctHandles.congr (h : DistinctHandles σ) (hpending : σ.pending = τ.pending) :
    DistinctHandles τ := by
  rw [DistinctHandles, ← hpending]
  exact h

theorem AfterFor.congr (h : AfterFor σ a after) (hpending : σ.pending = τ.pending) :
    AfterFor τ a after := by
  cases after with
  | nothing | queue _ _ => exact h
  | resolve handleId | expire handleId | expireLazily handleId =>
    exact fun row hrow => h row (hpending ▸ hrow)

theorem view_withPending (h : view a σ = view a τ) (pending : List PendingAdjudicationRow) :
    view a { σ with pending := pending } = view a { τ with pending := pending } := by
  simp only [view, Store.mk.injEq] at h ⊢
  exact ⟨h.1, h.2.1, h.2.2.1, h.2.2.2.1, trivial, h.2.2.2.2.2⟩

theorem writeAll_cons (σ : Store) (x : Append) (appends : List Append) :
    writeAll σ (x :: appends) = writeAll (x.write σ) appends := rfl

theorem writeAll_view (h : ∀ x ∈ appends, appendedFor x = a) :
    writeAll (view a σ) appends = view a (writeAll σ appends) := by
  induction appends generalizing σ with
  | nil => rfl
  | cons x appends ih =>
    have hx : x.write (view a σ) = view a (x.write σ) := by
      have hown := h x (.head _)
      cases x with
      | claim c => exact appendClaim_view hown
      | assertion v => exact appendValidityAssertion_view hown
      | entry e => exact appendLedgerEntry_view hown
      | edge e =>
        exact appendClaimEdges_view fun e' he' => by rw [List.mem_singleton.mp he']; exact hown
    rw [writeAll_cons, writeAll_cons, hx]
    exact ih fun y hy => h y (.tail _ hy)

theorem writeAll_foreign (hab : b ≠ a) (h : ∀ x ∈ appends, appendedFor x = a) :
    view b (writeAll σ appends) = view b σ := by
  induction appends generalizing σ with
  | nil => rfl
  | cons x appends ih =>
    have hx : view b (x.write σ) = view b σ := by
      have hother : ¬ appendedFor x = b := fun hb => hab (hb.symm.trans (h x (.head _)))
      cases x <;>
        simpa [appendedFor, Append.write, appendClaim, appendValidityAssertion, appendLedgerEntry,
          appendLedgerEntries, appendClaimEdges, view] using hother
    rw [writeAll_cons, ih fun y hy => h y (.tail _ hy), hx]

theorem writeAll_pending : (writeAll σ appends).pending = σ.pending := by
  induction appends generalizing σ with
  | nil => rfl
  | cons x appends ih =>
    rw [writeAll_cons, ih]
    cases x <;> rfl

theorem insertPending_congr (h : σ.pending = τ.pending) (row : PendingAdjudicationRow) :
    insertPending σ row =
      (insertPending τ row).map fun queued => { σ with pending := queued.pending } := by
  have hget : getPending σ row.handleId = getPending τ row.handleId := by
    rw [getPending, getPending, h]
  unfold insertPending
  rw [hget, h]
  split_ifs <;> rfl

/-- What follows the commit reads and writes the pending table alone. -/
theorem finish_congr (h : σ.pending = τ.pending) :
    (Planned.finish faults σ result after).1 = (Planned.finish faults τ result after).1 ∧
      (Planned.finish faults σ result after).2 =
        { σ with pending := (Planned.finish faults τ result after).2.pending } := by
  have hsame : σ = { σ with pending := τ.pending } := by rw [← h]
  cases after with
  | nothing => exact ⟨rfl, hsame⟩
  | queue reply row =>
    cases reply with
    | error reason => exact ⟨rfl, hsame⟩
    | ok handleId =>
      simp only [Planned.finish, insertPending_congr h (row handleId)]
      split_ifs
      · exact ⟨rfl, hsame⟩
      · cases insertPending τ (row handleId) with
        | none => exact ⟨rfl, hsame⟩
        | some queued => exact ⟨rfl, rfl⟩
  | resolve handleId | expire handleId | expireLazily handleId =>
    unfold Planned.finish
    by_cases hfault : faults.markPending = true
    · simp only [hfault, if_true, true_and]
      exact hsame
    · simp [hfault, markResolved, markExpired, setPendingStatus, h]

theorem finish_pending_cases (P : List PendingAdjudicationRow → Prop) (hsame : P σ.pending)
    (hmark : ∀ handleId status,
      (after = .resolve handleId ∨ after = .expire handleId ∨ after = .expireLazily handleId) →
        P (σ.pending.map (withStatus handleId status)))
    (hinsert : ∀ reply row handleId, after = .queue reply row →
      getPending σ (row handleId).handleId = none → P (σ.pending ++ [row handleId])) :
    P (Planned.finish faults σ result after).2.pending := by
  cases after with
  | nothing => exact hsame
  | queue reply row =>
    cases reply with
    | error reason => exact hsame
    | ok handleId =>
      simp only [Planned.finish, insertPending]
      split_ifs with _ hfree
      · exact hsame
      · exact hsame
      · exact hinsert _ _ handleId rfl (by simpa using hfree)
  | resolve handleId =>
    simp only [Planned.finish]
    split_ifs
    · exact hsame
    · exact hmark handleId .resolved (.inl rfl)
  | expire handleId =>
    simp only [Planned.finish]
    split_ifs
    · exact hsame
    · exact hmark handleId .expired (.inr (.inl rfl))
  | expireLazily handleId =>
    simp only [Planned.finish]
    split_ifs
    · exact hsame
    · exact hmark handleId .expired (.inr (.inr rfl))

theorem finish_keeps : RowsKept σ (Planned.finish faults σ result after).2 := by
  refine finish_pending_cases
    (fun rows => ∀ row ∈ σ.pending, ∃ stored ∈ rows, { stored with status := row.status } = row)
    (fun row hrow => ⟨row, hrow, rfl⟩) (fun handleId status _ row hrow => ?_)
    fun reply row handleId _ _ kept hkept => ⟨kept, List.mem_append_left _ hkept, rfl⟩
  refine ⟨withStatus handleId status row, List.mem_map_of_mem hrow, ?_⟩
  unfold withStatus
  split <;> rfl

theorem finish_distinct (h : DistinctHandles σ) :
    DistinctHandles (Planned.finish faults σ result after).2 := by
  refine finish_pending_cases
    (fun rows => (rows.map fun row : PendingAdjudicationRow => row.handleId).Nodup) h
    (fun handleId status _ => ?_) fun reply row handleId _ hfree => ?_
  · have hkeys : (σ.pending.map (withStatus handleId status)).map (·.handleId) =
        σ.pending.map (·.handleId) := by
      rw [List.map_map]
      exact List.map_congr_left fun row _ => withStatus_handleId handleId status row
    rw [hkeys]
    exact h
  · rw [List.map_append, List.map_singleton, ← List.concat_eq_append]
    refine List.Nodup.concat (fun hmem => ?_) h
    obtain ⟨stored, hstored, hkey⟩ := List.mem_map.mp hmem
    exact List.find?_eq_none.mp hfree stored hstored (beq_iff_eq.mpr hkey)

theorem finish_foreign (hab : b ≠ a) (hafter : AfterFor σ a after) :
    view b (Planned.finish faults σ result after).2 = view b σ := by
  have hstore := (@finish_congr σ σ faults α result after rfl).2
  have hpending : (Planned.finish faults σ result after).2.pending.filter (·.agentId == b) =
      σ.pending.filter (·.agentId == b) := by
    refine finish_pending_cases
      (fun rows => rows.filter (·.agentId == b) = σ.pending.filter (·.agentId == b)) rfl
      (fun handleId status hmark => ?_) fun reply row handleId hqueue _ => ?_
    · have hof : HandleOf σ a handleId := by
        rcases hmark with rfl | rfl | rfl <;> exact hafter
      rw [List.filter_map]
      have hrows : ∀ row ∈ σ.pending.filter ((fun row => row.agentId == b) ∘
          withStatus handleId status), withStatus handleId status row = row := by
        intro row hrow
        obtain ⟨hmem, hagent⟩ := List.mem_filter.mp hrow
        simp only [Function.comp_apply, withStatus_agentId, beq_iff_eq] at hagent
        have hne : ¬ row.handleId = handleId := fun heq =>
          hab (hagent.symm.trans (hof row hmem heq))
        simp [withStatus, hne]
      rw [List.map_congr_left hrows, List.map_id']
      exact List.filter_congr fun row _ => by simp
    · subst hqueue
      have hother : ¬ (row handleId).agentId = b := fun hb => hab (hb.symm.trans (hafter handleId))
      simp [hother]
  rw [hstore]
  simp only [view, hpending]

end Effects

end Mempill.AgentPlans
