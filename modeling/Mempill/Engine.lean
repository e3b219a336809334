import Mempill.AssertValidity
import Mempill.Lib.Transition
import Mempill.QueryHistory
import Mempill.QueryMemory
import Mempill.Reconcile
import Mempill.SubmitAdjudication

set_option autoImplicit false

/-!
# Engine

The write operations of one engine handle as steps on the store. A request
carries the stamp it took before waiting for the write lock, so the stamps of
successive steps are in any order.
-/
namespace Mempill.Engine
open Mempill.Types Mempill.Persistence Mempill.IngestClaim Mempill.AssertValidity
open Mempill.SubmitAdjudication Mempill.Reconcile Transition StampedLog

inductive Op where
  | ingestClaim (req : IngestClaimRequest) (now : Instant) (claimRef : ClaimRef)
      (oracleReply : Except String Uuid)
  | assertValidity (req : AssertValidityRequest) (now : Instant) (assertionRef : Uuid)
  | submitAdjudication (handleId : Uuid) (response : AdjudicationResponse) (now : Instant)
      (assertionRef : Uuid)
  | reconcile (req : ReconcileRequest) (now : Instant)
  /-- One row of a sweep, listed earlier and reverted under the lock. -/
  | sweepExpired (row : PendingAdjudicationRow) (now : Instant)
  | sweepOrphan (orphan : OrphanedQueuedClaim) (now : Instant)
  /-- An edge that the host persists through the port. -/
  | appendEdge (edge : ClaimEdge)

def apply (eng : Engine) (σ : Store) : Op → Store
  | .ingestClaim req now claimRef oracleReply =>
    (IngestClaim.execute eng σ req now claimRef oracleReply).2
  | .assertValidity req now assertionRef => (AssertValidity.execute σ req now assertionRef).2
  | .submitAdjudication handleId response now assertionRef =>
    (SubmitAdjudication.execute eng.config σ handleId response now assertionRef).2
  | .reconcile req now => (Reconcile.execute eng σ req now).2
  | .sweepExpired row now => (revertExpiredRow σ row now).2
  | .sweepOrphan orphan now => (revertOrphan σ orphan now).2
  | .appendEdge edge => appendClaimEdges σ [edge]

/-- What the surroundings of a step supply: new identifiers, and to the sweep a
    row of the pending table past its expiry. -/
def Supplied (σ : Store) : Op → Prop
  | .ingestClaim _ _ claimRef _ => Fresh claimRef.uuid σ
  | .assertValidity _ _ assertionRef => Fresh assertionRef σ
  | .submitAdjudication _ _ _ assertionRef => Fresh assertionRef σ
  | .sweepExpired row now =>
    (∃ stored ∈ σ.pending, { stored with status := row.status } = row) ∧
      row.expiresAt.any (fun t => decide (t ≤ now)) = true
  | _ => True

instance (σ : Store) (op : Op) : Decidable (Supplied σ op) := by
  cases op <;> unfold Supplied <;> infer_instance

def Step (eng : Engine) (σ : Store) (op : Op) (σ' : Store) : Prop :=
  Supplied σ op ∧ σ' = apply eng σ op

/-- The order of ties is the store's own, and each run meets one. -/
abbrev Reachable (eng : Engine) : Store → Prop := Reach Store.New (Step eng)

section Replay

def run (eng : Engine) (σ : Store) (ops : List Op) : Store := ops.foldl (apply eng) σ

def Runnable (eng : Engine) (σ : Store) : List Op → Prop
  | [] => True
  | op :: ops => Supplied σ op ∧ Runnable eng (apply eng σ op) ops

instance (eng : Engine) (σ : Store) (ops : List Op) : Decidable (Runnable eng σ ops) := by
  induction ops generalizing σ with
  | nil => exact .isTrue trivial
  | cons op ops ih => exact @instDecidableAnd _ _ inferInstance (ih _)

theorem run_run {eng : Engine} {σ : Store} {ops : List Op} (h : Runnable eng σ ops) :
    Run (Step eng) σ ops (run eng σ ops) := by
  induction ops generalizing σ with
  | nil => exact .nil σ
  | cons op ops ih => exact .cons ⟨h.1, rfl⟩ (ih h.2)

theorem run_reachable {eng : Engine} {ops : List Op} {ties : TieOrder LedgerEntry}
    (h : Runnable eng (.empty ties) ops) : Reachable eng (run eng (.empty ties) ops) :=
  (run_run h).reach (.init (Store.new_empty ties))

/-- Every operation of the list is supplied, and meets a condition, in the store it
    meets. -/
def RunnableUnder (C : Store → Op → Prop) (eng : Engine) (σ : Store) : List Op → Prop
  | [] => True
  | op :: ops => (C σ op ∧ Supplied σ op) ∧ RunnableUnder C eng (apply eng σ op) ops

instance (C : Store → Op → Prop) [∀ σ op, Decidable (C σ op)] (eng : Engine) (σ : Store)
    (ops : List Op) : Decidable (RunnableUnder C eng σ ops) := by
  induction ops generalizing σ with
  | nil => exact .isTrue trivial
  | cons op ops ih => exact @instDecidableAnd _ _ inferInstance (ih _)

theorem RunnableUnder.runnable {C : Store → Op → Prop} {eng : Engine} {σ : Store}
    {ops : List Op} (h : RunnableUnder C eng σ ops) : Runnable eng σ ops := by
  induction ops generalizing σ with
  | nil => trivial
  | cons op ops ih => exact ⟨h.1.2, ih h.2⟩

theorem run_reach_under {C : Store → Op → Prop} {eng : Engine} {ops : List Op}
    {ties : TieOrder LedgerEntry} (h : RunnableUnder C eng (.empty ties) ops) :
    Reach Store.New (Restrict (Step eng) C) (run eng (.empty ties) ops) := by
  have hrun : ∀ (ops : List Op) (σ : Store), RunnableUnder C eng σ ops →
      Run (Restrict (Step eng) C) σ ops (run eng σ ops) := by
    intro ops
    induction ops with
    | nil => exact fun σ _ => .nil σ
    | cons op ops ih => exact fun σ h => .cons ⟨h.1.1, h.1.2, rfl⟩ (ih _ h.2)
  exact (hrun ops _ h).reach (.init (Store.new_empty ties))

def defaultEngine (oracle : Bool) : Engine := ⟨EngineConfig.default, oracle, oracle⟩

def agent : AgentId := ⟨"agent-1"⟩

/-- Confidence 1.0. -/
def certain : F32 := .ofScaled (2 ^ 149)

def dated (start : Instant) (stop : Option Instant) : ValidTime :=
  ⟨some start, stop, certain, none, none⟩

/-- A first-hand functional fact on one fixed line. -/
def remember (value : String) (validTime : Option ValidTime) : IngestClaimRequest where
  agentId := agent
  subject := "user"
  predicate := "location"
  value := .str value
  provenance := .external .externalFirstHand
  cardinality := .functional
  validTime := validTime
  confidence := ⟨certain, certain⟩
  criticality := .medium
  derivedFrom := []

/-- Two overlapping facts; with an oracle the second is queued. -/
def rivals : List Op :=
  [.ingestClaim (remember "Paris" (some (dated 1 none))) 10 ⟨1⟩ (.ok 100),
    .ingestClaim (remember "Berlin" (some (dated 5 none))) 20 ⟨2⟩ (.ok 101)]

def assertOn (target : Uuid) (assertion : ValidityAssertionInput) : AssertValidityRequest where
  agentId := agent
  target := ⟨target⟩
  assertion := assertion
  provenance := .external .externalFirstHand
  confidence := ⟨certain, certain⟩

def verdictOn (handleId : Uuid) (verdict : AdjudicationVerdict) (now : Instant)
    (assertionRef : Uuid) : Op :=
  .submitAdjudication handleId ⟨handleId, verdict, .external .externalFirstHand⟩ now assertionRef

end Replay

end Mempill.Engine
