import Mempill.Steps
import Mempill.WritePhases

set_option autoImplicit false

/-!
# Planned writes

The rows that the plan of an operation appends, whichever store its read phase saw.
-/
namespace Mempill.PlannedWrites
open Mempill.Types Mempill.Persistence Mempill.IngestClaim Mempill.Engine Mempill.Steps
open Mempill.WritePhases

section Appended

def appendedClaims (appends : List Append) : List Claim :=
  appends.filterMap fun | .claim c => some c | _ => none

def appendedAssertions (appends : List Append) : List ValidityAssertion :=
  appends.filterMap fun | .assertion a => some a | _ => none

def appendedEntries (appends : List Append) : List LedgerEntry :=
  appends.filterMap fun | .entry e => some e | _ => none

def appendedEdges (appends : List Append) : List ClaimEdge :=
  appends.filterMap fun | .edge e => some e | _ => none

def rowsOf (appends : List Append) : Written :=
  ⟨appendedClaims appends, appendedAssertions appends, appendedEntries appends,
    appendedEdges appends⟩

/-- What the transaction of a plan appends, and the step after its commit. -/
def appendsOf {α : Type} : Planned α → List Append
  | .answered _ => []
  | .write appends _ _ => appends

def afterOf {α : Type} : Planned α → AfterCommit
  | .answered _ => .nothing
  | .write _ after _ => after

end Appended

section Rows

variable {σ : Store}

theorem writeAll_appends (σ : Store) (appends : List Append) :
    Appends σ (writeAll σ appends) (rowsOf appends) := by
  induction appends generalizing σ with
  | nil => exact Appends.nothing σ
  | cons a appends ih =>
    have hrest := ih (a.write σ)
    refine ⟨hrest.claims.trans ?_, hrest.assertions.trans ?_, hrest.ledger.trans ?_,
      hrest.edges.trans ?_, hrest.ties.trans ?_⟩ <;> cases a <;>
      simp [Append.write, appendClaim, appendValidityAssertion, appendLedgerEntry,
        appendLedgerEntries, appendClaimEdges, rowsOf, appendedClaims, appendedAssertions,
        appendedEntries, appendedEdges]

theorem writeAll_pending (σ : Store) (appends : List Append) :
    (writeAll σ appends).pending = σ.pending := by
  induction appends generalizing σ with
  | nil => rfl
  | cons a appends ih =>
    refine (ih (a.write σ)).trans ?_
    cases a <;> rfl

theorem run_appends {α : Type} (σ : Store) (p : Planned α) :
    Appends σ (p.run .none σ).2 (rowsOf (appendsOf p)) := by
  cases p with
  | answered result => exact Appends.nothing σ
  | write appends after result =>
    have hwritten := writeAll_appends σ appends
    have hrest : ∀ result : Except MemError α,
        (Planned.finish .none (writeAll σ appends) result after).2 =
          { writeAll σ appends with
            pending := (Planned.finish .none (writeAll σ appends) result after).2.pending } := by
      intro result
      cases after with
      | queue reply row =>
        cases reply with
        | error _ => rfl
        | ok handleId =>
          simp only [Planned.finish, Faults.none]
          unfold insertPending
          split_ifs <;> rfl
      | _ => rfl
    rw [run_none_write, hrest]
    exact ⟨hwritten.claims, hwritten.assertions, hwritten.ledger, hwritten.edges, hwritten.ties⟩

/-- The plan made on a store appends what its outcome on that store tells, also where it
    is carried out on another. -/
theorem plan_outcome (eng : Engine) (seen : Store) (op : Op) :
    Outcome eng seen op (rowsOf (appendsOf (planOf eng seen op))) := by
  obtain ⟨w, houtcome, happends⟩ := apply_outcome eng seen op
  have hplan := run_appends seen (planOf eng seen op)
  rw [planOf_run] at hplan
  have hw : w = rowsOf (appendsOf (planOf eng seen op)) := by
    have hclaims := List.append_cancel_left (happends.claims.symm.trans hplan.claims)
    have hassertions :=
      List.append_cancel_left (happends.assertions.symm.trans hplan.assertions)
    have hledger := List.append_cancel_left (happends.ledger.symm.trans hplan.ledger)
    have hedges := List.append_cancel_left (happends.edges.symm.trans hplan.edges)
    cases w
    simp only [rowsOf] at hclaims hassertions hledger hedges ⊢
    rw [hclaims, hassertions, hledger, hedges]
  exact hw ▸ houtcome

end Rows

end Mempill.PlannedWrites
