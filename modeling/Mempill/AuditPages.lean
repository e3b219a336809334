import Mempill.Engine
import Mempill.Lib.Pages
import Mempill.Queries

set_option autoImplicit false

/-!
# Audit pages

When an audit query answers with the first entries, in chronological order, among
those it asks for.
-/
namespace Mempill.AuditPages
open Mempill.Types Mempill.Persistence Mempill.Queries Mempill.Engine StampedLog Pages

section Request

def ofClaim (req : AuditQueryRequest) (e : LedgerEntry) : Bool :=
  req.claimRef.all fun claimRef => e.claimRef == claimRef

/-- The agent's entries from the requested stamp on. -/
def agentEntries (σ : Store) (req : AuditQueryRequest) : List LedgerEntry :=
  σ.ledger.filter fun e =>
    e.agentId == req.agentId && req.fromTxTime.all (fun t => decide (t ≤ e.recordedAt))

/-- Those among them that concern the claim, if one is given. -/
def requestedEntries (σ : Store) (req : AuditQueryRequest) : List LedgerEntry :=
  (agentEntries σ req).filter (ofClaim req)

/-- The agent's entries as the store lists them: by stamp, ties in its own order. -/
def listed (σ : Store) (req : AuditQueryRequest) : List LedgerEntry :=
  inOrder LedgerEntry.recordedAt (σ.ties.arrange (agentEntries σ req))

/-- The agent's first entries, up to the limit, and the ones beyond it. A tie that the
    limit cuts is cut where the store's order of ties has it. -/
def entriesWithin (σ : Store) (req : AuditQueryRequest) : List LedgerEntry :=
  (listed σ req).take req.limit

def entriesBeyond (σ : Store) (req : AuditQueryRequest) : List LedgerEntry :=
  (listed σ req).drop req.limit

/-- The entries of the claim within the limit bear one stamp; and all entries within
    it are of the claim, or none beyond it is. -/
structure PageStands (σ : Store) (req : AuditQueryRequest) : Prop where
  oneStamp : ∀ e ∈ entriesWithin σ req, ∀ e' ∈ entriesWithin σ req,
    ofClaim req e = true → ofClaim req e' = true → e.recordedAt = e'.recordedAt
  complete : (∀ e ∈ entriesWithin σ req, ofClaim req e = true) ∨
    ∀ e ∈ entriesBeyond σ req, ofClaim req e = false

end Request

section Main

theorem listed_perm (σ : Store) (req : AuditQueryRequest) :
    (listed σ req).Perm (agentEntries σ req) :=
  (inOrder_perm _ _).trans (σ.ties.perm _)

theorem queryAudit_eq (σ : Store) (req : AuditQueryRequest) :
    queryAudit σ req = ((entriesWithin σ req).filter (ofClaim req)).reverse := by
  unfold queryAudit entriesWithin listed agentEntries loadLedger ofClaim
  dsimp only
  cases req.claimRef with
  | none =>
    congr 1
    exact (List.filter_eq_self.mpr fun _ _ => rfl).symm
  | some claimRef => rfl

/-- The answer is the first page of the requested entries exactly if its entries bear
    one stamp and the limit cuts none of the claim. -/
theorem audit_is_first_page_iff (σ : Store) (req : AuditQueryRequest) :
    FirstPage LedgerEntry.recordedAt req.limit (requestedEntries σ req) (queryAudit σ req) ↔
      PageStands σ req := by
  have hsorted : (listed σ req).Pairwise fun e e' => e.recordedAt ≤ e'.recordedAt :=
    inOrder_pairwise LedgerEntry.recordedAt _
  have hperm : ((listed σ req).filter (ofClaim req)).Perm (requestedEntries σ req) :=
    (listed_perm σ req).filter _
  have hpage := firstPage_reverse_iff (p := ofClaim req) (n := req.limit) hsorted
  rw [queryAudit_eq]
  constructor
  · intro h
    obtain ⟨hstamps, hcost⟩ := hpage.mp (h.perm hperm.symm)
    exact ⟨fun e he e' he' hof hof' => hstamps e (List.mem_filter.mpr ⟨he, hof⟩) e'
      (List.mem_filter.mpr ⟨he', hof'⟩), hcost⟩
  · intro h
    refine (hpage.mpr ⟨fun e he e' he' => ?_, h.complete⟩).perm hperm
    obtain ⟨hin, hof⟩ := List.mem_filter.mp he
    obtain ⟨hin', hof'⟩ := List.mem_filter.mp he'
    exact h.oneStamp e hin e' hin' hof hof'

/-- Two facts of one line, asked for in full, come newest first; and of the second
    claim alone, with a limit of one, nothing is answered. -/
theorem audit_is_reversed_and_cut :
    let σ := run (defaultEngine false) Store.sqlite rivals
    let all : AuditQueryRequest := ⟨agent, none, none, 100⟩
    let second : AuditQueryRequest := ⟨agent, some ⟨2⟩, none, 1⟩
    Reachable (defaultEngine false) σ ∧
      (queryAudit σ all).map (·.recordedAt) = [20, 10] ∧
      ¬ FirstPage LedgerEntry.recordedAt all.limit (requestedEntries σ all) (queryAudit σ all) ∧
      queryAudit σ second = [] ∧
      ¬ FirstPage LedgerEntry.recordedAt second.limit (requestedEntries σ second)
        (queryAudit σ second) := by
  refine ⟨run_reachable (by decide), by decide, fun h => ?_, by decide, fun h => ?_⟩
  · have hsorted := h.sorted
    revert hsorted
    decide
  · have hlength := h.length
    revert hlength
    decide

end Main

section Walk

def agentLedger (σ : Store) (agentId : AgentId) : List LedgerEntry :=
  σ.ledger.filter fun e => e.agentId == agentId

/-- Page after page of the agent's ledger, each from the largest stamp seen so far,
    until one is short. -/
def walkAllPages (σ : Store) (agentId : AgentId) (pageSize fuel : ℕ) :
    Option (List (List LedgerEntry)) :=
  walk LedgerEntry.recordedAt pageSize
    (fun cursor => queryAudit σ ⟨agentId, none, cursor, pageSize⟩) fuel none

/-- The walk ends, and every entry of the agent, in all its copies, is on some page. -/
def SeesAll (σ : Store) (agentId : AgentId) (pageSize : ℕ) : Prop :=
  ∃ fuel pages, walkAllPages σ agentId pageSize fuel = some pages ∧
    ∀ e ∈ agentLedger σ agentId, ∃ page ∈ pages, page.count e = (agentLedger σ agentId).count e

theorem queryAudit_earliest (σ : Store) (agentId : AgentId) (pageSize : ℕ)
    (cursor : Option Instant) :
    Earliest LedgerEntry.recordedAt pageSize
      (entriesFrom LedgerEntry.recordedAt (agentLedger σ agentId) cursor)
      (queryAudit σ ⟨agentId, none, cursor, pageSize⟩) := by
  let req : AuditQueryRequest := ⟨agentId, none, cursor, pageSize⟩
  have hentries : entriesFrom LedgerEntry.recordedAt (agentLedger σ agentId) cursor =
      agentEntries σ req := by
    rw [entriesFrom, agentLedger, List.filter_filter]
    exact List.filter_congr fun e _ => Bool.and_comm _ _
  have hfirst : FirstPage LedgerEntry.recordedAt pageSize (agentEntries σ req)
      (entriesWithin σ req) :=
    ⟨_, listed_perm σ req, inOrder_pairwise LedgerEntry.recordedAt _, rfl⟩
  have hquery : queryAudit σ req = (entriesWithin σ req).reverse := by
    rw [queryAudit_eq]
    exact congrArg _ (List.filter_eq_self.mpr fun _ _ => rfl)
  rw [hentries]
  change Earliest _ _ _ (queryAudit σ req)
  rw [hquery]
  exact hfirst.earliest.perm (List.reverse_perm _)

/-- The walk sees all exactly if the agent has no stamp on as many entries as fit on a
    page. -/
theorem walk_sees_all_iff (σ : Store) (agentId : AgentId) (pageSize : ℕ) :
    SeesAll σ agentId pageSize ↔
      ∀ t, ((agentLedger σ agentId).filter fun e => decide (e.recordedAt = t)).length <
        pageSize :=
  walkCovers_iff (queryAudit_earliest σ agentId pageSize)

/-- A pass over two rivals, and a bound after it. -/
def reconciledRivals : List Op :=
  rivals ++ [.reconcile ⟨agent, [("user", "location")]⟩ 30,
    .assertValidity (assertOn 2 (.bound 50 none)) 40 90]

/-- The two entries of the pass fill a page of two: the cursor stays, and the bound is
    never reached. -/
theorem walk_stalls_on_one_pass :
    let σ := run (defaultEngine false) Store.sqlite reconciledRivals
    Reachable (defaultEngine false) σ ∧
      (agentLedger σ agent).map (·.recordedAt) = [10, 20, 30, 30, 40] ∧
      (queryAudit σ ⟨agent, none, some 30, 2⟩).map (·.recordedAt) = [30, 30] ∧
      (∀ fuel, walkAllPages σ agent 2 fuel = none) ∧ ¬ SeesAll σ agent 2 := by
  intro σ
  have hstall : ∀ fuel, walkAllPages σ agent 2 fuel = none := fun fuel =>
    walk_eq_none (t := 30) (queryAudit_earliest σ agent 2) (by decide) fuel
      (fun s hs => absurd hs (Option.not_mem_none s))
  refine ⟨run_reachable (by decide), by decide, by decide, hstall, ?_⟩
  rintro ⟨fuel, pages, hwalk, _⟩
  rw [hstall fuel] at hwalk
  cases hwalk

end Walk

end Mempill.AuditPages
