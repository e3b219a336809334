import Mempill.Engine
import Mempill.Queries
import Mempill.Rows

set_option autoImplicit false

/-!
# Fixed history

What a query at one transaction instant reads of the tables, and that rows stamped
later are none of it.
-/
namespace Mempill.FixedHistory
open Mempill.Types Mempill.Persistence Mempill.TruthEngine Mempill.Rows Mempill.IngestClaim
open Mempill.QueryMemory Mempill.Queries Mempill.ActiveBound Mempill.Engine StampedLog

section Line

/-- The two stores hold the same rows of a line up to an instant, in the order in which
    they read them. -/
structure SameLine (σ σ' : Store) (agentId : AgentId) (subject predicate : String)
    (asOf : Instant) : Prop where
  claims : loadSubjectLine σ agentId subject predicate (some asOf) =
    loadSubjectLine σ' agentId subject predicate (some asOf)
  entries : ∀ c ∈ loadSubjectLine σ agentId subject predicate (some asOf),
    inOrder LedgerEntry.recordedAt (σ.ties.arrange (entriesOf σ agentId (some asOf) c.claimRef)) =
      inOrder LedgerEntry.recordedAt
        (σ'.ties.arrange (entriesOf σ' agentId (some asOf) c.claimRef))
  bounds : ∀ c ∈ loadSubjectLine σ agentId subject predicate (some asOf),
    activeBoundAt (assertionsOf σ agentId c.claimRef) asOf =
      activeBoundAt (assertionsOf σ' agentId c.claimRef) asOf

variable {σ σ' : Store} {agentId : AgentId} {subject predicate : String} {asOf : Instant}
variable (config : EngineConfig)

theorem latestOf_congr {cutoff : Option Instant} {r : ClaimRef}
    (h : inOrder LedgerEntry.recordedAt (σ.ties.arrange (entriesOf σ agentId cutoff r)) =
      inOrder LedgerEntry.recordedAt (σ'.ties.arrange (entriesOf σ' agentId cutoff r))) :
    latestOf σ agentId cutoff r = latestOf σ' agentId cutoff r := by
  rw [latestOf, latestOf, ← TieOrder.first_inOrder, h, TieOrder.first_inOrder]

theorem lineClaims_congr (h : SameLine σ σ' agentId subject predicate asOf) :
    lineClaims config σ agentId subject predicate (some asOf) =
      lineClaims config σ' agentId subject predicate (some asOf) := by
  rw [lineClaims, lineClaims, h.claims]

theorem lineRows_congr (h : SameLine σ σ' agentId subject predicate asOf) :
    lineRows config σ agentId subject predicate (some asOf) asOf =
      lineRows config σ' agentId subject predicate (some asOf) asOf := by
  rw [lineRows, lineRows, ← lineClaims_congr config h]
  refine List.map_congr_left fun c hc => ?_
  have hmem := (mem_inOrder _).mp hc
  simp only [rowOf, claimStatus, h.bounds c hmem, latestOf_congr (h.entries c hmem)]

theorem candidateRows_congr (h : SameLine σ σ' agentId subject predicate asOf) :
    candidateRows config σ agentId subject predicate (some asOf) asOf =
      candidateRows config σ' agentId subject predicate (some asOf) asOf := by
  rw [candidateRows, candidateRows, ← lineRows_congr config h]
  refine List.filter_congr fun cs hcs => ?_
  obtain ⟨c, hc, rfl⟩ := mem_lineRows.mp hcs
  simp only [isCandidate, rowOf_claim, deniedOf, h.entries c ((mem_inOrder _).mp hc)]

variable {req : QueryMemoryRequest} {now : Instant}

theorem queryFold_congr
    (h : SameLine σ σ' req.agentId req.subject req.predicate (req.asOfTxTime.getD now)) :
    queryFold config σ req now = queryFold config σ' req now := by
  cases hv : req.validAt with
  | none =>
    rw [queryFold_of_none config σ req hv, queryFold_of_none config σ' req hv,
      lineRows_congr config h]
  | some t =>
    rw [queryFold_of_some hv, queryFold_of_some hv]
    simp only [lineRows_congr config h, candidateRows_congr config h]

/-- A query reads nothing but the rows of its line up to its instant. -/
theorem execute_congr
    (h : SameLine σ σ' req.agentId req.subject req.predicate (req.asOfTxTime.getD now)) :
    QueryMemory.execute config σ req now = QueryMemory.execute config σ' req now := by
  have hentries : ∀ c ∈ (readLine σ req.agentId req.subject req.predicate
      (some (req.asOfTxTime.getD now))).claims,
      (readLine σ req.agentId req.subject req.predicate
          (some (req.asOfTxTime.getD now))).ledger.filter (fun e => e.claimRef == c.claimRef) =
        (readLine σ' req.agentId req.subject req.predicate
          (some (req.asOfTxTime.getD now))).ledger.filter
            (fun e => e.claimRef == c.claimRef) := by
    intro c hc
    have hc' : c ∈ loadSubjectLine σ' req.agentId req.subject req.predicate
        (some (req.asOfTxTime.getD now)) := h.claims ▸ hc
    refine (filter_loadLedgerForClaims (List.mem_map_of_mem hc)).trans ?_
    exact (h.entries c hc).trans (filter_loadLedgerForClaims (List.mem_map_of_mem hc')).symm
  unfold QueryMemory.execute
  simp only [queryFold_congr config h]
  congr 1
  rw [List.flatMap_congr hentries]
  exact congrArg (fun claims => List.flatMap _ claims) h.claims

end Line

section History

/-- The two stores hold the same rows stamped up to an instant, in the order in which
    they read them. -/
structure SameHistory (asOf : Instant) (σ σ' : Store) : Prop where
  claims : inOrder Claim.transactionTime
      (σ.claims.filter fun c => decide (c.transactionTime ≤ asOf)) =
    inOrder Claim.transactionTime (σ'.claims.filter fun c => decide (c.transactionTime ≤ asOf))
  ledger : inOrder LedgerEntry.recordedAt
      (σ.ties.arrange (σ.ledger.filter fun e => decide (e.recordedAt ≤ asOf))) =
    inOrder LedgerEntry.recordedAt
      (σ'.ties.arrange (σ'.ledger.filter fun e => decide (e.recordedAt ≤ asOf)))
  assertions : inOrder ValidityAssertion.assertedAt
      (σ.assertions.filter fun a => decide (a.assertedAt ≤ asOf)) =
    inOrder ValidityAssertion.assertedAt
      (σ'.assertions.filter fun a => decide (a.assertedAt ≤ asOf))

variable {σ σ' : Store} {asOf : Instant}

theorem inOrder_filter_congr {α τ : Type*} [LinearOrder τ] (stamp : α → τ) {log log' : List α}
    {seen p q : α → Bool} (h : inOrder stamp (log.filter seen) = inOrder stamp (log'.filter seen))
    (hp : ∀ a, p a = (q a && seen a)) :
    inOrder stamp (log.filter p) = inOrder stamp (log'.filter p) := by
  have hsplit : ∀ l : List α, inOrder stamp (l.filter p) =
      (inOrder stamp (l.filter seen)).filter q := by
    intro l
    rw [filter_inOrder, List.filter_filter]
    exact congrArg _ (List.filter_congr fun a _ => hp a)
  rw [hsplit, hsplit, h]

theorem activeBoundAt_seen (as : List ValidityAssertion) (asOf : Instant) :
    activeBoundAt as asOf =
      activeBoundAt (inOrder ValidityAssertion.assertedAt
        (as.filter fun a => decide (a.assertedAt ≤ asOf))) asOf := by
  rw [activeBoundAt_inOrder, activeBoundAt_eq, activeBoundAt_eq, lastEffective, lastEffective,
    List.filter_filter]
  congr 2
  refine List.filter_congr fun a _ => ?_
  by_cases h : Effective asOf a
  · simp [h, h.1]
  · simp [h]

theorem sameLine_of_sameHistory (h : SameHistory asOf σ σ') (agentId : AgentId)
    (subject predicate : String) : SameLine σ σ' agentId subject predicate asOf where
  claims := inOrder_filter_congr _ h.claims fun _ => rfl
  entries _ _ := by
    have hledger := h.ledger
    rw [← TieOrder.filter_arrange, ← TieOrder.filter_arrange] at hledger
    rw [entriesOf, entriesOf, ← TieOrder.filter_arrange, ← TieOrder.filter_arrange]
    exact inOrder_filter_congr _ hledger fun _ => rfl
  bounds c _ := by
    rw [activeBoundAt_seen (assertionsOf σ agentId c.claimRef),
      activeBoundAt_seen (assertionsOf σ' agentId c.claimRef), assertionsOf, assertionsOf,
      List.filter_filter, List.filter_filter]
    exact congrArg (activeBoundAt · asOf) (inOrder_filter_congr _ h.assertions
      (q := fun a => a.agentId == agentId && a.targetClaim == c.claimRef)
      fun a => Bool.and_comm _ _)

theorem listPredicates_perm (h : SameHistory asOf σ σ') (agentId : AgentId) (subject : String) :
    (listPredicatesForSubject σ agentId subject (some asOf)).Perm
      (listPredicatesForSubject σ' agentId subject (some asOf)) := by
  have hclaims : ∀ c, c ∈ σ.claims.filter (fun c => c.agentId == agentId &&
        c.fact.subject == subject && withinCutoff (some asOf) c.transactionTime) ↔
      c ∈ σ'.claims.filter (fun c => c.agentId == agentId &&
        c.fact.subject == subject && withinCutoff (some asOf) c.transactionTime) := by
    intro c
    have horder := inOrder_filter_congr _ h.claims
      (p := fun c => c.agentId == agentId && c.fact.subject == subject &&
        withinCutoff (some asOf) c.transactionTime)
      (q := fun c => c.agentId == agentId && c.fact.subject == subject) fun _ => rfl
    rw [← mem_inOrder Claim.transactionTime, horder, mem_inOrder]
  unfold listPredicatesForSubject
  rw [List.perm_ext_iff_of_nodup (List.nodup_dedup _) (List.nodup_dedup _)]
  intro predicate
  simp only [List.mem_dedup, List.mem_map, hclaims]

theorem querySubject_congr (h : SameHistory asOf σ σ') (config : EngineConfig)
    (agentId : AgentId) (subject : String) (validAt : Option Instant) (now : Instant) :
    querySubject config σ ⟨agentId, subject, validAt, some asOf⟩ now =
      querySubject config σ' ⟨agentId, subject, validAt, some asOf⟩ now := by
  have hentry : ∀ predicate, subjectFactEntry predicate (QueryMemory.execute config σ
        ⟨agentId, subject, predicate, some asOf, validAt⟩ now) =
      subjectFactEntry predicate (QueryMemory.execute config σ'
        ⟨agentId, subject, predicate, some asOf, validAt⟩ now) := fun predicate =>
    congrArg _ (execute_congr config (sameLine_of_sameHistory h agentId subject predicate))
  unfold querySubject
  simp only [hentry]
  refine inOrder_eq_of_perm _ ((listPredicates_perm h agentId subject).map _) ?_
  intro a ha b hb hab
  obtain ⟨p, _, rfl⟩ := List.mem_map.mp ha
  obtain ⟨q, _, rfl⟩ := List.mem_map.mp hb
  rw [subjectFactEntry_predicate, subjectFactEntry_predicate] at hab
  rw [hab]

end History

section Main

/-- Rows stamped after an instant change no answer as of that instant. -/
theorem fixed_history_reads (config : EngineConfig) (σ σ' : Store) (asOf : Instant)
    (h : SameHistory asOf σ σ') (agentId : AgentId) (subject : String)
    (validAt : Option Instant) (now : Instant) :
    (∀ predicate,
      QueryMemory.execute config σ ⟨agentId, subject, predicate, some asOf, validAt⟩ now =
        QueryMemory.execute config σ' ⟨agentId, subject, predicate, some asOf, validAt⟩ now) ∧
      querySubject config σ ⟨agentId, subject, validAt, some asOf⟩ now =
        querySubject config σ' ⟨agentId, subject, validAt, some asOf⟩ now :=
  ⟨fun predicate => execute_congr config (sameLine_of_sameHistory h agentId subject predicate),
    querySubject_congr h config agentId subject validAt now⟩

/-- A fact, and the same fact ended by the host at 20. -/
def stored : List Op := [.ingestClaim (remember "Paris" (some (dated 1 none))) 10 ⟨1⟩ (.ok 0)]

def ended : List Op := stored ++ [.assertValidity (assertOn 1 (.bound 20 none)) 20 50]

theorem answers_before_the_end :
    let σ := run (defaultEngine false) Store.sqlite stored
    let τ := run (defaultEngine false) Store.sqlite ended
    let answer (ρ : Store) (asOf : Instant) := QueryMemory.execute EngineConfig.default ρ
      ⟨agent, "user", "location", some asOf, some 22⟩ 30
    answer σ 15 = answer τ 15 ∧ answer σ 25 ≠ answer τ 25 := by
  intro σ τ answer
  refine ⟨?_, by decide⟩
  exact (fixed_history_reads EngineConfig.default σ τ 15 ⟨by decide, by decide, by decide⟩ agent
    "user" (some 22) 30).1 "location"

end Main

end Mempill.FixedHistory
