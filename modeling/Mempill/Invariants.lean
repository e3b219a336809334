import Mempill.Steps

set_option autoImplicit false

/-!
# Invariants of reachable stores

What every run of engine operations keeps, whatever the order of its stamps.
-/
namespace Mempill.Invariants
open Mempill.Types Mempill.Persistence Mempill.Rows Mempill.IngestClaim Mempill.QueryMemory
open Mempill.Engine Mempill.Steps Transition StampedLog

theorem Reachable.invariant_of_outcome {eng : Engine} {P : Store → Prop} {σ : Store}
    (h : Reachable eng σ) (hempty : ∀ ties, P (.empty ties))
    (hstep : ∀ (σ σ' : Store) (op : Op) (w : Written), Reachable eng σ → P σ →
      Supplied σ op → Outcome eng σ op w → Appends σ σ' w → P σ') : P σ := by
  refine Reach.invariant h (fun _ ⟨ties, h⟩ => h ▸ hempty ties) fun σ op σ' hr hP hst => ?_
  obtain ⟨w, ho, happ⟩ := apply_outcome eng σ op
  rw [hst.2]
  exact hstep σ _ op w hr hP hst.1 ho happ

section Fresh

variable {σ : Store} {u : Uuid}

theorem Fresh.claim (h : Fresh u σ) {c : Claim} (hc : c ∈ σ.claims) : c.claimRef.uuid ≠ u := by
  rintro rfl
  apply h
  simp only [uuids, List.mem_append, List.mem_map]
  exact .inl (.inl (.inl (.inl ⟨c, hc, rfl⟩)))

theorem Fresh.assertion (h : Fresh u σ) {a : ValidityAssertion} (ha : a ∈ σ.assertions) :
    a.assertionRef ≠ u ∧ a.targetClaim.uuid ≠ u := by
  have hmem : ∀ v ∈ [a.assertionRef, a.targetClaim.uuid], v ≠ u := by
    rintro v hv rfl
    apply h
    simp only [uuids, List.mem_append, List.mem_flatMap]
    exact .inl (.inl (.inl (.inr ⟨a, ha, hv⟩)))
  exact ⟨hmem _ (by simp), hmem _ (by simp)⟩

theorem Fresh.entry (h : Fresh u σ) {e : LedgerEntry} (he : e ∈ σ.ledger) :
    e.claimRef.uuid ≠ u := by
  rintro rfl
  apply h
  simp only [uuids, List.mem_append, List.mem_map]
  exact .inl (.inl (.inr ⟨e, he, rfl⟩))

theorem Fresh.pending (h : Fresh u σ) {row : PendingAdjudicationRow} (hr : row ∈ σ.pending) :
    row.challengerClaimRef.uuid ≠ u ∧ row.incumbentClaimRef.uuid ≠ u := by
  have hmem : ∀ v ∈ [row.handleId, row.challengerClaimRef.uuid, row.incumbentClaimRef.uuid],
      v ≠ u := by
    rintro v hv rfl
    apply h
    simp only [uuids, List.mem_append, List.mem_flatMap]
    exact .inr ⟨row, hr, hv⟩
  exact ⟨hmem _ (by simp), hmem _ (by simp)⟩

theorem entriesOf_of_fresh {r : ClaimRef} (h : Fresh r.uuid σ) (agentId : AgentId)
    (cutoff : Option Instant) : entriesOf σ agentId cutoff r = [] := by
  rw [entriesOf, List.filter_eq_nil_iff]
  intro e he hp
  simp only [Bool.and_eq_true, beq_iff_eq] at hp
  exact Fresh.entry h he (congrArg ClaimRef.uuid hp.1.2)

theorem assertionsOf_of_fresh {r : ClaimRef} (h : Fresh r.uuid σ) (agentId : AgentId) :
    assertionsOf σ agentId r = [] := by
  rw [assertionsOf, List.filter_eq_nil_iff]
  intro a ha hp
  simp only [Bool.and_eq_true, beq_iff_eq] at hp
  exact (Fresh.assertion h ha).2 (congrArg ClaimRef.uuid hp.2)

end Fresh

section Frame

variable {σ σ' : Store} {w : Written}

theorem entriesOf_append (h : Appends σ σ' w) (agentId : AgentId) (cutoff : Option Instant)
    (r : ClaimRef) :
    entriesOf σ' agentId cutoff r = entriesOf σ agentId cutoff r ++
      w.ledger.filter (fun e =>
        e.agentId == agentId && e.claimRef == r && withinCutoff cutoff e.recordedAt) := by
  rw [entriesOf, h.ledger, List.filter_append, entriesOf]

theorem assertionsOf_append (h : Appends σ σ' w) (agentId : AgentId) (r : ClaimRef) :
    assertionsOf σ' agentId r = assertionsOf σ agentId r ++
      w.assertions.filter (fun a => a.agentId == agentId && a.targetClaim == r) := by
  rw [assertionsOf, h.assertions, List.filter_append, assertionsOf]

theorem mem_assertionsOf {agentId : AgentId} {r : ClaimRef} {a : ValidityAssertion} :
    a ∈ assertionsOf σ agentId r ↔ a ∈ σ.assertions ∧ a.agentId = agentId ∧ a.targetClaim = r := by
  simp [assertionsOf]

end Frame

section Ties

variable {eng : Engine} {σ σ' : Store} {op : Op} {ops : List Op}

theorem ties_of_step (h : Step eng σ op σ') : σ'.ties = σ.ties := by
  obtain ⟨w, _, happ⟩ := apply_outcome eng σ op
  rw [h.2, happ.ties]

theorem ties_of_run (h : Run (Step eng) σ ops σ') : σ'.ties = σ.ties :=
  h.preserves (P := fun τ => τ.ties = σ.ties) rfl fun _ _ _ hP hst => (ties_of_step hst).trans hP

end Ties

section ClaimRefs

/-- A supplied reference is none of the stored ones, whichever store the operation
    planned its rows on. -/
theorem claimRefs_nodup_of_outcome {eng : Engine} {σ seen : Store} {op : Op} {w : Written}
    (hnodup : (σ.claims.map (·.claimRef)).Nodup) (hsup : Supplied σ op)
    (ho : Outcome eng seen op w) : ((σ.claims ++ w.claims).map (·.claimRef)).Nodup := by
  cases ho with
  | @ingested req now claimRef reply hadmitted =>
    rw [List.map_append, List.nodup_append]
    refine ⟨hnodup, by simp, ?_⟩
    intro r hr r' hr' hrr
    obtain ⟨c, hc, rfl⟩ := List.mem_map.mp hr
    rw [List.map_singleton, List.mem_singleton] at hr'
    subst hr'
    exact Fresh.claim hsup hc (congrArg ClaimRef.uuid hrr)
  | _ => simpa using hnodup

theorem claimRefs_nodup {eng : Engine} {σ : Store} (h : Reachable eng σ) :
    (σ.claims.map (·.claimRef)).Nodup := by
  refine Reachable.invariant_of_outcome (P := fun σ => (σ.claims.map (·.claimRef)).Nodup) h
    (fun _ => List.nodup_nil) fun σ σ' op w _ hnodup hsup ho happ => ?_
  rw [happ.claims]
  exact claimRefs_nodup_of_outcome hnodup hsup ho

/-- A reference names one stored claim. -/
theorem eq_of_claimRef {eng : Engine} {σ : Store} (h : Reachable eng σ) {c d : Claim}
    (hc : c ∈ σ.claims) (hd : d ∈ σ.claims) (href : c.claimRef = d.claimRef) : c = d :=
  List.inj_on_of_nodup_map (claimRefs_nodup h) hc hd href

theorem mem_of_loadClaim {σ : Store} {agentId : AgentId} {r : ClaimRef} {c : Claim}
    (h : loadClaim σ agentId r = some c) :
    c ∈ σ.claims ∧ c.agentId = agentId ∧ c.claimRef = r :=
  ⟨List.mem_of_find?_eq_some h, by simpa using List.find?_some h⟩

theorem lineClaims_nodup {eng : Engine} {σ : Store} (h : Reachable eng σ)
    (config : EngineConfig) (agentId : AgentId) (subject predicate : String)
    (cutoff : Option Instant) :
    ((lineClaims config σ agentId subject predicate cutoff).map (·.claimRef)).Nodup := by
  have hperm : (lineClaims config σ agentId subject predicate cutoff).Perm
      (σ.claims.filter fun c =>
        onLine agentId subject predicate c && withinCutoff cutoff c.transactionTime) :=
    (inOrder_perm _ _).trans (inOrder_perm _ _)
  rw [(hperm.map _).nodup_iff]
  exact (claimRefs_nodup h).sublist (List.filter_sublist.map _)

theorem lineRows_nodup {eng : Engine} {σ : Store} (h : Reachable eng σ)
    (config : EngineConfig) (agentId : AgentId) (subject predicate : String)
    (cutoff : Option Instant) (asOf : Instant) :
    ((lineRows config σ agentId subject predicate cutoff asOf).map (·.claim.claimRef)).Nodup := by
  rw [lineRows, List.map_map]
  exact lineClaims_nodup h config agentId subject predicate cutoff

theorem visibleRows_nodup {eng : Engine} {σ : Store} (h : Reachable eng σ)
    (config : EngineConfig) (agentId : AgentId) (subject predicate : String) (now : Instant) :
    ((visibleRows config σ agentId subject predicate now).map (·.claim.claimRef)).Nodup :=
  lineRows_nodup h config agentId subject predicate (some now) now

end ClaimRefs

section Cutoff

variable {σ : Store} {now : Instant}

theorem entriesOf_of_stampsBy (h : StampsBy σ now) (agentId : AgentId) (r : ClaimRef) :
    entriesOf σ agentId (some now) r = entriesOf σ agentId none r := by
  refine List.filter_congr fun e he => ?_
  simp [withinCutoff, h.ledger e he]

theorem deniedOf_of_stampsBy (h : StampsBy σ now) (agentId : AgentId) :
    deniedOf σ agentId (some now) = deniedOf σ agentId none := by
  funext r
  rw [deniedOf, deniedOf, entriesOf_of_stampsBy h]

theorem latestOf_of_stampsBy (h : StampsBy σ now) (agentId : AgentId) :
    latestOf σ agentId (some now) = latestOf σ agentId none := by
  funext r
  rw [latestOf, latestOf, entriesOf_of_stampsBy h]

theorem lineRows_of_stampsBy (h : StampsBy σ now) (config : EngineConfig) (agentId : AgentId)
    (subject predicate : String) (asOf : Instant) :
    lineRows config σ agentId subject predicate (some now) asOf =
      lineRows config σ agentId subject predicate none asOf := by
  have hclaims : lineClaims config σ agentId subject predicate (some now) =
      lineClaims config σ agentId subject predicate none := by
    unfold lineClaims loadSubjectLine
    congr 2
    exact List.filter_congr fun c hc => by simp [withinCutoff, h.claims c hc]
  unfold lineRows
  rw [hclaims]
  refine List.map_congr_left fun c _ => ?_
  rw [rowOf, rowOf, latestOf_of_stampsBy h]

theorem recall_eq_report_of_stampsBy (config : EngineConfig) (agentId : AgentId)
    (subject predicate : String) (hnow : StampsBy σ now) :
    ∃ ledgerEntries, recallNow config σ agentId subject predicate now =
      report config (lineRows config σ agentId subject predicate none now) now ledgerEntries := by
  rw [← lineRows_of_stampsBy hnow]
  exact recall_eq_report config σ agentId subject predicate now

end Cutoff

end Mempill.Invariants
