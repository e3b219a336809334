import Mempill.RowEffects

set_option autoImplicit false

/-!
# The cheap path

When a write answered as committed cheaply leaves its line uncontested.
-/
namespace Mempill.CheapPath
open Mempill.Types Mempill.Persistence Mempill.TruthEngine Mempill.ValidTimeHelpers Mempill.Rows
open Mempill.IngestClaim Mempill.QueryMemory Mempill.Engine Mempill.Steps Mempill.Invariants
open Mempill.RowEffects

section Report

variable {config : EngineConfig} {rows : List ClaimWithStatus} {now : Instant}
variable {ledgerEntries : List LedgerEntry}

theorem report_contested_iff :
    (report config rows now ledgerEntries).status = .contested ↔
      (foldStatuses rows now config).liveClaims ≠ [] ∧
        (anyContested (foldStatuses rows now config).liveClaims = true ∨
          structuralConflict (foldStatuses rows now config).liveClaims = true) := by
  unfold report
  match hl : (foldStatuses rows now config).liveClaims with
  | [] => simp [(project_of_nil _ _ _ _ hl).1]
  | [cs] =>
    have hc : (foldStatuses rows now config).hasConflict = false := by
      rw [foldStatuses_hasConflict, hl]
      exact structuralConflict_of_length_le (by simp)
    rw [(project_of_singleton _ _ _ _ hl hc).1, structuralConflict_of_length_le (by simp)]
    cases anyContested [cs] <;> simp
    split <;> simp
  | x :: y :: rest =>
    have hmany : 1 < (foldStatuses rows now config).liveClaims.length := by simp [hl]
    rw [(project_of_many ledgerEntries now config (anyContested (x :: y :: rest)) hmany).1,
      foldStatuses_hasConflict, hl]
    cases anyContested (x :: y :: rest) <;>
      cases structuralConflict (x :: y :: rest) <;> simp

theorem anyContested_iff (live : List ClaimWithStatus) :
    anyContested live = true ↔ ∃ cs ∈ live, cs.lastDisposition = some .contested := by
  simp [anyContested]

theorem report_contested_of_selected (hnodup : (rows.map (·.claim.claimRef)).Nodup)
    {cs : ClaimWithStatus} (hcs : cs ∈ liveRows rows)
    (hd : cs.lastDisposition = some .contested) (hmem : (window cs.claim.validTime).Mem now) :
    (report config rows now ledgerEntries).status = .contested := by
  have hin : cs ∈ (foldStatuses rows now config).liveClaims := by
    by_cases hc : Chain config rows
    · rw [foldStatuses_of_chain hnodup hc, List.mem_filter]
      exact ⟨hcs, decide_eq_true hmem⟩
    · rw [foldStatuses_of_not_chain hc]
      exact hcs
  exact report_contested_iff.mpr
    ⟨List.ne_nil_of_mem hin, .inl ((anyContested_iff _).mpr ⟨cs, hin, hd⟩)⟩

end Report

section Adding

variable {config : EngineConfig} {rows rows' : List ClaimWithStatus} {new : ClaimWithStatus}
variable {now : Instant} {ledgerEntries ledgerEntries' : List LedgerEntry}

theorem liveRows_perm_cons (hperm : rows'.Perm (new :: rows)) (hlive : new.isLive = true) :
    (liveRows rows').Perm (new :: liveRows rows) := by
  have h := hperm.filter (·.isLive)
  rwa [List.filter_cons_of_pos hlive] at h

/-- A new live row added to uncontested rows: its line stays uncontested exactly
    when nothing else is live, or all live rows are a trusted succession, or all
    are set-valued and none was left contested. -/
theorem report_uncontested_add_iff (hnodup : (rows.map (·.claim.claimRef)).Nodup)
    (hnodup' : (rows'.map (·.claim.claimRef)).Nodup)
    (hperm : rows'.Perm (new :: rows)) (hlive : new.isLive = true)
    (hnew : new.lastDisposition ≠ some .contested)
    (hbefore : (report config rows now ledgerEntries).status ≠ .contested) :
    (report config rows' now ledgerEntries').status ≠ .contested ↔
      liveRows rows = [] ∨
        isTrustedSuccession (new.claim :: (liveRows rows).map (·.claim))
          config.validTimeConfidenceThreshold = true ∨
        ∀ cs ∈ new :: liveRows rows,
          cs.claim.cardinality = .setValued ∧ cs.lastDisposition ≠ some .contested := by
  have hlp := liveRows_perm_cons hperm hlive
  have hsucc : isTrustedSuccession ((liveRows rows').map (·.claim))
      config.validTimeConfidenceThreshold =
        isTrustedSuccession (new.claim :: (liveRows rows).map (·.claim))
          config.validTimeConfidenceThreshold :=
    isTrustedSuccession_perm (hlp.map (·.claim)) _
  have hlen : (liveRows rows').length = (liveRows rows).length + 1 := by
    rw [hlp.length_eq, List.length_cons]
  by_cases hnil : liveRows rows = []
  · refine iff_of_true (fun hcontested => ?_) (.inl hnil)
    rw [hnil] at hlp
    have hsingle := List.perm_singleton.mp hlp
    have hnc : ¬ Chain config rows' := fun hc => by simpa [hsingle] using hc.1
    rw [report_contested_iff, foldStatuses_of_not_chain hnc, hsingle,
      structuralConflict_of_length_le (by simp)] at hcontested
    obtain ⟨_, h | h⟩ := hcontested
    · obtain ⟨cs, hcs, hd⟩ := (anyContested_iff _).mp h
      exact hnew (List.mem_singleton.mp hcs ▸ hd)
    · cases h
  have hpos : 0 < (liveRows rows).length := List.length_pos_of_ne_nil hnil
  cases hs : isTrustedSuccession (new.claim :: (liveRows rows).map (·.claim))
    config.validTimeConfidenceThreshold with
  | true =>
    refine iff_of_true (fun hcontested => ?_) (.inr (.inl rfl))
    have hc : Chain config rows' := ⟨by omega, hsucc.trans hs⟩
    rw [report_contested_iff,
      structuralConflict_of_length_le (foldStatuses_chain_length hnodup' hc now)] at hcontested
    obtain ⟨_, h | h⟩ := hcontested
    · obtain ⟨cs, hcs, hd⟩ := (anyContested_iff _).mp h
      rw [foldStatuses_of_chain hnodup' hc, List.mem_filter, hlp.mem_iff] at hcs
      rcases List.mem_cons.mp hcs.1 with rfl | hold
      · exact hnew hd
      · exact hbefore (report_contested_of_selected hnodup hold hd (of_decide_eq_true hcs.2))
    · cases h
  | false =>
    have hnc : ¬ Chain config rows' := fun hc => by
      have := hsucc.symm.trans hc.2
      rw [hs] at this
      cases this
    rw [Ne, report_contested_iff, foldStatuses_of_not_chain hnc]
    have hne : liveRows rows' ≠ [] := by
      intro h
      rw [h] at hlen
      simp at hlen
    simp only [hnil, Bool.false_eq_true, false_or, ne_eq, hne, not_false_eq_true, true_and, not_or]
    rw [anyContested_iff, structuralConflict_iff]
    simp only [hlp.mem_iff, not_exists, not_and]
    constructor
    · rintro ⟨hnone, hcard⟩ cs hcs
      refine ⟨?_, hnone cs hcs⟩
      by_contra hne'
      exact hcard (by omega) cs hcs hne'
    · intro hall
      exact ⟨fun cs hcs => (hall cs hcs).2, fun _ cs hcs hne' => hne' (hall cs hcs).1⟩

end Adding

section Main

variable {eng : Engine} {σ : Store}

/-- A cheap commit on an uncontested line leaves it uncontested exactly when
    nothing else on it is live, or the new claim and the live ones are a trusted
    succession, or they are all set-valued and none was left contested. -/
theorem cheap_commit_uncontested_iff (hσ : Reachable eng σ) {req : IngestClaimRequest}
    {now q : Instant} {claimRef : ClaimRef} {reply : Except String Uuid}
    {resp : IngestClaimResponse} (hfresh : Fresh claimRef.uuid σ)
    (hprov : req.provenance.isCheapPathEligible = true)
    (hresp : (IngestClaim.execute eng σ req now claimRef reply).1 = .ok resp)
    (hcheap : resp.disposition = .committedCheap) (hq : now ≤ q)
    (hbefore : (recallNow eng.config σ req.agentId req.subject req.predicate q).status ≠
      .contested) :
    (recallNow eng.config (IngestClaim.execute eng σ req now claimRef reply).2 req.agentId
        req.subject req.predicate q).status ≠ .contested ↔
      let live := liveRows (visibleRows eng.config σ req.agentId req.subject req.predicate q)
      live = [] ∨
        isTrustedSuccession (stamp req claimRef now :: live.map (·.claim))
          eng.config.validTimeConfidenceThreshold = true ∨
        req.cardinality = .setValued ∧
          ∀ cs ∈ live,
            cs.claim.cardinality = .setValued ∧ cs.lastDisposition ≠ some .contested := by
  have hadmitted : Admitted eng.config σ req claimRef now := by
    rcases external_ok_cases hprov hresp with h | ⟨_, h⟩
    · exact h
    · rw [hcheap] at h
      cases h
  rw [execute_of_admitted hadmitted] at hresp ⊢
  have hdisp : (gateDecision eng σ req (stamp req claimRef now) now).disposition =
      .committedCheap := by
    rw [executeAdmitted_ok hresp] at hcheap
    exact hcheap
  have happ := executeAdmitted_appends eng σ req (stamp req claimRef now) now reply
  set σ' := (executeAdmitted eng σ req (stamp req claimRef now) now reply).2
  have hσ' : Reachable eng σ' := by
    refine hσ.step (i := .ingestClaim req now claimRef reply) ⟨hfresh, ?_⟩
    rw [Engine.apply, execute_of_admitted hadmitted]
  have hline : onLine req.agentId req.subject req.predicate (stamp req claimRef now) = true := by
    simp [onLine, stamp]
  have hcut : withinCutoff (some q) now = true := by simp [withinCutoff, hq]
  have hperm := lineRows_ingested eng.config q happ hfresh hline hcut
  have hrow : rowOf σ' req.agentId (some q) q (stamp req claimRef now) =
      { claim := stamp req claimRef now
        isLive := true
        lastDisposition := some .committedCheap
        boundAt := none
        boundAtGranularity := none } := by
    have h := rowOf_ingested happ hfresh (rfl : _ = req.agentId) hcut q
    rw [hdisp] at h
    exact h
  obtain ⟨entries, hrecall⟩ :=
    recall_eq_report eng.config σ req.agentId req.subject req.predicate q
  obtain ⟨entries', hrecall'⟩ :=
    recall_eq_report eng.config σ' req.agentId req.subject req.predicate q
  rw [hrecall] at hbefore
  rw [hrecall', report_uncontested_add_iff (visibleRows_nodup hσ ..) (visibleRows_nodup hσ' ..)
    hperm (by rw [hrow]) (by rw [hrow]; simp) hbefore]
  simp only [hrow, List.forall_mem_cons]
  simp [stamp]

def restatedRun : List Op :=
  [.ingestClaim (remember "Paris" (some (dated 1 none))) 10 ⟨1⟩ (.ok 0)]

theorem cheap_succession_uncontested :
    (recallNow EngineConfig.default
      (IngestClaim.execute (defaultEngine false)
        (run (defaultEngine false) Store.sqlite
          [.ingestClaim (remember "Paris" (some (dated 1 (some 5)))) 10 ⟨1⟩ (.ok 0)])
        (remember "Berlin" (some (dated 5 none))) 20 ⟨2⟩ (.ok 0)).2 agent "user" "location"
      20).status ≠ .contested :=
  (cheap_commit_uncontested_iff (run_reachable (by decide) : Reachable (defaultEngine false) _)
    (by decide) (by decide) rfl (by decide) (by decide) (by decide)).mpr
    (.inr (.inl (by decide)))

theorem cheap_restatement_contests :
    let σ := run (defaultEngine false) Store.sqlite restatedRun
    let result := IngestClaim.execute (defaultEngine false) σ (remember "Paris" none) 20 ⟨2⟩ (.ok 0)
    Reachable (defaultEngine false) σ ∧ Fresh 2 σ ∧
      (recallNow EngineConfig.default σ agent "user" "location" 20).status = .resolved ∧
      result.1 = .ok ⟨⟨2⟩, .committedCheap, []⟩ ∧
      (recallNow EngineConfig.default result.2 agent "user" "location" 20).status = .contested := by
  exact ⟨run_reachable (by decide), by decide, by decide, rfl, by decide⟩

end Main

end Mempill.CheapPath
