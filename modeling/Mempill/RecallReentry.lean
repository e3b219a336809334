import Mempill.HistoryAgreement
import Mempill.Queries

set_option autoImplicit false

/-!
# Recall re-entry

When a recalled fact that is written back collapses into the claim it came from.
-/
namespace Mempill.RecallReentry
open Mempill.Types Mempill.Persistence Mempill.Rows Mempill.IngestClaim Mempill.QueryHistory
open Mempill.Queries Mempill.Engine Mempill.Steps Mempill.Invariants Mempill.HistoryAgreement

section Statement

/-- A stored claim of the agent on the line that the request writes to. -/
def OnFile (σ : Store) (req : IngestClaimRequest) (r : ClaimRef) : Prop :=
  ∃ c ∈ σ.claims, c.claimRef = r ∧ onLine req.agentId req.subject req.predicate c = true

instance (σ : Store) (req : IngestClaimRequest) (r : ClaimRef) : Decidable (OnFile σ req r) :=
  inferInstanceAs (Decidable (∃ c ∈ σ.claims, _))

/-- The write is invisible to every query, and its answer names a claim on file. -/
structure Collapses (eng : Engine) (σ : Store) (req : IngestClaimRequest) (now : Instant)
    (claimRef : ClaimRef) (reply : Except String Uuid) : Prop where
  invisible : SameAnswers eng.config σ (IngestClaim.execute eng σ req now claimRef reply).2
  named : ∀ resp, (IngestClaim.execute eng σ req now claimRef reply).1 = .ok resp →
    OnFile σ req resp.claimRef

/-- The claim that the guard takes the re-entry to restate: the first parent that the
    caller states, else the first claim ever injected. -/
def restated (σ : Store) (req : IngestClaimRequest) : Option ClaimRef :=
  req.derivedFrom.head? <|> (loadInjectedClaims σ req.agentId).head?

end Statement

section Guard

variable {eng : Engine} {σ : Store} {req : IngestClaimRequest} {now : Instant}
variable {claimRef : ClaimRef} {reply : Except String Uuid}

theorem execute_of_restated (hprov : req.provenance = .recallReEntry)
    (hburst : 0 < eng.config.quarantineBurstThreshold) {r : ClaimRef}
    (hr : restated σ req = some r) :
    IngestClaim.execute eng σ req now claimRef reply = (.ok ⟨r, .committedCheap, []⟩, σ) := by
  have hnot : ¬ eng.config.quarantineBurstThreshold ≤ 0 := by omega
  unfold restated at hr
  simp only [IngestClaim.execute, check, stamp, hprov, ProvenanceLabel.isRecallReentry, ge_iff_le,
    if_neg hnot, if_true, hr]

theorem admitted_of_unrestated (hburst : 0 < eng.config.quarantineBurstThreshold)
    (hr : restated σ req = none) : Admitted eng.config σ req claimRef now := by
  have hnot : ¬ eng.config.quarantineBurstThreshold ≤ 0 := by omega
  unfold restated at hr
  simp only [Admitted, check, stamp, ge_iff_le, if_neg hnot, hr, ite_self]
  split <;> trivial

theorem execute_of_burst (hburst : eng.config.quarantineBurstThreshold = 0) :
    IngestClaim.execute eng σ req now claimRef reply = (.ok ⟨claimRef, .quarantined, []⟩, σ) := by
  simp only [IngestClaim.execute, check, hburst, ge_iff_le, le_refl, if_true]
  rfl

theorem map_claimRef_history (config : EngineConfig) (σ : Store) (req : QueryHistoryRequest)
    (now : Instant) :
    (QueryHistory.execute config σ req now).map (·.claimRef) =
      (lineRows config σ req.agentId req.subject req.predicate none now).map
        (·.claim.claimRef) := by
  unfold QueryHistory.execute
  rw [foldForWrite_eq]
  exact map_claimRef_zipWith _ _ _

/-- A claim that is not on file yet is told by the history of its line. -/
theorem visible_of_admitted (hadmitted : Admitted eng.config σ req claimRef now)
    (hfresh : Fresh claimRef.uuid σ) :
    ¬ SameAnswers eng.config σ (IngestClaim.execute eng σ req now claimRef reply).2 := by
  intro hsame
  have happ := ingest_appends hadmitted reply
  have hhistory := congrArg (fun es : List HistoryEntry => es.map (·.claimRef))
    (hsame.history ⟨req.agentId, req.subject, req.predicate⟩ now)
  rw [map_claimRef_history, map_claimRef_history] at hhistory
  have hnew : claimRef ∈ (lineRows eng.config
      (IngestClaim.execute eng σ req now claimRef reply).2 req.agentId req.subject req.predicate
      none now).map (·.claim.claimRef) := by
    refine List.mem_map.mpr ⟨_, mem_lineRows.mpr ⟨stamp req claimRef now, ?_, rfl⟩, rfl⟩
    refine mem_lineClaims.mpr ⟨?_, by simp [onLine, stamp], rfl⟩
    rw [happ.claims]
    exact List.mem_append_right _ List.mem_cons_self
  rw [← hhistory] at hnew
  obtain ⟨cs, hcs, href⟩ := List.mem_map.mp hnew
  obtain ⟨c, hc, rfl⟩ := mem_lineRows.mp hcs
  exact Fresh.claim hfresh (mem_lineClaims.mp hc).1 (congrArg ClaimRef.uuid href)

end Guard

section Main

/-- A re-entry collapses exactly when the guard is armed and finds a reference that is
    on file. -/
theorem reentry_collapses_iff (eng : Engine) (σ : Store) (req : IngestClaimRequest)
    (now : Instant) (claimRef : ClaimRef) (reply : Except String Uuid)
    (hprov : req.provenance = .recallReEntry) (hfresh : Fresh claimRef.uuid σ) :
    Collapses eng σ req now claimRef reply ↔
      0 < eng.config.quarantineBurstThreshold ∧
        ∃ r, restated σ req = some r ∧ OnFile σ req r := by
  have hunknown : ¬ OnFile σ req claimRef := fun ⟨c, hc, href, _⟩ =>
    Fresh.claim hfresh hc (congrArg ClaimRef.uuid href)
  constructor
  · intro hcollapses
    rcases Nat.eq_zero_or_pos eng.config.quarantineBurstThreshold with hburst | hburst
    · refine absurd (hcollapses.named ⟨claimRef, .quarantined, []⟩ ?_) hunknown
      rw [execute_of_burst hburst]
    · refine ⟨hburst, ?_⟩
      cases hr : restated σ req with
      | none =>
        exact absurd hcollapses.invisible
          (visible_of_admitted (admitted_of_unrestated hburst hr) hfresh)
      | some r =>
        refine ⟨r, rfl, hcollapses.named ⟨r, .committedCheap, []⟩ ?_⟩
        rw [execute_of_restated hprov hburst hr]
  · rintro ⟨hburst, r, hr, honfile⟩
    have hexec : IngestClaim.execute eng σ req now claimRef reply =
        (.ok ⟨r, .committedCheap, []⟩, σ) := execute_of_restated hprov hburst hr
    refine ⟨?_, fun resp hok => ?_⟩
    · rw [hexec]
      exact .refl _ _
    · rw [hexec] at hok
      rw [← Except.ok.inj hok]
      exact honfile

/-- A fact that the engine served, written back. -/
def reentry (derivedFrom : List ClaimRef) : IngestClaimRequest :=
  { remember "Paris" none with provenance := .recallReEntry, derivedFrom := derivedFrom }

/-- One first-hand fact, and a store where it has been written back without naming it. -/
def served : List Op := [.ingestClaim (remember "Paris" none) 10 ⟨1⟩ (.ok 0)]

def echoed : List Op := served ++ [.ingestClaim (reentry []) 20 ⟨2⟩ (.ok 0)]

theorem named_reentry_collapses :
    Collapses (defaultEngine false) (run (defaultEngine false) Store.sqlite echoed)
      (reentry [⟨1⟩]) 30 ⟨3⟩ (.ok 0) :=
  (reentry_collapses_iff _ _ _ _ _ _ rfl (by decide)).mpr ⟨by decide, ⟨1⟩, rfl, by decide⟩

/-- The same fact written back again becomes a third claim of the line, and a parent
    that was never stored is taken at its word. -/
theorem unnamed_reentry_multiplies :
    let σ := run (defaultEngine false) Store.sqlite echoed
    let again := IngestClaim.execute (defaultEngine false) σ (reentry []) 30 ⟨3⟩ (.ok 0)
    let stray := IngestClaim.execute (defaultEngine false) σ (reentry [⟨7⟩]) 30 ⟨3⟩ (.ok 0)
    Reachable (defaultEngine false) σ ∧ Fresh 3 σ ∧
      again.1 = .ok ⟨⟨3⟩, .committedCheap, []⟩ ∧
      (timeline EngineConfig.default σ agent "user" "location" 40).map (·.claimRef.uuid) =
        [1, 2] ∧
      (timeline EngineConfig.default again.2 agent "user" "location" 40).map
        (·.claimRef.uuid) = [1, 2, 3] ∧
      ¬ Collapses (defaultEngine false) σ (reentry []) 30 ⟨3⟩ (.ok 0) ∧
      stray.1 = .ok ⟨⟨7⟩, .committedCheap, []⟩ ∧
      ¬ Collapses (defaultEngine false) σ (reentry [⟨7⟩]) 30 ⟨3⟩ (.ok 0) := by
  refine ⟨run_reachable (by decide), by decide, rfl, by decide, by decide, fun h => ?_, rfl,
    fun h => ?_⟩
  · exact absurd (h.named _ rfl) (by decide)
  · exact absurd (h.named _ rfl) (by decide)

end Main

end Mempill.RecallReentry
