import Mempill.HistoryAgreement
import Mempill.QueueRows
import Mempill.WriteGate

set_option autoImplicit false

/-!
# The named incumbent

Which claim of its line a contested or queued write names, in its answer, in its
pending row and in the request to the oracle.
-/
namespace Mempill.NamedIncumbent
open Mempill.Types Mempill.Persistence Mempill.TruthEngine Mempill.ValidTimeHelpers Mempill.Rows
open Mempill.IngestClaim Mempill.Engine Mempill.Steps Mempill.Invariants Mempill.WriteGate
open Mempill.HistoryAgreement Mempill.QueueRows

section Statement

variable (config : EngineConfig)

def Foremost (rows : List ClaimWithStatus) (cs : ClaimWithStatus) : Prop :=
  cs ∈ rows ∧ ∀ other ∈ rows, orderingKey cs.claim config ≤ orderingKey other.claim config

/-- The line's current belief at `now`: in a live chain the member around `now`, of
    other live rows the foremost; where neither gives one, the foremost candidate. -/
inductive CurrentBelief (rows candidates : List ClaimWithStatus) (now : Instant)
    (cs : ClaimWithStatus) : Prop where
  | chained (hchain : Chain config rows) (hlive : cs ∈ liveRows rows)
      (hnow : (window cs.claim.validTime).Mem now)
  | live (hchain : ¬ Chain config rows) (hfirst : Foremost config (liveRows rows) cs)
  | gap (hchain : Chain config rows)
      (hgap : ∀ other ∈ liveRows rows, ¬ (window other.claim.validTime).Mem now)
      (hfirst : Foremost config candidates cs)
  | ended (hlive : liveRows rows = []) (hfirst : Foremost config candidates cs)

variable (σ σ' : Store) (req : IngestClaimRequest) (claimRef : ClaimRef)
variable (resp : IngestClaimResponse) (r : ClaimRef)

/-- The answer and every row pending for the write name this claim. -/
structure Names : Prop where
  answer : resp.contestedWith = [r]
  pending : ∀ row ∈ σ'.pending, row.challengerClaimRef = claimRef →
    row.incumbentClaimRef = r ∧ row.requestPayload.incumbent.claimRef = r

/-- The named claim has another value and an effective window that is not apart from
    the written one. -/
def ConflictsWith (now : Instant) : Prop :=
  ∃ cs ∈ writeRows config σ req now, cs.claim.claimRef = r ∧ Clashes req cs

end Statement

section Pick

variable {config : EngineConfig} {rows : List ClaimWithStatus}

theorem foremost_of_head? (h : KeyOrdered config rows) {cs : ClaimWithStatus}
    (hcs : rows.head? = some cs) : Foremost config rows cs := by
  cases rows with
  | nil => cases hcs
  | cons x xs =>
    cases hcs
    refine ⟨List.mem_cons_self, fun other hother => ?_⟩
    rcases List.mem_cons.mp hother with rfl | hin
    · exact le_refl _
    · exact (List.pairwise_cons.mp h.sorted).1 other hin

theorem keyOrdered_filter (h : KeyOrdered config rows) (p : ClaimWithStatus → Bool) :
    KeyOrdered config (rows.filter p) :=
  ⟨h.sorted.filter p, h.nodup.sublist (List.filter_sublist.map _)⟩

variable {σ : Store} {req : IngestClaimRequest} {now : Instant} {cs : ClaimWithStatus}

theorem currentBelief_of_incumbentRow {eng : Engine} (hσ : Reachable eng σ)
    (h : incumbentRow config σ req now = some cs) :
    CurrentBelief config (writeRows config σ req now) (writeCandidates config σ req now) now
      cs := by
  have hkey : KeyOrdered config (writeRows config σ req now) :=
    lineRows_keyOrdered _ hσ req.agentId req.subject req.predicate none now
  have hcand : KeyOrdered config (writeCandidates config σ req now) := keyOrdered_filter hkey _
  unfold incumbentRow at h
  by_cases hc : Chain config (writeRows config σ req now)
  · rw [foldStatuses_of_chain hkey.nodup hc] at h
    cases hl : (liveRows (writeRows config σ req now)).filter
      (fun cs => decide ((window cs.claim.validTime).Mem now)) with
    | nil =>
      rw [hl] at h
      refine .gap hc (fun other hother hmem => ?_) (foremost_of_head? hcand h)
      exact (List.filter_eq_nil_iff.mp hl) other hother (decide_eq_true hmem)
    | cons x xs =>
      rw [hl] at h
      cases h
      have hx := List.mem_filter.mp (hl ▸ List.mem_cons_self : cs ∈ List.filter _ _)
      exact .chained hc hx.1 (of_decide_eq_true hx.2)
  · rw [foldStatuses_of_not_chain hc] at h
    cases hl : liveRows (writeRows config σ req now) with
    | nil =>
      rw [hl] at h
      exact .ended hl (foremost_of_head? hcand h)
    | cons x xs =>
      rw [hl] at h
      cases h
      refine .live hc ?_
      have hlive : KeyOrdered config (liveRows (writeRows config σ req now)) :=
        keyOrdered_filter hkey _
      exact foremost_of_head? hlive (by rw [hl]; rfl)

end Pick

section Main

variable {eng : Engine} {σ : Store} {req : IngestClaimRequest} {now : Instant}
variable {claimRef : ClaimRef} {reply : Except String Uuid} {resp : IngestClaimResponse}

/-- A contested or queued external write names the current belief of its line, and
    where that does not conflict with it another candidate does. -/
theorem names_current_belief (hσ : Reachable eng σ) (hfresh : Fresh claimRef.uuid σ)
    (hprov : req.provenance.isCheapPathEligible = true)
    (hresp : (IngestClaim.execute eng σ req now claimRef reply).1 = .ok resp)
    (hdisp : resp.disposition = .contested ∨ resp.disposition = .queuedForAdjudication)
    (hwhy : ∃ cs ∈ writeCandidates eng.config σ req now, Clashes req cs) :
    ∃ cs ∈ writeCandidates eng.config σ req now,
      CurrentBelief eng.config (writeRows eng.config σ req now)
        (writeCandidates eng.config σ req now) now cs ∧
      Names (IngestClaim.execute eng σ req now claimRef reply).2 claimRef resp
        cs.claim.claimRef ∧
      (¬ Clashes req cs → ∃ other ∈ writeCandidates eng.config σ req now,
        other.claim.claimRef ≠ cs.claim.claimRef ∧ Clashes req other) := by
  have hadmitted : Admitted eng.config σ req claimRef now := by
    rcases external_ok_cases hprov hresp with h | ⟨_, h⟩
    · exact h
    · rw [h] at hdisp
      rcases hdisp with h | h <;> cases h
  rw [execute_of_admitted hadmitted] at hresp ⊢
  obtain ⟨cs, hrow⟩ : ∃ cs, incumbentRow eng.config σ req now = some cs := by
    obtain ⟨x, hx, _⟩ := hwhy
    exact exists_incumbentRow hσ hx
  have hspec := incumbentFor_spec eng.config σ req now
  rw [hrow, Option.map_some, Option.map_eq_some_iff] at hspec
  obtain ⟨b, hb, hbeq⟩ := hspec
  have hbref : b.claimRef = cs.claim.claimRef := congrArg Prod.fst hbeq
  refine ⟨cs, mem_of_incumbentRow hσ hrow, currentBelief_of_incumbentRow hσ hrow, ⟨?_, ?_⟩, ?_⟩
  · have hresp' := executeAdmitted_ok hresp
    rw [hresp'] at hdisp
    rw [hresp']
    simp only [contestedWith, if_pos hdisp, hb, Option.map_some, hbref, Option.toList_some]
  · intro row hmem hch
    have hold : row ∉ σ.pending := fun hold =>
      absurd (congrArg ClaimRef.uuid hch) (Fresh.pending hfresh hold).1
    rcases ingest_table eng σ req (stamp req claimRef now) now reply with
      hkept | ⟨b', handleId, _, _, hb', _, htable⟩
    · exact absurd (hkept ▸ hmem) hold
    · rw [htable, List.mem_append] at hmem
      obtain rfl := List.mem_singleton.mp (hmem.resolve_left hold)
      rw [hb] at hb'
      cases hb'
      exact ⟨hbref, hbref⟩
  · intro hnot
    obtain ⟨other, hother, hclash⟩ := hwhy
    refine ⟨other, hother, fun heq => hnot ?_, hclash⟩
    have hnodup := lineRows_nodup hσ eng.config req.agentId req.subject req.predicate none now
    have hsame : other = cs := List.inj_on_of_nodup_map hnodup (mem_writeRows_of_candidate hother)
      (mem_writeRows_of_candidate (mem_of_incumbentRow hσ hrow)) heq
    exact hsame ▸ hclash

def chainRun : List Op :=
  [.ingestClaim (remember "Linda" (some (dated 1 (some 5)))) 10 ⟨1⟩ (.ok 0),
    .ingestClaim (remember "John" (some (dated 5 none))) 10 ⟨2⟩ (.ok 0)]

def challenge : IngestClaimRequest := remember "Mary" (some (dated 2 (some 4)))

theorem names_john_against_mary :
    ∃ cs ∈ writeCandidates EngineConfig.default
        (run (defaultEngine true) Store.sqlite chainRun) challenge 20,
      CurrentBelief EngineConfig.default
        (writeRows EngineConfig.default
          (run (defaultEngine true) Store.sqlite chainRun) challenge 20)
        (writeCandidates EngineConfig.default
          (run (defaultEngine true) Store.sqlite chainRun) challenge 20) 20 cs ∧
      Names (IngestClaim.execute (defaultEngine true)
        (run (defaultEngine true) Store.sqlite chainRun) challenge 20 ⟨3⟩ (.ok 103)).2 ⟨3⟩
        ⟨⟨3⟩, .queuedForAdjudication, [⟨2⟩]⟩ cs.claim.claimRef ∧
      (¬ Clashes challenge cs → ∃ other ∈ writeCandidates EngineConfig.default
          (run (defaultEngine true) Store.sqlite chainRun) challenge 20,
        other.claim.claimRef ≠ cs.claim.claimRef ∧ Clashes challenge other) :=
  names_current_belief (run_reachable (by decide) : Reachable (defaultEngine true) _) (by decide)
    (by decide) rfl (by decide) (by decide)

theorem names_unrelated_incumbent :
    let σ := run (defaultEngine false) Store.sqlite chainRun
    let result := IngestClaim.execute (defaultEngine false) σ challenge 20 ⟨3⟩ (.ok 0)
    Reachable (defaultEngine false) σ ∧ Fresh 3 σ ∧
      (∃ cs ∈ writeCandidates EngineConfig.default σ challenge 20,
        claimIsTrusted cs.claim EngineConfig.default.validTimeConfidenceThreshold = true ∧
          Clashes challenge cs) ∧
      result.1 = .ok ⟨⟨3⟩, .contested, [⟨2⟩]⟩ ∧
      ¬ ConflictsWith EngineConfig.default σ challenge ⟨2⟩ 20 := by
  refine ⟨run_reachable (by decide), by decide, by decide, rfl, ?_⟩
  unfold ConflictsWith
  decide

end Main

end Mempill.NamedIncumbent
