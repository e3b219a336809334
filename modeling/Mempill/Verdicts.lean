import Mempill.ClaimLog

set_option autoImplicit false

/-!
# Verdict entries

Which claims an applied verdict writes entries for.
-/
namespace Mempill.Verdicts
open Mempill.Types Mempill.Persistence Mempill.Ledger Mempill.Rows Mempill.SubmitAdjudication
open Mempill.IngestClaim Mempill.Engine Mempill.Steps Mempill.Invariants Mempill.ClaimLog
open Transition StampedLog

/-- The claims besides the challenger that a verdict writes entries for. -/
def alsoWritten (σ : Store) (row : PendingAdjudicationRow) : AdjudicationVerdict → List ClaimRef
  | .affirm => row.incumbentClaimRef ::
      dependentsOf row.incumbentClaimRef (loadEdgesFor σ row.agentId row.incumbentClaimRef)
  | .deny => dependentsOf row.challengerClaimRef
      (loadEdgesFor σ row.agentId row.challengerClaimRef)
  | .unknown => [row.incumbentClaimRef]

/-- The row has not expired, and its challenger is on the queue. -/
def LetsThrough (σ : Store) (row : PendingAdjudicationRow) (now : Instant) : Prop :=
  row.expiresAt.any (fun t => decide (t ≤ now)) = false ∧
    currentDisposition σ row.agentId row.challengerClaimRef = some .queuedForAdjudication

instance (σ : Store) (row : PendingAdjudicationRow) (now : Instant) :
    Decidable (LetsThrough σ row now) := inferInstanceAs (Decidable (_ ∧ _))

theorem letsThrough_of_accepted {σ : Store} {handleId : Uuid} {now : Instant}
    {row : PendingAdjudicationRow} {challenger : Claim}
    (h : VerdictAccepted σ handleId now row challenger) : LetsThrough σ row now := by
  refine ⟨?_, h.queued⟩
  cases ht : row.expiresAt with
  | none => rfl
  | some t => simpa using h.unexpired t ht

/-- An entry that an applied verdict writes. -/
structure VerdictEntry (σ : Store) (row : PendingAdjudicationRow)
    (verdict : AdjudicationVerdict) (now : Instant) (e : LedgerEntry) : Prop where
  agentId : e.agentId = row.agentId
  recordedAt : e.recordedAt = now
  claimRef : e.claimRef = row.challengerClaimRef ∨ e.claimRef ∈ alsoWritten σ row verdict
  disposition : e.disposition = .committedCheap ∨ e.disposition = .superseded ∨
    e.disposition = .pendingReview ∨ e.disposition = .contested
  denying : verdictField e = some "deny" → verdict = .deny ∧ e.disposition = .superseded ∧
    e.claimRef = row.challengerClaimRef

section Written

variable {config : EngineConfig} {σ : Store} {row : PendingAdjudicationRow} {challenger : Claim}
variable {response : AdjudicationResponse} {now : Instant} {assertionRef : Uuid}

theorem mem_cascadeEntries {agentId : AgentId} {target overturning : ClaimRef}
    {edges : List ClaimEdge} {e : LedgerEntry}
    (h : e ∈ cascadeEntries agentId target overturning now edges) :
    e.agentId = agentId ∧ e.recordedAt = now ∧ e.claimRef ∈ dependentsOf target edges ∧
      e.disposition = .pendingReview ∧ verdictField e = none := by
  obtain ⟨dependent, hdependent, rfl⟩ := List.mem_map.mp h
  exact ⟨rfl, rfl, hdependent, rfl, rfl⟩

theorem verdictEntry_of_mem {e : LedgerEntry}
    (h : e ∈ (verdictWritten config σ row challenger response now assertionRef).ledger) :
    VerdictEntry σ row response.verdict now e := by
  cases hv : response.verdict with
  | affirm =>
    simp only [verdictWritten, hv, List.mem_append, List.mem_singleton] at h
    rcases h with (rfl | h) | rfl
    · exact ⟨rfl, rfl, .inr List.mem_cons_self, .inr (.inl rfl), fun h => by
        simp [verdictField, supersededEntry, supersessionRationale, Json.get, Json.asStr] at h⟩
    · obtain ⟨hagent, hstamp, href, hdisp, hfield⟩ := mem_cascadeEntries h
      exact ⟨hagent, hstamp, .inr (List.mem_cons_of_mem _ href), .inr (.inr (.inl hdisp)),
        fun h => by rw [hfield] at h; cases h⟩
    · exact ⟨rfl, rfl, .inl rfl, .inl rfl, fun h => by
        simp [verdictField, resolvedEntry, affirmRationale, Json.get, Json.asStr] at h⟩
  | deny =>
    simp only [verdictWritten, hv, List.mem_append, List.mem_singleton] at h
    rcases h with rfl | h
    · exact ⟨rfl, rfl, .inl rfl, .inr (.inl rfl), fun _ => ⟨rfl, rfl, rfl⟩⟩
    · obtain ⟨hagent, hstamp, href, hdisp, hfield⟩ := mem_cascadeEntries h
      exact ⟨hagent, hstamp, .inr href, .inr (.inr (.inl hdisp)),
        fun h => by rw [hfield] at h; cases h⟩
  | unknown =>
    simp only [verdictWritten, hv, List.mem_cons, List.not_mem_nil, or_false] at h
    rcases h with rfl | rfl
    · exact ⟨rfl, rfl, .inl rfl, .inr (.inr (.inr rfl)), fun h => by
        simp [verdictField, resolvedEntry, abstainRationale, Json.get, Json.asStr] at h⟩
    · exact ⟨rfl, rfl, .inr List.mem_cons_self, .inr (.inr (.inr rfl)), fun h => by
        simp [verdictField, resolvedEntry, abstainRationale, Json.get, Json.asStr] at h⟩

variable (config challenger response now assertionRef) in
theorem exists_entry_of_alsoWritten {r : ClaimRef}
    (hr : r ∈ alsoWritten σ row response.verdict) :
    ∃ x ∈ (verdictWritten config σ row challenger response now assertionRef).ledger,
      x.agentId = row.agentId ∧ x.claimRef = r := by
  have hcascade : ∀ target overturning,
      r ∈ dependentsOf target (loadEdgesFor σ row.agentId target) →
      ∃ x ∈ cascadeEntries row.agentId target overturning now
          (loadEdgesFor σ row.agentId target), x.agentId = row.agentId ∧ x.claimRef = r :=
    fun _ _ h => ⟨_, List.mem_map_of_mem h, rfl, rfl⟩
  cases hv : response.verdict with
  | affirm =>
    rw [hv] at hr
    simp only [verdictWritten, hv]
    rcases List.mem_cons.mp hr with rfl | hr
    · exact ⟨_, List.mem_cons_self, rfl, rfl⟩
    · obtain ⟨x, hx, htarget⟩ := hcascade _ row.challengerClaimRef hr
      exact ⟨x, List.mem_append_left _ (List.mem_append_right _ hx), htarget⟩
  | deny =>
    rw [hv] at hr
    simp only [verdictWritten, hv]
    obtain ⟨x, hx, htarget⟩ := hcascade _ row.incumbentClaimRef hr
    exact ⟨x, List.mem_append_right _ hx, htarget⟩
  | unknown =>
    rw [hv] at hr
    simp only [verdictWritten, hv]
    exact ⟨_, List.mem_cons_of_mem _ List.mem_cons_self, rfl, (List.mem_singleton.mp hr).symm⟩

/-- Every verdict leaves an entry for its challenger. -/
theorem newEntries_challenger_ne_nil :
    newEntries (verdictWritten config σ row challenger response now assertionRef) row.agentId
      row.challengerClaimRef ≠ [] := by
  have hin : ∃ e ∈ (verdictWritten config σ row challenger response now assertionRef).ledger,
      e.agentId = row.agentId ∧ e.claimRef = row.challengerClaimRef := by
    cases hv : response.verdict with
    | affirm =>
      simp only [verdictWritten, hv]
      exact ⟨_, List.mem_append_right _ (List.mem_singleton_self _), rfl, rfl⟩
    | deny =>
      simp only [verdictWritten, hv]
      exact ⟨_, List.mem_append_left _ (List.mem_singleton_self _), rfl, rfl⟩
    | unknown =>
      simp only [verdictWritten, hv]
      exact ⟨_, List.mem_cons_self, rfl, rfl⟩
  obtain ⟨e, he, hagent, href⟩ := hin
  exact List.ne_nil_of_mem (List.mem_filter.mpr ⟨he, by simp [hagent, href]⟩)

/-- A denial writes nothing else for a challenger that does not depend on itself. -/
theorem newEntries_denied (hv : response.verdict = .deny)
    (hself : row.challengerClaimRef ∉ alsoWritten σ row .deny) :
    newEntries (verdictWritten config σ row challenger response now assertionRef) row.agentId
        row.challengerClaimRef =
      [supersededEntry row.agentId row.challengerClaimRef row.incumbentClaimRef now now
        "deny"] := by
  have hcascade : (cascadeEntries row.agentId row.challengerClaimRef row.incumbentClaimRef now
      (loadEdgesFor σ row.agentId row.challengerClaimRef)).filter (fun e =>
        e.agentId == row.agentId && e.claimRef == row.challengerClaimRef) = [] := by
    rw [List.filter_eq_nil_iff]
    intro e he hp
    simp only [Bool.and_eq_true, beq_iff_eq] at hp
    exact hself (hp.2 ▸ (mem_cascadeEntries he).2.2.1)
  simp only [newEntries, verdictWritten, hv, List.filter_append, hcascade, List.append_nil]
  simp [supersededEntry]

end Written

theorem newEntries_expired {row : PendingAdjudicationRow} {rationale : Json} {now : Instant} :
    newEntries { ledger := [expiredEntry row rationale now] } row.agentId
      row.challengerClaimRef = [expiredEntry row rationale now] := by
  rw [newEntries_single rfl]
  exact if_pos ⟨rfl, rfl⟩

section Superseded

variable {eng : Engine} {σ : Store}

/-- A superseding entry says where it comes from. -/
theorem verdictField_of_superseded {op : Op} {w : Written} (h : Outcome eng σ op w)
    {e : LedgerEntry} (he : e ∈ w.ledger) (hsup : e.disposition = .superseded) :
    (verdictField e).isSome = true := by
  have hquiet : quiet e.disposition = true → (verdictField e).isSome = true := fun hq => by
    rw [hsup] at hq
    cases hq
  cases h with
  | silent _ | edged => cases he
  | ingested _ =>
    rw [List.mem_singleton.mp he] at hquiet ⊢
    exact hquiet (adjudicate_quiet _ _)
  | reconciled =>
    obtain ⟨d, hd, rfl⟩ := List.mem_map.mp he
    exact hquiet (quiet_of_mem_decisions hd)
  | bounded _ _ =>
    rw [List.mem_singleton.mp he]
    rfl
  | reopened _ _ | lazilyExpired _ _ | sweptRow _ | sweptOrphan _ =>
    rw [List.mem_singleton.mp he] at hsup
    cases hsup
  | @resolved handleId response now assertionRef row challenger _ =>
    cases hv : response.verdict with
    | affirm =>
      simp only [verdictWritten, hv, List.mem_append, List.mem_singleton] at he
      rcases he with (rfl | he) | rfl
      · rfl
      · exact hquiet (quiet_of_mem_cascadeEntries he)
      · cases hsup
    | deny =>
      simp only [verdictWritten, hv, List.mem_append, List.mem_singleton] at he
      rcases he with rfl | he
      · rfl
      · exact hquiet (quiet_of_mem_cascadeEntries he)
    | unknown =>
      simp only [verdictWritten, hv, List.mem_cons, List.not_mem_nil, or_false] at he
      rcases he with rfl | rfl <;> cases hsup

/-- Every superseding entry says where it comes from. -/
def Attributed (σ : Store) : Prop :=
  ∀ e ∈ σ.ledger, e.disposition = .superseded → (verdictField e).isSome = true

theorem attributed_of_appends {σ' : Store} {op : Op} {w : Written} (h : Attributed σ)
    (ho : Outcome eng σ op w)
    (happ : Appends σ σ' w) : Attributed σ' := by
  intro e he hsup
  rw [happ.ledger] at he
  rcases List.mem_append.mp he with he | he
  · exact h e he hsup
  · exact verdictField_of_superseded ho he hsup

theorem attributed_of_reachable (h : Reachable eng σ) : Attributed σ :=
  Reachable.invariant_of_outcome (P := Attributed) h (fun _ => List.forall_mem_nil _)
    fun _ _ _ _ _ hP _ ho happ => attributed_of_appends hP ho happ

theorem attributed_of_run {σ' : Store} {ops : List Op} (h : Run (Step eng) σ ops σ')
    (hσ : Attributed σ) : Attributed σ' :=
  h.preserves (P := Attributed) hσ fun ρ op _ hρ hst => by
    obtain ⟨w, ho, happ⟩ := apply_outcome eng ρ op
    exact hst.2 ▸ attributed_of_appends hρ ho happ

/-- Where superseding entries are attributed, the scan for denials looks at one entry only:
    of the latest, the one read last. -/
theorem deniedOf_iff (h : Attributed σ) (agentId : AgentId) (cutoff : Option Instant)
    (r : ClaimRef) :
    deniedOf σ agentId cutoff r = true ↔
      ∃ e, σ.ties.last LedgerEntry.recordedAt (entriesOf σ agentId cutoff r) = some e ∧
        e.disposition = .superseded ∧ verdictField e = some "deny" := by
  rw [deniedOf, deniedByEntries, TieOrder.getLast?_inOrder]
  cases hl : σ.ties.last LedgerEntry.recordedAt (entriesOf σ agentId cutoff r) with
  | none => simp
  | some e =>
    have hmem : e ∈ σ.ledger := List.mem_of_mem_filter (σ.ties.mem_of_last _ hl)
    by_cases hsup : e.disposition = .superseded
    · obtain ⟨v, hv⟩ := Option.isSome_iff_exists.mp (h e hmem hsup)
      simp [hsup, hv]
    · simp [hsup]

end Superseded

theorem currentDisposition_eq (σ : Store) (agentId : AgentId) (r : ClaimRef) :
    currentDisposition σ agentId r =
      (σ.ties.last LedgerEntry.recordedAt (entriesOf σ agentId none r)).map (·.disposition) :=
  latestDispositionFromLedger_load (List.mem_singleton_self r)

end Mempill.Verdicts
