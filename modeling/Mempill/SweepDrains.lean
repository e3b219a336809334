import Mempill.QueueCorrespondence

set_option autoImplicit false

/-!
# Draining sweeps

When a sweep leaves no expired row pending and no orphan on the queue, so that the
next sweep finds nothing to do.
-/
namespace Mempill.SweepDrains
open Mempill.Types Mempill.Persistence Mempill.TruthEngine Mempill.Rows Mempill.IngestClaim
open Mempill.SubmitAdjudication Mempill.Sweep Mempill.Engine Mempill.Steps Mempill.Invariants
open Mempill.ClaimLog Mempill.QueueRows Mempill.ReconcilePass Mempill.Verdicts Mempill.HandleOnce
open Mempill.QueueCorrespondence StampedLog

section Statement

def Queued (σ : Store) (agentId : AgentId) (r : ClaimRef) : Prop :=
  currentDisposition σ agentId r = some .queuedForAdjudication

def afterExpired (σ : Store) (now : Instant) : ℕ × Store :=
  sweepPass (fun σ row => revertExpiredRow σ row now) (listExpired σ now) (0, σ)

/-- The entries that a sweep holds ready for a claim: for its expired row, then for its
    orphan records. -/
def reversions (σ : Store) (now : Instant) (agentId : AgentId) (r : ClaimRef) :
    List LedgerEntry :=
  newEntries
    { ledger :=
        (listExpired σ now).map (fun row => expiredEntry row (expiryRationale row now) now) ++
          (listQueuedOrphanClaims (afterExpired σ now).2).map (orphanEntry · now) } agentId r

/-- The reader of the verdicts and the sweep takes a new entry of the claim. -/
def Overtaken (σ : Store) (agentId : AgentId) (r : ClaimRef) (news : List LedgerEntry) : Prop :=
  σ.ties.reverse.Overtakes LedgerEntry.recordedAt (entriesOf σ agentId none r) news

/-- What a sweep at `now` promises of the store it leaves. -/
structure Drains (eng : Engine) (σ : Store) (now : Instant) : Prop where
  expired : ∀ row ∈ (sweepExpiredAdjudications eng σ now).2.pending, row.status = .pending →
    ∀ t, row.expiresAt = some t → now < t
  orphans : ∀ agentId r, Queued (sweepExpiredAdjudications eng σ now).2 agentId r →
    hasPendingRow (sweepExpiredAdjudications eng σ now).2 agentId r = true
  untouched : ∀ row ∈ σ.pending, row.status = .pending →
    (∀ t, row.expiresAt = some t → now < t) →
      let swept := (sweepExpiredAdjudications eng σ now).2
      row ∈ swept.pending ∧
        entriesOf swept row.agentId none row.challengerClaimRef =
          entriesOf σ row.agentId none row.challengerClaimRef ∧
        assertionsOf swept row.agentId row.challengerClaimRef =
          assertionsOf σ row.agentId row.challengerClaimRef
  again : sweepExpiredAdjudications eng (sweepExpiredAdjudications eng σ now).2 now =
    (0, (sweepExpiredAdjudications eng σ now).2)

/-- Every expired row still has a queued challenger, and of a queued claim that the sweep
    has to revert, a reversion is read ahead of the stored entries. -/
structure Drainable (eng : Engine) (σ : Store) (now : Instant) : Prop where
  rows : ∀ row ∈ listExpired σ now, eng.pendingStorePresent = true ∧
    Queued σ row.agentId row.challengerClaimRef
  claims : ∀ agentId r, Queued σ agentId r →
    (∃ row, PendingFor σ agentId r row ∧ row ∉ listExpired σ now) ∨
      eng.pendingStorePresent = true ∧ Overtaken σ agentId r (reversions σ now agentId r)

instance (σ : Store) (agentId : AgentId) (r : ClaimRef) : Decidable (Queued σ agentId r) :=
  inferInstanceAs (Decidable (_ = _))

instance (σ : Store) (agentId : AgentId) (r : ClaimRef) (news : List LedgerEntry) :
    Decidable (Overtaken σ agentId r news) :=
  inferInstanceAs (Decidable (σ.ties.reverse.Overtakes ..))

end Statement

section Pass

variable {σ σ' : Store} {agentId : AgentId} {r : ClaimRef}

theorem queued_congr (hties : σ'.ties = σ.ties)
    (hentries : entriesOf σ' agentId none r = entriesOf σ agentId none r) :
    Queued σ' agentId r ↔ Queued σ agentId r := by
  rw [Queued, Queued, currentDisposition_eq, currentDisposition_eq, hties, hentries]

/-- Entries that do not queue take a claim off the queue exactly if one of them is read. -/
theorem queued_append_iff {news : List LedgerEntry} (hties : σ'.ties = σ.ties)
    (hentries : entriesOf σ' agentId none r = entriesOf σ agentId none r ++ news)
    (hnews : ∀ e ∈ news, e.disposition = .contested) :
    Queued σ' agentId r ↔ Queued σ agentId r ∧ ¬ Overtaken σ agentId r news := by
  rw [Queued, Queued, currentDisposition_eq, currentDisposition_eq, hties, hentries, Overtaken,
    TieOrder.last_eq_first_reverse, TieOrder.last_eq_first_reverse]
  by_cases htaken : σ.ties.reverse.Overtakes LedgerEntry.recordedAt
      (entriesOf σ agentId none r) news
  · obtain ⟨e, he, hfirst⟩ := id htaken
    rw [hfirst, Option.map_some, hnews e he]
    simp [htaken]
  · rw [σ.ties.reverse.first_append_of_not_overtakes _ htaken]
    simp [htaken]

/-- A reversion writes one contested entry for a queued target, and nothing for any
    other. -/
structure Reverts {α : Type} (now : Instant) (revert : Store → α → Bool × Store)
    (entryOf : α → LedgerEntry) : Prop where
  idle : ∀ σ item, ¬ Queued σ (entryOf item).agentId (entryOf item).claimRef →
    revert σ item = (false, σ)
  writes : ∀ σ item, Queued σ (entryOf item).agentId (entryOf item).claimRef →
    Appends σ (revert σ item).2 { ledger := [entryOf item] }
  contested : ∀ item, (entryOf item).disposition = .contested ∧ (entryOf item).recordedAt = now

variable {α : Type} {now : Instant} {revert : Store → α → Bool × Store}
variable {entryOf : α → LedgerEntry} {items : List α}

/-- The entries ready for one claim. -/
def readied (entryOf : α → LedgerEntry) (items : List α) (agentId : AgentId) (r : ClaimRef) :
    List LedgerEntry := newEntries { ledger := items.map entryOf } agentId r

theorem mem_readied {e : LedgerEntry} : e ∈ readied entryOf items agentId r ↔
    ∃ item ∈ items, entryOf item = e ∧ e.agentId = agentId ∧ e.claimRef = r := by
  simp only [readied, mem_newEntries, List.mem_map]
  exact ⟨fun ⟨⟨item, hitem, heq⟩, hkey⟩ => ⟨item, hitem, heq, hkey⟩,
    fun ⟨item, hitem, heq, hkey⟩ => ⟨⟨item, hitem, heq⟩, hkey⟩⟩

theorem readied_cons (item : α) (items : List α) :
    readied entryOf (item :: items) agentId r =
      readied entryOf [item] agentId r ++ readied entryOf items agentId r := by
  rw [readied, readied, readied, newEntries, newEntries, newEntries, ← List.filter_append,
    ← List.map_append, List.singleton_append]

@[simp] theorem sweepPass_nil (start : ℕ × Store) : sweepPass revert [] start = start := rfl

theorem sweepPass_cons (item : α) (items : List α) (start : ℕ × Store) :
    sweepPass revert (item :: items) start =
      sweepPass revert items
        (start.1 + (revert start.2 item).1.toNat, (revert start.2 item).2) := rfl

theorem appends_ledger_trans {τ υ : Store} {es fs : List LedgerEntry}
    (h : Appends σ τ { ledger := es }) (h' : Appends τ υ { ledger := fs }) :
    Appends σ υ { ledger := es ++ fs } :=
  ⟨by rw [h'.claims, h.claims]; simp, by rw [h'.assertions, h.assertions]; simp,
    by rw [h'.ledger, h.ledger, List.append_assoc], by rw [h'.edges, h.edges]; simp,
    h'.ties.trans h.ties⟩

variable (h : Reverts now revert entryOf)
include h

theorem Reverts.step_written (σ : Store) (item : α) :
    ∃ es, Appends σ (revert σ item).2 { ledger := es } ∧
      ∀ e ∈ es, e.disposition = .contested ∧ e.recordedAt = now := by
  by_cases hq : Queued σ (entryOf item).agentId (entryOf item).claimRef
  · refine ⟨[entryOf item], h.writes σ item hq, fun e he => ?_⟩
    rw [List.mem_singleton.mp he]
    exact h.contested item
  · rw [h.idle σ item hq]
    exact ⟨[], .nothing σ, by simp⟩

/-- A pass appends contested entries, stamped by the sweep. -/
theorem Reverts.written (items : List α) (start : ℕ × Store) :
    ∃ es, Appends start.2 (sweepPass revert items start).2 { ledger := es } ∧
      ∀ e ∈ es, e.disposition = .contested ∧ e.recordedAt = now := by
  induction items generalizing start with
  | nil => exact ⟨[], .nothing _, by simp⟩
  | cons item items ih =>
    obtain ⟨es, happ, hes⟩ := h.step_written start.2 item
    obtain ⟨fs, happ', hfs⟩ :=
      ih (start.1 + (revert start.2 item).1.toNat, (revert start.2 item).2)
    exact ⟨es ++ fs, appends_ledger_trans happ happ',
      fun e he => (List.mem_append.mp he).elim (hes e) (hfs e)⟩

theorem Reverts.ties_eq (items : List α) (start : ℕ × Store) :
    (sweepPass revert items start).2.ties = start.2.ties := by
  obtain ⟨_, happ, _⟩ := h.written items start
  exact happ.ties

theorem Reverts.step_ties (σ : Store) (item : α) : (revert σ item).2.ties = σ.ties := by
  obtain ⟨_, happ, _⟩ := h.step_written σ item
  exact happ.ties

variable (agentId r) in
theorem Reverts.step_entries (σ : Store) (item : α) :
    entriesOf (revert σ item).2 agentId none r =
      entriesOf σ agentId none r ++
        if Queued σ agentId r then readied entryOf [item] agentId r else [] := by
  have hready : readied entryOf [item] agentId r =
      if (entryOf item).agentId = agentId ∧ (entryOf item).claimRef = r then [entryOf item]
      else [] := newEntries_single rfl
  by_cases hq : Queued σ (entryOf item).agentId (entryOf item).claimRef
  · rw [entriesOf_newEntries (h.writes σ item hq), newEntries_single rfl, hready]
    by_cases hsame : (entryOf item).agentId = agentId ∧ (entryOf item).claimRef = r
    · rw [hsame.1, hsame.2] at hq
      rw [if_pos hsame, if_pos hq]
    · rw [if_neg hsame, ite_self]
  · rw [h.idle σ item hq, hready]
    by_cases hsame : (entryOf item).agentId = agentId ∧ (entryOf item).claimRef = r
    · rw [hsame.1, hsame.2] at hq
      rw [if_neg hq, List.append_nil]
    · rw [if_neg hsame, ite_self, List.append_nil]

theorem Reverts.readied_contested {e : LedgerEntry} (he : e ∈ readied entryOf items agentId r) :
    e.disposition = .contested ∧ e.recordedAt = now := by
  obtain ⟨item, _, rfl, _⟩ := mem_readied.mp he
  exact h.contested item

theorem Reverts.step_queued_iff (item : α) :
    Queued (revert σ item).2 agentId r ↔
      Queued σ agentId r ∧ ¬ Overtaken σ agentId r (readied entryOf [item] agentId r) := by
  have hentries := h.step_entries agentId r σ item
  by_cases hq : Queued σ agentId r
  · rw [if_pos hq] at hentries
    exact queued_append_iff (h.step_ties σ item) hentries fun e he => (h.readied_contested he).1
  · rw [if_neg hq, List.append_nil] at hentries
    rw [queued_congr (h.step_ties σ item) hentries]
    exact ⟨fun hold => absurd hold hq, fun hold => absurd hold.1 hq⟩

variable (agentId r items) in
/-- A pass writes for a queued claim until the claim is read off the queue. -/
theorem Reverts.entriesOf_eq (start : ℕ × Store) :
    entriesOf (sweepPass revert items start).2 agentId none r =
      entriesOf start.2 agentId none r ++ if Queued start.2 agentId r then
        start.2.ties.reverse.untilTaken LedgerEntry.recordedAt (entriesOf start.2 agentId none r)
          (readied entryOf items agentId r) else [] := by
  induction items generalizing start with
  | nil => simp [readied, newEntries, TieOrder.untilTaken]
  | cons item items ih =>
    rw [sweepPass_cons, ih]
    dsimp only
    rw [h.step_ties, h.step_entries, readied_cons item items]
    by_cases hq : Queued start.2 agentId r
    · simp only [h.step_queued_iff, hq, true_and, if_pos, Overtaken]
      rw [List.append_assoc, TieOrder.untilTaken_append]
      have hready : start.2.ties.reverse.untilTaken LedgerEntry.recordedAt
          (entriesOf start.2 agentId none r) (readied entryOf [item] agentId r) =
            readied entryOf [item] agentId r := by
        rw [readied, List.map_singleton, newEntries_single rfl]
        split
        · simp [TieOrder.untilTaken]
        · rfl
      rw [hready]
      by_cases htaken : start.2.ties.reverse.Overtakes LedgerEntry.recordedAt
          (entriesOf start.2 agentId none r) (readied entryOf [item] agentId r)
      · simp [htaken]
      · simp [htaken]
    · have hkept : ¬ Queued (revert start.2 item).2 agentId r := fun hold =>
        hq (h.step_queued_iff item |>.mp hold).1
      simp [hq, hkept]

variable (agentId r items) in
/-- A pass takes a claim off the queue exactly if one of its entries is read. -/
theorem Reverts.queued_iff (start : ℕ × Store) :
    Queued (sweepPass revert items start).2 agentId r ↔
      Queued start.2 agentId r ∧
        ¬ Overtaken start.2 agentId r (readied entryOf items agentId r) := by
  have hentries := h.entriesOf_eq agentId r items start
  by_cases hq : Queued start.2 agentId r
  · rw [if_pos hq] at hentries
    rw [queued_append_iff (h.ties_eq items start) hentries fun e he =>
      (h.readied_contested (TieOrder.mem_of_untilTaken _ _ he)).1, Overtaken,
      TieOrder.overtakes_untilTaken_iff, Overtaken]
  · rw [if_neg hq, List.append_nil] at hentries
    rw [queued_congr (h.ties_eq items start) hentries]
    exact ⟨fun hold => absurd hold hq, fun hold => absurd hold.1 hq⟩

theorem Reverts.idle_pass (start : ℕ × Store)
    (hidle : ∀ item ∈ items,
      ¬ Queued start.2 (entryOf item).agentId (entryOf item).claimRef) :
    sweepPass revert items start = start := by
  induction items with
  | nil => rfl
  | cons item items ih =>
    rw [sweepPass_cons, h.idle start.2 item (hidle item List.mem_cons_self)]
    exact ih fun other hother => hidle other (List.mem_cons_of_mem _ hother)

end Pass

section Phases

variable {eng : Engine} {σ : Store} {now : Instant} {agentId : AgentId} {r : ClaimRef}

theorem revertExpiredRow_of_queued {row : PendingAdjudicationRow} (now : Instant)
    (hq : Queued σ row.agentId row.challengerClaimRef) :
    revertExpiredRow σ row now =
      (true, markExpired (appendLedgerEntry σ (expiredEntry row (expiryRationale row now) now))
        row.handleId) :=
  if_neg (not_not_intro hq)

theorem revertOrphan_of_queued {orphan : OrphanedQueuedClaim} (now : Instant)
    (hq : Queued σ orphan.agentId orphan.challengerClaimRef) :
    revertOrphan σ orphan now = (true, appendLedgerEntry σ (orphanEntry orphan now)) :=
  if_neg (not_not_intro hq)

theorem reverts_expired (now : Instant) :
    Reverts now (fun σ row => revertExpiredRow σ row now)
      (fun row => expiredEntry row (expiryRationale row now) now) where
  idle σ row hq := if_pos hq
  writes σ row hq := by
    rw [revertExpiredRow_of_queued now hq]
    exact setPendingStatus_appends (appendLedgerEntry_appends σ _) _ _
  contested row := ⟨rfl, rfl⟩

theorem reverts_orphan (now : Instant) :
    Reverts now (fun σ orphan => revertOrphan σ orphan now) (orphanEntry · now) where
  idle σ orphan hq := if_pos hq
  writes σ orphan hq := by
    rw [revertOrphan_of_queued now hq]
    exact appendLedgerEntry_appends σ _
  contested orphan := ⟨rfl, rfl⟩

/-- The row as the first phase leaves it. -/
def lapse (handles : List Uuid) (row : PendingAdjudicationRow) : PendingAdjudicationRow :=
  if row.handleId ∈ handles then { row with status := .expired } else row

theorem lapse_withStatus (handles : List Uuid) (handleId : Uuid) (row : PendingAdjudicationRow) :
    lapse handles (withStatus handleId .expired row) = lapse (handleId :: handles) row := by
  unfold lapse
  rw [withStatus_handleId]
  by_cases hhandle : row.handleId = handleId
  · rw [if_pos (List.mem_cons.mpr (.inl hhandle))]
    by_cases hin : row.handleId ∈ handles <;> simp [withStatus, hhandle]
  · have hkept : withStatus handleId .expired row = row := by simp [withStatus, hhandle]
    rw [hkept]
    simp [List.mem_cons, hhandle]

/-- The second phase leaves the pending table alone. -/
theorem orphanPass_pending (items : List OrphanedQueuedClaim) (start : ℕ × Store) :
    (sweepPass (fun σ orphan => revertOrphan σ orphan now) items start).2.pending =
      start.2.pending := by
  induction items generalizing start with
  | nil => rfl
  | cons item items ih =>
    rw [sweepPass_cons, ih]
    dsimp only
    unfold revertOrphan
    split <;> rfl

variable (now) in
/-- The first phase marks the rows whose challenger was queued. -/
theorem expiredPass_pending (items : List PendingAdjudicationRow)
    (hkeys : (items.map (·.challengerClaimRef)).Nodup) (start : ℕ × Store) :
    ∃ handles, (sweepPass (fun σ row => revertExpiredRow σ row now) items start).2.pending =
        start.2.pending.map (lapse handles) ∧
      ∀ handleId, handleId ∈ handles ↔ ∃ row ∈ items, row.handleId = handleId ∧
        Queued start.2 row.agentId row.challengerClaimRef := by
  induction items generalizing start with
  | nil =>
    refine ⟨[], ?_, by simp⟩
    have hid : lapse [] = id := by
      funext row
      simp [lapse]
    rw [sweepPass_nil, hid, List.map_id]
  | cons item items ih =>
    obtain ⟨hnot, hkeys⟩ := List.nodup_cons.mp hkeys
    obtain ⟨handles, htable, hmem⟩ := ih hkeys
      (start.1 + (revertExpiredRow start.2 item now).1.toNat, (revertExpiredRow start.2 item now).2)
    have hsame : ∀ row ∈ items, (Queued (revertExpiredRow start.2 item now).2 row.agentId
        row.challengerClaimRef ↔ Queued start.2 row.agentId row.challengerClaimRef) := by
      intro row hrow
      rw [(reverts_expired now).step_queued_iff item]
      refine and_iff_left ?_
      rintro ⟨e, he, _⟩
      obtain ⟨other, hother, rfl, _, href⟩ := mem_readied.mp he
      rw [List.mem_singleton.mp hother] at href
      exact hnot (List.mem_map.mpr ⟨row, hrow, href.symm⟩)
    rw [sweepPass_cons, htable]
    dsimp only at hmem ⊢
    by_cases hq : Queued start.2 item.agentId item.challengerClaimRef
    · refine ⟨item.handleId :: handles, ?_, fun handleId => ?_⟩
      · have hmarked : (revertExpiredRow start.2 item now).2.pending =
            start.2.pending.map (withStatus item.handleId .expired) := by
          rw [revertExpiredRow_of_queued now hq]
          rfl
        rw [hmarked, List.map_map]
        exact List.map_congr_left fun row _ => lapse_withStatus handles item.handleId row
      · rw [List.mem_cons, hmem]
        constructor
        · rintro (rfl | ⟨row, hrow, hhandle, hrq⟩)
          · exact ⟨item, List.mem_cons_self, rfl, hq⟩
          · exact ⟨row, List.mem_cons_of_mem _ hrow, hhandle, (hsame row hrow).mp hrq⟩
        · rintro ⟨row, hrow, hhandle, hrq⟩
          rcases List.mem_cons.mp hrow with rfl | hrow
          · exact .inl hhandle.symm
          · exact .inr ⟨row, hrow, hhandle, (hsame row hrow).mpr hrq⟩
    · rw [(reverts_expired now).idle start.2 item hq] at hsame hmem ⊢
      refine ⟨handles, rfl, fun handleId => (hmem handleId).trans ?_⟩
      constructor
      · rintro ⟨row, hrow, hhandle, hrq⟩
        exact ⟨row, List.mem_cons_of_mem _ hrow, hhandle, hrq⟩
      · rintro ⟨row, hrow, hhandle, hrq⟩
        rcases List.mem_cons.mp hrow with rfl | hrow
        · exact absurd hrq hq
        · exact ⟨row, hrow, hhandle, hrq⟩

end Phases

section Listings

variable {eng : Engine} {σ : Store} {now : Instant} {agentId : AgentId} {r : ClaimRef}
variable {row : PendingAdjudicationRow}

theorem mem_listExpired : row ∈ listExpired σ now ↔
    row ∈ σ.pending ∧ row.status = .pending ∧ ∃ t, row.expiresAt = some t ∧ t ≤ now := by
  rw [listExpired, mem_inOrder, List.mem_filter, Bool.and_eq_true, beq_iff_eq,
    Option.any_eq_true]
  simp only [decide_eq_true_iff]
  tauto

theorem not_listed_of_unexpired (h : ∀ t, row.expiresAt = some t → now < t) :
    row ∉ listExpired σ now := by
  intro hrow
  obtain ⟨_, _, t, ht, hle⟩ := mem_listExpired.mp hrow
  exact absurd (h t ht) (not_lt_of_ge hle)

theorem listExpired_nodup (hkeys : DistinctRows σ) (now : Instant) :
    ((listExpired σ now).map (·.challengerClaimRef)).Nodup := by
  have hperm := (inOrder_perm (fun row : PendingAdjudicationRow => row.expiresAt.getD 0)
    (σ.pending.filter fun row =>
      row.expiresAt.any (fun t => decide (t ≤ now)) && row.status == .pending)).map
        (·.challengerClaimRef)
  exact hperm.nodup_iff.mpr (hkeys.challengers.sublist (List.filter_sublist.map _))

/-- The listing finds the queued claims without a pending row, and no claim with one. -/
theorem listed_of_queued (hstored : QueuedStored σ)
    (hq : Queued σ agentId r) (hrow : hasPendingRow σ agentId r = false) :
    ∃ orphan ∈ listQueuedOrphanClaims σ, orphan.agentId = agentId ∧
      orphan.challengerClaimRef = r := by
  rw [Queued, currentDisposition_eq] at hq
  obtain ⟨e, he, hqueued⟩ := Option.map_eq_some_iff.mp hq
  obtain ⟨hledger, rfl, rfl⟩ := mem_entriesOf.mp (σ.ties.mem_of_last _ he)
  exact listed_of_entry hstored hledger hqueued
    (isLatestEntry_iff.mpr fun x hx => σ.ties.le_of_last _ he hx) hrow

theorem not_listed_of_row (hrow : hasPendingRow σ agentId r = true) :
    ∀ orphan ∈ listQueuedOrphanClaims σ,
      ¬ (orphan.agentId = agentId ∧ orphan.challengerClaimRef = r) := by
  rintro orphan horphan ⟨rfl, rfl⟩
  obtain ⟨e, he, hmap⟩ := List.mem_flatMap.mp horphan
  obtain ⟨c, _, rfl⟩ := List.mem_map.mp hmap
  have hnone := (List.mem_filter.mp he).2
  simp only [Bool.and_eq_true, Bool.not_eq_true'] at hnone
  exact absurd (hrow.symm.trans hnone.2) (by decide)

end Listings

section Swept

variable {eng : Engine} {σ : Store} {now : Instant} {agentId : AgentId} {r : ClaimRef}

theorem sweep_eq (hstore : eng.pendingStorePresent = true) :
    sweepExpiredAdjudications eng σ now =
      sweepPass (fun σ orphan => revertOrphan σ orphan now)
        (listQueuedOrphanClaims (afterExpired σ now).2) (afterExpired σ now) := if_pos hstore

variable (σ now) in
theorem sweep_of_no_store (hstore : eng.pendingStorePresent ≠ true) :
    sweepExpiredAdjudications eng σ now = (0, σ) := if_neg hstore

/-- The rows still pending after the first phase. -/
theorem pending_afterExpired_iff (hkeys : DistinctRows σ) {row : PendingAdjudicationRow} :
    row ∈ (afterExpired σ now).2.pending ∧ row.status = .pending ↔
      row ∈ σ.pending ∧ row.status = .pending ∧
        ¬ (row ∈ listExpired σ now ∧ Queued σ row.agentId row.challengerClaimRef) := by
  obtain ⟨handles, htable, hmem⟩ :=
    expiredPass_pending now (listExpired σ now) (listExpired_nodup hkeys now) (0, σ)
  have hmarked : ∀ row ∈ σ.pending, (row.handleId ∈ handles ↔
      row ∈ listExpired σ now ∧ Queued σ row.agentId row.challengerClaimRef) := by
    intro row hrow
    rw [hmem]
    constructor
    · rintro ⟨other, hother, hhandle, hq⟩
      obtain rfl := hkeys.eq_of_handle (mem_listExpired.mp hother).1 hrow hhandle
      exact ⟨hother, hq⟩
    · rintro ⟨hlisted, hq⟩
      exact ⟨row, hlisted, rfl, hq⟩
  rw [afterExpired, htable]
  constructor
  · rintro ⟨hrow, hstatus⟩
    obtain ⟨old, hold, rfl⟩ := List.mem_map.mp hrow
    by_cases hin : old.handleId ∈ handles
    · rw [lapse, if_pos hin] at hstatus
      cases hstatus
    · rw [lapse, if_neg hin] at hstatus ⊢
      exact ⟨hold, hstatus, fun h => hin ((hmarked old hold).mpr h)⟩
  · rintro ⟨hrow, hstatus, hnot⟩
    refine ⟨List.mem_map.mpr ⟨row, hrow, ?_⟩, hstatus⟩
    exact if_neg fun hin => hnot ((hmarked row hrow).mp hin)

theorem swept_pending (hstore : eng.pendingStorePresent = true) :
    (sweepExpiredAdjudications eng σ now).2.pending = (afterExpired σ now).2.pending := by
  rw [sweep_eq hstore]
  exact orphanPass_pending _ _

variable (now) in
theorem hasPendingRow_afterExpired_iff (hkeys : DistinctRows σ) :
    hasPendingRow (afterExpired σ now).2 agentId r = true ↔
      ∃ row, PendingFor σ agentId r row ∧
        ¬ (row ∈ listExpired σ now ∧ Queued σ agentId r) := by
  rw [hasPendingRow_iff]
  constructor
  · rintro ⟨row, hrow, hstatus, rfl, rfl⟩
    obtain ⟨hold, _, hnot⟩ := (pending_afterExpired_iff hkeys).mp ⟨hrow, hstatus⟩
    exact ⟨row, ⟨hold, hstatus, rfl, rfl⟩, hnot⟩
  · rintro ⟨row, ⟨hrow, hstatus, rfl, rfl⟩, hnot⟩
    obtain ⟨hafter, _⟩ := (pending_afterExpired_iff hkeys).mpr ⟨hrow, hstatus, hnot⟩
    exact ⟨row, hafter, hstatus, rfl, rfl⟩

theorem reversions_eq (σ : Store) (now : Instant) (agentId : AgentId) (r : ClaimRef) :
    reversions σ now agentId r =
      readied (fun row => expiredEntry row (expiryRationale row now) now) (listExpired σ now)
          agentId r ++
        readied (orphanEntry · now) (listQueuedOrphanClaims (afterExpired σ now).2) agentId r := by
  rw [reversions, readied, readied, newEntries, newEntries, newEntries, ← List.filter_append]

/-- Of the entries ready for a queued claim, a sweep writes those up to the first that is
    read. -/
theorem entriesOf_swept (hstore : eng.pendingStorePresent = true) :
    entriesOf (sweepExpiredAdjudications eng σ now).2 agentId none r =
      entriesOf σ agentId none r ++ if Queued σ agentId r then
        σ.ties.reverse.untilTaken LedgerEntry.recordedAt (entriesOf σ agentId none r)
          (reversions σ now agentId r) else [] := by
  have hties : (afterExpired σ now).2.ties = σ.ties := (reverts_expired now).ties_eq _ (0, σ)
  have hentries := (reverts_expired now).entriesOf_eq agentId r (listExpired σ now) (0, σ)
  have hqueued := (reverts_expired now).queued_iff agentId r (listExpired σ now) (0, σ)
  change entriesOf (afterExpired σ now).2 agentId none r = _ at hentries
  change Queued (afterExpired σ now).2 agentId r ↔ _ at hqueued
  rw [sweep_eq hstore, (reverts_orphan now).entriesOf_eq, hties]
  by_cases hq : Queued σ agentId r
  · simp only [hq, if_true, true_and, Overtaken] at hentries hqueued ⊢
    rw [hentries, reversions_eq, TieOrder.untilTaken_append, List.append_assoc]
    by_cases htaken : σ.ties.reverse.Overtakes LedgerEntry.recordedAt
        (entriesOf σ agentId none r)
        (readied (fun row => expiredEntry row (expiryRationale row now) now) (listExpired σ now)
          agentId r)
    · simp [hqueued, htaken]
    · rw [TieOrder.untilTaken_of_not_overtakes _ _ htaken]
      simp [hqueued, htaken]
  · have hnot : ¬ Queued (afterExpired σ now).2 agentId r := fun hold => hq (hqueued.mp hold).1
    simp only [hq, if_false, List.append_nil] at hentries
    simp only [hq, hnot, if_false, List.append_nil, hentries]

theorem swept_ties (eng : Engine) (σ : Store) (now : Instant) :
    (sweepExpiredAdjudications eng σ now).2.ties = σ.ties := by
  by_cases hstore : eng.pendingStorePresent = true
  · rw [sweep_eq hstore, (reverts_orphan now).ties_eq]
    exact (reverts_expired now).ties_eq _ (0, σ)
  · rw [sweep_of_no_store _ _ hstore]

theorem reversions_contested {e : LedgerEntry} (he : e ∈ reversions σ now agentId r) :
    e.disposition = .contested ∧ e.recordedAt = now := by
  rw [reversions_eq, List.mem_append] at he
  exact he.elim (reverts_expired now).readied_contested (reverts_orphan now).readied_contested

theorem queued_swept_iff (hstore : eng.pendingStorePresent = true) :
    Queued (sweepExpiredAdjudications eng σ now).2 agentId r ↔
      Queued σ agentId r ∧ ¬ Overtaken σ agentId r (reversions σ now agentId r) := by
  have hentries := @entriesOf_swept eng σ now agentId r hstore
  by_cases hq : Queued σ agentId r
  · rw [if_pos hq] at hentries
    rw [queued_append_iff (swept_ties eng σ now) hentries fun e he =>
      (reversions_contested (TieOrder.mem_of_untilTaken _ _ he)).1, Overtaken,
      TieOrder.overtakes_untilTaken_iff, Overtaken]
  · rw [if_neg hq, List.append_nil] at hentries
    rw [queued_congr (swept_ties eng σ now) hentries]
    exact ⟨fun hold => absurd hold hq, fun hold => absurd hold.1 hq⟩

/-- Nothing is ready for a claim with an unexpired row, -/
theorem reversions_of_row (hkeys : DistinctRows σ) {row : PendingAdjudicationRow}
    (hfor : PendingFor σ agentId r row) (hun : row ∉ listExpired σ now) :
    reversions σ now agentId r = [] := by
  have hrow : hasPendingRow (afterExpired σ now).2 agentId r = true :=
    (hasPendingRow_afterExpired_iff now hkeys).mpr ⟨row, hfor, fun hboth => hun hboth.1⟩
  refine List.eq_nil_iff_forall_not_mem.mpr fun e he => ?_
  rw [reversions_eq, List.mem_append] at he
  rcases he with he | he
  · obtain ⟨other, hother, rfl, _, href⟩ := mem_readied.mp he
    have hsame := hkeys.eq_of_challenger (mem_listExpired.mp hother).1 hfor.1
      (href.trans hfor.2.2.2.symm)
    exact hun (hsame ▸ hother)
  · obtain ⟨orphan, horphan, rfl, hkey⟩ := mem_readied.mp he
    exact not_listed_of_row hrow orphan horphan hkey

/-- A sweep appends contested entries at its stamp. -/
theorem swept_written (eng : Engine) (σ : Store) (now : Instant) :
    ∃ es, Appends σ (sweepExpiredAdjudications eng σ now).2 { ledger := es } ∧
      ∀ e ∈ es, e.disposition = .contested ∧ e.recordedAt = now := by
  by_cases hstore : eng.pendingStorePresent = true
  · obtain ⟨es, happ, hes⟩ := (reverts_expired now).written (listExpired σ now) (0, σ)
    obtain ⟨fs, happ', hfs⟩ := (reverts_orphan now).written
      (listQueuedOrphanClaims (afterExpired σ now).2) (afterExpired σ now)
    rw [sweep_eq hstore]
    exact ⟨es ++ fs, appends_ledger_trans happ happ',
      fun e he => (List.mem_append.mp he).elim (hes e) (hfs e)⟩
  · rw [sweep_of_no_store _ _ hstore]
    exact ⟨[], .nothing σ, by simp⟩

/-- The first phase keeps the listing's joins. -/
theorem stored_afterExpired (hstored : QueuedStored σ) :
    QueuedStored (afterExpired σ now).2 := by
  obtain ⟨es, happ, hes⟩ := (reverts_expired now).written (listExpired σ now) (0, σ)
  intro e he hqueued
  rw [afterExpired, happ.ledger] at he
  rw [afterExpired, happ.claims]
  rcases List.mem_append.mp he with he | he
  · obtain ⟨c, hc, hkey⟩ := hstored e he hqueued
    exact ⟨c, List.mem_append_left _ hc, hkey⟩
  · rw [(hes e he).1] at hqueued
    cases hqueued

/-- and something is for any other queued claim. -/
theorem reversions_ne_nil (hkeys : DistinctRows σ) (hstored : QueuedStored σ)
    (hq : Queued σ agentId r)
    (hnone : ¬ ∃ row, PendingFor σ agentId r row ∧ row ∉ listExpired σ now) :
    reversions σ now agentId r ≠ [] := by
  intro hnil
  rw [reversions_eq, List.append_eq_nil_iff] at hnil
  have hafter : Queued (afterExpired σ now).2 agentId r := by
    refine ((reverts_expired now).queued_iff _ _ _ (0, σ)).mpr ⟨hq, ?_⟩
    rw [hnil.1]
    exact TieOrder.not_overtakes_nil _ _
  cases hrow : hasPendingRow (afterExpired σ now).2 agentId r with
  | true =>
    obtain ⟨row, hfor, hnot⟩ := (hasPendingRow_afterExpired_iff now hkeys).mp hrow
    exact hnone ⟨row, hfor, fun hlisted => hnot ⟨hlisted, hq⟩⟩
  | false =>
    obtain ⟨orphan, horphan, hkey⟩ := listed_of_queued (stored_afterExpired hstored) hafter hrow
    exact List.ne_nil_of_mem (mem_readied.mpr ⟨orphan, horphan, rfl, hkey⟩) hnil.2

end Swept

section Main

variable {eng : Engine} {σ : Store} {now : Instant}

theorem drainable_of_drains (hkeys : DistinctRows σ) (h : Drains eng σ now) :
    Drainable eng σ now := by
  by_cases hstore : eng.pendingStorePresent = true
  · have hrows : ∀ row ∈ listExpired σ now, Queued σ row.agentId row.challengerClaimRef := by
      intro row hrow
      by_contra hnot
      obtain ⟨hmem, hstatus, t, ht, hle⟩ := mem_listExpired.mp hrow
      obtain ⟨hafter, _⟩ :=
        (pending_afterExpired_iff hkeys).mpr ⟨hmem, hstatus, fun hboth => hnot hboth.2⟩
      rw [← swept_pending hstore] at hafter
      exact absurd (h.expired row hafter hstatus t ht) (not_lt_of_ge hle)
    refine ⟨fun row hrow => ⟨hstore, hrows row hrow⟩, fun agentId r hq => ?_⟩
    by_cases htaken : Overtaken σ agentId r (reversions σ now agentId r)
    · exact .inr ⟨hstore, htaken⟩
    · left
      have hrow := h.orphans agentId r ((queued_swept_iff hstore).mpr ⟨hq, htaken⟩)
      rw [hasPendingRow_of_table (swept_pending hstore)] at hrow
      obtain ⟨row, hfor, hnot⟩ := (hasPendingRow_afterExpired_iff now hkeys).mp hrow
      exact ⟨row, hfor, fun hlisted => hnot ⟨hlisted, hq⟩⟩
  · have hsame := sweep_of_no_store σ now hstore
    have hnone : ∀ row, row ∉ listExpired σ now := by
      intro row hrow
      obtain ⟨hmem, hstatus, t, ht, hle⟩ := mem_listExpired.mp hrow
      have hpending := h.expired
      rw [hsame] at hpending
      exact absurd (hpending row hmem hstatus t ht) (not_lt_of_ge hle)
    refine ⟨fun row hrow => absurd hrow (hnone row), fun agentId r hq => .inl ?_⟩
    have horphans := h.orphans agentId r
    rw [hsame] at horphans
    obtain ⟨row, hfor⟩ := hasPendingRow_iff.mp (horphans hq)
    exact ⟨row, hfor, hnone row⟩

/-- An unexpired row and the log of its challenger are no target of either phase. -/
theorem untouched_of_unexpired (hkeys : DistinctRows σ) (hstore : eng.pendingStorePresent = true)
    {row : PendingAdjudicationRow} (hrow : row ∈ σ.pending) (hstatus : row.status = .pending)
    (hun : row ∉ listExpired σ now) :
    let swept := (sweepExpiredAdjudications eng σ now).2
    row ∈ swept.pending ∧
      entriesOf swept row.agentId none row.challengerClaimRef =
        entriesOf σ row.agentId none row.challengerClaimRef ∧
      assertionsOf swept row.agentId row.challengerClaimRef =
        assertionsOf σ row.agentId row.challengerClaimRef := by
  have hready := reversions_of_row hkeys ⟨hrow, hstatus, rfl, rfl⟩ hun
  refine ⟨?_, ?_, ?_⟩
  · rw [swept_pending hstore]
    exact ((pending_afterExpired_iff hkeys).mpr
      ⟨hrow, hstatus, fun hboth => hun hboth.1⟩).1
  · rw [entriesOf_swept hstore, hready]
    simp [TieOrder.untilTaken]
  · obtain ⟨es, happ, _⟩ := swept_written eng σ now
    exact (assertionsOf_append happ _ _).trans (List.append_nil _)

theorem drains_of_drainable (hkeys : DistinctRows σ) (h : Drainable eng σ now) :
    Drains eng σ now := by
  by_cases hstore : eng.pendingStorePresent = true
  · have hexpired : ∀ row ∈ (sweepExpiredAdjudications eng σ now).2.pending,
        row.status = .pending → ∀ t, row.expiresAt = some t → now < t := by
      intro row hrow hstatus t ht
      by_contra hle
      rw [swept_pending hstore] at hrow
      obtain ⟨hold, _, hnot⟩ := (pending_afterExpired_iff hkeys).mp ⟨hrow, hstatus⟩
      have hlisted := mem_listExpired.mpr ⟨hold, hstatus, t, ht, not_lt.mp hle⟩
      exact hnot ⟨hlisted, (h.rows row hlisted).2⟩
    have horphans : ∀ agentId r, Queued (sweepExpiredAdjudications eng σ now).2 agentId r →
        hasPendingRow (sweepExpiredAdjudications eng σ now).2 agentId r = true := by
      intro agentId r hq
      obtain ⟨hold, hbehind⟩ := (queued_swept_iff hstore).mp hq
      rw [hasPendingRow_of_table (swept_pending hstore)]
      rcases h.claims agentId r hold with ⟨row, hfor, hun⟩ | ⟨_, htaken⟩
      · exact (hasPendingRow_afterExpired_iff now hkeys).mpr ⟨row, hfor, fun hboth => hun hboth.1⟩
      · exact absurd htaken hbehind
    refine ⟨hexpired, horphans, fun row hrow hstatus hun => ?_, ?_⟩
    · exact untouched_of_unexpired hkeys hstore hrow hstatus (not_listed_of_unexpired hun)
    · generalize hswept : (sweepExpiredAdjudications eng σ now).2 = swept at hexpired horphans
      have hnone : listExpired swept now = [] := by
        refine List.eq_nil_iff_forall_not_mem.mpr fun row hrow => ?_
        obtain ⟨hmem, hstatus, t, ht, hle⟩ := mem_listExpired.mp hrow
        exact absurd (hexpired row hmem hstatus t ht) (not_lt_of_ge hle)
      have hfirst : afterExpired swept now = (0, swept) := by
        rw [afterExpired, hnone, sweepPass_nil]
      rw [sweep_eq hstore, hfirst]
      refine (reverts_orphan now).idle_pass _ fun orphan horphan hq => ?_
      exact not_listed_of_row (horphans _ _ hq) orphan horphan ⟨rfl, rfl⟩
  · have hsame : ∀ σ, sweepExpiredAdjudications eng σ now = (0, σ) :=
      fun σ => sweep_of_no_store σ now hstore
    have hnone : ∀ row, row ∉ listExpired σ now := fun row hrow => hstore (h.rows row hrow).1
    refine ⟨fun row hrow hstatus t ht => ?_, fun agentId r hq => ?_, fun row hrow _ _ => ?_, ?_⟩
    · rw [hsame] at hrow
      by_contra hle
      exact hnone row (mem_listExpired.mpr ⟨hrow, hstatus, t, ht, not_lt.mp hle⟩)
    · rw [hsame] at hq ⊢
      rcases h.claims agentId r hq with ⟨row, hfor, _⟩ | ⟨hpresent, _⟩
      · exact hasPendingRow_iff.mpr ⟨row, hfor⟩
      · exact absurd hpresent hstore
    · rw [hsame]
      exact ⟨hrow, rfl, rfl⟩
    · rw [hsame, hsame]

theorem mem_ledger_of_queued {agentId : AgentId} {r : ClaimRef} (hq : Queued σ agentId r) :
    ∃ e ∈ σ.ledger, e.agentId = agentId ∧ e.claimRef = r := by
  rw [Queued, currentDisposition_eq] at hq
  obtain ⟨e, he, _⟩ := Option.map_eq_some_iff.mp hq
  exact ⟨e, mem_entriesOf.mp (σ.ties.mem_of_last _ he)⟩

/-- An engine whose pending rows expire after 100. -/
def expiring : Engine :=
  ⟨{ EngineConfig.default with defaultAdjudicationTtl := some 100 }, true, true⟩

def rivalsWithExpiry : Store := run expiring Store.sqlite rivals

end Main

end Mempill.SweepDrains
