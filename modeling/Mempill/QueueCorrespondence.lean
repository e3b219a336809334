import Mempill.HandleOnce
import Mempill.PendingRows
import Mempill.ReconcilePass
import Mempill.Sweep
import Mempill.WrittenClaims

set_option autoImplicit false

/-!
# Queue correspondence

When the claims on the queue are exactly the challengers of the pending rows.
-/
namespace Mempill.QueueCorrespondence
open Mempill.Types Mempill.Persistence Mempill.Ledger Mempill.Gate Mempill.Rows Mempill.IngestClaim
open Mempill.AssertValidity Mempill.SubmitAdjudication Mempill.Sweep Mempill.Reconcile
open Mempill.Engine Mempill.Steps Mempill.Invariants Mempill.ClaimLog Mempill.QueueRows
open Mempill.PendingRows Mempill.ReconcilePass Mempill.Verdicts Mempill.HandleOnce Transition
open StampedLog

section Statement

def PendingFor (σ : Store) (agentId : AgentId) (r : ClaimRef) (row : PendingAdjudicationRow) :
    Prop :=
  row ∈ σ.pending ∧ row.status = .pending ∧ row.agentId = agentId ∧ row.challengerClaimRef = r

/-- The queue, under either rule for the latest entry, is the set of challengers with a
    pending row of their own; the sweep finds no orphan, and a verdict that comes
    before the expiry is applied. -/
structure QueueMatchesRows (eng : Engine) (σ : Store) : Prop where
  latest : ∀ agentId r, latestOf σ agentId none r = some .queuedForAdjudication ↔
    ∃! row, PendingFor σ agentId r row
  current : ∀ agentId r, currentDisposition σ agentId r = some .queuedForAdjudication ↔
    ∃! row, PendingFor σ agentId r row
  orphans : listQueuedOrphanClaims σ = []
  resolvable : ∀ agentId r row, PendingFor σ agentId r row →
    ∀ response now assertionRef, (∀ t, row.expiresAt = some t → now < t) →
      (SubmitAdjudication.execute eng.config σ row.handleId response now assertionRef).1 =
        .ok ⟨row.handleId, verdictDisposition response.verdict, r⟩

/-- The oracle answers a request with a handle of its own. -/
def PortsAnswer (σ : Store) : Op → Prop
  | .ingestClaim _ _ _ (.ok handleId) => getPending σ handleId = none
  | .ingestClaim _ _ _ (.error _) => False
  | _ => True

/-- A step that takes a queued challenger off the queue is stamped after the
    challenger's entries. -/
def FollowsAll (σ : Store) (row : PendingAdjudicationRow) (now : Instant) : Prop :=
  currentDisposition σ row.agentId row.challengerClaimRef = some .queuedForAdjudication →
    ∀ e ∈ entriesOf σ row.agentId none row.challengerClaimRef, e.recordedAt < now

/-- The older entries are read ahead of the new ones by both readers of a tie. -/
def Unread (ties : TieOrder LedgerEntry) (es news : List LedgerEntry) : Prop :=
  ¬ ties.Overtakes LedgerEntry.recordedAt es news ∧
    ¬ ties.reverse.Overtakes LedgerEntry.recordedAt es news

/-- A claim that is on the queue stays there. -/
def StaysQueued (σ : Store) (agentId : AgentId) (r : ClaimRef) (news : List LedgerEntry) : Prop :=
  currentDisposition σ agentId r = some .queuedForAdjudication →
    Unread σ.ties (entriesOf σ agentId none r) news

/-- A verdict that the guards let through leaves the other claims on the queue there. -/
def SparesQueue (config : EngineConfig) (σ : Store) (row : PendingAdjudicationRow)
    (response : AdjudicationResponse) (now : Instant) (assertionRef : Uuid) : Prop :=
  LetsThrough σ row now → ∀ challenger ∈ loadClaim σ row.agentId row.challengerClaimRef,
    ∀ r ∈ alsoWritten σ row response.verdict, r ≠ row.challengerClaimRef →
      StaysQueued σ row.agentId r (newEntries
        (verdictWritten config σ row challenger response now assertionRef) row.agentId r)

/-- A pass queues a claim only where it is queued already or has a later entry, and
    leaves on the queue what it does not queue. -/
def PassKeepsQueue (eng : Engine) (σ : Store) (req : ReconcileRequest) (now : Instant) : Prop :=
  ∀ d ∈ decisions eng σ req now,
    (d.2.disposition = .queuedForAdjudication →
      currentDisposition σ req.agentId d.1 = some .queuedForAdjudication ∨
        ∃ e ∈ entriesOf σ req.agentId none d.1, now < e.recordedAt) ∧
    (d.2.disposition ≠ .queuedForAdjudication →
      StaysQueued σ req.agentId d.1 (passNews eng σ req now req.agentId d.1))

instance (ties : TieOrder LedgerEntry) (es news : List LedgerEntry) :
    Decidable (Unread ties es news) := inferInstanceAs (Decidable (_ ∧ _))

instance (σ : Store) (row : PendingAdjudicationRow) (now : Instant) :
    Decidable (FollowsAll σ row now) := inferInstanceAs (Decidable (_ → _))

instance (σ : Store) (agentId : AgentId) (r : ClaimRef) (news : List LedgerEntry) :
    Decidable (StaysQueued σ agentId r news) := inferInstanceAs (Decidable (_ → _))

instance (config : EngineConfig) (σ : Store) (row : PendingAdjudicationRow)
    (response : AdjudicationResponse) (now : Instant) (assertionRef : Uuid) :
    Decidable (SparesQueue config σ row response now assertionRef) :=
  inferInstanceAs (Decidable (_ → _))

instance (eng : Engine) (σ : Store) (req : ReconcileRequest) (now : Instant) :
    Decidable (PassKeepsQueue eng σ req now) := inferInstanceAs (Decidable (∀ _ ∈ _, _))

def KeepsQueue (eng : Engine) (σ : Store) : Op → Prop
  | .assertValidity req now _ =>
    req.assertion = .reopen → ReopenAccepted σ req now →
      StaysQueued σ req.agentId req.target [hostEntry req .reinstated (reopenRationale now) now]
  | .submitAdjudication handleId response now assertionRef =>
    match getPending σ handleId with
    | none => True
    | some row =>
      FollowsAll σ row now ∧ SparesQueue eng.config σ row response now assertionRef
  | .sweepExpired row now => FollowsAll σ row now
  | .sweepOrphan orphan now =>
    StaysQueued σ orphan.agentId orphan.challengerClaimRef [orphanEntry orphan now]
  | .reconcile req now => PassKeepsQueue eng σ req now
  | _ => True

instance (σ : Store) : (op : Op) → Decidable (PortsAnswer σ op)
  | .ingestClaim _ _ _ (.ok handleId) =>
    inferInstanceAs (Decidable (getPending σ handleId = none))
  | .ingestClaim _ _ _ (.error _) => .isFalse id
  | .assertValidity _ _ _ => .isTrue trivial
  | .submitAdjudication _ _ _ _ => .isTrue trivial
  | .reconcile _ _ => .isTrue trivial
  | .sweepExpired _ _ => .isTrue trivial
  | .sweepOrphan _ _ => .isTrue trivial
  | .appendEdge _ => .isTrue trivial

instance (eng : Engine) (σ : Store) : (op : Op) → Decidable (KeepsQueue eng σ op)
  | .submitAdjudication handleId response now assertionRef =>
    match h : getPending σ handleId with
    | none => .isTrue (by rw [KeepsQueue, h]; trivial)
    | some row =>
      decidable_of_iff
        (FollowsAll σ row now ∧ SparesQueue eng.config σ row response now assertionRef)
        (by rw [KeepsQueue, h])
  | .sweepExpired row now => decidable_of_iff (FollowsAll σ row now) Iff.rfl
  | .sweepOrphan orphan now =>
    decidable_of_iff
      (StaysQueued σ orphan.agentId orphan.challengerClaimRef [orphanEntry orphan now]) Iff.rfl
  | .reconcile req now => decidable_of_iff (PassKeepsQueue eng σ req now) Iff.rfl
  | .ingestClaim _ _ _ _ => .isTrue trivial
  | .assertValidity req now _ =>
    decidable_of_iff (req.assertion = .reopen → ReopenAccepted σ req now →
      StaysQueued σ req.agentId req.target
        [hostEntry req .reinstated (reopenRationale now) now]) Iff.rfl
  | .appendEdge _ => .isTrue trivial

end Statement

section Claim

/-- Of one claim: on the queue under either rule for the latest entry, with a pending
    row, or with no latest entry that queues it, without one. -/
inductive QueueState (ties : TieOrder LedgerEntry) (es : List LedgerEntry) : Bool → Prop where
  | queued {first last : LedgerEntry} (hfirst : ties.first LedgerEntry.recordedAt es = some first)
      (hlast : ties.last LedgerEntry.recordedAt es = some last)
      (hqueued : first.disposition = .queuedForAdjudication ∧
        last.disposition = .queuedForAdjudication) : QueueState ties es true
  | off (htop : Tops LedgerEntry.recordedAt (·.disposition ≠ .queuedForAdjudication) es) :
      QueueState ties es false

variable {ties : TieOrder LedgerEntry} {es news : List LedgerEntry} {row : Bool} {now : Instant}

theorem QueueState.first_iff (h : QueueState ties es row) :
    (ties.first LedgerEntry.recordedAt es).map (·.disposition) = some .queuedForAdjudication ↔
      row = true := by
  cases h with
  | queued hfirst _ hqueued => simp [hfirst, hqueued.1]
  | off htop =>
    refine iff_of_false (fun hq => ?_) Bool.false_ne_true
    obtain ⟨e, he, hqueued⟩ := Option.map_eq_some_iff.mp hq
    exact ties.tops_first _ htop he hqueued

theorem QueueState.last_iff (h : QueueState ties es row) :
    (ties.last LedgerEntry.recordedAt es).map (·.disposition) = some .queuedForAdjudication ↔
      row = true := by
  cases h with
  | queued _ hlast hqueued => simp [hlast, hqueued.2]
  | off htop =>
    refine iff_of_false (fun hq => ?_) Bool.false_ne_true
    obtain ⟨e, he, hqueued⟩ := Option.map_eq_some_iff.mp hq
    exact ties.tops_last _ htop he hqueued

/-- Entries that agree with the row change nothing. -/
theorem QueueState.alike (h : QueueState ties es row)
    (hnews : ∀ e ∈ news, e.disposition = .queuedForAdjudication ↔ row = true) :
    QueueState ties (es ++ news) row := by
  cases h with
  | queued hfirst hlast hqueued =>
    rcases ties.first_spec LedgerEntry.recordedAt (es ++ news) with
      ⟨_, hnil⟩ | ⟨first', hfirst', _⟩
    · rw [(List.append_eq_nil_iff.mp hnil).1, TieOrder.first_nil] at hfirst
      cases hfirst
    rcases ties.last_spec LedgerEntry.recordedAt (es ++ news) with ⟨_, hnil⟩ | ⟨last', hlast', _⟩
    · rw [(List.append_eq_nil_iff.mp hnil).1, TieOrder.first_nil] at hfirst
      cases hfirst
    refine .queued hfirst' hlast' ⟨?_, ?_⟩
    · rcases ties.first_append_cases _ hfirst' with hold | hnew
      · rw [hfirst] at hold
        exact Option.some.inj hold ▸ hqueued.1
      · exact (hnews _ hnew).mpr rfl
    · rcases ties.last_append_cases _ hlast' with hold | hnew
      · rw [hlast] at hold
        exact Option.some.inj hold ▸ hqueued.2
      · exact (hnews _ hnew).mpr rfl
  | off htop =>
    exact .off (tops_append _ htop fun e he hqueued =>
      Bool.false_ne_true ((hnews e he).mp hqueued))

/-- Entries that do not queue leave a claim on the queue exactly if neither reader takes
    one of them. -/
theorem QueueState.unread_iff (h : QueueState ties es true)
    (hnews : ∀ e ∈ news, e.disposition ≠ .queuedForAdjudication) :
    QueueState ties (es ++ news) true ↔ Unread ties es news := by
  constructor
  · intro hkept
    cases hkept with
    | queued hfirst hlast hqueued =>
      constructor
      · rintro ⟨e, he, hahead⟩
        rw [hahead] at hfirst
        cases hfirst
        exact hnews _ he hqueued.1
      · rintro ⟨e, he, hahead⟩
        rw [← TieOrder.last_eq_first_reverse, hlast] at hahead
        cases hahead
        exact hnews _ he hqueued.2
  · rintro ⟨hfirst', hlast'⟩
    cases h with
    | queued hfirst hlast hqueued =>
      refine .queued ((ties.first_append_of_not_overtakes _ hfirst').trans hfirst) ?_ hqueued
      rw [TieOrder.last_eq_first_reverse, ties.reverse.first_append_of_not_overtakes _ hlast',
        ← TieOrder.last_eq_first_reverse, hlast]

/-- Entries of one stamp that queue put a claim on the queue unless it has a later one. -/
theorem QueueState.off_iff (h : QueueState ties es false) (hne : news ≠ [])
    (hnews : ∀ e ∈ news, e.recordedAt = now ∧ e.disposition = .queuedForAdjudication) :
    QueueState ties (es ++ news) false ↔ ∃ x ∈ es, now < x.recordedAt := by
  cases h with
  | off htop =>
    constructor
    · intro hkept
      by_contra hfresh
      cases hkept with
      | off htop' =>
        obtain ⟨e, he⟩ := List.exists_mem_of_ne_nil news hne
        refine htop' e (List.mem_append_right _ he) (fun x hx => ?_) (hnews e he).2
        rw [(hnews e he).1]
        rcases List.mem_append.mp hx with hx | hx
        · exact le_of_not_gt fun hlt => hfresh ⟨x, hx, hlt⟩
        · exact (hnews x hx).1.le
    · rintro ⟨x, hx, hlt⟩
      exact .off (tops_append_of_stale _ htop fun e he => ⟨x, hx, (hnews e he).1 ▸ hlt⟩)

/-- New entries of one stamp keep the state exactly if they agree with the row or stay
    behind. -/
theorem QueueState.kept_iff {queues : Prop} (h : QueueState ties es row) (hne : news ≠ [])
    (hnews : ∀ e ∈ news, e.recordedAt = now ∧ (e.disposition = .queuedForAdjudication ↔ queues)) :
    QueueState ties (es ++ news) row ↔
      (queues → row = true ∨ ∃ x ∈ es, now < x.recordedAt) ∧
        (¬ queues → row = true → Unread ties es news) := by
  by_cases hq : queues <;> cases row
  · rw [h.off_iff hne fun e he => ⟨(hnews e he).1, (hnews e he).2.mpr hq⟩]
    simp [hq]
  · refine iff_of_true (h.alike fun e he => ?_) ⟨fun _ => .inl rfl, absurd hq⟩
    exact iff_of_true ((hnews e he).2.mpr hq) rfl
  · refine iff_of_true (h.alike fun e he => ?_) ⟨fun h => absurd h hq, fun _ h => by cases h⟩
    exact iff_of_false (fun hqueued => hq ((hnews e he).2.mp hqueued)) Bool.false_ne_true
  · rw [h.unread_iff fun e he hqueued => hq ((hnews e he).2.mp hqueued)]
    simp [hq]

/-- New entries of one stamp take a claim off the queue exactly if they follow all older
    ones. -/
theorem QueueState.left_iff (h : QueueState ties es true) (hne : news ≠ [])
    (hnews : ∀ e ∈ news, e.recordedAt = now ∧ e.disposition ≠ .queuedForAdjudication) :
    QueueState ties (es ++ news) false ↔ ∀ x ∈ es, x.recordedAt < now := by
  constructor
  · intro hleft x hx
    by_contra hge
    cases h with
    | @queued first _ hfirst _ hqueued =>
      cases hleft with
      | off htop =>
        -- the entry that queues the claim is still among the latest
        refine htop first (List.mem_append_left _ (ties.mem_of_first _ hfirst)) ?_ hqueued.1
        intro y hy
        rcases List.mem_append.mp hy with hy | hy
        · exact ties.le_of_first _ hfirst hy
        · rw [(hnews y hy).1]
          exact (not_lt.mp hge).trans (ties.le_of_first _ hfirst hx)
  · intro hlt
    obtain ⟨e, he⟩ := List.exists_mem_of_ne_nil news hne
    exact .off (tops_append_of_lt _ (fun a ha => (hnews a ha).2) fun x hx =>
      ⟨e, he, (hnews e he).1 ▸ hlt x hx⟩)

end Claim

section Rows

variable {eng : Engine} {σ σ' : Store} {agentId : AgentId} {r : ClaimRef}

theorem hasPendingRow_iff :
    hasPendingRow σ agentId r = true ↔ ∃ row, PendingFor σ agentId r row := by
  simp only [hasPendingRow, List.any_eq_true, Bool.and_eq_true, beq_iff_eq, PendingFor]
  exact exists_congr fun row => by tauto

theorem hasPendingRow_of_table (h : σ'.pending = σ.pending) :
    hasPendingRow σ' agentId r = hasPendingRow σ agentId r := by
  rw [hasPendingRow, hasPendingRow, h]

theorem hasPendingRow_concat {row : PendingAdjudicationRow} (h : σ'.pending = σ.pending ++ [row])
    (hstatus : row.status = .pending) :
    hasPendingRow σ' agentId r =
      (hasPendingRow σ agentId r || row.challengerClaimRef == r && row.agentId == agentId) := by
  rw [hasPendingRow, h, List.any_append, hasPendingRow]
  simp [hstatus]

variable {marked : PendingAdjudicationRow} {status : PendingStatus}

/-- A retired row is no longer pending, and every other row stays as it is. -/
theorem hasPendingRow_marked (hσ : DistinctRows σ) (hmarked : marked ∈ σ.pending)
    (h : σ'.pending = σ.pending.map (withStatus marked.handleId status))
    (hstatus : status ≠ .pending) :
    hasPendingRow σ' agentId r =
      if marked.agentId = agentId ∧ marked.challengerClaimRef = r then false
      else hasPendingRow σ agentId r := by
  rw [Bool.eq_iff_iff, hasPendingRow_iff]
  split
  · rename_i hsame
    refine iff_of_false ?_ Bool.false_ne_true
    rintro ⟨row, hrow, hpending, _, href⟩
    rw [h] at hrow
    obtain ⟨old, hold, rfl⟩ := List.mem_map.mp hrow
    rw [withStatus_challengerClaimRef] at href
    obtain rfl := hσ.eq_of_challenger hold hmarked (href.trans hsame.2.symm)
    rw [withStatus_status, if_pos rfl] at hpending
    exact hstatus hpending
  · rename_i hdiff
    have hother : ∀ row ∈ σ.pending, row.agentId = agentId → row.challengerClaimRef = r →
        withStatus marked.handleId status row = row := by
      rintro row hrow rfl rfl
      have hne : ¬ row.handleId = marked.handleId := by
        intro hhandle
        obtain rfl := hσ.eq_of_handle hrow hmarked hhandle
        exact hdiff ⟨rfl, rfl⟩
      simp [withStatus, hne]
    rw [hasPendingRow_iff]
    constructor
    · rintro ⟨row, hrow, hpending, hagent, href⟩
      rw [h] at hrow
      obtain ⟨old, hold, rfl⟩ := List.mem_map.mp hrow
      rw [withStatus_agentId] at hagent
      rw [withStatus_challengerClaimRef] at href
      rw [hother old hold hagent href] at hpending
      exact ⟨old, hold, hpending, hagent, href⟩
    · rintro ⟨row, hrow, hpending, hagent, href⟩
      refine ⟨row, ?_, hpending, hagent, href⟩
      rw [h]
      exact List.mem_map.mpr ⟨row, hrow, hother row hrow hagent href⟩

end Rows

section Steps

variable {eng : Engine} {σ σ' : Store} {w : Written} {now : Instant} {agentId : AgentId}
variable {r : ClaimRef}

def QueueInvariant (σ : Store) : Prop :=
  ∀ agentId r, QueueState σ.ties (entriesOf σ agentId none r) (hasPendingRow σ agentId r)

theorem QueueInvariant.latest_iff (h : QueueInvariant σ) :
    latestOf σ agentId none r = some .queuedForAdjudication ↔
      hasPendingRow σ agentId r = true := (h agentId r).first_iff

theorem QueueInvariant.current_iff (h : QueueInvariant σ) :
    currentDisposition σ agentId r = some .queuedForAdjudication ↔
      hasPendingRow σ agentId r = true := by
  rw [currentDisposition_eq]
  exact (h agentId r).last_iff

theorem queueInvariant_append_iff (happ : Appends σ σ' w) :
    QueueInvariant σ' ↔ ∀ agentId r, QueueState σ.ties
      (entriesOf σ agentId none r ++ newEntries w agentId r) (hasPendingRow σ' agentId r) := by
  unfold QueueInvariant
  simp only [entriesOf_newEntries happ, happ.ties]

section Kept

variable (hP : QueueInvariant σ) (hstamp : ∀ e ∈ w.ledger, e.recordedAt = now)
variable (hsame : ∀ e ∈ w.ledger, ∀ e' ∈ w.ledger, e.agentId = e'.agentId →
  e.claimRef = e'.claimRef →
  (e.disposition = .queuedForAdjudication ↔ e'.disposition = .queuedForAdjudication))

include hP hstamp hsame

/-- A claim whose row a step leaves alone. -/
theorem queueState_kept_iff :
    QueueState σ.ties (entriesOf σ agentId none r ++ newEntries w agentId r)
        (hasPendingRow σ agentId r) ↔
      ∀ e ∈ newEntries w agentId r, (e.disposition = .queuedForAdjudication →
          currentDisposition σ agentId r = some .queuedForAdjudication ∨
            ∃ x ∈ entriesOf σ agentId none r, now < x.recordedAt) ∧
        (e.disposition ≠ .queuedForAdjudication →
          StaysQueued σ agentId r (newEntries w agentId r)) := by
  cases hnews : newEntries w agentId r with
  | nil =>
    rw [List.append_nil]
    exact iff_of_true (hP agentId r) (by simp)
  | cons e es =>
    rw [← hnews]
    have hmem : e ∈ newEntries w agentId r := hnews ▸ List.mem_cons_self
    have halike : ∀ e' ∈ newEntries w agentId r,
        (e'.disposition = .queuedForAdjudication ↔ e.disposition = .queuedForAdjudication) := by
      intro e' he'
      obtain ⟨hw, hagent, href⟩ := mem_newEntries.mp hmem
      obtain ⟨hw', hagent', href'⟩ := mem_newEntries.mp he'
      exact hsame e' hw' e hw (hagent'.trans hagent.symm) (href'.trans href.symm)
    rw [(hP agentId r).kept_iff (List.ne_nil_of_mem hmem) fun e' he' =>
      ⟨hstamp e' (mem_newEntries.mp he').1, halike e' he'⟩]
    unfold StaysQueued
    simp only [hP.current_iff]
    constructor
    · rintro ⟨hqueues, hspares⟩ e' he'
      exact ⟨fun hq => hqueues ((halike e' he').mp hq),
        fun hq => hspares fun hq' => hq ((halike e' he').mpr hq')⟩
    · exact fun h => h e hmem

theorem queueInvariant_kept_iff (happ : Appends σ σ' w) (htable : σ'.pending = σ.pending) :
    QueueInvariant σ' ↔ ∀ e ∈ w.ledger, (e.disposition = .queuedForAdjudication →
        currentDisposition σ e.agentId e.claimRef = some .queuedForAdjudication ∨
          ∃ x ∈ entriesOf σ e.agentId none e.claimRef, now < x.recordedAt) ∧
      (e.disposition ≠ .queuedForAdjudication →
        StaysQueued σ e.agentId e.claimRef (newEntries w e.agentId e.claimRef)) := by
  simp only [queueInvariant_append_iff happ, hasPendingRow_of_table htable,
    queueState_kept_iff hP hstamp hsame]
  constructor
  · exact fun h e he => h e.agentId e.claimRef e (mem_newEntries.mpr ⟨he, rfl, rfl⟩)
  · rintro h agentId r e he
    obtain ⟨hw, rfl, rfl⟩ := mem_newEntries.mp he
    exact h e hw

end Kept

theorem queueInvariant_of_silent (hP : QueueInvariant σ) (happ : Appends σ σ' w)
    (hw : w.ledger = []) (htable : σ'.pending = σ.pending) : QueueInvariant σ' := by
  have hstamp : ∀ e ∈ w.ledger, e.recordedAt = 0 := by simp [hw]
  rw [queueInvariant_kept_iff hP hstamp (by simp [hw]) happ htable]
  simp [hw]

/-- One entry that does not queue its claim. -/
theorem queueInvariant_single_iff (hP : QueueInvariant σ) (happ : Appends σ σ' w)
    (htable : σ'.pending = σ.pending) {e : LedgerEntry} (hw : w.ledger = [e])
    (hd : e.disposition ≠ .queuedForAdjudication) :
    QueueInvariant σ' ↔ StaysQueued σ e.agentId e.claimRef [e] := by
  have hstamp : ∀ x ∈ w.ledger, x.recordedAt = e.recordedAt := by simp [hw]
  have hnews : newEntries w e.agentId e.claimRef = [e] := by
    rw [newEntries_single hw, if_pos ⟨rfl, rfl⟩]
  rw [queueInvariant_kept_iff hP hstamp (by simp [hw]) happ htable, hw]
  simp [hnews, hd]

/-- A step that retires the row of a queued challenger. -/
theorem queueInvariant_retired_iff (hσ : DistinctRows σ) (hP : QueueInvariant σ)
    {marked : PendingAdjudicationRow} {status : PendingStatus} (hmarked : marked ∈ σ.pending)
    (hstatus : status ≠ .pending)
    (hqueued : currentDisposition σ marked.agentId marked.challengerClaimRef =
      some .queuedForAdjudication)
    (happ : Appends σ σ' w)
    (htable : σ'.pending = σ.pending.map (withStatus marked.handleId status))
    (hnews : ∀ e ∈ w.ledger, e.recordedAt = now ∧ e.disposition ≠ .queuedForAdjudication)
    (hne : newEntries w marked.agentId marked.challengerClaimRef ≠ []) :
    QueueInvariant σ' ↔
      (∀ x ∈ entriesOf σ marked.agentId none marked.challengerClaimRef, x.recordedAt < now) ∧
      ∀ e ∈ w.ledger, ¬ (marked.agentId = e.agentId ∧ marked.challengerClaimRef = e.claimRef) →
        StaysQueued σ e.agentId e.claimRef (newEntries w e.agentId e.claimRef) := by
  have hleft : QueueState σ.ties (entriesOf σ marked.agentId none marked.challengerClaimRef ++
      newEntries w marked.agentId marked.challengerClaimRef) false ↔
      ∀ x ∈ entriesOf σ marked.agentId none marked.challengerClaimRef, x.recordedAt < now := by
    refine QueueState.left_iff ?_ hne fun e he => hnews e (mem_newEntries.mp he).1
    exact hP.current_iff.mp hqueued ▸ hP marked.agentId marked.challengerClaimRef
  have hkept : ∀ agentId r,
      QueueState σ.ties (entriesOf σ agentId none r ++ newEntries w agentId r)
          (hasPendingRow σ agentId r) ↔
        ∀ e ∈ newEntries w agentId r, StaysQueued σ agentId r (newEntries w agentId r) := by
    intro agentId r
    rw [queueState_kept_iff hP (fun e he => (hnews e he).1) fun e he e' he' _ _ =>
      iff_of_false (hnews e he).2 (hnews e' he').2]
    refine forall₂_congr fun e he => ?_
    simp [(hnews e (mem_newEntries.mp he).1).2]
  rw [queueInvariant_append_iff happ, ← hleft]
  simp only [hasPendingRow_marked hσ hmarked htable hstatus]
  constructor
  · intro h
    refine ⟨by simpa using h marked.agentId marked.challengerClaimRef, fun e he hdiff => ?_⟩
    have hstate := h e.agentId e.claimRef
    rw [if_neg hdiff, hkept] at hstate
    exact hstate e (mem_newEntries.mpr ⟨he, rfl, rfl⟩)
  · rintro ⟨hmine, hothers⟩ agentId r
    split
    · rename_i hsame
      obtain ⟨rfl, rfl⟩ := hsame
      exact hmine
    · rename_i hdiff
      rw [hkept]
      intro e he
      obtain ⟨hw, rfl, rfl⟩ := mem_newEntries.mp he
      exact hothers e hw hdiff

theorem queueInvariant_expired_iff (hσ : DistinctRows σ) (hP : QueueInvariant σ)
    (marked : PendingAdjudicationRow) (hmarked : marked ∈ σ.pending) {rationale : Json}
    (hqueued : currentDisposition σ marked.agentId marked.challengerClaimRef =
      some .queuedForAdjudication)
    (happ : Appends σ σ' { ledger := [expiredEntry marked rationale now] })
    (htable : σ'.pending = σ.pending.map (withStatus marked.handleId .expired)) :
    QueueInvariant σ' ↔ FollowsAll σ marked now := by
  have hnews : ∀ e ∈ [expiredEntry marked rationale now],
      e.recordedAt = now ∧ e.disposition ≠ .queuedForAdjudication := by simp [expiredEntry]
  rw [queueInvariant_retired_iff hσ hP hmarked (by decide) hqueued happ htable hnews]
  · simp [expiredEntry, FollowsAll, hqueued]
  · rw [newEntries_expired]
    exact List.cons_ne_nil _ _

theorem queueInvariant_of_queued (hP : QueueInvariant σ) {claim : Claim} {decision : GateDecision}
    {row : PendingAdjudicationRow} (hfresh : Fresh claim.claimRef.uuid σ)
    (hw : w.ledger = [committedEntry claim decision now])
    (hgate : decision.disposition = .queuedForAdjudication) (happ : Appends σ σ' w)
    (htable : σ'.pending = σ.pending ++ [row]) (hstatus : row.status = .pending)
    (hagent : row.agentId = claim.agentId) (href : row.challengerClaimRef = claim.claimRef) :
    QueueInvariant σ' := by
  rw [queueInvariant_append_iff happ]
  intro agentId r
  rw [hasPendingRow_concat htable hstatus, hagent, href, newEntries_single hw]
  by_cases hsame : claim.agentId = agentId ∧ claim.claimRef = r
  · obtain ⟨rfl, rfl⟩ := hsame
    rw [if_pos ⟨rfl, rfl⟩, entriesOf_of_fresh hfresh]
    simp only [List.nil_append, beq_self_eq_true, Bool.and_self, Bool.or_true]
    exact .queued (σ.ties.first_singleton _ _) (σ.ties.last_singleton _ _) ⟨hgate, hgate⟩
  · have hother : (claim.claimRef == r && claim.agentId == agentId) = false := by
      rw [Bool.eq_false_iff]
      intro hboth
      simp only [Bool.and_eq_true, beq_iff_eq] at hboth
      exact hsame ⟨hboth.2, hboth.1⟩
    rw [hother, Bool.or_false]
    change QueueState _ (_ ++ if claim.agentId = agentId ∧ claim.claimRef = r then _ else []) _
    rw [if_neg hsame, List.append_nil]
    exact hP agentId r

theorem queueInvariant_of_ingested (horacle : eng.oraclePresent = true)
    (hstore : eng.pendingStorePresent = true) (hP : QueueInvariant σ) {req : IngestClaimRequest}
    {claimRef : ClaimRef} {reply : Except String Uuid} (hfresh : Fresh claimRef.uuid σ)
    (hports : PortsAnswer σ (.ingestClaim req now claimRef reply)) :
    QueueInvariant (apply eng σ (.ingestClaim req now claimRef reply)) := by
  obtain ⟨w, hq, happ⟩ := apply_queueStep eng σ (.ingestClaim req now claimRef reply)
  generalize htable : (apply eng σ (.ingestClaim req now claimRef reply)).pending = table at hq
  cases hq with
  | ignored => exact queueInvariant_of_silent hP happ rfl htable
  | queued _ _ hgate _ =>
    exact queueInvariant_of_queued hP hfresh rfl hgate happ htable rfl rfl rfl
  | aside ho _ =>
    cases ho with
    | silent _ => exact queueInvariant_of_silent hP happ rfl htable
    | ingested hadmitted =>
      have hgate : (gateDecision eng σ req (stamp req claimRef now) now).disposition ≠
          .queuedForAdjudication := by
        intro hgate
        rw [apply, execute_of_admitted hadmitted] at htable
        cases reply with
        | error _ => exact hports
        | ok handleId => exact ingest_row horacle hstore hgate hports htable
      refine (queueInvariant_single_iff hP happ htable rfl hgate).mpr fun hqueued => ?_
      have hnone : currentDisposition σ req.agentId claimRef = none := by
        rw [currentDisposition_eq, entriesOf_of_fresh hfresh, TieOrder.last_nil, Option.map_none]
      exact absurd (hnone.symm.trans hqueued) (by decide)

theorem unqueued_of_free (hP : QueueInvariant σ) (hfree : underAdjudication σ agentId r = false) :
    currentDisposition σ agentId r ≠ some .queuedForAdjudication := by
  intro hqueued
  have hlatest : buildLatestDispositionMap (loadLedgerForClaims σ agentId [r] none) r =
      some .queuedForAdjudication :=
    (buildLatestDispositionMap_load (List.mem_singleton_self r)).trans
      (hP.latest_iff.mpr (hP.current_iff.mp hqueued))
  simp [underAdjudication, hlatest] at hfree

theorem asserted_iff (hP : QueueInvariant σ) (req : AssertValidityRequest) (assertionRef : Uuid) :
    QueueInvariant (apply eng σ (.assertValidity req now assertionRef)) ↔
      KeepsQueue eng σ (.assertValidity req now assertionRef) := by
  rw [apply, KeepsQueue]
  cases hassert : req.assertion with
  | bound at_ granularity =>
    refine iff_of_true ?_ (fun h => by cases h)
    rcases execute_bound_cases σ now assertionRef hassert with
      ⟨target, haccepted, hexec⟩ | ⟨hexec, _⟩
    · rw [hexec, queueInvariant_single_iff hP (writeValidityAndLedger_appends σ _ _) rfl rfl
        (by simp [hostEntry])]
      exact fun hqueued => absurd hqueued (unqueued_of_free hP haccepted.free)
    · rwa [hexec]
  | reopen =>
    rcases execute_reopen_cases σ now assertionRef hassert with
      ⟨haccepted, hexec⟩ | ⟨hrefused, hexec⟩
    · rw [hexec, queueInvariant_single_iff hP (writeValidityAndLedger_appends σ _ _) rfl rfl
        (by simp [hostEntry])]
      exact ⟨fun h _ _ => h, fun h => h rfl haccepted⟩
    · rw [hexec]
      exact iff_of_true hP fun _ haccepted => absurd haccepted hrefused

theorem reconciled_iff (hσ : Reachable eng σ) (hP : QueueInvariant σ) (req : ReconcileRequest) :
    QueueInvariant (apply eng σ (.reconcile req now)) ↔ KeepsQueue eng σ (.reconcile req now) := by
  have htable : (passed eng σ req now).pending = σ.pending := by
    unfold passed Reconcile.execute
    split <;> rfl
  have hstamp : ∀ e ∈ (decisions eng σ req now).map (decisionEntry req.agentId now),
      e.recordedAt = now := by
    intro e he
    obtain ⟨d, _, rfl⟩ := List.mem_map.mp he
    rfl
  change QueueInvariant (passed eng σ req now) ↔ PassKeepsQueue eng σ req now
  rw [queueInvariant_kept_iff hP hstamp ?_ (passed_appends eng σ req now) htable]
  · simp only [List.forall_mem_map, decisionEntry, PassKeepsQueue, passNews]
  · intro e he e' he' _ href
    obtain ⟨d, hd, rfl⟩ := List.mem_map.mp he
    obtain ⟨d', hd', rfl⟩ := List.mem_map.mp he'
    rw [eq_of_mem_decisions hσ hd hd' href]

theorem applied_iff (hσ : Reachable eng σ) (hP : QueueInvariant σ) {handleId : Uuid}
    {response : AdjudicationResponse} {assertionRef : Uuid} {row : PendingAdjudicationRow}
    {challenger : Claim} (haccepted : VerdictAccepted σ handleId now row challenger) :
    QueueInvariant (apply eng σ (.submitAdjudication handleId response now assertionRef)) ↔
      FollowsAll σ row now ∧ SparesQueue eng.config σ row response now assertionRef := by
  obtain ⟨written, hexec, happ, hpending⟩ := execute_of_verdictAccepted eng.config σ handleId
    response now assertionRef haccepted
  have hmarked := handleId_of_getPending haccepted.pending
  have htable : (markResolved written handleId).pending =
      σ.pending.map (withStatus row.handleId .resolved) := by
    rw [hmarked.2, ← hpending]
    rfl
  have hnews : ∀ e ∈ (verdictWritten eng.config σ row challenger response now
      assertionRef).ledger, e.recordedAt = now ∧ e.disposition ≠ .queuedForAdjudication := by
    intro e he
    have hentry := verdictEntry_of_mem he
    refine ⟨hentry.recordedAt, ?_⟩
    rcases hentry.disposition with h | h | h | h <;> rw [h] <;> decide
  rw [apply, hexec]
  refine (queueInvariant_retired_iff (distinctRows_of_reachable hσ) hP hmarked.1 (by decide)
    haccepted.queued (setPendingStatus_appends happ _ _) htable hnews
    newEntries_challenger_ne_nil).trans ?_
  refine and_congr ⟨fun h _ => h, fun h => h haccepted.queued⟩
    ⟨fun h _ loaded hloaded r hr hne => ?_, fun h e he hdiff => ?_⟩
  · obtain rfl : challenger = loaded := Option.some.inj (haccepted.load.symm.trans hloaded)
    obtain ⟨e, he, hagent, rfl⟩ := exists_entry_of_alsoWritten eng.config challenger response now
      assertionRef hr
    exact hagent ▸ h e he fun hsame => hne hsame.2.symm
  · have hentry := verdictEntry_of_mem he
    have hne : e.claimRef ≠ row.challengerClaimRef :=
      fun href => hdiff ⟨hentry.agentId.symm, href.symm⟩
    exact hentry.agentId ▸ h (letsThrough_of_accepted haccepted) challenger haccepted.load
      e.claimRef (hentry.claimRef.resolve_left hne) hne

theorem submitted_iff (hσ : Reachable eng σ) (hP : QueueInvariant σ) (handleId : Uuid)
    (response : AdjudicationResponse) (assertionRef : Uuid) :
    QueueInvariant (apply eng σ (.submitAdjudication handleId response now assertionRef)) ↔
      KeepsQueue eng σ (.submitAdjudication handleId response now assertionRef) := by
  rw [KeepsQueue]
  cases hrow : getPending σ handleId with
  | none =>
    refine iff_of_true ?_ trivial
    rw [apply, SubmitAdjudication.execute, hrow]
    exact hP
  | some row =>
    have hmarked := (handleId_of_getPending hrow).1
    by_cases hqueued : currentDisposition σ row.agentId row.challengerClaimRef =
        some .queuedForAdjudication
    · obtain ⟨challenger, hload⟩ := loaded_of_row hσ hmarked
      by_cases hopen : ∀ t, row.expiresAt = some t → now < t
      · exact applied_iff hσ hP ⟨hrow, hopen, hqueued, hload⟩
      · -- the handle has lapsed, so the guards let no verdict through
        obtain ⟨t, ht, hle⟩ : ∃ t, row.expiresAt = some t ∧ t ≤ now := by simpa using hopen
        have hspares : SparesQueue eng.config σ row response now assertionRef := by
          rintro ⟨hlive, _⟩
          simp [ht, hle] at hlive
        rw [apply, execute_of_lapsed eng.config σ handleId response now assertionRef hrow ht hle
          hqueued]
        exact (queueInvariant_expired_iff (distinctRows_of_reachable hσ) hP row hmarked hqueued
          (setPendingStatus_appends (appendLedgerEntry_appends σ _) _ _) rfl).trans
            (and_iff_left hspares).symm
    · refine iff_of_true ?_ ⟨fun h => absurd h hqueued, fun h => absurd h.2 hqueued⟩
      rw [apply]
      rcases submit_spec eng.config σ handleId response now assertionRef with
        ⟨row', _, _, haccepted, _⟩ | ⟨row', _, hrow', _, _, hqueued', _⟩ | ⟨e, hexec⟩
      · obtain rfl := Option.some.inj (hrow.symm.trans haccepted.pending)
        exact absurd haccepted.queued hqueued
      · obtain rfl := Option.some.inj (hrow.symm.trans hrow')
        exact absurd hqueued' hqueued
      · rw [hexec]
        exact hP

theorem sweptRow_iff (hσ : Reachable eng σ) (hP : QueueInvariant σ) {row : PendingAdjudicationRow}
    (hsup : Supplied σ (.sweepExpired row now)) :
    QueueInvariant (apply eng σ (.sweepExpired row now)) ↔ FollowsAll σ row now := by
  obtain ⟨⟨stored, hstored, heq⟩, _⟩ := hsup
  rw [← heq, apply, revertExpiredRow]
  by_cases hqueued : currentDisposition σ stored.agentId stored.challengerClaimRef =
      some .queuedForAdjudication
  · rw [if_neg (not_not_intro hqueued)]
    exact queueInvariant_expired_iff (distinctRows_of_reachable hσ) hP stored hstored hqueued
      (setPendingStatus_appends (appendLedgerEntry_appends σ _) _ _) rfl
  · rw [if_pos hqueued]
    exact iff_of_true hP fun h => absurd h hqueued

theorem sweptOrphan_iff (hP : QueueInvariant σ) (orphan : OrphanedQueuedClaim) :
    QueueInvariant (apply eng σ (.sweepOrphan orphan now)) ↔
      StaysQueued σ orphan.agentId orphan.challengerClaimRef [orphanEntry orphan now] := by
  rw [apply, revertOrphan]
  by_cases hqueued : currentDisposition σ orphan.agentId orphan.challengerClaimRef =
      some .queuedForAdjudication
  · rw [if_neg (not_not_intro hqueued)]
    exact queueInvariant_single_iff hP (appendLedgerEntry_appends σ _) rfl rfl
      (by simp [orphanEntry])
  · rw [if_pos hqueued]
    exact iff_of_true hP fun h => absurd h hqueued

/-- A step keeps queue and rows together exactly if it meets the condition. -/
theorem queueInvariant_step_iff (hσ : Reachable eng σ) (horacle : eng.oraclePresent = true)
    (hstore : eng.pendingStorePresent = true) (hP : QueueInvariant σ) {op : Op}
    (hsup : Supplied σ op) (hports : PortsAnswer σ op) :
    QueueInvariant (apply eng σ op) ↔ KeepsQueue eng σ op := by
  cases op with
  | ingestClaim req now claimRef reply =>
    exact iff_of_true (queueInvariant_of_ingested horacle hstore hP hsup hports) trivial
  | assertValidity req now assertionRef => exact asserted_iff hP req assertionRef
  | submitAdjudication handleId response now assertionRef =>
    exact submitted_iff hσ hP handleId response assertionRef
  | reconcile req now => exact reconciled_iff hσ hP req
  | sweepExpired row now => exact sweptRow_iff hσ hP hsup
  | sweepOrphan orphan now => exact sweptOrphan_iff hP orphan
  | appendEdge edge =>
    obtain ⟨w, ho, happ⟩ := apply_outcome eng σ (.appendEdge edge)
    refine iff_of_true (queueInvariant_of_silent hP happ ?_ rfl) trivial
    cases ho <;> rfl

end Steps

section Listing

variable {eng : Engine} {σ : Store}

/-- Every queued entry is about a stored claim of its agent. -/
def QueuedStored (σ : Store) : Prop :=
  ∀ e ∈ σ.ledger, e.disposition = .queuedForAdjudication →
    ∃ c ∈ σ.claims, c.claimRef = e.claimRef ∧ c.agentId = e.agentId

theorem stored_of_queued (hσ : Reachable eng σ) : QueuedStored σ := by
  refine Reachable.invariant_of_outcome (P := QueuedStored) hσ
    (fun _ => List.forall_mem_nil _) fun σ σ' op w hr hP _ ho happ e he hqueued => ?_
  rw [happ.ledger] at he
  rw [happ.claims]
  rcases List.mem_append.mp he with he | he
  · obtain ⟨c, hc, hkey⟩ := hP e he hqueued
    exact ⟨c, List.mem_append_left _ hc, hkey⟩
  · rcases queued_of_entry ho he hqueued with
      ⟨req, now, claimRef, reply, _, hclaims, hagent, href⟩ | ⟨req, now, _, d, hd, rfl⟩
    · refine ⟨stamp req claimRef now, ?_, href.symm, hagent.symm⟩
      rw [hclaims]
      exact List.mem_append_right _ (List.mem_singleton_self _)
    · obtain ⟨line, _, cs, hcs, rfl⟩ := mem_decisions_iff.mp hd
      obtain ⟨c, hc, hline, rfl, _⟩ := live_of_selected hr hcs
      simp only [onLine, Bool.and_eq_true, beq_iff_eq] at hline
      exact ⟨c, List.mem_append_left _ hc, rfl, hline.1.1⟩

theorem mem_entriesOf {agentId : AgentId} {r : ClaimRef} {e : LedgerEntry} :
    e ∈ entriesOf σ agentId none r ↔ e ∈ σ.ledger ∧ e.agentId = agentId ∧ e.claimRef = r := by
  simp [entriesOf, withinCutoff]

/-- The latest entries are those of greatest stamp of their claim. -/
theorem isLatestEntry_iff {e : LedgerEntry} : isLatestEntry σ e = true ↔
    ∀ x ∈ entriesOf σ e.agentId none e.claimRef, x.recordedAt ≤ e.recordedAt := by
  rw [isLatestEntry, List.all_eq_true]
  constructor
  · intro h x hx
    obtain ⟨hmem, hagent, href⟩ := mem_entriesOf.mp hx
    simpa [hagent, href] using h x hmem
  · intro h x hx
    by_cases hkey : x.agentId = e.agentId ∧ x.claimRef = e.claimRef
    · simp [h x (mem_entriesOf.mpr ⟨hx, hkey⟩)]
    · have hother : (x.agentId == e.agentId && x.claimRef == e.claimRef) = false := by
        rw [Bool.eq_false_iff]
        simpa using hkey
      rw [hother]
      rfl

theorem listed_of_entry (hstored : QueuedStored σ) {e : LedgerEntry} (he : e ∈ σ.ledger)
    (hqueued : e.disposition = .queuedForAdjudication) (hlatest : isLatestEntry σ e = true)
    (hrow : hasPendingRow σ e.agentId e.claimRef = false) :
    ∃ orphan ∈ listQueuedOrphanClaims σ,
      orphan.agentId = e.agentId ∧ orphan.challengerClaimRef = e.claimRef := by
  obtain ⟨c, hc, href, hagent⟩ := hstored e he hqueued
  refine ⟨_, List.mem_flatMap.mpr ⟨e, List.mem_filter.mpr ⟨he, ?_⟩,
    List.mem_map.mpr ⟨c, List.mem_filter.mpr ⟨hc, by simp [href, hagent]⟩, rfl⟩⟩, rfl, rfl⟩
  simp [hqueued, hlatest, hrow]

theorem orphans_eq_nil (h : QueueInvariant σ) : listQueuedOrphanClaims σ = [] := by
  have hnone : (σ.ledger.filter fun e => e.disposition == .queuedForAdjudication &&
      isLatestEntry σ e && !hasPendingRow σ e.agentId e.claimRef) = [] := by
    rw [List.filter_eq_nil_iff]
    intro e he hp
    simp only [Bool.and_eq_true, beq_iff_eq, Bool.not_eq_true'] at hp
    obtain ⟨⟨hqueued, hlatest⟩, hrow⟩ := hp
    have hstate := h e.agentId e.claimRef
    rw [hrow] at hstate
    cases hstate with
    | off htop =>
      exact htop e (mem_entriesOf.mpr ⟨he, rfl, rfl⟩) (isLatestEntry_iff.mp hlatest) hqueued
  rw [listQueuedOrphanClaims, hnone, List.flatMap_nil]

end Listing

section Main

variable {eng : Engine} {σ : Store}

theorem existsUnique_row_iff (hσ : DistinctRows σ) {agentId : AgentId} {r : ClaimRef} :
    (∃! row, PendingFor σ agentId r row) ↔ hasPendingRow σ agentId r = true := by
  rw [hasPendingRow_iff]
  refine ⟨fun ⟨row, hrow, _⟩ => ⟨row, hrow⟩, fun ⟨row, hrow⟩ => ⟨row, hrow, fun row' hrow' => ?_⟩⟩
  exact hσ.eq_of_challenger hrow'.1 hrow.1 (hrow'.2.2.2.trans hrow.2.2.2.symm)

theorem getPending_of_mem (hσ : DistinctRows σ) {row : PendingAdjudicationRow}
    (hrow : row ∈ σ.pending) : getPending σ row.handleId = some row := by
  cases hfound : getPending σ row.handleId with
  | none => simpa using List.find?_eq_none.mp hfound row hrow
  | some found =>
    obtain ⟨hmem, hhandle⟩ := handleId_of_getPending hfound
    rw [hσ.eq_of_handle hmem hrow hhandle]

theorem queueInvariant_of_matches (hσ : Reachable eng σ) (h : QueueMatchesRows eng σ) :
    QueueInvariant σ := by
  have hkeys := distinctRows_of_reachable hσ
  intro agentId r
  cases hrow : hasPendingRow σ agentId r with
  | true =>
    have hunique := (existsUnique_row_iff hkeys).mpr hrow
    have hcurrent := (h.current agentId r).mpr hunique
    rw [currentDisposition_eq] at hcurrent
    obtain ⟨first, hfirst, hfirst'⟩ := Option.map_eq_some_iff.mp ((h.latest agentId r).mpr hunique)
    obtain ⟨last, hlast, hlast'⟩ := Option.map_eq_some_iff.mp hcurrent
    exact .queued hfirst hlast ⟨hfirst', hlast'⟩
  | false =>
    refine .off fun e he hmax hqueued => ?_
    obtain ⟨hmem, rfl, rfl⟩ := mem_entriesOf.mp he
    obtain ⟨orphan, horphan, _⟩ := listed_of_entry (stored_of_queued hσ) hmem hqueued
      (isLatestEntry_iff.mpr hmax) hrow
    rw [h.orphans] at horphan
    cases horphan

theorem queueMatchesRows_iff (hσ : Reachable eng σ) :
    QueueMatchesRows eng σ ↔ QueueInvariant σ := by
  refine ⟨queueInvariant_of_matches hσ, fun hP => ?_⟩
  have hkeys := distinctRows_of_reachable hσ
  refine ⟨fun agentId r => ?_, fun agentId r => ?_, orphans_eq_nil hP, ?_⟩
  · rw [existsUnique_row_iff hkeys]
    exact hP.latest_iff
  · rw [existsUnique_row_iff hkeys]
    exact hP.current_iff
  · rintro agentId r row hfor response now assertionRef hopen
    have hqueued := hP.current_iff.mpr (hasPendingRow_iff.mpr ⟨row, hfor⟩)
    obtain ⟨hrow, _, rfl, rfl⟩ := hfor
    obtain ⟨challenger, hload⟩ := loaded_of_row hσ hrow
    obtain ⟨written, hexec, _⟩ := execute_of_verdictAccepted eng.config σ row.handleId response
      now assertionRef ⟨getPending_of_mem hkeys hrow, hopen, hqueued, hload⟩
    rw [hexec]

/-- Reached without a port failure by steps that keep the queue and the rows together. -/
abbrev QueueReachable (eng : Engine) : Store → Prop :=
  Reach Store.New (Restrict (Step eng) fun σ op => PortsAnswer σ op ∧ KeepsQueue eng σ op)

/-- Along a run that meets no port failure and keeps queue and rows together, the
    claims on the queue are exactly the challengers of the pending rows, and the next
    step keeps it so exactly if it meets the condition. -/
theorem queue_matches_rows (horacle : eng.oraclePresent = true)
    (hstore : eng.pendingStorePresent = true) (h : QueueReachable eng σ) :
    QueueMatchesRows eng σ ∧ ∀ op σ', Step eng σ op σ' → PortsAnswer σ op →
      (QueueMatchesRows eng σ' ↔ KeepsQueue eng σ op) := by
  have hP : QueueInvariant σ := by
    refine Reach.invariant (P := QueueInvariant) h (fun σ hσ agentId r => ?_)
      fun σ op σ' hr hP hst => ?_
    · obtain ⟨ties, rfl⟩ := hσ
      exact .off fun e he => absurd he List.not_mem_nil
    · obtain ⟨⟨hports, hkeeps⟩, hsup, rfl⟩ := hst
      exact (queueInvariant_step_iff hr.unrestrict horacle hstore hP hsup hports).mpr hkeeps
  have hσ : Reachable eng σ := h.unrestrict
  refine ⟨(queueMatchesRows_iff hσ).mpr hP, fun op σ' hst hports => ?_⟩
  rw [queueMatchesRows_iff (hσ.step hst)]
  obtain ⟨hsup, rfl⟩ := hst
  exact queueInvariant_step_iff hσ horacle hstore hP hsup hports

theorem affirmed_queue_matches_rows :
    QueueMatchesRows (defaultEngine true)
      (run (defaultEngine true) Store.sqlite (rivals ++ [verdictOn 101 .affirm 30 50,
        .ingestClaim (remember "Rome" (some (dated 3 none))) 40 ⟨3⟩ (.ok 102)])) :=
  (queue_matches_rows rfl rfl (run_reach_under (by decide))).1

/-- A pass over a disputed line queues the incumbent, for which no row exists. -/
theorem reconciled_incumbent_is_orphan :
    let σ := run (defaultEngine true) Store.sqlite
      (rivals ++ [.reconcile ⟨agent, [("user", "location")]⟩ 30])
    Reach Store.New (Restrict (Step (defaultEngine true)) PortsAnswer) σ ∧
      latestOf σ agent none ⟨1⟩ = some .queuedForAdjudication ∧
      hasPendingRow σ agent ⟨1⟩ = false ∧
      (listQueuedOrphanClaims σ).map (·.challengerClaimRef) = [⟨1⟩] ∧
      ¬ QueueMatchesRows (defaultEngine true) σ := by
  intro σ
  have horphans : (listQueuedOrphanClaims σ).map (·.challengerClaimRef) = [⟨1⟩] := by decide
  refine ⟨run_reach_under (by decide), by decide, by decide, horphans, fun h => ?_⟩
  rw [h.orphans] at horphans
  cases horphans

end Main

end Mempill.QueueCorrespondence
