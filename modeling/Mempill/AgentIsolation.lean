import Mempill.AgentView
import Mempill.RowRoundTrip

set_option autoImplicit false

/-!
# Agent isolation

What an agent sees of a store that it shares does not depend on the operations of
another agent, as long as the sweeps of all agents can read the pending table.
-/
namespace Mempill.AgentIsolation
open Mempill.Sweep hiding listExpired sweepExpiredAdjudications
open Mempill.Types Mempill.Persistence Mempill.IngestClaim Mempill.SubmitAdjudication
open Mempill.Engine Mempill.Steps Mempill.QueueRows Mempill.SqliteRows
open Mempill.SharedStore Mempill.AgentView StampedLog RowTable Unwinding
open Mempill.Verdicts (mem_cascadeEntries)

section Ownership

variable {run : List Event} {σ σ' : Store}

/-- No handle is issued to two agents. -/
def UniqueHandles (run : List Event) : Prop :=
  ∀ x ∈ issued run, ∀ y ∈ issued run, x.2 = y.2 → x.1 = y.1

instance (run : List Event) : Decidable (UniqueHandles run) := by
  unfold UniqueHandles
  infer_instance

/-- The claims and the pending rows of a store have been issued in the run. -/
structure Owned (run : List Event) (σ : Store) : Prop where
  claims : ∀ c ∈ σ.claims, (c.agentId, c.claimRef) ∈ minted run
  pending : ∀ row ∈ σ.pending, (row.agentId, row.handleId) ∈ issued run

theorem owned_empty (run : List Event) (ties : TieOrder LedgerEntry) :
    Owned run (.empty ties) :=
  ⟨fun _ h => absurd h List.not_mem_nil, fun _ h => absurd h List.not_mem_nil⟩

theorem mem_minted {req : IngestClaimRequest} {now : Instant} {claimRef : ClaimRef}
    {reply : Except String Uuid} (h : .op (.ingestClaim req now claimRef reply) ∈ run) :
    (req.agentId, claimRef) ∈ minted run :=
  List.mem_filterMap.mpr ⟨_, h, rfl⟩

theorem mem_issued {req : IngestClaimRequest} {now : Instant} {claimRef : ClaimRef}
    {handleId : Uuid} (h : .op (.ingestClaim req now claimRef (.ok handleId)) ∈ run) :
    (req.agentId, handleId) ∈ issued run :=
  List.mem_filterMap.mpr ⟨_, h, rfl⟩

theorem mem_issued_of_holder {handleId : Uuid} {a : AgentId} (h : holder run handleId = some a) :
    (a, handleId) ∈ issued run := by
  obtain ⟨x, hx, rfl⟩ := Option.map_eq_some_iff.mp h
  have hkey : x.2 = handleId := by simpa using List.find?_some hx
  exact hkey ▸ List.mem_of_find?_eq_some hx

theorem holder_of_mem_issued (hunique : UniqueHandles run) {handleId : Uuid} {a : AgentId}
    (h : (a, handleId) ∈ issued run) : holder run handleId = some a := by
  unfold holder
  cases hfind : (issued run).find? (·.2 == handleId) with
  | none => simpa using List.find?_eq_none.mp hfind _ h
  | some x =>
    have hkey : x.2 = handleId := by simpa using List.find?_some hfind
    exact congrArg some (hunique x (List.mem_of_find?_eq_some hfind) _ h hkey)

theorem Owned.agentId_eq (hσ : Owned run σ) (hunique : UniqueHandles run)
    {row : PendingAdjudicationRow} (hrow : row ∈ σ.pending) {a : AgentId}
    (h : (a, row.handleId) ∈ issued run) : row.agentId = a :=
  hunique _ (hσ.pending row hrow) _ h rfl

/-- An operation writes claims and rows under the names that it is given. -/
theorem owned_apply {eng : Engine} {op : Op}
    (hop : ∀ req now claimRef reply, op = .ingestClaim req now claimRef reply → .op op ∈ run)
    (hσ : Owned run σ) : Owned run (apply eng σ op) := by
  obtain ⟨w, hq, happ⟩ := apply_queueStep eng σ op
  refine ⟨fun c hc => ?_, fun row hrow => ?_⟩
  · rw [happ.claims, List.mem_append] at hc
    rcases hc with hold | hnew
    · exact hσ.claims c hold
    · cases hq.outcome with
      | ingested _ =>
        rw [List.mem_singleton.mp hnew]
        exact mem_minted (hop _ _ _ _ rfl)
      | resolved _ =>
        unfold verdictWritten at hnew
        split at hnew <;> exact absurd hnew List.not_mem_nil
      | silent _ | bounded _ _ | reopened _ _ | lazilyExpired _ _ | reconciled | sweptRow _
      | sweptOrphan _ | edged => exact absurd hnew List.not_mem_nil
  · have hmarked : ∀ handleId status, row ∈ σ.pending.map (withStatus handleId status) →
        (row.agentId, row.handleId) ∈ issued run := by
      intro handleId status hmem
      obtain ⟨old, hold, rfl⟩ := List.mem_map.mp hmem
      rw [withStatus_agentId, withStatus_handleId]
      exact hσ.pending old hold
    generalize (apply eng σ op).pending = table at hq hrow
    cases hq with
    | ignored => exact hσ.pending row hrow
    | aside _ _ => exact hσ.pending row hrow
    | queued _ _ _ _ =>
      rcases List.mem_append.mp hrow with hold | hnew
      · exact hσ.pending row hold
      · rw [List.mem_singleton.mp hnew]
        exact mem_issued (hop _ _ _ _ rfl)
    | applied _ => exact hmarked _ _ hrow
    | lapsed _ _ => exact hmarked _ _ hrow
    | swept _ => exact hmarked _ _ hrow

end Ownership

section Foreign

variable {a : AgentId} {for_ : Option AgentId} {run : List Event} {eng : Engine}
variable {σ σ' : Store} {w : Written}

/-- All rows of a step are for one agent, if there are any. -/
structure WrittenFor (for_ : Option AgentId) (w : Written) : Prop where
  claims : ∀ c ∈ w.claims, some c.agentId = for_
  assertions : ∀ x ∈ w.assertions, some x.agentId = for_
  ledger : ∀ e ∈ w.ledger, some e.agentId = for_
  edges : ∀ e ∈ w.edges, some e.agentId = for_

theorem writtenFor_nothing (for_ : Option AgentId) : WrittenFor for_ {} :=
  ⟨fun _ h => absurd h List.not_mem_nil, fun _ h => absurd h List.not_mem_nil,
    fun _ h => absurd h List.not_mem_nil, fun _ h => absurd h List.not_mem_nil⟩

theorem writtenFor_ledger {entries : List LedgerEntry}
    (h : ∀ e ∈ entries, some e.agentId = for_) : WrittenFor for_ { ledger := entries } :=
  { writtenFor_nothing for_ with ledger := h }

theorem writtenFor_entry {entry : LedgerEntry} (h : some entry.agentId = for_) :
    WrittenFor for_ { ledger := [entry] } :=
  writtenFor_ledger (List.forall_mem_singleton.mpr h)

theorem verdictWritten_for (config : EngineConfig) (row : PendingAdjudicationRow)
    (challenger : Claim) (response : AdjudicationResponse) (now : Instant)
    (assertionRef : Uuid) :
    WrittenFor (some row.agentId)
      (verdictWritten config σ row challenger response now assertionRef) := by
  have hcascade : ∀ (target overturning : ClaimRef) (edges : List ClaimEdge),
      ∀ e ∈ cascadeEntries row.agentId target overturning now edges,
        some e.agentId = some row.agentId :=
    fun _ _ _ _ he => congrArg some (mem_cascadeEntries he).1
  unfold verdictWritten
  cases response.verdict with
  | affirm =>
    refine { writtenFor_nothing _ with
      assertions := List.forall_mem_singleton.mpr rfl, ledger := fun e he => ?_ }
    rcases List.mem_append.mp he with he | he
    · rcases List.mem_append.mp he with he | he
      · rw [List.mem_singleton.mp he]
        rfl
      · exact hcascade _ _ _ e he
    · rw [List.mem_singleton.mp he]
      rfl
  | deny =>
    refine { writtenFor_nothing _ with
      assertions := List.forall_mem_singleton.mpr rfl, ledger := fun e he => ?_ }
    rcases List.mem_append.mp he with he | he
    · rw [List.mem_singleton.mp he]
      rfl
    · exact hcascade _ _ _ e he
  | unknown =>
    exact writtenFor_ledger (List.forall_mem_cons.mpr ⟨rfl, List.forall_mem_singleton.mpr rfl⟩)

/-- An operation writes for the agent that it acts for. -/
theorem writtenFor_of_outcome (hunique : UniqueHandles run) (hσ : Owned run σ) {op : Op}
    (h : Outcome eng σ op w) : WrittenFor (agentOfOp run op) w := by
  have hholder : ∀ {handleId row}, getPending σ handleId = some row →
      holder run handleId = some row.agentId := by
    intro handleId row hrow
    obtain ⟨hmem, rfl⟩ := handleId_of_getPending hrow
    exact holder_of_mem_issued hunique (hσ.pending row hmem)
  cases h with
  | silent _ => exact writtenFor_nothing _
  | ingested _ =>
    refine { writtenFor_nothing _ with
      claims := List.forall_mem_singleton.mpr rfl
      ledger := List.forall_mem_singleton.mpr rfl
      edges := fun e he => ?_ }
    obtain ⟨parent, _, rfl⟩ := List.mem_map.mp he
    rfl
  | bounded _ _ | reopened _ _ =>
    exact { writtenFor_nothing _ with
      assertions := List.forall_mem_singleton.mpr rfl
      ledger := List.forall_mem_singleton.mpr rfl }
  | resolved haccepted =>
    rw [agentOfOp, hholder haccepted.pending]
    exact verdictWritten_for ..
  | lazilyExpired hrow _ =>
    rw [agentOfOp, hholder hrow]
    exact writtenFor_entry rfl
  | reconciled =>
    refine writtenFor_ledger fun e he => ?_
    obtain ⟨d, _, rfl⟩ := List.mem_map.mp he
    rfl
  | sweptRow _ | sweptOrphan _ => exact writtenFor_entry rfl
  | edged => exact { writtenFor_nothing _ with edges := List.forall_mem_singleton.mpr rfl }

theorem filter_foreign {α : Type} {agentId : α → AgentId} {rows news : List α}
    (hfor : for_ ≠ some a) (h : ∀ x ∈ news, some (agentId x) = for_) :
    (rows ++ news).filter (agentId · == a) = rows.filter (agentId · == a) := by
  have hnews : news.filter (agentId · == a) = [] := by
    rw [List.filter_eq_nil_iff]
    intro x hx hxa
    exact hfor (by rw [← h x hx, beq_iff_eq.mp hxa])
  rw [List.filter_append, hnews, List.append_nil]

theorem view_of_writtenFor (hfor : for_ ≠ some a) (happ : Appends σ σ' w)
    (hw : WrittenFor for_ w)
    (hpending : σ'.pending.filter (·.agentId == a) = σ.pending.filter (·.agentId == a)) :
    view a σ' = view a σ := by
  unfold view
  rw [happ.claims, happ.assertions, happ.ledger, happ.edges, happ.ties, hpending,
    filter_foreign hfor hw.claims, filter_foreign hfor hw.assertions,
    filter_foreign hfor hw.ledger, filter_foreign hfor hw.edges]

theorem filter_withStatus {table : List PendingAdjudicationRow} {handleId : Uuid}
    (status : PendingStatus) (h : ∀ row ∈ table, row.handleId = handleId → row.agentId ≠ a) :
    (table.map (withStatus handleId status)).filter (·.agentId == a) =
      table.filter (·.agentId == a) := by
  induction table with
  | nil => rfl
  | cons row table ih =>
    have htail := ih fun r hr => h r (List.mem_cons_of_mem row hr)
    rw [List.map_cons, List.filter_cons, List.filter_cons, withStatus_agentId, htail]
    by_cases hagent : row.agentId = a
    · have hkept : withStatus handleId status row = row := by
        have hhandle : row.handleId ≠ handleId := fun hh => h row List.mem_cons_self hh hagent
        simp [withStatus, hhandle]
      rw [hkept]
    · simp [hagent]

/-- A row that a sweep reverts carries a handle of its own agent. -/
def Rightful (run : List Event) : Op → Prop
  | .sweepExpired row _ => (row.agentId, row.handleId) ∈ issued run
  | _ => True

theorem view_apply_of_foreign (hunique : UniqueHandles run) (hσ : Owned run σ) {op : Op}
    (hrow : Rightful run op) (hop : agentOfOp run op ≠ some a) :
    view a (apply eng σ op) = view a σ := by
  obtain ⟨w, hq, happ⟩ := apply_queueStep eng σ op
  have hforeign : ∀ {handleId b}, (b, handleId) ∈ issued run → b ≠ a →
      ∀ row ∈ σ.pending, row.handleId = handleId → row.agentId ≠ a := by
    intro handleId b hb hab row hmem hhandle
    rw [hσ.agentId_eq hunique hmem (hhandle ▸ hb)]
    exact hab
  have htable : (apply eng σ op).pending.filter (·.agentId == a) =
      σ.pending.filter (·.agentId == a) := by
    generalize (apply eng σ op).pending = table at hq
    cases hq with
    | ignored => rfl
    | aside _ _ => rfl
    | queued _ _ _ _ =>
      exact filter_foreign hop (List.forall_mem_singleton.mpr rfl)
    | @applied handleId _ _ _ row _ haccepted =>
      obtain ⟨hmem, rfl⟩ := handleId_of_getPending haccepted.pending
      have hissued := hσ.pending row hmem
      exact filter_withStatus _ (hforeign hissued fun h =>
        hop (h ▸ holder_of_mem_issued hunique hissued))
    | @lapsed handleId _ _ _ row _ hget _ =>
      obtain ⟨hmem, rfl⟩ := handleId_of_getPending hget
      have hissued := hσ.pending row hmem
      exact filter_withStatus _ (hforeign hissued fun h =>
        hop (h ▸ holder_of_mem_issued hunique hissued))
    | swept _ => exact filter_withStatus _ (hforeign hrow fun h => hop (congrArg some h))
  exact view_of_writtenFor hop happ (writtenFor_of_outcome hunique hσ hq.outcome) htable

end Foreign

section Own

variable {a : AgentId} {run : List Event} {f : PendingFormats} {eng : Engine} {σ : Store}

/-- The claim references that the requests of an agent mention are no other agent's. -/
def MentionsOwn (run : List Event) (a : AgentId) : Prop :=
  ∀ e ∈ run, agentOf run e = some a → ∀ r ∈ mentions e, ∀ x ∈ minted run, x.2 = r → x.1 = a

instance (run : List Event) (a : AgentId) : Decidable (MentionsOwn run a) := by
  unfold MentionsOwn
  infer_instance

theorem resolves_of_own (hσ : Owned run σ) {r : ClaimRef}
    (hr : ∀ x ∈ minted run, x.2 = r → x.1 = a) : Resolves a σ r :=
  any_own a Claim.agentId fun c hc href => hr _ (hσ.claims c hc) (beq_iff_eq.mp href)

theorem getPending_view (hunique : UniqueHandles run) (hσ : Owned run σ) {handleId : Uuid}
    (h : (a, handleId) ∈ issued run) : getPending (view a σ) handleId = getPending σ handleId := by
  refine find?_own a PendingAdjudicationRow.agentId fun row hrow hhandle => ?_
  obtain rfl := beq_iff_eq.mp hhandle
  exact hσ.agentId_eq hunique hrow h

/-- An operation of an agent replies from the agent's view, and acts on it. -/
theorem stepOp_view (hunique : UniqueHandles run) (hmentions : MentionsOwn run a)
    (hσ : Owned run σ) {op : Op} (hop : .op op ∈ run) (hagent : agentOfOp run op = some a) :
    stepOp f eng (view a σ) op = Prod.map id (view a) (stepOp f eng σ op) := by
  have hrefs : ∀ r ∈ mentions (.op op), Resolves a σ r := fun r hr =>
    resolves_of_own hσ (hmentions _ hop hagent r hr)
  cases op with
  | ingestClaim req now claimRef reply =>
    have hhandle : ∀ handleId, reply = .ok handleId →
        getPending (view a σ) handleId = getPending σ handleId := by
      rintro handleId rfl
      exact getPending_view hunique hσ (Option.some.inj hagent ▸ mem_issued hop)
    rw [stepOp, ingestClaim_view (Option.some.inj hagent) now claimRef hhandle hrefs]
    rfl
  | assertValidity req now assertionRef =>
    rw [stepOp, assertValidity_view (Option.some.inj hagent)]
    rfl
  | submitAdjudication handleId response now assertionRef =>
    have hissued := mem_issued_of_holder hagent
    have hhandle := getPending_view hunique hσ hissued
    rw [stepOp, submitAdjudication, hhandle, submit_view hhandle]
    · rw [stepOp, submitAdjudication]
      split_ifs
      · split <;> rfl
      · rfl
    · intro row hrow
      obtain ⟨hmem, rfl⟩ := handleId_of_getPending hrow
      exact hσ.agentId_eq hunique hmem hissued
  | reconcile req now =>
    rw [stepOp, reconcile_view (Option.some.inj hagent)]
    rfl
  | sweepExpired row now =>
    rw [stepOp, revertExpiredRow_view (Option.some.inj hagent)]
    rfl
  | sweepOrphan orphan now =>
    rw [stepOp, revertOrphan_view (Option.some.inj hagent)]
    rfl
  | appendEdge edge =>
    rw [stepOp, appendEdge_view (Option.some.inj hagent) (hrefs _ (by simp [mentions]))
      (hrefs _ (by simp [mentions]))]
    rfl

end Own

section Sweeps

variable {a : AgentId} {run : List Event} {f : PendingFormats} {eng : Engine} {σ τ : Store}
variable {now : Instant}

/-- Every pending row that a sweep lists decodes. -/
def Readable (f : PendingFormats) (now : Instant) (σ : Store) : Prop :=
  ∀ row ∈ expiredRows f σ now, (rowToPending f row).isOk = true

instance (f : PendingFormats) (now : Instant) (σ : Store) : Decidable (Readable f now σ) := by
  unfold Readable
  infer_instance

theorem rowToPending_keys (hf : Documented f.toFormats) {row read : PendingAdjudicationRow}
    (h : rowToPending f row = .ok read) :
    read.agentId = row.agentId ∧ read.handleId = row.handleId ∧
      read.challengerClaimRef = row.challengerClaimRef := by
  unfold rowToPending at h
  simp only [hf.uuid, parsed, bind, Except.bind, pure, Except.pure] at h
  repeat' split at h
  all_goals cases h
  exact ⟨rfl, rfl, rfl⟩

theorem issued_of_listed (hf : Documented f.toFormats) (hσ : Owned run σ)
    {rows : List PendingAdjudicationRow} (h : listExpired f σ now = .ok rows) :
    ∀ row ∈ rows, (row.agentId, row.handleId) ∈ issued run := by
  intro read hread
  obtain ⟨row, hrow, hok⟩ := mem_of_decodeAll h hread
  obtain ⟨hagent, hhandle, _⟩ := rowToPending_keys hf hok
  rw [hagent, hhandle]
  exact hσ.pending row (List.mem_of_mem_filter ((mem_inOrder _).mp hrow))

/-- Its own rows are listed for an agent whatever other rows are listed. -/
theorem listed_own (hf : Documented f.toFormats) {rows : List PendingAdjudicationRow}
    (h : listExpired f σ now = .ok rows) :
    listExpired f (view a σ) now = .ok (rows.filter (·.agentId == a)) := by
  rw [listExpired, ← expiredRows_view]
  exact decodeAll_filter (fun hok => by rw [(rowToPending_keys hf hok).1]) h

/-- A pass whose items are reverted by operations is, for one agent, the pass over its own. -/
theorem pass_view {α : Type} {agentOf : α → AgentId} {revert : Store → α → Bool × Store}
    (toOp : α → Op) (eng : Engine) (hunique : UniqueHandles run) {items : List α}
    (hrevert : ∀ item σ, apply eng σ (toOp item) = (revert σ item).2)
    (hnew : ∀ item req now claimRef reply, toOp item ≠ .ingestClaim req now claimRef reply)
    (hagent : ∀ item, agentOfOp run (toOp item) = some (agentOf item))
    (hright : ∀ item ∈ items, Rightful run (toOp item))
    (hown : ∀ item, agentOf item = a → ∀ σ,
      revert (view a σ) item = Prod.map id (view a) (revert σ item))
    (hσ : Owned run σ) (n m : ℕ) :
    Owned run (sweepPass revert items (n, σ)).2 ∧
      view a (sweepPass revert items (n, σ)).2 =
        (sweepPass revert (items.filter (agentOf · == a)) (m, view a σ)).2 := by
  refine sweepPass_view agentOf revert (Owned run) ?_ (fun item _ => hown item) ?_ hσ n m
  · intro item _ σ hσ
    rw [← hrevert]
    exact owned_apply (fun _ _ _ _ h => absurd h (hnew item _ _ _ _)) hσ
  · intro item hitem hother σ hσ
    rw [← hrevert]
    refine view_apply_of_foreign hunique hσ (hright item hitem) ?_
    rw [hagent]
    exact fun h => hother (Option.some.inj h)

theorem rowsPass_view (eng : Engine) (now : Instant) (hunique : UniqueHandles run)
    {rows : List PendingAdjudicationRow}
    (hrows : ∀ row ∈ rows, (row.agentId, row.handleId) ∈ issued run) (hσ : Owned run σ)
    (n m : ℕ) :
    Owned run (sweepPass (fun σ row => revertExpiredRow σ row now) rows (n, σ)).2 ∧
      view a (sweepPass (fun σ row => revertExpiredRow σ row now) rows (n, σ)).2 =
        (sweepPass (fun σ row => revertExpiredRow σ row now) (rows.filter (·.agentId == a))
          (m, view a σ)).2 :=
  pass_view (fun row => .sweepExpired row now) eng hunique (fun _ _ => rfl)
    (fun _ _ _ _ _ => nofun) (fun _ => rfl) hrows
    (fun _ hagent _ => revertExpiredRow_view hagent now) hσ n m

theorem orphansPass_view (eng : Engine) (now : Instant) (hunique : UniqueHandles run)
    (orphans : List OrphanedQueuedClaim) (hσ : Owned run σ) (n m : ℕ) :
    Owned run (sweepPass (fun σ orphan => revertOrphan σ orphan now) orphans (n, σ)).2 ∧
      view a (sweepPass (fun σ orphan => revertOrphan σ orphan now) orphans (n, σ)).2 =
        (sweepPass (fun σ orphan => revertOrphan σ orphan now)
          (orphans.filter (·.agentId == a)) (m, view a σ)).2 :=
  pass_view (fun orphan => .sweepOrphan orphan now) eng hunique (fun _ _ => rfl)
    (fun _ _ _ _ _ => nofun) (fun _ => rfl) (fun _ _ => trivial)
    (fun _ hagent _ => revertOrphan_view hagent now) hσ n m

/-- The passes of a sweep over all agents are, for one agent, those over its view. -/
theorem revertAll_view (eng : Engine) (hunique : UniqueHandles run) (hσ : Owned run σ)
    {rows : List PendingAdjudicationRow}
    (hrows : ∀ row ∈ rows, (row.agentId, row.handleId) ∈ issued run) :
    Owned run (revertAll σ rows now).2 ∧ view a (revertAll σ rows now).2 =
      (revertAll (view a σ) (rows.filter (·.agentId == a)) now).2 := by
  obtain ⟨hexpired, hview⟩ := rowsPass_view (a := a) eng now hunique hrows hσ 0 0
  unfold revertAll
  dsimp only
  generalize sweepPass (fun σ row => revertExpiredRow σ row now) rows (0, σ) = expired at *
  generalize sweepPass (fun σ row => revertExpiredRow σ row now)
    (rows.filter (·.agentId == a)) (0, view a σ) = expired' at *
  have hswept := orphansPass_view (a := a) eng now hunique
    (listQueuedOrphanClaims expired.2) hexpired expired.1 expired'.1
  rw [listQueuedOrphanClaims_view, hview] at hswept
  exact hswept

theorem owned_sweep (hf : Documented f.toFormats) (hunique : UniqueHandles run)
    (hσ : Owned run σ) : Owned run (sweepExpiredAdjudications f eng σ now).2 := by
  unfold sweepExpiredAdjudications
  split_ifs
  · cases h : listExpired f σ now with
    | error e => exact hσ
    | ok rows => exact (revertAll_view (a := ⟨""⟩) eng hunique hσ (issued_of_listed hf hσ h)).1
  · exact hσ

theorem sweep_view (hf : Documented f.toFormats) (hunique : UniqueHandles run)
    (hσ : Owned run σ) (hτ : Owned run τ) (halike : Readable f now σ ↔ Readable f now τ)
    (hview : view a σ = view a τ) :
    view a (sweepExpiredAdjudications f eng σ now).2 =
      view a (sweepExpiredAdjudications f eng τ now).2 := by
  have hlisted : ∀ {σ : Store}, (∃ rows, listExpired f σ now = .ok rows) ↔ Readable f now σ :=
    exists_decodeAll_iff
  unfold sweepExpiredAdjudications
  split_ifs
  · cases hs : listExpired f σ now with
    | error e =>
      cases ht : listExpired f τ now with
      | error e' => exact hview
      | ok rows =>
        obtain ⟨rows', hrows'⟩ := hlisted.mpr (halike.mpr (hlisted.mp ⟨rows, ht⟩))
        rw [hs] at hrows'
        cases hrows'
    | ok rows =>
      obtain ⟨rows', ht⟩ := hlisted.mpr (halike.mp (hlisted.mp ⟨rows, hs⟩))
      rw [ht]
      have hsame : rows.filter (·.agentId == a) = rows'.filter (·.agentId == a) := by
        have hown := listed_own (a := a) hf hs
        rw [hview, listed_own hf ht] at hown
        exact (Except.ok.inj hown).symm
      exact (revertAll_view eng hunique hσ (issued_of_listed hf hσ hs)).2.trans
        (hsame ▸ hview ▸ (revertAll_view eng hunique hτ (issued_of_listed hf hτ ht)).2.symm)
  · exact hview

end Sweeps

section Main

variable {a b : AgentId} {run : List Event} {f : PendingFormats} {eng : Engine} {σ τ : Store}

/-- A sweep finds the rows that it lists readable in both states, or in neither. -/
def SweepsAlike (f : PendingFormats) : Event → Store → Store → Prop
  | .sweep now, σ, τ => Readable f now σ ↔ Readable f now τ
  | _, _, _ => True

instance (e : Event) (σ τ : Store) : Decidable (SweepsAlike f e σ τ) :=
  match e with
  | .sweep _ => @instDecidableIff _ _ inferInstance inferInstance
  | .op _ | .query _ _ => .isTrue trivial

def actsFor (run : List Event) (a : AgentId) (e : Event) : Bool := agentOf run e == some a

/-- The run without the operations and queries of an agent. -/
def without (b : AgentId) (run : List Event) : List Event := run.filter fun e => !actsFor run b e

/-- The replies to the operations and queries of an agent. -/
def repliesTo (run : List Event) (a : AgentId) (rs : List (Event × Reply)) :
    List (Event × Reply) :=
  rs.filter fun r => actsFor run a r.1

/-- An operation that meets a constraint leaves the store, any other acts as it does alone. -/
theorem stepOp_store (f : PendingFormats) (eng : Engine) (σ : Store) (op : Op) :
    (stepOp f eng σ op).2 = σ ∨ (stepOp f eng σ op).2 = apply eng σ op := by
  cases op with
  | ingestClaim req now claimRef reply =>
    simp only [stepOp, Prod.map_snd, id_eq, ingestClaim]
    split
    · exact .inr rfl
    · exact .inr rfl
    · split
      · exact .inl rfl
      · exact .inr rfl
    · split
      · exact .inl rfl
      · exact .inr rfl
  | submitAdjudication handleId response now assertionRef =>
    simp only [stepOp, Prod.map_snd, id_eq, submitAdjudication]
    split_ifs
    · split
      · exact .inl rfl
      · exact .inr rfl
    · exact .inl rfl
  | appendEdge edge =>
    simp only [stepOp, Prod.map_snd, id_eq, SharedStore.appendEdge]
    split
    · exact .inl rfl
    · exact .inr rfl
  | assertValidity req now assertionRef => exact .inr rfl
  | reconcile req now => exact .inr rfl
  | sweepExpired row now => exact .inr rfl
  | sweepOrphan orphan now => exact .inr rfl

theorem owned_step (hf : Documented f.toFormats) (hunique : UniqueHandles run) {e : Event}
    (he : e ∈ run) (hσ : Owned run σ) : Owned run (step f eng σ e).2 := by
  cases e with
  | op op =>
    have happly : Owned run (apply eng σ op) := owned_apply (fun _ _ _ _ _ => he) hσ
    rcases stepOp_store f eng σ op with h | h <;> rw [step, h]
    · exact hσ
    · exact happly
  | query q now => exact hσ
  | sweep now => exact owned_sweep hf hunique hσ

/-- The rows that are reverted along a run carry handles of their own agents. -/
theorem rightful_of_runnable (hf : Documented f.toFormats) (hunique : UniqueHandles run)
    {es : List Event} (hes : ∀ e ∈ es, e ∈ run) (hσ : Owned run σ) (h : Runnable f eng σ es) :
    ∀ op, .op op ∈ es → Rightful run op := by
  induction es generalizing σ with
  | nil => exact fun op hop => absurd hop List.not_mem_nil
  | cons e es ih =>
    intro op hop
    rcases List.mem_cons.mp hop with rfl | htail
    · cases op with
      | sweepExpired row now =>
        obtain ⟨⟨stored, hstored, hrow⟩, _⟩ := h.1
        have hissued := hσ.pending stored hstored
        rw [← hrow]
        exact hissued
      | ingestClaim _ _ _ _ | assertValidity _ _ _ | submitAdjudication _ _ _ _ | reconcile _ _
      | sweepOrphan _ _ | appendEdge _ => trivial
    · exact ih (fun e he => hes e (List.mem_cons_of_mem _ he))
        (owned_step hf hunique (hes e List.mem_cons_self) hσ) h.2 op htail

/-- An operation or query for another agent leaves the view. -/
theorem view_step_of_foreign (hunique : UniqueHandles run) {e : Event}
    (hright : ∀ op, e = .op op → Rightful run op) (hσ : Owned run σ)
    (hsweep : ∀ now, e ≠ .sweep now) (he : agentOf run e ≠ some a) :
    view a (step f eng σ e).2 = view a σ := by
  cases e with
  | op op =>
    have hforeign : view a (apply eng σ op) = view a σ :=
      view_apply_of_foreign hunique hσ (hright op rfl) he
    rcases stepOp_store f eng σ op with h | h <;> rw [step, h]
    exact hforeign
  | query q now => rfl
  | sweep now => exact absurd rfl (hsweep now)

/-- An event of an agent replies from the agent's view, and acts on it. -/
theorem step_view (hunique : UniqueHandles run) (hmentions : MentionsOwn run a) {e : Event}
    (he : e ∈ run) (hagent : agentOf run e = some a) (hσ : Owned run σ) :
    step f eng (view a σ) e = Prod.map id (view a) (step f eng σ e) := by
  cases e with
  | op op => exact stepOp_view hunique hmentions hσ he hagent
  | query q now =>
    have hanswer := answer_view σ f eng now hagent
    simp only [step, hanswer]
    rfl
  | sweep now => cases hagent

theorem step_alike (hunique : UniqueHandles run) (hmentions : MentionsOwn run a) {e : Event}
    (he : e ∈ run) (hagent : agentOf run e = some a) (hσ : Owned run σ) (hτ : Owned run τ)
    (hview : view a σ = view a τ) :
    (step f eng σ e).1 = (step f eng τ e).1 ∧
      view a (step f eng σ e).2 = view a (step f eng τ e).2 := by
  have hstep : Prod.map id (view a) (step f eng σ e) = Prod.map id (view a) (step f eng τ e) := by
    rw [← step_view hunique hmentions he hagent hσ, ← step_view hunique hmentions he hagent hτ,
      hview]
  exact Prod.ext_iff.mp hstep

theorem unwinds (hf : Documented f.toFormats) (hab : a ≠ b) (hunique : UniqueHandles run)
    (hmentions : MentionsOwn run a) :
    Unwinds (step f eng) (view a) (Owned run) (SweepsAlike f) (actsFor run a)
      (fun e => !actsFor run b e) (fun e => e ∈ run ∧ ∀ op, e = .op op → Rightful run op) where
  invariant hi hσ := owned_step hf hunique hi.1 hσ
  purged := by
    intro σ e hi hσ hpurged
    have hagent : agentOf run e = some b := by simpa [actsFor] using hpurged
    refine view_step_of_foreign hunique hi.2 hσ ?_ ?_
    · rintro now rfl
      cases hagent
    · rw [hagent]
      exact fun h => hab (Option.some.inj h).symm
  kept := by
    intro σ τ e hi hσ hτ _ halike hview
    by_cases hagent : agentOf run e = some a
    · exact (step_alike hunique hmentions hi.1 hagent hσ hτ hview).2
    · cases e with
      | sweep now => exact sweep_view hf hunique hσ hτ halike hview
      | op op =>
        rw [view_step_of_foreign hunique hi.2 hσ nofun hagent,
          view_step_of_foreign hunique hi.2 hτ nofun hagent, hview]
      | query q now => exact hview
  reply := by
    intro σ τ e hi hσ hτ hobserved hview
    exact (step_alike hunique hmentions hi.1 (beq_iff_eq.mp hobserved) hσ hτ hview).1

/-- Removing the operations of one agent leaves the replies to another as they are, in every
    run whose sweeps can read what they list with those operations exactly if they can
    without them. -/
theorem agents_isolated (ties : TieOrder LedgerEntry) (hf : Documented f.toFormats) (hab : a ≠ b)
    (hrun : Runnable f eng (.empty ties) run) (hunique : UniqueHandles run)
    (hmentions : MentionsOwn run a)
    (hsweeps : Along (step f eng) (SweepsAlike f) (fun e => !actsFor run b e) (.empty ties)
      (.empty ties) run) :
    repliesTo run a (replies (step f eng) (.empty ties) run) =
      repliesTo run a (replies (step f eng) (.empty ties) (without b run)) := by
  have howned := owned_empty run ties
  have hright := rightful_of_runnable hf hunique (fun _ he => he) howned hrun
  refine (unwinds hf hab hunique hmentions).replies_eq ?_ ?_ howned howned rfl hsweeps
  · intro e hobserved
    have hagent : agentOf run e = some a := beq_iff_eq.mp hobserved
    simpa [actsFor, hagent] using hab
  · rintro e he
    refine ⟨he, ?_⟩
    rintro op rfl
    exact hright op he

end Main

section Sample

open Mempill.RowRoundTrip (spelled spelled_documented)

mutual
/-- The containers that a value nests. -/
def depth : Json → ℕ
  | .arr xs => depthOfList xs + 1
  | .obj fields => depthOfFields fields + 1
  | _ => 0
def depthOfList : List Json → ℕ
  | [] => 0
  | x :: xs => max (depth x) (depthOfList xs)
def depthOfFields : List (String × Json) → ℕ
  | [] => 0
  | (_, x) :: fields => max (depth x) (depthOfFields fields)
end

/-- The parser enters at most 127 containers. A payload holds a value in a fact, in a claim
    or a belief, in itself. -/
def reread (payload : AdjudicationRequest) : Except String AdjudicationRequest :=
  if depth payload.challenger.fact.value + 3 ≤ 127 ∧
      depth payload.incumbent.fact.value + 3 ≤ 127 then .ok payload
  else .error "recursion limit exceeded"

def knownUuids : List (ℕ × String) :=
  [(1, "00000000-0000-0000-0000-000000000001"), (2, "00000000-0000-0000-0000-000000000002"),
    (3, "00000000-0000-0000-0000-000000000003"), (4, "00000000-0000-0000-0000-000000000004"),
    (6, "00000000-0000-0000-0000-000000000006"), (8, "00000000-0000-0000-0000-000000000008")]

/-- Counted from the first instant of the year 0. -/
def knownInstants : List (ℕ × String) :=
  [(62167219200 * 10 ^ 9 + 20, "1970-01-01T00:00:00.000000020+00:00"),
    (62167219200 * 10 ^ 9 + 40, "1970-01-01T00:00:00.000000040+00:00"),
    (62167219200 * 10 ^ 9 + 70, "1970-01-01T00:00:00.000000070+00:00"),
    (62167219200 * 10 ^ 9 + 90, "1970-01-01T00:00:00.000000090+00:00"),
    (62167219200 * 10 ^ 9 + 100, "1970-01-01T00:00:00.000000100+00:00")]

def formats : PendingFormats := { spelled knownUuids knownInstants with rereadPayload := reread }

theorem formats_documented : Documented formats.toFormats :=
  (spelled_documented (by decide) (by decide) (by decide) :
    Documented (spelled knownUuids knownInstants))

/-- Pending rows expire after 50 nanoseconds. -/
def engine : Engine := ⟨{ EngineConfig.default with defaultAdjudicationTtl := some 50 }, true, true⟩

def other : AgentId := ⟨"agent-2"⟩

/-- Two agents each queue a challenger, the second one of a given value. A sweep runs, and the
    first agent ends its challenger. -/
def shared (value : Json) : List Event :=
  [.op (.ingestClaim (remember "Paris" (some (dated 1 none))) 10 ⟨1⟩ (.ok 5)),
    .op (.ingestClaim (remember "Berlin" (some (dated 5 none))) 20 ⟨2⟩ (.ok 6)),
    .op (.ingestClaim { remember "Paris" (some (dated 1 none)) with agentId := other } 30 ⟨3⟩
      (.ok 7)),
    .op (.ingestClaim { remember "Berlin" (some (dated 5 none)) with
      agentId := other, value := value } 40 ⟨4⟩ (.ok 8)),
    .sweep 100,
    .query (.audit ⟨agent, none, none, 10⟩) 110,
    .op (.assertValidity (assertOn 2 (.bound 8 none)) 120 9)]

/-- The last reply to the first agent. -/
def lastReply (run : List Event) : Option Reply :=
  ((repliesTo run agent (replies (step formats engine) Store.sqlite run)).map (·.2)).getLast?

theorem shared_sweep_isolated :
    repliesTo (shared (.str "Berlin")) agent
        (replies (step formats engine) Store.sqlite (shared (.str "Berlin"))) =
      repliesTo (shared (.str "Berlin")) agent
        (replies (step formats engine) Store.sqlite (without other (shared (.str "Berlin")))) :=
  agents_isolated .newestFirst formats_documented (by decide) (by decide +kernel)
    (by decide +kernel)
    (by decide +kernel) (by decide +kernel)

/-- A value in so many arrays. -/
def nested : ℕ → Json
  | 0 => .null
  | n + 1 => .arr [nested n]

/-- One agent queues a value that reads back as a claim but not in a payload. With it no sweep
    reverts the challenger of the other agent, which stays under adjudication. -/
theorem unreadable_row_breaks_isolation :
    Runnable formats engine Store.sqlite (shared (nested 125)) ∧
      UniqueHandles (shared (nested 125)) ∧ MentionsOwn (shared (nested 125)) agent ∧
      repliesTo (shared (nested 125)) agent
          (replies (step formats engine) Store.sqlite (shared (nested 125))) ≠
        repliesTo (shared (nested 125)) agent
          (replies (step formats engine) Store.sqlite (without other (shared (nested 125)))) ∧
      lastReply (shared (nested 125)) =
        some (.asserted (.error (.targetUnderAdjudication ⟨2⟩))) ∧
      lastReply (without other (shared (nested 125))) =
        some (.asserted (.ok ⟨⟨2⟩, some 9, .bound 8 none, some 8, .superseded, false⟩)) := by
  refine ⟨by decide +kernel, by decide +kernel, by decide +kernel, fun h => ?_,
    by decide +kernel, by decide +kernel⟩
  exact absurd (congrArg (List.map (·.2)) h) (by decide +kernel)

end Sample

end Mempill.AgentIsolation
