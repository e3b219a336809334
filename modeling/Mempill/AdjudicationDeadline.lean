import Mempill.AgentIsolation
import Mempill.PendingRows
import Mempill.SweepDrains
import Mempill.TimestampOrder

set_option autoImplicit false

/-!
# Adjudication deadline

The deadline of a pending row, as computed, printed and compared by a verdict and by a
sweep, and when all of them take it for the instant of queueing plus the ttl.
-/
namespace Mempill.AdjudicationDeadline
open Mempill.Types Mempill.Persistence Mempill.IngestClaim Mempill.SubmitAdjudication
open Mempill.Engine Mempill.SqliteRows Mempill.RowRoundTrip Mempill.TimestampOrder StampedLog
open Mempill.Steps (execute_of_admitted)
open Mempill.PendingRows Mempill.QueueRows Mempill.QueueCorrespondence Transition RowTable
open Mempill.Sweep hiding listExpired sweepExpiredAdjudications
open Mempill.SweepDrains (Queued lapse expiredPass_pending orphanPass_pending)
open Mempill.SharedStore hiding ingestClaim

section Deadline

/-- `now + delta`. The sum panics past the last instant that `DateTime` holds. -/
def checkedDeadline (maxUtc now : Instant) (ttl : ℕ) : Option Instant :=
  if expiresAt now ttl ≤ maxUtc then some (expiresAt now ttl) else none

/-- The ttl has run since the row was queued. -/
def Elapsed (ttl : Option ℕ) (queuedAt now : Instant) : Prop :=
  ∃ d ∈ ttl, (d : ℤ) ≤ now - queuedAt

/-- A row of the pending table, with its challenger still queued. -/
structure QueuedHandle (eng : Engine) (σ : Store) (row : PendingAdjudicationRow) : Prop where
  stored : getPending σ row.handleId = some row
  pending : row.status = .pending
  queued : currentDisposition σ row.agentId row.challengerClaimRef = some .queuedForAdjudication
  claim : ∃ c, loadClaim σ row.agentId row.challengerClaimRef = some c
  deadline : row.expiresAt = eng.config.defaultAdjudicationTtl.map (expiresAt row.queuedAt)
  distinct : DistinctRows σ
  pendingStore : eng.pendingStorePresent = true

variable (f : PendingFormats) (maxUtc : Instant) (eng : Engine) (σ : Store)
variable (row : PendingAdjudicationRow) (now : Instant)

/-- The deadline is computed without a panic and not after that of a larger ttl, and at
    `now` a verdict and a sweep take the handle for expired exactly if the ttl has run. -/
structure DeadlineExact : Prop where
  computed : ∀ d ∈ eng.config.defaultAdjudicationTtl,
    (checkedDeadline maxUtc row.queuedAt d).isSome = true
  monotone : ∀ d ∈ eng.config.defaultAdjudicationTtl, ∀ d' ≤ d,
    ∃ e ∈ checkedDeadline maxUtc row.queuedAt d, ∃ e' ∈ checkedDeadline maxUtc row.queuedAt d',
      e' ≤ e
  refused : Elapsed eng.config.defaultAdjudicationTtl row.queuedAt now →
    ∀ response assertionRef, ∃ e ∈ row.expiresAt,
      submitAdjudication f eng σ row.handleId response now assertionRef =
        (.error (.adjudicationHandleNotFound row.handleId), lazyExpire σ row e now)
  applied : ¬ Elapsed eng.config.defaultAdjudicationTtl row.queuedAt now →
    ∀ response assertionRef,
      (submitAdjudication f eng σ row.handleId response now assertionRef).1 =
        .ok ⟨row.handleId, verdictDisposition response.verdict, row.challengerClaimRef⟩
  listed : row ∈ expiredRows f σ now ↔
    Elapsed eng.config.defaultAdjudicationTtl row.queuedAt now
  swept : (getPending (sweepExpiredAdjudications f eng σ now).2 row.handleId).map (·.status) =
      some .expired ↔
    Elapsed eng.config.defaultAdjudicationTtl row.queuedAt now

/-- The row's instants print four digits of a year and its payload reads back. -/
structure ReadsBack : Prop where
  queuedAt : FourDigitYear row.queuedAt
  expiresAt : ∀ t ∈ row.expiresAt, FourDigitYear t
  payload : ∃ p, f.rereadPayload row.requestPayload = .ok p

/-- With a ttl, the row's deadline prints four digits of a year and the clock has not passed
    the year 9999. Once the ttl has run, the rows that a sweep takes along read back too. -/
structure DeadlinePrints : Prop where
  queuedAt : FourDigitYear row.queuedAt
  deadline : ∀ d ∈ eng.config.defaultAdjudicationTtl,
    FourDigitYear (row.queuedAt + d) ∧ now < 253402300800 * 10 ^ 9
  payload : ∃ p, f.rereadPayload row.requestPayload = .ok p
  others : Elapsed eng.config.defaultAdjudicationTtl row.queuedAt now →
    ∀ other ∈ σ.pending, lapsed f now other = true → ReadsBack f other

end Deadline

section Handles

variable {eng : Engine} {σ : Store}

/-- Every row bears the deadline that it was queued with. -/
theorem deadline_of_reachable (hσ : Reachable eng σ) : ∀ row ∈ σ.pending,
    row.expiresAt = eng.config.defaultAdjudicationTtl.map (expiresAt row.queuedAt) := by
  refine Reach.invariant (P := fun σ => ∀ row ∈ σ.pending, row.expiresAt =
      eng.config.defaultAdjudicationTtl.map (expiresAt row.queuedAt)) hσ
    (fun σ hσ => by obtain ⟨_, rfl⟩ := hσ; exact List.forall_mem_nil _)
    fun σ op σ' _ hP hst row hrow => ?_
  obtain ⟨_, rfl⟩ := hst
  obtain ⟨w, hq, _⟩ := apply_queueStep eng σ op
  have hmarked : ∀ handleId status, row ∈ σ.pending.map (QueueRows.withStatus handleId status) →
      row.expiresAt = eng.config.defaultAdjudicationTtl.map (expiresAt row.queuedAt) := by
    intro handleId status hrow
    obtain ⟨old, hold, rfl⟩ := List.mem_map.mp hrow
    have hdeadline := hP old hold
    unfold QueueRows.withStatus
    split
    · exact hdeadline
    · exact hdeadline
  generalize htable : (apply eng σ op).pending = table at hq hrow
  cases hq with
  | ignored => exact hP row hrow
  | aside _ _ => exact hP row hrow
  | queued _ _ _ _ =>
    rcases List.mem_append.mp hrow with hold | hnew
    · exact hP row hold
    · rw [List.mem_singleton.mp hnew]
      rfl
  | applied _ => exact hmarked _ _ hrow
  | lapsed _ _ => exact hmarked _ _ hrow
  | swept _ => exact hmarked _ _ hrow

/-- Rows are queued only with a pending store. -/
theorem pendingStore_of_row (hσ : Reachable eng σ) {row : PendingAdjudicationRow}
    (hrow : row ∈ σ.pending) : eng.pendingStorePresent = true := by
  by_contra hstore
  have hnone : σ.pending = [] := by
    refine Reach.invariant (P := fun σ => σ.pending = []) hσ
      (fun σ hσ => by obtain ⟨_, rfl⟩ := hσ; rfl)
      fun σ op σ' _ hP hst => ?_
    obtain ⟨_, rfl⟩ := hst
    obtain ⟨w, hq, _⟩ := apply_queueStep eng σ op
    generalize htable : (apply eng σ op).pending = table at hq ⊢
    cases hq with
    | ignored => exact hP
    | aside _ _ => exact hP
    | queued _ _ _ hadmitted =>
      rw [apply, execute_of_admitted hadmitted, executeAdmitted,
        if_neg fun h => hstore h.2.2] at htable
      have hkept : σ.pending = σ.pending ++ [_] := htable
      simp at hkept
    | applied _ => rw [hP, List.map_nil]
    | lapsed _ _ => rw [hP, List.map_nil]
    | swept _ => rw [hP, List.map_nil]
  rw [hnone] at hrow
  cases hrow

theorem queuedHandle_of_reachable (hσ : Reachable eng σ) {row : PendingAdjudicationRow}
    (hrow : row ∈ σ.pending) (hpending : row.status = .pending)
    (hqueued : currentDisposition σ row.agentId row.challengerClaimRef =
      some .queuedForAdjudication) : QueuedHandle eng σ row where
  stored := getPending_of_mem (distinctRows_of_reachable hσ) hrow
  pending := hpending
  queued := hqueued
  claim := loaded_of_row hσ hrow
  deadline := deadline_of_reachable hσ row hrow
  distinct := distinctRows_of_reachable hσ
  pendingStore := pendingStore_of_row hσ hrow

end Handles

section Rows

variable {f : PendingFormats} {eng : Engine} {σ : Store} {row : PendingAdjudicationRow}

theorem rowToPending_ok_iff (hf : Documented f.toFormats) :
    (∃ read, rowToPending f row = .ok read) ↔ ReadsBack f row := by
  have hinstant : ∀ context t, (∃ s, parsed context (f.parseFromRfc3339 (f.toRfc3339 t)) = .ok s) ↔
      FourDigitYear t := by
    intro context t
    simp only [parsed_eq_ok_iff, parse_instant_iff hf]
    exact ⟨fun ⟨_, h, _⟩ => h, fun h => ⟨t, h, rfl⟩⟩
  unfold rowToPending
  simp only [bind_eq_ok_iff]
  constructor
  · rintro ⟨read, _, _, _, _, _, _, payload, hpayload, _, hqueued, _, hexpires, _⟩
    refine ⟨(hinstant _ _).mp ⟨_, hqueued⟩, fun t ht => ?_, payload, parsed_eq_ok_iff.mp hpayload⟩
    exact (hinstant _ _).mp (nullable_map_ok hexpires t ht)
  · rintro ⟨hqueued, hexpires, payload, hpayload⟩
    have hnullable : ∃ e, nullable (fun s => parsed "expires_at parse: " (f.parseFromRfc3339 s))
        (row.expiresAt.map f.toRfc3339) = .ok e := by
      cases hrow : row.expiresAt with
      | none => exact ⟨none, rfl⟩
      | some t =>
        have hread : parsed "expires_at parse: " (f.parseFromRfc3339 (f.toRfc3339 t)) = .ok t :=
          parsed_eq_ok_iff.mpr (hf.fourDigits t (hexpires t hrow))
        exact ⟨some t, by simp [nullable, hread, Except.map]⟩
    obtain ⟨e, he⟩ := hnullable
    exact ⟨_, _, parsed_eq_ok_iff.mpr (hf.uuid _), _, parsed_eq_ok_iff.mpr (hf.uuid _), _,
      parsed_eq_ok_iff.mpr (hf.uuid _), _, parsed_eq_ok_iff.mpr hpayload, _,
      parsed_eq_ok_iff.mpr (hf.fourDigits _ hqueued), _, he, rfl⟩

/-- A verdict on a row that does not decode fails. -/
theorem submitAdjudication_undecoded (hrow : QueuedHandle eng σ row)
    (h : ¬ ∃ read, rowToPending f row = .ok read) (response : AdjudicationResponse)
    (now : Instant) (assertionRef : Uuid) :
    submitAdjudication f eng σ row.handleId response now assertionRef =
      (.error .pendingStore, σ) := by
  have herror : ∃ e, rowToPending f row = .error e := by
    cases hread : rowToPending f row with
    | error e => exact ⟨e, rfl⟩
    | ok read => exact absurd ⟨read, hread⟩ h
  obtain ⟨e, he⟩ := herror
  rw [submitAdjudication, if_pos hrow.pendingStore, hrow.stored, Option.map_some, he]

theorem submitAdjudication_decoded (hrow : QueuedHandle eng σ row)
    (h : ∃ read, rowToPending f row = .ok read) (response : AdjudicationResponse) (now : Instant)
    (assertionRef : Uuid) :
    submitAdjudication f eng σ row.handleId response now assertionRef =
      SubmitAdjudication.execute eng.config σ row.handleId response now assertionRef := by
  obtain ⟨read, hread⟩ := h
  rw [submitAdjudication, if_pos hrow.pendingStore, hrow.stored, Option.map_some, hread]

/-- A deadline that has come is enforced lazily. -/
theorem execute_expired (hrow : QueuedHandle eng σ row) {e now : Instant}
    (he : row.expiresAt = some e) (hnow : e ≤ now) (response : AdjudicationResponse)
    (assertionRef : Uuid) :
    SubmitAdjudication.execute eng.config σ row.handleId response now assertionRef =
      (.error (.adjudicationHandleNotFound row.handleId), lazyExpire σ row e now) := by
  simp [SubmitAdjudication.execute, hrow.stored, he, Option.filter, hnow]

/-- Before it, or without one, the verdict is applied. -/
theorem execute_open (hrow : QueuedHandle eng σ row) {now : Instant}
    (hopen : ∀ e ∈ row.expiresAt, ¬ e ≤ now) (response : AdjudicationResponse)
    (assertionRef : Uuid) :
    (SubmitAdjudication.execute eng.config σ row.handleId response now assertionRef).1 =
      .ok ⟨row.handleId, verdictDisposition response.verdict, row.challengerClaimRef⟩ := by
  have hfilter : row.expiresAt.filter (fun t => decide (t ≤ now)) = none := by
    rw [Option.filter_eq_none_iff]
    exact fun e he => by simpa using hopen e he
  obtain ⟨c, hc⟩ := hrow.claim
  simp [SubmitAdjudication.execute, hrow.stored, hfilter, hrow.queued, hc]

theorem mem_expiredRows {now : Instant} :
    row ∈ expiredRows f σ now ↔ row ∈ σ.pending ∧ lapsed f now row = true := by
  rw [expiredRows, mem_inOrder, List.mem_filter]

theorem mem_expiredRows_iff (hrow : QueuedHandle eng σ row) {now : Instant} :
    row ∈ expiredRows f σ now ↔ ∃ e ∈ row.expiresAt, f.toRfc3339 e ≤ f.toRfc3339 now := by
  have hmem : row ∈ σ.pending := List.mem_of_find?_eq_some hrow.stored
  rw [mem_expiredRows, lapsed, Bool.and_eq_true, Option.any_eq_true]
  simp [hmem, hrow.pending]

/-- A sweep that reads its rows marks those of them that are still queued. -/
theorem swept_iff (hf : Documented f.toFormats) (hrow : QueuedHandle eng σ row) {now : Instant}
    {rows : List PendingAdjudicationRow} (h : listExpired f σ now = .ok rows) :
    (getPending (sweepExpiredAdjudications f eng σ now).2 row.handleId).map (·.status) =
      some .expired ↔ row ∈ expiredRows f σ now := by
  have hkeys : rows.map (fun r => (r.handleId, r.agentId, r.challengerClaimRef)) =
      (expiredRows f σ now).map fun r => (r.handleId, r.agentId, r.challengerClaimRef) := by
    refine decodeAll_map (fun {r x} hx => ?_) h
    obtain ⟨hagent, hhandle, hclaim⟩ := AgentIsolation.rowToPending_keys hf hx
    rw [hagent, hhandle, hclaim]
  have hnodup : (rows.map (·.challengerClaimRef)).Nodup := by
    have hsame := congrArg (List.map (·.2.2)) hkeys
    simp only [List.map_map, Function.comp_def] at hsame
    rw [hsame]
    have hperm := (inOrder_perm (fun r : PendingAdjudicationRow =>
      (r.expiresAt.map f.toRfc3339).getD "") (σ.pending.filter (lapsed f now))).map
        (·.challengerClaimRef)
    exact hperm.nodup_iff.mpr (hrow.distinct.challengers.sublist (List.filter_sublist.map _))
  obtain ⟨handles, htable, hmem⟩ := expiredPass_pending now rows hnodup (0, σ)
  have hmarked : row.handleId ∈ handles ↔ row ∈ expiredRows f σ now := by
    rw [hmem]
    constructor
    · rintro ⟨read, hread, hhandle, _⟩
      have hkey := hkeys ▸ List.mem_map_of_mem hread
      obtain ⟨listed, hlisted, hsame⟩ := List.mem_map.mp hkey
      have hstored := (mem_expiredRows.mp hlisted).1
      obtain rfl := hrow.distinct.eq_of_handle hstored (List.mem_of_find?_eq_some hrow.stored)
        ((congrArg Prod.fst hsame).trans hhandle)
      exact hlisted
    · intro hlisted
      have hkey := hkeys.symm ▸ List.mem_map_of_mem hlisted
      obtain ⟨read, hread, hsame⟩ := List.mem_map.mp hkey
      simp only [Prod.mk.injEq] at hsame
      obtain ⟨hhandle, hagent, hclaim⟩ := hsame
      have hqueued : Queued σ read.agentId read.challengerClaimRef := by
        rw [hagent, hclaim]
        exact hrow.queued
      exact ⟨read, hread, hhandle, hqueued⟩
  have hswept : (sweepExpiredAdjudications f eng σ now).2.pending =
      σ.pending.map (lapse handles) := by
    rw [sweepExpiredAdjudications, if_pos hrow.pendingStore, h]
    exact (orphanPass_pending _ _).trans htable
  have hkept : (fun r : PendingAdjudicationRow => r.handleId == row.handleId) ∘ lapse handles =
      fun r => r.handleId == row.handleId := by
    funext r
    unfold Function.comp lapse
    split <;> rfl
  rw [getPending, hswept, List.find?_map, hkept, ← getPending, hrow.stored, ← hmarked]
  by_cases hin : row.handleId ∈ handles
  · simp [lapse, hin]
  · simp [lapse, hin, hrow.pending]

/-- A sweep reads its rows if each of them reads back. -/
theorem listExpired_ok_iff (hf : Documented f.toFormats) {now : Instant} :
    (∃ rows, listExpired f σ now = .ok rows) ↔
      ∀ other ∈ σ.pending, lapsed f now other = true → ReadsBack f other := by
  have hok : ∀ other, (rowToPending f other).isOk = true ↔ ReadsBack f other := by
    intro other
    rw [← rowToPending_ok_iff hf]
    cases rowToPending f other <;> simp [Except.isOk, Except.toBool]
  rw [listExpired, exists_decodeAll_iff]
  simp only [hok, mem_expiredRows, and_imp]

/-- A sweep that does not read its rows leaves the store as it was. -/
theorem not_swept (hrow : QueuedHandle eng σ row) {now : Instant} {e : SqliteStoreError}
    (h : listExpired f σ now = .error e) :
    (getPending (sweepExpiredAdjudications f eng σ now).2 row.handleId).map (·.status) ≠
      some .expired := by
  rw [sweepExpiredAdjudications, if_pos hrow.pendingStore, h]
  dsimp only
  rw [hrow.stored, Option.map_some, hrow.pending]
  nofun

end Rows

section Main

variable {f : PendingFormats} {maxUtc : Instant} {eng : Engine} {σ : Store}
variable {row : PendingAdjudicationRow} {now : Instant}

/-- `to_rfc3339` of any instant; other years than those of four digits have a sign. -/
def PrintsAll (f : Formats) : Prop := ∀ t, f.toRfc3339 t = String.ofList (Timestamp.rfc3339 t)

theorem PrintsAll.prints {f : Formats} (h : PrintsAll f) : Prints f := fun t _ => h t

/-- A clock past the year 9999 prints a text before every deadline's, one before the year 0
    too. -/
theorem text_le_iff (hprint : PrintsAll f.toFormats) {e : Instant} (he : FourDigitYear e) :
    f.toRfc3339 e ≤ f.toRfc3339 now ↔ FourDigitYear now ∧ e ≤ now := by
  by_cases hnow : FourDigitYear now
  · rw [hprint.prints.ordered e now he hnow, and_iff_right hnow]
  · have hsigned : ¬ Timestamp.FourDigits now :=
      fun h => hnow ((Timestamp.fourDigits_iff now).mp h)
    have hlt := Timestamp.rfc3339_lt_of_signed hsigned (fourDigits_of_fourDigitYear he)
    refine iff_of_false (not_le_of_gt ?_) fun h => hnow h.1
    rw [hprint, hprint, String.lt_iff_toList_lt, String.toList_ofList, String.toList_ofList]
    exact hlt

/-- A ttl that chrono takes in full gives the deadline; a larger one would count as none. -/
theorem ttl_le_of_monotone {q : Instant} {d : ℕ}
    (h : ∀ d' ≤ d, ∃ e ∈ checkedDeadline maxUtc q d, ∃ e' ∈ checkedDeadline maxUtc q d', e' ≤ e) :
    expiresAt q d = q + d := by
  have hvalue : ∀ {d e}, e ∈ checkedDeadline maxUtc q d → e = expiresAt q d := by
    intro d e he
    unfold checkedDeadline at he
    split at he
    · exact (Option.some.inj he).symm
    · cases he
  by_contra hlarge
  have hmax : ¬ d ≤ maxDuration := fun hle => hlarge (by rw [expiresAt, if_pos hle])
  obtain ⟨e, he, e', he', hle⟩ := h 1 (by unfold maxDuration at hmax; omega)
  rw [hvalue he, hvalue he', expiresAt, expiresAt, if_neg hmax,
    if_pos (by unfold maxDuration; decide)] at hle
  have hnone : ((1 : ℕ) : ℤ) ≤ 0 := (add_le_add_iff_left q).mp hle
  omega

theorem expiresAt_of_fourDigitYear {q : ℤ} {d : ℕ} (hq : FourDigitYear q)
    (hd : FourDigitYear (q + d)) : expiresAt q d = q + d := by
  rw [expiresAt, if_pos]
  have hfirst : -62167219200 * 10 ^ 9 ≤ q := hq.1
  have hlast : q + d < 253402300800 * 10 ^ 9 := hd.2
  unfold maxDuration
  omega

theorem checkedDeadline_eq {q : Instant} {d : ℕ} (hmax : 253402300800 * 10 ^ 9 ≤ maxUtc)
    (hq : FourDigitYear q) (hd : FourDigitYear (q + d)) :
    checkedDeadline maxUtc q d = some (q + d) := by
  rw [checkedDeadline, expiresAt_of_fourDigitYear hq hd, if_pos (hd.2.le.trans hmax)]

theorem decoded_of_exact (hrow : QueuedHandle eng σ row)
    (h : DeadlineExact f maxUtc eng σ row now) : ∃ read, rowToPending f row = .ok read := by
  by_contra hundecoded
  let response : AdjudicationResponse := ⟨row.handleId, .unknown, .modelDerived⟩
  have hfailed := submitAdjudication_undecoded hrow hundecoded response now 0
  by_cases helapsed : Elapsed eng.config.defaultAdjudicationTtl row.queuedAt now
  · obtain ⟨e, _, hrefused⟩ := h.refused helapsed response 0
    rw [hfailed] at hrefused
    cases hrefused
  · have happlied := h.applied helapsed response 0
    rw [hfailed] at happlied
    cases happlied

theorem deadlinePrints_of_exact (hf : Documented f.toFormats) (hprint : PrintsAll f.toFormats)
    (hrow : QueuedHandle eng σ row) (h : DeadlineExact f maxUtc eng σ row now) :
    DeadlinePrints f eng σ row now := by
  obtain ⟨hqueued, hexpires, hpayload⟩ := (rowToPending_ok_iff hf).mp (decoded_of_exact hrow h)
  have hothers : Elapsed eng.config.defaultAdjudicationTtl row.queuedAt now →
      ∀ other ∈ σ.pending, lapsed f now other = true → ReadsBack f other := by
    intro helapsed
    refine (listExpired_ok_iff hf).mp ?_
    cases hlist : listExpired f σ now with
    | error e => exact absurd (h.swept.mpr helapsed) (not_swept hrow hlist)
    | ok rows => exact ⟨rows, rfl⟩
  refine ⟨hqueued, fun d hd => ?_, hpayload, hothers⟩
  have hdeadline : expiresAt row.queuedAt d = row.queuedAt + d :=
    ttl_le_of_monotone (h.monotone d hd)
  have hmem : row.queuedAt + (d : ℤ) ∈ row.expiresAt := by
    rw [hrow.deadline, Option.mem_def, Option.mem_def.mp hd, Option.map_some, hdeadline]
  have hyear := hexpires _ hmem
  refine ⟨hyear, lt_of_not_ge fun hlate => ?_⟩
  have helapsed : Elapsed eng.config.defaultAdjudicationTtl row.queuedAt now :=
    ⟨d, hd, le_sub_iff_add_le'.mpr (hyear.2.le.trans hlate)⟩
  obtain ⟨e, he, hle⟩ := (mem_expiredRows_iff hrow).mp (h.listed.mpr helapsed)
  exact absurd ((text_le_iff hprint (hexpires e he)).mp hle).1.2 (not_lt_of_ge hlate)

theorem exact_of_deadlinePrints (hf : Documented f.toFormats) (hprint : PrintsAll f.toFormats)
    (hmax : 253402300800 * 10 ^ 9 ≤ maxUtc) (hrow : QueuedHandle eng σ row)
    (h : DeadlinePrints f eng σ row now) : DeadlineExact f maxUtc eng σ row now := by
  have hexpires : ∀ e, e ∈ row.expiresAt ↔
      ∃ d ∈ eng.config.defaultAdjudicationTtl, e = row.queuedAt + (d : ℤ) := by
    intro e
    rw [hrow.deadline, Option.mem_map]
    refine exists_congr fun d => and_congr_right fun hd => ?_
    rw [expiresAt_of_fourDigitYear h.queuedAt (h.deadline d hd).1]
    exact eq_comm
  have hyear : ∀ e ∈ row.expiresAt, FourDigitYear e := fun e he => by
    obtain ⟨d, hd, rfl⟩ := (hexpires e).mp he
    exact (h.deadline d hd).1
  have helapsed : Elapsed eng.config.defaultAdjudicationTtl row.queuedAt now ↔
      ∃ e ∈ row.expiresAt, e ≤ now := by
    constructor
    · rintro ⟨d, hd, hle⟩
      exact ⟨_, (hexpires _).mpr ⟨d, hd, rfl⟩, le_sub_iff_add_le'.mp hle⟩
    · rintro ⟨e, he, hle⟩
      obtain ⟨d, hd, rfl⟩ := (hexpires e).mp he
      exact ⟨d, hd, le_sub_iff_add_le'.mpr hle⟩
  have hdecoded : ∃ read, rowToPending f row = .ok read :=
    (rowToPending_ok_iff hf).mpr ⟨h.queuedAt, hyear, h.payload⟩
  have hlisted : row ∈ expiredRows f σ now ↔
      Elapsed eng.config.defaultAdjudicationTtl row.queuedAt now := by
    rw [mem_expiredRows_iff hrow, helapsed]
    refine exists_congr fun e => and_congr_right fun he => ?_
    rw [text_le_iff hprint (hyear e he), and_iff_right_iff_imp]
    intro hle
    obtain ⟨d, hd, _⟩ := (hexpires e).mp he
    exact ⟨(hyear e he).1.trans hle, (h.deadline d hd).2⟩
  refine ⟨fun d hd => ?_, fun d hd d' hle => ?_, fun hrun response assertionRef => ?_,
    fun hrun response assertionRef => ?_, hlisted, ?_⟩
  · rw [checkedDeadline_eq hmax h.queuedAt (h.deadline d hd).1]
    rfl
  · have hd' : row.queuedAt + (d' : ℤ) ≤ row.queuedAt + (d : ℤ) :=
      add_le_add_right (Int.ofNat_le.mpr hle) _
    have hyear' : FourDigitYear (row.queuedAt + (d' : ℤ)) :=
      ⟨h.queuedAt.1.trans (le_add_of_nonneg_right (Int.natCast_nonneg d')),
        hd'.trans_lt (h.deadline d hd).1.2⟩
    exact ⟨_, checkedDeadline_eq hmax h.queuedAt (h.deadline d hd).1, _,
      checkedDeadline_eq hmax h.queuedAt hyear', hd'⟩
  · obtain ⟨e, he, hle⟩ := helapsed.mp hrun
    refine ⟨e, he, ?_⟩
    rw [submitAdjudication_decoded hrow hdecoded]
    exact execute_expired hrow he hle response assertionRef
  · rw [submitAdjudication_decoded hrow hdecoded]
    exact execute_open hrow (fun e he hle => hrun (helapsed.mpr ⟨e, he, hle⟩)) response assertionRef
  · cases hlist : listExpired f σ now with
    | error e =>
      refine iff_of_false (not_swept hrow hlist) fun hrun => ?_
      obtain ⟨rows, hrows⟩ := (listExpired_ok_iff hf).mpr (h.others hrun)
      rw [hlist] at hrows
      cases hrows
    | ok rows => exact (swept_iff hf hrow hlist).trans hlisted

/-- The deadline of a queued challenger is exact exactly if the row's instants print four
    digits of a year, the clock has not passed the year 9999 where there is a ttl, the payload
    reads back, and so do the rows that a sweep takes along. -/
theorem deadline_exact_iff (hf : Documented f.toFormats) (hprint : PrintsAll f.toFormats)
    (hmax : 253402300800 * 10 ^ 9 ≤ maxUtc) (hσ : Reachable eng σ) (hrow : row ∈ σ.pending)
    (hpending : row.status = .pending)
    (hqueued : currentDisposition σ row.agentId row.challengerClaimRef =
      some .queuedForAdjudication) (now : Instant) :
    DeadlineExact f maxUtc eng σ row now ↔ DeadlinePrints f eng σ row now := by
  have hhandle := queuedHandle_of_reachable hσ hrow hpending hqueued
  exact ⟨deadlinePrints_of_exact hf hprint hhandle, exact_of_deadlinePrints hf hprint hmax hhandle⟩

end Main

section Sample

/-- Prints every instant, and parses what has been printed of a four-digit year. -/
noncomputable def printed : PendingFormats :=
  { sample with
    toRfc3339 := fun t => String.ofList (Timestamp.rfc3339 t)
    parseFromRfc3339 := fun s => open Classical in
      if h : ∃ t, FourDigitYear t ∧ String.ofList (Timestamp.rfc3339 t) = s then .ok h.choose
      else .error "input contains invalid characters"
    rereadPayload := .ok }

theorem printed_printsAll : PrintsAll printed.toFormats := fun _ => rfl

theorem printed_documented : Documented printed.toFormats where
  uuid := sample_documented.uuid
  strings := sample_documented.strings
  fourDigits t ht := by
    have h : ∃ u, FourDigitYear u ∧
        String.ofList (Timestamp.rfc3339 u) = String.ofList (Timestamp.rfc3339 t) := ⟨t, ht, rfl⟩
    have hsame : h.choose = t := (Timestamp.rfc3339_inj
      (fourDigits_of_fourDigitYear h.choose_spec.1) (fourDigits_of_fourDigitYear ht)).mp
        (String.ofList_injective h.choose_spec.2)
    exact (dif_pos h).trans (congrArg Except.ok hsame)
  signed t ht := by
    have hsigned : ¬ Timestamp.FourDigits t := fun h => ht ((Timestamp.fourDigits_iff t).mp h)
    refine ⟨"input contains invalid characters", dif_neg ?_⟩
    rintro ⟨u, hu, hsame⟩
    have hlt := Timestamp.rfc3339_lt_of_signed hsigned (fourDigits_of_fourDigitYear hu)
    exact hlt.ne (String.ofList_injective hsame).symm

/-- `DateTime::<Utc>::MAX_UTC`. -/
def latest : Instant := 8210266876799999999999

def withTtl (d : ℕ) : Engine :=
  ⟨{ EngineConfig.default with defaultAdjudicationTtl := some d }, true, true⟩

/-- Two rivals, the second of which is queued. -/
def queuedUnder (d : ℕ) : Store := run (withTtl d) Store.sqlite rivals

/-- A handle expires at its deadline, 50 nanoseconds after it is queued at 20. -/
theorem briefTtl_exact : ∃ row ∈ (queuedUnder 50).pending,
    DeadlineExact printed latest (withTtl 50) (queuedUnder 50) row 70 := by
  have hrun : Runnable (withTtl 50) Store.sqlite rivals := by decide
  refine ⟨(queuedUnder 50).pending.head (by decide), by decide,
    (deadline_exact_iff printed_documented printed_printsAll (by decide) (run_reachable hrun)
      (by decide) (by decide) (by decide) 70).mpr ⟨by decide, ?_, ⟨_, rfl⟩, ?_⟩⟩
  · rintro d ⟨⟩
    decide
  · rintro - other hother -
    have hrow : other = (queuedUnder 50).pending.head (by decide) := List.mem_singleton.mp hother
    rw [hrow]
    refine ⟨by decide, ?_, ⟨_, rfl⟩⟩
    rintro t ⟨⟩
    decide

/-- `Duration::MAX`. -/
def durationMax : ℕ := 2 ^ 64 * 10 ^ 9 - 1

/-- Years of 365 days. -/
def years (n : ℕ) : ℕ := n * 365 * 86400 * 10 ^ 9

def undecided : AdjudicationResponse := ⟨101, .unknown, .external .externalFirstHand⟩

/-- Under the largest ttl a handle that is queued at 20 has expired at 21. Under one of
    300 000 years the deadline panics, and under one of 9000 years the row is not read. -/
theorem long_ttls_are_not_exact :
    (∃ row ∈ (queuedUnder durationMax).pending,
      (submitAdjudication printed (withTtl durationMax) (queuedUnder durationMax) row.handleId
        undecided 21 2).1 = .error (.adjudicationHandleNotFound 101) ∧
      ¬ DeadlineExact printed latest (withTtl durationMax) (queuedUnder durationMax) row 21) ∧
    checkedDeadline latest 20 (years 300000) = none ∧
    ∃ row ∈ (queuedUnder (years 9000)).pending,
      (submitAdjudication printed (withTtl (years 9000)) (queuedUnder (years 9000)) row.handleId
        undecided 21 2).1 = .error .pendingStore := by
  have hhandle : ∀ d, (hrun : Runnable (withTtl d) Store.sqlite rivals) →
      ∀ row ∈ (queuedUnder d).pending, row.status = .pending →
      currentDisposition (queuedUnder d) row.agentId row.challengerClaimRef =
        some .queuedForAdjudication → QueuedHandle (withTtl d) (queuedUnder d) row :=
    fun d hrun row hrow hpending hqueued =>
      queuedHandle_of_reachable (run_reachable hrun) hrow hpending hqueued
  refine ⟨?_, by decide, ?_⟩
  · let row := (queuedUnder durationMax).pending.head (by decide)
    have hrow : QueuedHandle (withTtl durationMax) (queuedUnder durationMax) row :=
      hhandle durationMax (by decide) row (by decide) (by decide) (by decide)
    have hback : ReadsBack printed row := by
      refine ⟨by decide, ?_, ⟨_, rfl⟩⟩
      rintro t ⟨⟩
      decide
    have hrefused : submitAdjudication printed (withTtl durationMax) (queuedUnder durationMax)
        row.handleId undecided 21 2 =
          (.error (.adjudicationHandleNotFound 101),
            lazyExpire (queuedUnder durationMax) row 20 21) := by
      rw [submitAdjudication_decoded hrow ((rowToPending_ok_iff printed_documented).mpr hback)]
      exact execute_expired hrow (by decide) (by decide) undecided 2
    refine ⟨row, by decide, congrArg Prod.fst hrefused, fun h => ?_⟩
    have hopen : ¬ Elapsed (withTtl durationMax).config.defaultAdjudicationTtl row.queuedAt 21 := by
      rintro ⟨d, ⟨⟩, hle⟩
      exact absurd hle (by decide)
    have happlied := h.applied hopen undecided 2
    rw [hrefused] at happlied
    cases happlied
  · let row := (queuedUnder (years 9000)).pending.head (by decide)
    have hrow : QueuedHandle (withTtl (years 9000)) (queuedUnder (years 9000)) row :=
      hhandle (years 9000) (by decide) row (by decide) (by decide) (by decide)
    have hback : ¬ ReadsBack printed row := fun h =>
      absurd (h.expiresAt (20 + years 9000) (by decide)) (by decide)
    refine ⟨row, by decide, ?_⟩
    rw [submitAdjudication_undecoded hrow fun h =>
      hback ((rowToPending_ok_iff printed_documented).mp h)]

end Sample

end Mempill.AdjudicationDeadline
