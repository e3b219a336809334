import Mempill.ConcurrentHandles
import Mempill.HandleOnce
import Mempill.SingleBound
import Mempill.WrittenClaims

set_option autoImplicit false

/-!
# Racing calls

When two handles never both apply a verdict on one adjudication handle, nor both record
a bound on one claim.
-/
namespace Mempill.RacingCalls
open Mempill.Types Mempill.Persistence Mempill.TruthEngine Mempill.Rows Mempill.ActiveBound
open Mempill.IngestClaim Mempill.AssertValidity Mempill.SubmitAdjudication Mempill.Engine
open Mempill.Invariants Mempill.ClaimLog Mempill.HandleOnce Mempill.WritePhases
open Mempill.PlannedWrites Mempill.ConcurrentHandles Transition

section Statement

def events (log : List Commit) : List Event := log.map Commit.event

/-- Two calls are concurrent where each has read before the other commits. -/
def NeverBothApplied (log : List Commit) : Prop :=
  ∀ pre post handleId readAt, log = pre ++ ⟨.applied handleId, readAt⟩ :: post →
    .applied handleId ∉ events (pre.drop readAt)

def ReopenedBetween (log : List Commit) : Prop :=
  ∀ pre mid post agentId r at_ at', events log =
      pre ++ .bounded agentId r at_ :: mid ++ .bounded agentId r at' :: post →
    at_ ≠ at' → .reopened agentId r ∈ mid

/-- The assertion committed last is the last one by stamp, and is reached by `now`. -/
def LastWins (as : List ValidityAssertion) (now : Instant) : Prop :=
  ∀ a ∈ as.getLast?, Effective now a ∧ ∀ b ∈ as, assertionKey b ≤ assertionKey a

/-- The plan puts the challenger of the row back on the queue. -/
def PutsBack (σ : Store) (appends : List Append) (row : PendingAdjudicationRow) : Prop :=
  ∃ e ∈ appendedEntries appends, e.agentId = row.agentId ∧
    e.claimRef = row.challengerClaimRef ∧ e.disposition = .queuedForAdjudication ∧
    ∀ x ∈ entriesOf σ row.agentId none row.challengerClaimRef, x.recordedAt ≤ e.recordedAt

/-- A verdict in flight: its handle, the store it saw, and when. -/
def verdictIn : Phase → Option (Uuid × Store × ℕ)
  | .called (.submitAdjudication handleId _ _ _) seen readAt _ => some (handleId, seen, readAt)
  | _ => none

/-- The guard of the read phase still holds as the call commits: the challenger of a
    verdict is still queued, under entries stamped before the verdict; a claim to
    be bounded has no active bound; and no pass queues the challenger of a handle that was
    applied while another verdict on it is in flight. -/
def GuardHolds (s : State) (seen : Store) (p : Planned Response) : Op → Prop
  | .submitAdjudication handleId response now assertionRef =>
    eventOf (.submitAdjudication handleId response now assertionRef) p =
        some (.applied handleId) →
      ∀ row ∈ getPending seen handleId,
        currentDisposition s.store row.agentId row.challengerClaimRef =
          some .queuedForAdjudication ∧ Follows s.store row now
  | .assertValidity req now _ =>
    req.assertion ≠ .reopen →
      activeBoundAt (assertionsOf s.store req.agentId req.target) now = none ∧
        LastWins (assertionsOf s.store req.agentId req.target) now
  | .reconcile _ _ =>
    ∀ h, ∀ call ∈ verdictIn (s.phase h), .applied call.1 ∈ events (s.log.drop call.2.2) →
      ∀ row ∈ getPending call.2.1 call.1, ¬ PutsBack s.store (appendsOf p) row
  | _ => True

/-- Every commit meets its guard again. -/
def GuardedCommit (eng : Handle → Engine) (s : State) : Action → Prop
  | .commit h =>
    match s.phase h with
    | .called op seen _ _ => GuardHolds s seen (plan eng h op seen) op
    | _ => True
  | _ => True

instance instDecidableLastWins (as : List ValidityAssertion) (now : Instant) :
    Decidable (LastWins as now) :=
  inferInstanceAs (Decidable (∀ a ∈ as.getLast?, _))

instance instDecidablePutsBack (σ : Store) (appends : List Append)
    (row : PendingAdjudicationRow) :
    Decidable (PutsBack σ appends row) := inferInstanceAs (Decidable (∃ e ∈ _, _))

instance instDecidableForallHandle (P : Handle → Prop) [DecidablePred P] : Decidable (∀ h, P h) :=
  decidable_of_iff (P .first ∧ P .second)
    ⟨fun hp h => by cases h <;> [exact hp.1; exact hp.2], fun hp => ⟨hp _, hp _⟩⟩

instance instDecidableGuardHolds (s : State) (seen : Store) (p : Planned Response) :
    (op : Op) → Decidable (GuardHolds s seen p op)
  | .submitAdjudication handleId _ _ _ =>
    inferInstanceAs (Decidable (eventOf _ p = some (.applied handleId) → ∀ row ∈ _, _ ∧ _))
  | .assertValidity req _ _ => inferInstanceAs (Decidable (req.assertion ≠ .reopen → _ ∧ _))
  | .reconcile _ _ => inferInstanceAs (Decidable (∀ h, ∀ call ∈ verdictIn (s.phase h), _ → _))
  | .ingestClaim _ _ _ _ => .isTrue trivial
  | .sweepExpired _ _ => .isTrue trivial
  | .sweepOrphan _ _ => .isTrue trivial
  | .appendEdge _ => .isTrue trivial

instance instDecidableGuardedCommit (eng : Handle → Engine) (s : State) (a : Action) :
    Decidable (GuardedCommit eng s a) := by
  unfold GuardedCommit
  split
  · split <;> infer_instance
  · infer_instance

/-- Every action of the list is one of a guarded run. -/
def Guarded (eng : Handle → Engine) (s : State) : List Action → Prop
  | [] => True
  | a :: actions => GuardedCommit eng s a ∧ ∀ s' ∈ step eng s a, Guarded eng s' actions

instance instDecidableGuarded (eng : Handle → Engine) (s : State) (actions : List Action) :
    Decidable (Guarded eng s actions) := by
  induction actions generalizing s with
  | nil => exact .isTrue trivial
  | cons a actions ih =>
    have hrest : ∀ o : Option State, Decidable (∀ s' ∈ o, Guarded eng s' actions)
      | none => .isTrue nofun
      | some s' => @decidable_of_iff _ (Guarded eng s' actions)
        ⟨fun h t ht => Option.some.inj ht ▸ h, fun h => h s' rfl⟩ (ih s')
    exact @instDecidableAnd _ _ inferInstance (hrest (step eng s a))

end Statement

section Plans

variable {eng : Engine} {seen : Store} {op : Op} {handleId : Uuid} {agentId : AgentId}
variable {r : ClaimRef}

theorem mem_newEntries_appended {appends : List Append} {e : LedgerEntry}
    (he : .entry e ∈ appends) :
    newEntries (rowsOf appends) e.agentId e.claimRef ≠ [] := by
  have hmem : e ∈ appendedEntries appends := List.mem_filterMap.mpr ⟨_, he, rfl⟩
  exact List.ne_nil_of_mem (mem_newEntries.mpr ⟨hmem, rfl, rfl⟩)

theorem planSubmit_resolves {config : EngineConfig} {response : AdjudicationResponse}
    {now : Instant} {assertionRef resolved : Uuid} {appends : List Append}
    {result : Except MemError AdjudicationOutcome}
    (h : planSubmit config seen handleId response now assertionRef =
      .write appends (.resolve resolved) result) :
    ∃ row, getPending seen handleId = some row ∧
      newEntries (rowsOf appends) row.agentId row.challengerClaimRef ≠ [] := by
  unfold planSubmit at h
  cases hrow : getPending seen handleId with
  | none => simp [hrow] at h
  | some row =>
    refine ⟨row, rfl, ?_⟩
    simp only [hrow] at h
    split at h
    · split_ifs at h
      cases h
    · split_ifs at h
      split at h
      · cases h
      · simp only [Planned.write.injEq] at h
        rw [← h.1]
        cases response.verdict with
        | affirm =>
          exact mem_newEntries_appended (List.mem_append_right _ (List.mem_singleton_self _))
        | deny => exact mem_newEntries_appended (List.mem_cons_of_mem _ List.mem_cons_self)
        | unknown => exact mem_newEntries_appended List.mem_cons_self

/-- A plan that resolves a handle writes about its challenger. -/
theorem applied_plan (h : eventOf op (planOf eng seen op) = some (.applied handleId)) :
    ∃ response now assertionRef row,
      op = .submitAdjudication handleId response now assertionRef ∧
      getPending seen handleId = some row ∧
      newEntries (rowsOf (appendsOf (planOf eng seen op))) row.agentId
        row.challengerClaimRef ≠ [] := by
  cases op with
  | submitAdjudication id response now assertionRef =>
    cases hplan : planSubmit eng.config seen id response now assertionRef with
    | answered result => simp [planOf, hplan, Planned.map, eventOf] at h
    | write appends after result =>
      simp only [planOf, hplan, Planned.map] at h ⊢
      cases after with
      | resolve resolved =>
        cases Option.some.inj h
        obtain ⟨row, hrow, hne⟩ := planSubmit_resolves hplan
        exact ⟨response, now, assertionRef, row, rfl, hrow, hne⟩
      | _ => cases h
  | assertValidity req now assertionRef =>
    cases hplan : planOf eng seen (.assertValidity req now assertionRef) with
    | answered result =>
      rw [hplan] at h
      cases h
    | write appends after result =>
      rw [hplan] at h
      have hevent : hostEvent req = .applied handleId := Option.some.inj h
      unfold hostEvent at hevent
      split at hevent <;> cases hevent
  | _ => cases h

theorem planAssert_writes {req : AssertValidityRequest} {now : Instant} {assertionRef : Uuid}
    {appends : List Append} {after : AfterCommit} {result : Except MemError AssertValidityResponse}
    (h : planAssert seen req now assertionRef = .write appends after result) :
    ∃ kind, .assertion (hostAssertion req kind now assertionRef) ∈ appends := by
  unfold planAssert at h
  split_ifs at h
  split at h
  · cases h
  · dsimp only at h
    split at h
    · unfold planBound at h
      split_ifs at h
      split at h
      · split_ifs at h
      · split at h
        · cases h
        · cases h
          exact ⟨_, List.mem_cons_self⟩
    · unfold planReopen at h
      split at h
      · cases h
      · cases h
        exact ⟨_, List.mem_cons_self⟩

/-- A plan that bounds a claim writes an assertion on it. -/
theorem bounded_plan {at_ : Instant}
    (h : eventOf op (planOf eng seen op) = some (.bounded agentId r at_)) :
    newAssertions (rowsOf (appendsOf (planOf eng seen op))) agentId r ≠ [] := by
  cases op with
  | assertValidity req now assertionRef =>
    cases hplan : planAssert seen req now assertionRef with
    | answered result => simp [planOf, hplan, Planned.map, eventOf] at h
    | write appends after result =>
      simp only [planOf, hplan, Planned.map] at h ⊢
      have hevent : hostEvent req = .bounded agentId r at_ := Option.some.inj h
      obtain ⟨kind, hmem⟩ := planAssert_writes hplan
      have happended : hostAssertion req kind now assertionRef ∈ appendedAssertions appends :=
        List.mem_filterMap.mpr ⟨_, hmem, rfl⟩
      unfold hostEvent at hevent
      split at hevent
      · cases hevent
        exact List.ne_nil_of_mem (List.mem_filter.mpr ⟨happended, by simp [hostAssertion]⟩)
      · cases hevent
  | submitAdjudication id response now assertionRef =>
    simp only [eventOf] at h
    split at h <;> simp_all
  | _ => cases h

theorem op_of_bounded {p : Planned Response} {at_ : Instant}
    (h : eventOf op p = some (.bounded agentId r at_)) :
    ∃ req now assertionRef granularity, op = .assertValidity req now assertionRef ∧
      req.assertion = .bound at_ granularity ∧ req.agentId = agentId ∧ req.target = r := by
  cases op with
  | assertValidity req now assertionRef =>
    cases p with
    | answered result => cases h
    | write appends after result =>
      have hevent : hostEvent req = .bounded agentId r at_ := Option.some.inj h
      unfold hostEvent at hevent
      split at hevent
      · cases hevent
        exact ⟨req, now, assertionRef, _, rfl, by assumption, rfl, rfl⟩
      · cases hevent
  | submitAdjudication id response now assertionRef =>
    simp only [eventOf] at h
    split at h <;> simp_all
  | _ => cases h

/-- Every assertion of a plan states a bound, unless the plan reopens its target. -/
theorem bound_or_reopened {a : ValidityAssertion}
    (ha : a ∈ newAssertions (rowsOf (appendsOf (planOf eng seen op))) agentId r) :
    (∃ at_ granularity, a.kind = .bound at_ granularity) ∨
      eventOf op (planOf eng seen op) = some (.reopened agentId r) := by
  obtain ⟨hmem, hkey⟩ := List.mem_filter.mp ha
  simp only [Bool.and_eq_true, beq_iff_eq] at hkey
  obtain ⟨rfl, rfl⟩ := hkey
  cases SingleBound.assertionWritten_of_mem (plan_outcome eng seen op) hmem with
  | host _ _ => exact .inl ⟨_, _, rfl⟩
  | verdict _ => exact .inl ⟨_, _, rfl⟩
  | @reopen req now assertionRef hassert haccepted =>
    right
    cases hplan : planOf eng seen (.assertValidity req now assertionRef) with
    | answered result =>
      rw [hplan] at hmem
      cases hmem
    | write appends after result =>
      refine congrArg some ?_
      rw [hostEvent, hassert]
      rfl

end Plans

section Invariant

/-- The rows of the pending table stay, under the same claim. -/
def Persists (σ σ' : Store) : Prop :=
  ∀ handleId row, getPending σ handleId = some row → ∃ stored,
    getPending σ' handleId = some stored ∧ stored.agentId = row.agentId ∧
      stored.challengerClaimRef = row.challengerClaimRef

/-- What a call in flight can count on. -/
structure CallInv (s : State) (op : Op) (seen : Store) (readAt : ℕ) : Prop where
  past : readAt ≤ s.log.length
  rows : Persists seen s.store
  /-- Where a verdict was applied since, its challenger is off the queue. -/
  unqueued : ∀ handleId response now assertionRef row,
    op = .submitAdjudication handleId response now assertionRef →
    getPending seen handleId = some row → .applied handleId ∈ events (s.log.drop readAt) →
    currentDisposition s.store row.agentId row.challengerClaimRef ≠ some .queuedForAdjudication

/-- The claim was bounded by a request, and not reopened since. -/
def Unopened (es : List Event) (agentId : AgentId) (r : ClaimRef) : Prop :=
  ∃ pre at_ post, es = pre ++ .bounded agentId r at_ :: post ∧ .reopened agentId r ∉ post

structure Inv (s : State) : Prop where
  calls : ∀ h op seen readAt locked, s.phase h = .called op seen readAt locked →
    CallInv s op seen readAt
  bounds : ∀ agentId r, Unopened (events s.log) agentId r →
    ∃ a ∈ (assertionsOf s.store agentId r).getLast?, ∃ at_ granularity,
      a.kind = .bound at_ granularity
  apart : NeverBothApplied s.log
  between : ReopenedBetween s.log

theorem inv_start (ties : StampedLog.TieOrder LedgerEntry) : Inv (State.start ties) where
  calls _ _ _ _ _ h := by cases h
  bounds _ _ h := by
    obtain ⟨pre, _, post, h, _⟩ := h
    simp [State.start, events] at h
  apart pre post _ _ h := by simp [State.start] at h
  between pre mid post _ _ _ _ h := by simp [State.start, events] at h

variable {s s' : State} {op : Op} {seen : Store} {readAt : ℕ}

theorem Persists.refl (σ : Store) : Persists σ σ := fun _ row h => ⟨row, h, rfl, rfl⟩

theorem Persists.trans {σ τ υ : Store} (h : Persists σ τ) (h' : Persists τ υ) : Persists σ υ := by
  intro handleId row hrow
  obtain ⟨stored, hstored, hagent, href⟩ := h handleId row hrow
  obtain ⟨later, hlater, hagent', href'⟩ := h' handleId stored hstored
  exact ⟨later, hlater, hagent'.trans hagent, href'.trans href⟩

theorem CallInv.frame (h : CallInv s op seen readAt) (hlog : s'.log = s.log)
    (hledger : s'.store.ledger = s.store.ledger) (hties : s'.store.ties = s.store.ties)
    (hrows : Persists s.store s'.store) : CallInv s' op seen readAt := by
  refine ⟨hlog ▸ h.past, h.rows.trans hrows, ?_⟩
  intro handleId response now assertionRef row hop hrow happlied
  have hentries : entriesOf s'.store row.agentId none row.challengerClaimRef =
      entriesOf s.store row.agentId none row.challengerClaimRef := by
    rw [entriesOf, hledger, entriesOf]
  rw [Verdicts.currentDisposition_eq, hentries, hties, ← Verdicts.currentDisposition_eq]
  exact h.unqueued handleId response now assertionRef row hop hrow (hlog ▸ happlied)

theorem CallInv.ofRead (s : State) (op : Op) : CallInv s op s.store s.log.length := by
  refine ⟨le_refl _, Persists.refl _, ?_⟩
  intro handleId response now assertionRef row hop hrow happlied
  simp [events] at happlied

/-- A handle moves on its own; the tables that the invariant speaks of stay. -/
theorem Inv.move (hinv : Inv s) {h : Handle} {phase : Phase} {pending : List PendingAdjudicationRow}
    (hrows : Persists s.store { s.store with pending := pending })
    (hcall : ∀ op seen readAt locked, phase = .called op seen readAt locked →
      CallInv s op seen readAt) :
    Inv { s.move h phase with store := { s.store with pending := pending } } where
  calls h' op seen readAt locked hphase := by
    refine CallInv.frame (s := s) ?_ rfl rfl rfl hrows
    simp only [State.move] at hphase
    by_cases heq : h' = h
    · subst heq
      rw [Function.update_self] at hphase
      exact hcall op seen readAt locked hphase
    · rw [Function.update_of_ne heq] at hphase
      exact hinv.calls h' op seen readAt locked hphase
  bounds := hinv.bounds
  apart := hinv.apart
  between := hinv.between

end Invariant

section Commits

variable {eng : Handle → Engine} {s : State} {h : Handle} {op : Op} {seen : Store} {readAt : ℕ}

theorem split_concat {α : Type} {xs pre post : List α} {x y : α}
    (h : xs ++ [x] = pre ++ y :: post) :
    (xs = pre ∧ x = y) ∨ ∃ rest, post = rest ++ [x] ∧ xs = pre ++ y :: rest := by
  cases post using List.reverseRecOn with
  | nil =>
    obtain ⟨hpre, hlast⟩ := List.append_inj' h rfl
    exact .inl ⟨hpre, List.singleton_inj.mp hlast⟩
  | append_singleton rest z =>
    rw [← List.cons_append, ← List.append_assoc] at h
    obtain ⟨hpre, hlast⟩ := List.append_inj' h rfl
    exact .inr ⟨rest, by rw [List.singleton_inj.mp hlast], hpre⟩

/-- The two stores seen agree about the claims of a handle, through the store itself. -/
theorem sameRow {seen' σ : Store} (hrows : Persists seen σ) (hrows' : Persists seen' σ)
    {handleId : Uuid} {row row' : PendingAdjudicationRow}
    (hrow : getPending seen handleId = some row) (hrow' : getPending seen' handleId = some row') :
    row'.agentId = row.agentId ∧ row'.challengerClaimRef = row.challengerClaimRef := by
  obtain ⟨stored, hstored, hagent, href⟩ := hrows handleId row hrow
  obtain ⟨stored', hstored', hagent', href'⟩ := hrows' handleId row' hrow'
  rw [hstored] at hstored'
  cases hstored'
  exact ⟨hagent'.symm.trans hagent, href'.symm.trans href⟩

/-- An applied verdict takes its challenger off the queue. -/
theorem unqueued_of_applied {handleId : Uuid} {row : PendingAdjudicationRow}
    (hevent : eventOf op (plan eng h op seen) = some (.applied handleId))
    (hguard : GuardHolds s seen (plan eng h op seen) op)
    (hrow : getPending seen handleId = some row) :
    currentDisposition (s.commit eng h op seen readAt).store row.agentId
      row.challengerClaimRef ≠ some .queuedForAdjudication := by
  obtain ⟨response, now, assertionRef, found, rfl, hfound, hne⟩ := applied_plan hevent
  rw [hrow] at hfound
  cases hfound
  obtain ⟨hqueued, hfollows⟩ := hguard hevent row hrow
  have houtcome :=
    plan_outcome (eng h) seen (.submitAdjudication handleId response now assertionRef)
  refine not_queued_after_append (writeAll_appends s.store _) hne fun e he => ⟨?_, ?_⟩
  · intro hagain
    rcases queued_of_entry houtcome (mem_newEntries.mp he).1 hagain with
      ⟨_, _, _, _, hop, _⟩ | ⟨_, _, hop, _⟩ <;> cases hop
  · have hstamp := (WrittenClaims.writesAbout_of_entry houtcome (mem_newEntries.mp he).1).1
    exact hstamp ▸ hfollows hqueued

/-- A commit puts no challenger back that was off the queue, unless it is a pass. -/
theorem unqueued_kept {row stored : PendingAdjudicationRow} (hsup : Supplied s.store op)
    (hstored : stored ∈ s.store.pending)
    (href : stored.challengerClaimRef = row.challengerClaimRef)
    (hpass : ∀ req now, op = .reconcile req now →
      ¬ PutsBack s.store (appendsOf (plan eng h op seen)) row)
    (hold : currentDisposition s.store row.agentId row.challengerClaimRef ≠
      some .queuedForAdjudication) :
    currentDisposition (s.commit eng h op seen readAt).store row.agentId
      row.challengerClaimRef ≠ some .queuedForAdjudication := by
  intro hqueued
  have houtcome := plan_outcome (eng h) seen op
  rcases queued_after_append (writeAll_appends s.store _) hqueued with hbefore |
    ⟨e, he, hagain, hlast⟩
  · exact hold hbefore
  · obtain ⟨hmem, hagent, hclaim⟩ := mem_newEntries.mp he
    rcases queued_of_entry houtcome hmem hagain with
      ⟨req, now, claimRef, reply, rfl, _, _, hnew⟩ | ⟨req, now, hop, _⟩
    · have huuid := congrArg ClaimRef.uuid (href.trans (hclaim.symm.trans hnew))
      exact (Fresh.pending hsup hstored).1 huuid
    · exact hpass req now hop ⟨e, hmem, hagent, hclaim, hagain, hlast⟩

theorem events_commit (s : State) (h : Handle) (op : Op) (seen : Store) (readAt n : ℕ)
    (hn : n ≤ s.log.length) :
    events ((s.commit eng h op seen readAt).log.drop n) =
      events (s.log.drop n) ++ (eventOf op (plan eng h op seen)).toList := by
  rw [State.commit, List.drop_append_of_le_length hn, events, List.map_append, List.map_map]
  simp [events, Function.comp_def]

theorem events_commit_all (s : State) (h : Handle) (op : Op) (seen : Store) (readAt : ℕ) :
    events (s.commit eng h op seen readAt).log =
      events s.log ++ (eventOf op (plan eng h op seen)).toList := by
  simpa using @events_commit eng s h op seen readAt 0 (Nat.zero_le _)

theorem CallInv.commit {h' : Handle} {op' : Op} {seen' : Store} {readAt' : ℕ} {locked : Bool}
    (hinv : Inv s) (hphase : s.phase h = .called op seen readAt true)
    (hsup : Supplied s.store op) (hguard : GuardHolds s seen (plan eng h op seen) op)
    (hphase' : s.phase h' = .called op' seen' readAt' locked) :
    CallInv (s.commit eng h op seen readAt) op' seen' readAt' := by
  have hcall := hinv.calls h' op' seen' readAt' locked hphase'
  have hpending : (s.commit eng h op seen readAt).store.pending = s.store.pending :=
    writeAll_pending _ _
  refine ⟨?_, ?_, ?_⟩
  · rw [State.commit, List.length_append]
    exact hcall.past.trans (Nat.le_add_right _ _)
  · intro handleId row hrow
    rw [getPending, hpending]
    exact hcall.rows handleId row hrow
  · rintro handleId response now assertionRef row rfl hrow happlied
    rw [events_commit s h op seen readAt readAt' hcall.past] at happlied
    rcases List.mem_append.mp happlied with hbefore | hnow
    · have hold := hcall.unqueued handleId response now assertionRef row rfl hrow hbefore
      obtain ⟨stored, hstored, hagent, href⟩ := hcall.rows handleId row hrow
      refine unqueued_kept hsup (QueueRows.handleId_of_getPending hstored).1 href ?_ hold
      rintro req now' rfl
      exact hguard h' (handleId, seen', readAt') (by rw [hphase']; rfl) hbefore row hrow
    · have hevent : eventOf op (plan eng h op seen) = some (.applied handleId) :=
        Option.mem_toList.mp hnow
      obtain ⟨_, _, _, found, _, hfound, _⟩ := applied_plan hevent
      obtain ⟨hagent, href⟩ := sameRow (hinv.calls h op seen readAt true hphase).rows hcall.rows
        hfound hrow
      rw [hagent, href]
      exact unqueued_of_applied hevent hguard hfound

/-- A claim that its guard finds unbounded was not bounded since its last reopen. -/
theorem not_unopened_of_guard (hinv : Inv s) {agentId : AgentId} {r : ClaimRef} {at_ : Instant}
    (hevent : eventOf op (plan eng h op seen) = some (.bounded agentId r at_))
    (hguard : GuardHolds s seen (plan eng h op seen) op) :
    ¬ Unopened (events s.log) agentId r := by
  intro hopen
  obtain ⟨req, now, assertionRef, granularity, rfl, hassert, rfl, rfl⟩ := op_of_bounded hevent
  have hbounds : req.assertion ≠ .reopen := by
    rw [hassert]
    nofun
  obtain ⟨hnone, hwins⟩ := hguard hbounds
  obtain ⟨a, ha, at', granularity', hkind⟩ := hinv.bounds _ _ hopen
  obtain ⟨heff, hmax⟩ := hwins a ha
  rw [activeBoundAt_of_last ha heff hmax, toBoundState, hkind] at hnone
  cases hnone

theorem unopened_concat {es : List Event} {ev : Event} {agentId : AgentId} {r : ClaimRef}
    (h : Unopened (es ++ [ev]) agentId r) :
    ev ≠ .reopened agentId r ∧ ((∃ at_, ev = .bounded agentId r at_) ∨ Unopened es agentId r) := by
  obtain ⟨pre, at_, post, heq, hnot⟩ := h
  rcases split_concat heq with ⟨_, rfl⟩ | ⟨rest, rfl, hes⟩
  · exact ⟨nofun, .inl ⟨at_, rfl⟩⟩
  · refine ⟨?_, .inr ⟨pre, at_, rest, hes, fun hmem => hnot (List.mem_append_left _ hmem)⟩⟩
    rintro rfl
    exact hnot (List.mem_append_right _ (List.mem_singleton_self _))

theorem bounds_commit (hinv : Inv s) {agentId : AgentId} {r : ClaimRef}
    (hopen : Unopened (events (s.commit eng h op seen readAt).log) agentId r) :
    ∃ a ∈ (assertionsOf (s.commit eng h op seen readAt).store agentId r).getLast?,
      ∃ at_ granularity, a.kind = .bound at_ granularity := by
  have hassertions : assertionsOf (s.commit eng h op seen readAt).store agentId r =
      assertionsOf s.store agentId r ++
        newAssertions (rowsOf (appendsOf (plan eng h op seen))) agentId r :=
    assertionsOf_append (writeAll_appends s.store _) agentId r
  rw [events_commit_all] at hopen
  rw [hassertions]
  cases hnew : newAssertions (rowsOf (appendsOf (plan eng h op seen))) agentId r
    using List.reverseRecOn with
  | nil =>
    rw [List.append_nil]
    refine hinv.bounds agentId r ?_
    cases hevent : eventOf op (plan eng h op seen) with
    | none => simpa [hevent] using hopen
    | some ev =>
      rw [hevent] at hopen
      rcases (unopened_concat hopen).2 with ⟨at_, rfl⟩ | hbefore
      · exact absurd hnew (bounded_plan hevent)
      · exact hbefore
  | append_singleton init a =>
    refine ⟨a, by simp, ?_⟩
    have ha : a ∈ newAssertions (rowsOf (appendsOf (plan eng h op seen))) agentId r := by
      rw [hnew]
      exact List.mem_append_right _ (List.mem_singleton_self a)
    rcases bound_or_reopened ha with hbound | hevent
    · exact hbound
    · rw [plan, hevent] at hopen
      exact absurd rfl (unopened_concat hopen).1

theorem apart_commit (hinv : Inv s) (hphase : s.phase h = .called op seen readAt true)
    (hguard : GuardHolds s seen (plan eng h op seen) op) :
    NeverBothApplied (s.commit eng h op seen readAt).log := by
  intro pre post handleId n hlog
  cases hevent : eventOf op (plan eng h op seen) with
  | none =>
    have hsame : (s.commit eng h op seen readAt).log = s.log := by simp [State.commit, hevent]
    exact hinv.apart pre post handleId n (hsame ▸ hlog)
  | some ev =>
    have hnew : (s.commit eng h op seen readAt).log = s.log ++ [⟨ev, readAt⟩] := by
      simp [State.commit, hevent]
    rcases split_concat (hnew.symm.trans hlog) with ⟨rfl, heq⟩ | ⟨rest, _, hrest⟩
    · cases heq
      intro hbefore
      obtain ⟨response, now, assertionRef, row, rfl, hrow, _⟩ := applied_plan hevent
      exact (hinv.calls h _ seen readAt true hphase).unqueued handleId response now assertionRef
        row rfl hrow hbefore (hguard hevent row hrow).1
    · exact hinv.apart pre rest handleId n hrest

theorem between_commit (hinv : Inv s) (hguard : GuardHolds s seen (plan eng h op seen) op) :
    ReopenedBetween (s.commit eng h op seen readAt).log := by
  intro pre mid post agentId r at_ at' hlog hne
  have hevents := @events_commit_all eng s h op seen readAt
  rw [hlog] at hevents
  cases hevent : eventOf op (plan eng h op seen) with
  | none =>
    rw [hevent, Option.toList_none, List.append_nil] at hevents
    exact hinv.between pre mid post agentId r at_ at' hevents.symm hne
  | some ev =>
    rw [hevent, Option.toList_some] at hevents
    rcases split_concat hevents.symm with ⟨hpre, rfl⟩ | ⟨rest, _, hrest⟩
    · by_contra hnot
      exact not_unopened_of_guard hinv hevent hguard ⟨pre, at_, mid, hpre, hnot⟩
    · exact hinv.between pre mid rest agentId r at_ at' hrest hne

theorem Inv.commit (hinv : Inv s) (hphase : s.phase h = .called op seen readAt true)
    (hsup : Supplied s.store op) (hguard : GuardHolds s seen (plan eng h op seen) op) :
    Inv (s.commit eng h op seen readAt) where
  calls h' op' seen' readAt' locked hphase' := by
    by_cases heq : h' = h
    · subst heq
      simp only [State.commit, Function.update_self] at hphase'
      cases hphase'
    · simp only [State.commit, Function.update_of_ne heq] at hphase'
      exact CallInv.commit hinv hphase hsup hguard hphase'
  bounds _ _ hopen := bounds_commit hinv hopen
  apart := apart_commit hinv hphase hguard
  between := between_commit hinv hguard

end Commits

section Runs

variable {eng : Handle → Engine} {s s' : State} {a : Action}

theorem persists_of_marked (σ : Store) (marked : Uuid) (status : PendingStatus) :
    Persists σ { σ with pending := σ.pending.map (QueueRows.withStatus marked status) } := by
  intro handleId row hrow
  exact ⟨QueueRows.withStatus marked status row, getPending_of_marked rfl hrow, by simp, by simp⟩

theorem persists_of_queued (σ : Store) (row : PendingAdjudicationRow) :
    Persists σ { σ with pending := σ.pending ++ [row] } := by
  intro handleId found hfound
  exact ⟨found, getPending_of_queued rfl hfound, rfl, rfl⟩

/-- After its commit a call touches the pending table alone. -/
theorem finish_pending (faults : Faults) (σ : Store) (after : AfterCommit) :
    ∃ pending, (Planned.finish faults σ (.ok ()) after).2 = { σ with pending := pending } ∧
      Persists σ { σ with pending := pending } := by
  have hsame : ∃ pending, σ = { σ with pending := pending } ∧
      Persists σ { σ with pending := pending } := ⟨σ.pending, rfl, Persists.refl σ⟩
  cases after with
  | nothing => exact hsame
  | queue reply row =>
    cases reply with
    | error reason => exact hsame
    | ok handleId =>
      simp only [Planned.finish, insertPending]
      split_ifs
      · exact hsame
      · exact hsame
      · exact ⟨_, rfl, persists_of_queued σ (row handleId)⟩
  | resolve handleId =>
    simp only [Planned.finish]
    split_ifs
    · exact hsame
    · exact ⟨_, rfl, persists_of_marked σ handleId .resolved⟩
  | expire handleId =>
    simp only [Planned.finish]
    split_ifs
    · exact hsame
    · exact ⟨_, rfl, persists_of_marked σ handleId .expired⟩
  | expireLazily handleId =>
    simp only [Planned.finish]
    split_ifs
    · exact hsame
    · exact ⟨_, rfl, persists_of_marked σ handleId .expired⟩

theorem Inv.step (hinv : Inv s) (hguarded : GuardedCommit eng s a)
    (hstep : ConcurrentHandles.step eng s a = some s') : Inv s' := by
  have hstay : Persists s.store { s.store with pending := s.store.pending } := Persists.refl s.store
  cases moves_of_step hstep with
  | @read h op hphase =>
    refine hinv.move hstay fun op' seen readAt locked heq => ?_
    obtain ⟨rfl, rfl, rfl, _⟩ := Phase.called.inj heq
    exact CallInv.ofRead s op
  | @beginAtomic h op seen readAt hphase hfree =>
    refine hinv.move hstay fun op' seen' readAt' locked heq => ?_
    obtain ⟨rfl, rfl, rfl, _⟩ := Phase.called.inj heq
    exact hinv.calls h op seen readAt false hphase
  | @commit h op seen readAt hphase hsup =>
    simp only [GuardedCommit, hphase] at hguarded
    exact hinv.commit hphase hsup hguarded
  | giveUp hphase =>
    refine hinv.move hstay fun op seen readAt locked heq => ?_
    cases heq
  | @finish h after faults hphase =>
    obtain ⟨pending, hstore, hrows⟩ := finish_pending faults s.store after
    rw [hstore]
    refine hinv.move hrows fun op seen readAt locked heq => ?_
    cases heq

/-- In every run of two handles whose commits meet their guard again, no two concurrent
    verdicts on one handle are both applied, and between two bounds of one claim at
    different instants there is a reopen. -/
theorem guarded_commits_never_race
    (hs : Reach State.New
      (Restrict (fun s a s' => ConcurrentHandles.step eng s a = some s') (GuardedCommit eng)) s) :
    NeverBothApplied s.log ∧ ReopenedBetween s.log := by
  have hinv : Inv s := by
    refine Reach.invariant (P := Inv) hs (fun s hnew => ?_)
      fun _ _ _ _ hinv hst => hinv.step hst.1 hst.2
    obtain ⟨ties, rfl⟩ := hnew
    exact inv_start ties
  exact ⟨hinv.apart, hinv.between⟩

theorem reach_of_replay {actions : List Action}
    (hs : Reach State.New
      (Restrict (fun s a s' => ConcurrentHandles.step eng s a = some s') (GuardedCommit eng)) s)
    (hreplay : replay eng s actions = some s') (hguarded : Guarded eng s actions) :
    Reach State.New
      (Restrict (fun s a s' => ConcurrentHandles.step eng s a = some s') (GuardedCommit eng))
      s' := by
  induction actions generalizing s with
  | nil => exact Option.some.inj hreplay ▸ hs
  | cons a actions ih =>
    rw [replay, List.foldlM_cons, Option.bind_eq_bind, Option.bind_eq_some_iff] at hreplay
    obtain ⟨t, hstep, hrest⟩ := hreplay
    exact ih (hs.step ⟨hguarded.1, hstep⟩) hrest (hguarded.2 t hstep)

def handles : Handle → Engine := fun _ => defaultEngine true

def queuedBerlin : List Action := rivals.flatMap (call .first)

def boundOn (at_ now : Instant) (assertionRef : Uuid) : Op :=
  .assertValidity (assertOn 2 (.bound at_ none)) now assertionRef

/-- Two verdicts are in flight, and one gives up; then a bound, a reopen and a bound. -/
def guardedCalls : List Action :=
  queuedBerlin ++
    [.read .first (verdictOn 101 .affirm 30 50), .read .second (verdictOn 101 .deny 31 51),
      .beginAtomic .first, .commit .first, .finish .first .none, .giveUp .second] ++
    call .second (boundOn 40 40 52) ++
    call .first (.assertValidity (assertOn 2 .reopen) 50 53) ++ call .second (boundOn 55 60 54)

theorem guarded_calls_never_race :
    ∃ s, replay handles (State.start .newestFirst) guardedCalls = some s ∧
      s.log = [⟨.applied 101, 0⟩, ⟨.bounded agent ⟨2⟩ 40, 1⟩, ⟨.reopened agent ⟨2⟩, 2⟩,
        ⟨.bounded agent ⟨2⟩ 55, 3⟩] ∧ NeverBothApplied s.log ∧ ReopenedBetween s.log := by
  have hlogs : (replay handles (State.start .newestFirst) guardedCalls).map State.log =
      some [⟨.applied 101, 0⟩, ⟨.bounded agent ⟨2⟩ 40, 1⟩, ⟨.reopened agent ⟨2⟩, 2⟩,
        ⟨.bounded agent ⟨2⟩ 55, 3⟩] := by
    decide
  obtain ⟨s, hreplay, hlog⟩ := Option.map_eq_some_iff.mp hlogs
  exact ⟨s, hreplay, hlog, guarded_commits_never_race
    (reach_of_replay (.init ⟨_, rfl⟩) hreplay (by decide))⟩

/-- Each handle reads before the other commits, and both commit. -/
def race (op op' : Op) : List Action :=
  [.read .first op, .read .second op', .beginAtomic .first, .commit .first, .finish .first .none,
    .beginAtomic .second, .commit .second, .finish .second .none]

theorem racing_calls_both_commit :
    (∃ s, replay handles (State.start .newestFirst)
        (queuedBerlin ++ race (verdictOn 101 .affirm 30 50) (verdictOn 101 .deny 31 51)) = some s ∧
      s.log = [⟨.applied 101, 0⟩, ⟨.applied 101, 0⟩] ∧ ¬ NeverBothApplied s.log) ∧
    ∃ s, replay handles (State.start .newestFirst)
        (queuedBerlin ++ call .first (verdictOn 101 .affirm 30 50) ++
          race (boundOn 40 40 52) (boundOn 41 41 53)) = some s ∧
      s.log = [⟨.applied 101, 0⟩, ⟨.bounded agent ⟨2⟩ 40, 1⟩, ⟨.bounded agent ⟨2⟩ 41, 1⟩] ∧
      ¬ ReopenedBetween s.log := by
  have hverdicts : (replay handles (State.start .newestFirst) (queuedBerlin ++
      race (verdictOn 101 .affirm 30 50) (verdictOn 101 .deny 31 51))).map State.log =
        some [⟨.applied 101, 0⟩, ⟨.applied 101, 0⟩] := by
    decide
  have hbounds : (replay handles (State.start .newestFirst) (queuedBerlin ++
      call .first (verdictOn 101 .affirm 30 50) ++
        race (boundOn 40 40 52) (boundOn 41 41 53))).map State.log =
      some [⟨.applied 101, 0⟩, ⟨.bounded agent ⟨2⟩ 40, 1⟩, ⟨.bounded agent ⟨2⟩ 41, 1⟩] := by
    decide
  obtain ⟨s, hreplay, hlog⟩ := Option.map_eq_some_iff.mp hverdicts
  obtain ⟨t, hreplay', hlog'⟩ := Option.map_eq_some_iff.mp hbounds
  refine ⟨⟨s, hreplay, hlog, fun hnever => ?_⟩, t, hreplay', hlog', fun hbetween => ?_⟩
  · exact absurd (hnever [⟨.applied 101, 0⟩] [] 101 0 hlog) (by decide)
  · have hreopened := hbetween [.applied 101] [] [] agent ⟨2⟩ 40 41 (by rw [hlog']; rfl)
      (by decide)
    cases hreopened

end Runs

end Mempill.RacingCalls
