import Mempill.AgentPlans
import Mempill.HandleCalls

set_option autoImplicit false

/-!
# Call discipline

What the locks of a handle guard, and that every call keeps to it: the use cases that have
ended, run one after another, give each agent the rows it has while none of its use cases
runs.
-/
namespace Mempill.CallDiscipline
open Mempill.Types Mempill.Persistence Mempill.IngestClaim Mempill.AssertValidity
open Mempill.SubmitAdjudication Mempill.Reconcile Mempill.Sweep Mempill.Engine
open Mempill.WritePhases Mempill.QueueRows Mempill.AgentView Mempill.AgentPlans
open Mempill.HandleCalls LockedTasks

section Sequential

variable (eng : Engine) (σ₀ : Store)

/-- One use case by itself. -/
def alone (σ : Store) (e : Ended) : Reply × Store := (planOf eng σ e.op).run e.faults σ

/-- The ended use cases, one after another. -/
def replay (es : List Ended) : Store := es.foldl (fun σ e => (alone eng σ e).2) σ₀

/-- What a call knows of the operation it dispatches. -/
def Backed (σ : Store) (a : AgentId) : Op → Prop
  | .ingestClaim req _ _ _ => req.agentId = a
  | .assertValidity req _ _ => req.agentId = a
  | .submitAdjudication handleId _ _ _ =>
    ∃ row ∈ σ.pending, row.handleId = handleId ∧ row.agentId = a
  | .reconcile req _ => req.agentId = a
  | .sweepExpired row now =>
    row.agentId = a ∧ (∃ stored ∈ σ.pending, { stored with status := row.status } = row) ∧
      row.expiresAt.any (fun t => decide (t ≤ now)) = true
  | .sweepOrphan orphan _ => orphan.agentId = a
  | .appendEdge _ => False

/-- Every use case that ended has replied as it does by itself, after those before it. -/
def Honest (σ : Store) : List Ended → Prop
  | [] => True
  | e :: es =>
    Backed σ e.agentId e.op ∧ e.reply = (alone eng σ e).1 ∧ Honest (alone eng σ e).2 es

variable {eng σ₀} {σ τ : Store} {a b : AgentId} {op : Op} {es : List Ended} {e : Ended}

theorem replay_concat : replay eng σ₀ (es ++ [e]) = (alone eng (replay eng σ₀ es) e).2 := by
  rw [replay, List.foldl_append]
  rfl

theorem Honest.concat (h : Honest eng σ₀ es) (hbacked : Backed (replay eng σ₀ es) e.agentId e.op)
    (hreply : e.reply = (alone eng (replay eng σ₀ es) e).1) : Honest eng σ₀ (es ++ [e]) := by
  induction es generalizing σ₀ with
  | nil => exact ⟨hbacked, hreply, trivial⟩
  | cons first es ih => exact ⟨h.1, h.2.1, ih h.2.2 hbacked hreply⟩

theorem Backed.kept (h : Backed σ a op) (hrows : RowsKept σ τ) : Backed τ a op := by
  cases op with
  | ingestClaim _ _ _ _ | assertValidity _ _ _ | reconcile _ _ | sweepOrphan _ _ => exact h
  | appendEdge _ => exact h
  | submitAdjudication handleId _ _ _ =>
    obtain ⟨row, hrow, hhandle, hagent⟩ := h
    obtain ⟨stored, hstored, hsame⟩ := hrows row hrow
    refine ⟨stored, hstored, ?_, ?_⟩
    · rw [← hhandle, ← hsame]
    · rw [← hagent, ← hsame]
  | sweepExpired row now =>
    obtain ⟨hagent, ⟨stored, hstored, hsame⟩, hexpired⟩ := h
    obtain ⟨later, hlater, hlast⟩ := hrows stored hstored
    refine ⟨hagent, ⟨later, hlater, ?_⟩, hexpired⟩
    rw [← hsame, ← hlast]

theorem handleOf_of_mem (h : DistinctHandles σ) {row : PendingAdjudicationRow}
    (hrow : row ∈ σ.pending) : HandleOf σ row.agentId row.handleId := by
  intro row' hrow' hhandle
  rw [List.inj_on_of_nodup_map h hrow' hrow hhandle]

/-- No other agent has a row under the handle. -/
theorem Backed.owns (h : Backed σ a op) (hdistinct : DistinctHandles σ) : Owns σ a op := by
  cases op with
  | ingestClaim _ _ _ _ | assertValidity _ _ _ | reconcile _ _ | sweepOrphan _ _ => exact h
  | appendEdge _ => exact h.elim
  | submitAdjudication handleId _ _ _ =>
    obtain ⟨row, hrow, rfl, rfl⟩ := h
    exact handleOf_of_mem hdistinct hrow
  | sweepExpired row now =>
    obtain ⟨rfl, ⟨stored, hstored, hsame⟩, _⟩ := h
    have hkeys : row.agentId = stored.agentId ∧ row.handleId = stored.handleId := by
      rw [← hsame]
      exact ⟨rfl, rfl⟩
    refine ⟨rfl, ?_⟩
    rw [hkeys.1, hkeys.2]
    exact handleOf_of_mem hdistinct hstored

theorem Backed.congr (h : Backed σ a op) (hpending : σ.pending = τ.pending) : Backed τ a op :=
  h.kept fun row hrow => ⟨row, hpending ▸ hrow, rfl⟩

theorem transact_error {faults : Faults} {appends : List Append} {error : MemError}
    (h : transact faults σ appends = .error error) : transact faults τ appends = .error error := by
  have hall : ∀ (appends : List Append) (n : ℕ) (σ τ : Store) (error : StoreError),
      appendAll faults n σ appends = .error error →
        appendAll faults n τ appends = .error error := by
    intro appends
    induction appends with
    | nil =>
      intro n σ τ error h
      cases h
    | cons x appends ih =>
      intro n σ τ error h
      cases hfail : faults.append n with
      | some _ =>
        simp only [appendAll, hfail] at h ⊢
        exact h
      | none =>
        simp only [appendAll, hfail] at h ⊢
        exact ih (n + 1) _ _ error h
  unfold transact at h ⊢
  cases hbegin : faults.beginAtomic with
  | some _ =>
    rw [hbegin] at h
    exact h
  | none =>
    rw [hbegin] at h
    dsimp only at h ⊢
    cases happ : appendAll faults 0 σ appends with
    | error e =>
      rw [happ] at h
      rw [hall appends 0 σ τ e happ]
      exact h
    | ok staged =>
      rw [happ] at h
      cases happ' : appendAll faults 0 τ appends with
      | error e =>
        rw [hall appends 0 τ σ e happ'] at happ
        cases happ
      | ok staged' =>
        cases hcommit : faults.commit with
        | some _ =>
          rw [hcommit] at h
          exact h
        | none =>
          rw [hcommit] at h
          cases h

end Sequential

section Discipline

variable (serialized : Bool) (eng : Engine) (σ₀ : Store)

/-- The use cases in progress for an agent. -/
def runningFor (a : AgentId) (s : Shared) : List (ℕ × AgentId) :=
  s.running.filter (·.2 == a)

def own (t : ℕ) (es : List Ended) : List Ended := es.filter (·.call == t)

structure Inv (s : Shared) : Prop where
  keys : ∀ a b mutex, s.locks a = some mutex → s.locks b = some mutex → a = b
  bound : ∀ a mutex, s.locks a = some mutex → mutex < s.made
  idle : ∀ a, s.locks a = none → runningFor a s = []
  handles : DistinctHandles s.store
  pending : s.store.pending = (replay eng σ₀ s.ended).pending
  honest : Honest eng σ₀ s.ended
  exclusive : ∀ a, (runningFor a s).length ≤ 1
  settled : ∀ a, runningFor a s = [] → view a s.store = view a (replay eng σ₀ s.ended)
  serial : serialized = true → s.running.length ≤ 1 ∧
    (s.running = [] → s.store = replay eng σ₀ s.ended)

/-- Nothing of the agent is touched. -/
structure Same (b : AgentId) (s s' : Shared) : Prop where
  rows : view b s'.store = view b s.store
  replayed : view b (replay eng σ₀ s'.ended) = view b (replay eng σ₀ s.ended)
  running : runningFor b s' = runningFor b s

structure May (t : ℕ) (held : Set Lock) (s s' : Shared) : Prop where
  ended : ∃ es, s'.ended = s.ended ++ es ∧ ∀ e ∈ es, e.call = t
  locks : ∀ a mutex, s.locks a = some mutex → s'.locks a = some mutex
  rows : RowsKept s.store s'.store
  others : ∀ b, (∀ mutex, s.locks b = some mutex → .agent mutex ∉ held) → Same eng σ₀ b s s'
  serial : serialized = true → .store ∉ held →
    s'.store = s.store ∧ s'.running = s.running ∧ s'.ended = s.ended

/-- The use cases of a sweep. -/
def Reverts (now : Instant) : Op → Prop
  | .sweepExpired _ stamp | .sweepOrphan _ stamp => stamp = now
  | _ => False

def reverted (es : List Ended) : ℕ := es.countP fun e => decide (e.reply = .ok (.reverted true))

/-- What a call returns, over the use cases that ended for it. -/
def Answers (now : Instant) (es : List Ended) : Call → Outcome → Prop
  | .ingestClaim req claimRef oracleReply, .replied reply =>
    ∃ faults, es.map (fun e => (e.agentId, e.op, e.faults, e.reply)) =
      [(req.agentId, .ingestClaim req now claimRef oracleReply, faults, reply)]
  | .assertValidity req assertionRef, .replied reply =>
    ∃ faults, es.map (fun e => (e.agentId, e.op, e.faults, e.reply)) =
      [(req.agentId, .assertValidity req now assertionRef, faults, reply)]
  | .reconcile req stamp, .replied reply =>
    ∃ faults, es.map (fun e => (e.agentId, e.op, e.faults, e.reply)) =
      [(req.agentId, .reconcile req stamp, faults, reply)]
  | .submitAdjudication handleId response assertionRef, .replied reply =>
    (∃ a faults, es.map (fun e => (e.agentId, e.op, e.faults, e.reply)) =
        [(a, .submitAdjudication handleId response now assertionRef, faults, reply)]) ∨
      es = [] ∧ (reply = .error .pendingStore ∨
        reply = .error (.adjudicationHandleNotFound handleId))
  | .sweepExpiredAdjudications, .swept (.ok n) =>
    n = reverted es ∧ ∀ e ∈ es, Reverts now e.op ∧ ∀ error, e.reply ≠ .error error
  | .sweepExpiredAdjudications, .swept (.error error) =>
    (∀ e ∈ es, Reverts now e.op) ∧ (error = .pendingStore ∨ ∃ e ∈ es, e.reply = .error error)
  | _, _ => False

/-- The store lock guards the whole store where the adapter serializes its writes, and the
    mutex of an agent the rows of that agent. -/
def discipline : Discipline Lock Shared Returned where
  rank
    | .store => 0
    | .agent _ => 1
  inv := Inv serialized eng σ₀
  may := May serialized eng σ₀
  resource l s :=
    match l with
    | .store => serialized = true → s.running = []
    | .agent mutex => ∀ a, s.locks a = some mutex → runningFor a s = []
  fresh t s := own t s.ended = []
  post t returned s := Answers returned.now (own t s.ended) returned.call returned.outcome

variable {serialized eng σ₀} {t u : ℕ} {held : Set Lock} {s s' : Shared}

theorem own_of_may (h : May serialized eng σ₀ u held s s') (hu : u ≠ t) :
    own t s'.ended = own t s.ended := by
  obtain ⟨es, hended, hcalls⟩ := h.ended
  rw [hended, own, own, List.filter_append]
  have hnone : es.filter (·.call == t) = [] := by
    refine List.filter_eq_nil_iff.mpr fun e he => ?_
    rw [hcalls e he]
    simpa using hu
  rw [hnone, List.append_nil]

theorem discipline_lawful : (discipline serialized eng σ₀).Lawful where
  resource_stable := by
    intro t held l s s' hl hinv _ hmay hres
    cases l with
    | store =>
      intro hserial
      rw [(hmay.serial hserial hl).2.1]
      exact hres hserial
    | agent mutex =>
      intro a hlock
      cases hold : s.locks a with
      | none =>
        have hsame := hmay.others a (fun mutex' h => by rw [hold] at h; cases h)
        rw [hsame.running]
        exact hinv.idle a hold
      | some mutex' =>
        have hmutex : mutex' = mutex := by
          have := hmay.locks a mutex' hold
          rw [hlock] at this
          exact (Option.some.inj this).symm
        subst hmutex
        have hsame := hmay.others a fun mutex h => by
          rw [hold] at h
          cases h
          exact hl
        rw [hsame.running]
        exact hres a hold
  fresh_stable t u held s s' hu _ _ _ hmay hfresh := (own_of_may hmay hu).trans hfresh

end Discipline

section Assertions

variable (serialized : Bool) (eng : Engine) (σ₀ : Store)

/-- An assertion that no access breaks. -/
def Lasting (R : Shared → Prop) : Prop :=
  ∀ t held s s', May serialized eng σ₀ t held s s' → R s → R s'

/-- About to dispatch an operation. -/
structure Ready (t : ℕ) (es : List Ended) (a : AgentId) (op : Op) (R : Shared → Prop)
    (s : Shared) : Prop where
  own : own t s.ended = es
  backed : Backed s.store a op
  rest : R s

/-- With the locks of the agent taken. -/
structure Entered (t : ℕ) (es : List Ended) (a : AgentId) (op : Op) (R : Shared → Prop)
    (mutex : ℕ) (s : Shared) : Prop where
  ready : Ready t es a op R s
  serial : serialized = true → s.running = []
  lock : s.locks a = some mutex
  idle : runningFor a s = []

/-- In the use case, which saw the rows `seen` of its agent, and has written these appends. -/
structure Working (t : ℕ) (es : List Ended) (a : AgentId) (op : Op) (R : Shared → Prop)
    (mutex : ℕ) (seen : Store) (appends : List Append) (s : Shared) : Prop where
  ready : Ready t es a op R s
  serial : serialized = true →
    s.running = [(t, a)] ∧ s.store = writeAll (replay eng σ₀ s.ended) appends
  lock : s.locks a = some mutex
  running : runningFor a s = [(t, a)]
  rows : view a s.store = writeAll seen appends
  replayed : view a (replay eng σ₀ s.ended) = seen

/-- At the end of the use case, with the locks still held. -/
structure Left (t : ℕ) (es : List Ended) (a : AgentId) (R : Shared → Prop) (mutex : ℕ)
    (s : Shared) : Prop where
  own : own t s.ended = es
  rest : R s
  serial : serialized = true → s.running = []
  lock : s.locks a = some mutex
  idle : runningFor a s = []

variable {serialized eng σ₀} {t u : ℕ} {held other : Set Lock} {s s' : Shared} {a : AgentId}
  {op : Op} {es : List Ended} {R : Shared → Prop} {mutex : ℕ} {seen : Store}
  {appends : List Append}

theorem May.same_of_held (h : May serialized eng σ₀ u other s s') (hlock : s.locks a = some mutex)
    (hheld : Lock.agent mutex ∈ held) (hother : ∀ l ∈ other, l ∉ held) : Same eng σ₀ a s s' := by
  refine h.others a fun mutex' h' hmem => hother _ hmem ?_
  rw [hlock] at h'
  cases h'
  exact hheld

theorem Ready.kept (h : Ready t es a op R s) (hR : Lasting serialized eng σ₀ R) (hu : u ≠ t)
    (hmay : May serialized eng σ₀ u other s s') : Ready t es a op R s' where
  own := (own_of_may hmay hu).trans h.own
  backed := h.backed.kept hmay.rows
  rest := hR _ _ _ _ hmay h.rest

/-- While it holds the locks, nobody else touches the rows of its agent. -/
theorem stable_working (hR : Lasting serialized eng σ₀ R) (hheld : Lock.agent mutex ∈ held)
    (hstore : serialized = true → Lock.store ∈ held) :
    Stable (discipline serialized eng σ₀) t held
      (Working serialized eng σ₀ t es a op R mutex seen appends) := by
  intro u other s s' hu hother _ _ hmay h
  have hsame := hmay.same_of_held h.lock hheld hother
  refine ⟨h.ready.kept hR hu hmay, fun hserial => ?_, hmay.locks _ _ h.lock,
    hsame.running.trans h.running, hsame.rows.trans h.rows, hsame.replayed.trans h.replayed⟩
  obtain ⟨hst, hrun, hend⟩ :=
    hmay.serial hserial fun hmem => hother _ hmem (hstore hserial)
  rw [hst, hrun, hend]
  exact h.serial hserial

theorem stable_left (hR : Lasting serialized eng σ₀ R) (hheld : Lock.agent mutex ∈ held)
    (hstore : serialized = true → Lock.store ∈ held) :
    Stable (discipline serialized eng σ₀) t held (Left serialized t es a R mutex) := by
  intro u other s s' hu hother _ _ hmay h
  have hsame := hmay.same_of_held h.lock hheld hother
  refine ⟨(own_of_may hmay hu).trans h.own, hR _ _ _ _ hmay h.rest, fun hserial => ?_,
    hmay.locks _ _ h.lock, hsame.running.trans h.idle⟩
  rw [(hmay.serial hserial fun hmem => hother _ hmem (hstore hserial)).2.1]
  exact h.serial hserial

end Assertions

section UseCase

variable {serialized : Bool} {eng : Engine} {σ₀ : Store} {t : ℕ} {held : Set Lock} {s : Shared}
  {a : AgentId} {op : Op} {es : List Ended} {R : Shared → Prop} {mutex : ℕ} {seen : Store}
  {appends : List Append} {e : Ended}

theorem runningFor_finish (b : AgentId) (σ : Store) :
    runningFor b ({ s with store := σ }.finish e) =
      (runningFor b s).erase (e.call, e.agentId) := by
  rw [runningFor, runningFor, List.erase_filter]
  rfl

theorem runningFor_finish_other {b : AgentId} (hb : b ≠ e.agentId) (σ : Store) :
    runningFor b ({ s with store := σ }.finish e) = runningFor b s := by
  rw [runningFor_finish]
  refine List.erase_of_not_mem fun hmem => hb ?_
  exact (beq_iff_eq.mp (List.mem_filter.mp hmem).2).symm

/-- What the end of a use case leaves, against the use case by itself. -/
structure Concludes (serialized : Bool) (eng : Engine) (σ₀ : Store) (s : Shared) (σ : Store)
    (e : Ended) : Prop where
  reply : e.reply = (alone eng (replay eng σ₀ s.ended) e).1
  rows : view e.agentId σ = view e.agentId (alone eng (replay eng σ₀ s.ended) e).2
  foreign : ∀ b, b ≠ e.agentId → view b σ = view b s.store
  foreignAlone : ∀ b, b ≠ e.agentId → view b (alone eng (replay eng σ₀ s.ended) e).2 =
    view b (replay eng σ₀ s.ended)
  pending : σ.pending = (alone eng (replay eng σ₀ s.ended) e).2.pending
  kept : RowsKept s.store σ
  handles : DistinctHandles σ
  serial : serialized = true → σ = (alone eng (replay eng σ₀ s.ended) e).2

theorem Concludes.unchanged (hinv : Inv serialized eng σ₀ s)
    (h : Working serialized eng σ₀ t es a op R mutex seen [] s) (hagent : e.agentId = a)
    (halone : alone eng (replay eng σ₀ s.ended) e = (e.reply, replay eng σ₀ s.ended)) :
    Concludes serialized eng σ₀ s s.store e where
  reply := by rw [halone]
  rows := by
    rw [halone, hagent, h.rows, h.replayed]
    rfl
  foreign _ _ := rfl
  foreignAlone _ _ := by rw [halone]
  pending := by
    rw [halone]
    exact hinv.pending
  kept := .refl _
  handles := hinv.handles
  serial hserial := by
    rw [halone]
    exact (h.serial hserial).2

/-- The last access of a use case. -/
theorem Concludes.inv {σ : Store} (hinv : Inv serialized eng σ₀ s)
    (h : Working serialized eng σ₀ t es a op R mutex seen appends s)
    (hagent : e.agentId = a) (hop : e.op = op) (hc : Concludes serialized eng σ₀ s σ e) :
    Inv serialized eng σ₀ ({ s with store := σ }.finish e) where
  keys := hinv.keys
  bound := hinv.bound
  idle b hb := by
    have hne : b ≠ e.agentId := by
      rintro rfl
      rw [hagent] at hb
      cases hb.symm.trans h.lock
    rw [runningFor_finish_other hne]
    exact hinv.idle b hb
  handles := hc.handles
  pending := hc.pending.trans (congrArg Store.pending replay_concat).symm
  honest := by
    refine hinv.honest.concat ?_ hc.reply
    rw [hagent, hop]
    exact h.ready.backed.congr hinv.pending
  exclusive b := by
    rw [runningFor_finish]
    exact (List.length_erase_le ..).trans (hinv.exclusive b)
  settled b hb := by
    show view b σ = view b (replay eng σ₀ (s.ended ++ [e]))
    rw [replay_concat]
    by_cases hne : b = e.agentId
    · rw [hne]
      exact hc.rows
    · rw [runningFor_finish_other hne] at hb
      rw [hc.foreign b hne, hc.foreignAlone b hne]
      exact hinv.settled b hb
  serial hserial := by
    refine ⟨(List.length_erase_le ..).trans (hinv.serial hserial).1, fun _ => ?_⟩
    exact (hc.serial hserial).trans replay_concat.symm

theorem Concludes.may {σ : Store} (h : Working serialized eng σ₀ t es a op R mutex seen appends s)
    (hcall : e.call = t) (hagent : e.agentId = a) (hheld : Lock.agent mutex ∈ held)
    (hstore : serialized = true → Lock.store ∈ held) (hc : Concludes serialized eng σ₀ s σ e) :
    May serialized eng σ₀ t held s ({ s with store := σ }.finish e) where
  ended := ⟨[e], rfl, fun e' he' => by rw [List.mem_singleton.mp he', hcall]⟩
  locks _ _ hlock := hlock
  rows := hc.kept
  others b hb := by
    have hne : b ≠ e.agentId := by
      rintro rfl
      rw [hagent] at hb
      exact hb mutex h.lock hheld
    refine ⟨hc.foreign b hne, ?_, runningFor_finish_other hne σ⟩
    show view b (replay eng σ₀ (s.ended ++ [e])) = _
    rw [replay_concat]
    exact hc.foreignAlone b hne
  serial hserial hnot := absurd (hstore hserial) hnot

theorem Concludes.left {σ : Store} (hR : Lasting serialized eng σ₀ R)
    (h : Working serialized eng σ₀ t es a op R mutex seen appends s) (hcall : e.call = t)
    (hagent : e.agentId = a) (hheld : Lock.agent mutex ∈ held)
    (hstore : serialized = true → Lock.store ∈ held) (hc : Concludes serialized eng σ₀ s σ e) :
    Left serialized t (es ++ [e]) a R mutex ({ s with store := σ }.finish e) where
  own := by
    show own t (s.ended ++ [e]) = es ++ [e]
    rw [own, List.filter_append, ← own, h.ready.own]
    simp [hcall]
  rest := hR _ _ _ _ (hc.may h hcall hagent hheld hstore) h.ready.rest
  serial hserial := by
    show s.running.erase _ = []
    rw [(h.serial hserial).1, hcall, hagent]
    simp
  lock := h.lock
  idle := by
    rw [runningFor_finish, h.running, hcall, hagent]
    simp

variable (hR : Lasting serialized eng σ₀ R) (hheld : Lock.agent mutex ∈ held)
  (hstore : serialized = true → Lock.store ∈ held)

theorem May.refl (t : ℕ) (held : Set Lock) (s : Shared) : May serialized eng σ₀ t held s s where
  ended := ⟨[], (List.append_nil _).symm, fun _ h => absurd h List.not_mem_nil⟩
  locks _ _ h := h
  rows := .refl _
  others _ _ := ⟨rfl, rfl, rfl⟩
  serial _ _ := ⟨rfl, rfl, rfl⟩

/-- The use case by itself plans as the one that runs. -/
theorem Working.planOf_replay (hinv : Inv serialized eng σ₀ s)
    (h : Working serialized eng σ₀ t es a op R mutex seen appends s) :
    planOf eng (replay eng σ₀ s.ended) op = planOf eng seen op := by
  rw [← h.replayed]
  exact (planOf_view ((h.ready.backed.congr hinv.pending).owns
    (hinv.handles.congr hinv.pending))).symm

theorem Working.planFor (hinv : Inv serialized eng σ₀ s)
    (h : Working serialized eng σ₀ t es a op R mutex seen appends s) :
    PlanFor (replay eng σ₀ s.ended) a (planOf eng seen op) := by
  rw [← h.planOf_replay hinv]
  exact planOf_for ((h.ready.backed.congr hinv.pending).owns (hinv.handles.congr hinv.pending))

include hR hheld hstore

theorem conclude_valid {next : Reply → Work} (hcall : e.call = t) (hagent : e.agentId = a)
    (hop : e.op = op)
    (halone : ∀ ρ, planOf eng ρ op = planOf eng seen op → alone eng ρ e = (e.reply, ρ))
    (hnext : Valid (discipline serialized eng σ₀) t held
      (Left serialized t (es ++ [e]) a R mutex) (next e.reply)) :
    Valid (discipline serialized eng σ₀) t held
      (Working serialized eng σ₀ t es a op R mutex seen []) (conclude e next) := by
  intro s hinv hs
  have hc := Concludes.unchanged hinv hs hagent (halone _ (hs.planOf_replay hinv))
  exact ⟨hc.inv hinv hs hagent hop, hc.may hs hcall hagent hheld hstore,
    Left serialized t (es ++ [e]) a R mutex, stable_left hR hheld hstore,
    hc.left hR hs hcall hagent hheld hstore, hnext⟩

theorem afterCommit_valid {after : AfterCommit} {next : Reply → Work} (hcall : e.call = t)
    (hagent : e.agentId = a) (hop : e.op = op)
    (hplan : planOf eng seen op = .write appends after e.reply)
    (hcommits : Commits e.faults appends)
    (hnext : ∀ reply, Valid (discipline serialized eng σ₀) t held
      (Left serialized t (es ++ [{ e with reply := reply }]) a R mutex) (next reply)) :
    Valid (discipline serialized eng σ₀) t held
      (Working serialized eng σ₀ t es a op R mutex seen appends) (afterCommit e after next) := by
  intro s hinv hs
  have halone : ∀ reply, alone eng (replay eng σ₀ s.ended) { e with reply := reply } =
      Planned.finish e.faults (writeAll (replay eng σ₀ s.ended) appends) e.reply after := by
    intro reply
    show (planOf eng (replay eng σ₀ s.ended) e.op).run e.faults _ = _
    rw [hop, hs.planOf_replay hinv, hplan]
    simp only [Planned.run, transact_eq_ok_iff.mpr ⟨hcommits, rfl⟩]
  have hpending : s.store.pending = (writeAll (replay eng σ₀ s.ended) appends).pending := by
    rw [writeAll_pending]
    exact hinv.pending
  obtain ⟨happ, hafter⟩ : (∀ x ∈ appends, appendedFor x = a) ∧
      AfterFor (replay eng σ₀ s.ended) a after := by
    have := hs.planFor hinv
    rwa [hplan] at this
  have hcongr := @finish_congr s.store (writeAll (replay eng σ₀ s.ended) appends) e.faults _
    e.reply after hpending
  have hc : Concludes serialized eng σ₀ s (Planned.finish e.faults s.store e.reply after).2
      { e with reply := (Planned.finish e.faults s.store e.reply after).1 } := by
    refine ⟨?_, ?_, ?_, ?_, ?_, finish_keeps, finish_distinct hinv.handles, ?_⟩
    · rw [halone]
      exact hcongr.1
    · have hrows : view a s.store = view a (writeAll (replay eng σ₀ s.ended) appends) := by
        rw [hs.rows, ← hs.replayed, writeAll_view happ]
      show view e.agentId _ = view e.agentId _
      rw [halone, hagent, hcongr.2, (finish_congr rfl).2]
      exact view_withPending hrows _
    · intro b hb
      exact finish_foreign (fun hba => hb (hba.trans hagent.symm))
        (hafter.congr hinv.pending.symm)
    · intro b hb
      have hba : b ≠ a := fun hba => hb (hba.trans hagent.symm)
      rw [halone, finish_foreign hba (hafter.congr (writeAll_pending).symm),
        writeAll_foreign hba happ]
    · rw [halone, hcongr.2]
    · intro hserial
      rw [halone, (hs.serial hserial).2]
  exact ⟨hc.inv hinv hs hagent hop, hc.may hs hcall hagent hheld hstore,
    Left serialized t _ a R mutex, stable_left hR hheld hstore,
    hc.left hR hs hcall hagent hheld hstore, hnext _⟩

omit hR hheld hstore

theorem runningFor_begin (b : AgentId) :
    runningFor b (s.begin t a) = runningFor b s ++ [(t, a)].filter (·.2 == b) := by
  rw [runningFor, Shared.begin, List.filter_append]
  rfl

theorem runningFor_begin_other {b : AgentId} (hb : b ≠ a) :
    runningFor b (s.begin t a) = runningFor b s := by
  rw [runningFor_begin]
  simp [Ne.symm hb]

theorem Entered.inv_begin (hinv : Inv serialized eng σ₀ s)
    (h : Entered serialized t es a op R mutex s) : Inv serialized eng σ₀ (s.begin t a) where
  keys := hinv.keys
  bound := hinv.bound
  idle b hb := by
    have hba : b ≠ a := by
      rintro rfl
      cases hb.symm.trans h.lock
    rw [runningFor_begin_other hba]
    exact hinv.idle b hb
  handles := hinv.handles
  pending := hinv.pending
  honest := hinv.honest
  exclusive b := by
    by_cases hba : b = a
    · subst hba
      rw [runningFor_begin, h.idle]
      exact List.length_filter_le ..
    · rw [runningFor_begin_other hba]
      exact hinv.exclusive b
  settled b hb := by
    have hba : b ≠ a := by
      rintro rfl
      rw [runningFor_begin] at hb
      simp at hb
    rw [runningFor_begin_other hba] at hb
    exact hinv.settled b hb
  serial hserial := by
    refine ⟨?_, fun hempty => ?_⟩
    · show (s.running ++ _).length ≤ 1
      rw [h.serial hserial]
      exact le_rfl
    · exact absurd hempty (List.append_ne_nil_of_right_ne_nil _ (List.cons_ne_nil _ _))

theorem Entered.may_begin (hheld : Lock.agent mutex ∈ held)
    (hstore : serialized = true → Lock.store ∈ held)
    (h : Entered serialized t es a op R mutex s) :
    May serialized eng σ₀ t held s (s.begin t a) where
  ended := ⟨[], (List.append_nil _).symm, fun _ h => absurd h List.not_mem_nil⟩
  locks _ _ hlock := hlock
  rows := .refl _
  others b hb := by
    have hba : b ≠ a := by
      rintro rfl
      exact hb mutex h.lock hheld
    exact ⟨rfl, rfl, runningFor_begin_other hba⟩
  serial hserial hnot := absurd (hstore hserial) hnot

theorem Entered.working (hinv : Inv serialized eng σ₀ s)
    (h : Entered serialized t es a op R mutex s) (hrest : R (s.begin t a)) :
    Working serialized eng σ₀ t es a op R mutex (view a s.store) [] (s.begin t a) where
  ready := ⟨h.ready.own, h.ready.backed, hrest⟩
  serial hserial := by
    refine ⟨?_, (hinv.serial hserial).2 (h.serial hserial)⟩
    show s.running ++ [(t, a)] = [(t, a)]
    rw [h.serial hserial]
    rfl
  lock := h.lock
  running := by
    rw [runningFor_begin, h.idle]
    simp
  rows := rfl
  replayed := (hinv.settled a h.idle).symm

/-- A transaction that commits, for the agent whose use case runs. -/
theorem Working.inv_commit (hinv : Inv serialized eng σ₀ s)
    (h : Working serialized eng σ₀ t es a op R mutex seen [] s)
    (happ : ∀ x ∈ appends, appendedFor x = a) :
    Inv serialized eng σ₀ { s with store := writeAll s.store appends } where
  keys := hinv.keys
  bound := hinv.bound
  idle := hinv.idle
  handles := hinv.handles.congr writeAll_pending.symm
  pending := writeAll_pending.trans hinv.pending
  honest := hinv.honest
  exclusive := hinv.exclusive
  settled b hb := by
    have hba : b ≠ a := by
      rintro rfl
      cases h.running.symm.trans hb
    show view b (writeAll s.store appends) = _
    rw [writeAll_foreign hba happ]
    exact hinv.settled b hb
  serial hserial := by
    refine ⟨(hinv.serial hserial).1, fun hempty => ?_⟩
    cases (h.serial hserial).1.symm.trans hempty

theorem Working.may_commit (hheld : Lock.agent mutex ∈ held)
    (hstore : serialized = true → Lock.store ∈ held)
    (h : Working serialized eng σ₀ t es a op R mutex seen [] s)
    (happ : ∀ x ∈ appends, appendedFor x = a) :
    May serialized eng σ₀ t held s { s with store := writeAll s.store appends } where
  ended := ⟨[], (List.append_nil _).symm, fun _ h => absurd h List.not_mem_nil⟩
  locks _ _ hlock := hlock
  rows row hrow := by
    refine ⟨row, ?_, rfl⟩
    rw [writeAll_pending]
    exact hrow
  others b hb := by
    have hba : b ≠ a := by
      rintro rfl
      exact hb mutex h.lock hheld
    exact ⟨writeAll_foreign hba happ, rfl, rfl⟩
  serial hserial hnot := absurd (hstore hserial) hnot

theorem Working.committed (h : Working serialized eng σ₀ t es a op R mutex seen [] s)
    (happ : ∀ x ∈ appends, appendedFor x = a)
    (hrest : R { s with store := writeAll s.store appends }) :
    Working serialized eng σ₀ t es a op R mutex seen appends
      { s with store := writeAll s.store appends } where
  ready := ⟨h.ready.own, h.ready.backed.congr writeAll_pending.symm, hrest⟩
  serial hserial := by
    obtain ⟨hrunning, hst⟩ := h.serial hserial
    refine ⟨hrunning, ?_⟩
    show writeAll s.store appends = _
    rw [hst]
    rfl
  lock := h.lock
  running := h.running
  rows := by
    show view a (writeAll s.store appends) = _
    rw [← writeAll_view happ, h.rows]
    rfl
  replayed := h.replayed

include hR hheld hstore

/-- A use case keeps the discipline while the locks of its agent are held. -/
theorem useCase_valid {faults : Faults} {next : Reply → Work}
    (hnext : ∀ reply, Valid (discipline serialized eng σ₀) t held
      (Left serialized t (es ++ [⟨t, a, op, faults, reply⟩]) a R mutex) (next reply)) :
    Valid (discipline serialized eng σ₀) t held (Entered serialized t es a op R mutex)
      (useCase eng faults t a op next) := by
  intro s hinv hs
  have hmay : May serialized eng σ₀ t held s (s.begin t a) := hs.may_begin hheld hstore
  refine ⟨hs.inv_begin hinv, hmay, _, stable_working hR hheld hstore,
    hs.working hinv (hR _ _ _ _ hmay hs.ready.rest), ?_⟩
  have hview : planOf eng (view a s.store) op = planOf eng s.store op :=
    planOf_view (hs.ready.backed.owns hinv.handles)
  beta_reduce
  cases hplan : planOf eng s.store op with
  | answered reply =>
    refine conclude_valid (e := ⟨t, a, op, faults, reply⟩) hR hheld hstore rfl rfl rfl
      (fun ρ hρ => ?_) (hnext reply)
    simp only [alone, hρ, hview, hplan, Planned.run]
  | write appends after reply =>
    intro s' hinv' hs'
    have happ : ∀ x ∈ appends, appendedFor x = a := by
      have := hs'.planFor hinv'
      rw [hview, hplan] at this
      exact this.1
    beta_reduce
    cases htransact : transact faults s'.store appends with
    | error error =>
      have hsame : s'.commit faults appends = s' := by
        simp only [Shared.commit, htransact]
      rw [hsame]
      refine ⟨hinv', May.refl t held s', _, stable_working hR hheld hstore, hs', ?_⟩
      refine conclude_valid (e := ⟨t, a, op, faults, .error error⟩) hR hheld hstore rfl rfl rfl
        (fun ρ hρ => ?_) (hnext _)
      simp only [alone, hρ, hview, hplan, Planned.run, transact_error htransact]
    | ok committed =>
      obtain ⟨hcommits, rfl⟩ := transact_eq_ok_iff.mp htransact
      have hstored : s'.commit faults appends =
          { s' with store := writeAll s'.store appends } := by
        simp only [Shared.commit, htransact]
      have hmay' : May serialized eng σ₀ t held s' { s' with store := writeAll s'.store appends } :=
        hs'.may_commit hheld hstore happ
      rw [hstored]
      refine ⟨hs'.inv_commit hinv' happ, hmay', _, stable_working hR hheld hstore,
        hs'.committed happ (hR _ _ _ _ hmay' hs'.ready.rest), ?_⟩
      exact afterCommit_valid (e := ⟨t, a, op, faults, reply⟩) hR hheld hstore rfl rfl rfl
        (hview.trans hplan) hcommits hnext

end UseCase

section Locks

variable {serialized : Bool} {eng : Engine} {σ₀ : Store} {t : ℕ} {held : Set Lock} {s : Shared}
  {a : AgentId} {op : Op} {es : List Ended} {R : Shared → Prop}

theorem locks_orInsertWith : (s.orInsertWith a).2.locks a = some (s.orInsertWith a).1 := by
  unfold Shared.orInsertWith
  cases hlock : s.locks a with
  | some mutex => exact hlock
  | none => exact Function.update_self ..

/-- A mutex that the map has handed out stays the one of its agent. -/
theorem locks_kept {b : AgentId} {mutex : ℕ} (h : s.locks b = some mutex) :
    (s.orInsertWith a).2.locks b = some mutex := by
  unfold Shared.orInsertWith
  cases hlock : s.locks a with
  | some _ => exact h
  | none =>
    have hba : b ≠ a := by
      rintro rfl
      cases hlock.symm.trans h
    exact (Function.update_of_ne hba ..).trans h

theorem Inv.orInsertWith (hinv : Inv serialized eng σ₀ s) :
    Inv serialized eng σ₀ (s.orInsertWith a).2 := by
  unfold Shared.orInsertWith
  cases hlock : s.locks a with
  | some mutex => exact hinv
  | none =>
    refine { hinv with keys := ?_, bound := ?_, idle := ?_ }
    · intro b c mutex hb hc
      dsimp only at hb hc
      rw [Function.update_apply] at hb hc
      split_ifs at hb hc with hba hca hca
      · rw [hba, hca]
      · have hlt := hinv.bound c mutex hc
        cases hb
        omega
      · have hlt := hinv.bound b mutex hb
        cases hc
        omega
      · exact hinv.keys b c mutex hb hc
    · intro b mutex hb
      dsimp only at hb
      rw [Function.update_apply] at hb
      split_ifs at hb with hba
      · cases hb
        exact Nat.lt_succ_self _
      · exact Nat.lt_succ_of_lt (hinv.bound b mutex hb)
    · intro b hb
      dsimp only at hb
      rw [Function.update_apply] at hb
      split_ifs at hb
      exact hinv.idle b hb

theorem may_orInsertWith : May serialized eng σ₀ t held s (s.orInsertWith a).2 where
  ended := by
    refine ⟨[], ?_, fun _ h => absurd h List.not_mem_nil⟩
    unfold Shared.orInsertWith
    cases s.locks a <;> exact (List.append_nil _).symm
  locks _ _ h := locks_kept h
  rows := by
    unfold Shared.orInsertWith
    cases s.locks a <;> exact .refl _
  others b _ := by
    unfold Shared.orInsertWith
    cases s.locks a <;> exact ⟨rfl, rfl, rfl⟩
  serial _ _ := by
    unfold Shared.orInsertWith
    cases s.locks a <;> exact ⟨rfl, rfl, rfl⟩

theorem orInsertWith_rest : (s.orInsertWith a).2.ended = s.ended ∧
    (s.orInsertWith a).2.store = s.store ∧ (s.orInsertWith a).2.running = s.running := by
  unfold Shared.orInsertWith
  cases s.locks a <;> exact ⟨rfl, rfl, rfl⟩

/-- Behind the store lock, if the adapter wants it. -/
structure Waiting (serialized : Bool) (t : ℕ) (es : List Ended) (a : AgentId) (op : Op)
    (R : Shared → Prop) (s : Shared) : Prop where
  ready : Ready t es a op R s
  serial : serialized = true → s.running = []

variable (hR : Lasting serialized eng σ₀ R) (hheld : ∀ l ∈ held, l = Lock.store)
  (hstore : serialized = true → Lock.store ∈ held)

include hR hstore in
theorem stable_waiting : Stable (discipline serialized eng σ₀) t held
    (Waiting serialized t es a op R) := by
  intro u other s s' hu hother _ _ hmay h
  refine ⟨h.ready.kept hR hu hmay, fun hserial => ?_⟩
  rw [(hmay.serial hserial fun hmem => hother _ hmem (hstore hserial)).2.1]
  exact h.serial hserial

theorem stable_locks {mutex : ℕ} : Stable (discipline serialized eng σ₀) t held
    fun s => s.locks a = some mutex :=
  fun _ _ _ _ _ _ _ _ hmay h => hmay.locks _ _ h

include hR hheld hstore

/-- Two calls that both find no mutex for an agent come out with the same one. -/
theorem acquire_valid {next : ℕ → Work}
    (hnext : ∀ mutex, Valid (discipline serialized eng σ₀) t (insert (.agent mutex) held)
      (Entered serialized t es a op R mutex) (next mutex)) :
    Valid (discipline serialized eng σ₀) t held (Waiting serialized t es a op R)
      (acquire a next) := by
  have hlock : ∀ mutex, Valid (discipline serialized eng σ₀) t held
      (fun s => Waiting serialized t es a op R s ∧ s.locks a = some mutex)
      (.lock (.agent mutex) (next mutex)) := by
    intro mutex
    refine ⟨fun l hl => ?_, fun l hl s _ hs => ?_, (hnext mutex).weaken fun s _ hs => ?_⟩
    · rw [hheld l hl]
      exact Nat.zero_lt_one
    · rw [hheld l hl]
      exact hs.1.serial
    · exact ⟨hs.1.1.ready, hs.1.1.serial, hs.1.2, hs.2 a hs.1.2⟩
  have hstable : ∀ mutex, Stable (discipline serialized eng σ₀) t held
      fun s => Waiting serialized t es a op R s ∧ s.locks a = some mutex :=
    fun mutex => (stable_waiting hR hstore).and stable_locks
  intro s hinv hs
  refine ⟨hinv, May.refl t held s, ?_⟩
  beta_reduce
  cases hfound : s.locks a with
  | some mutex => exact ⟨_, hstable mutex, ⟨hs, hfound⟩, hlock mutex⟩
  | none =>
    refine ⟨_, stable_waiting hR hstore, hs, fun s' hinv' hs' => ?_⟩
    have hmay : May serialized eng σ₀ t held s' (s'.orInsertWith a).2 := may_orInsertWith
    refine ⟨Inv.orInsertWith hinv', hmay, _, hstable (s'.orInsertWith a).1,
      ⟨⟨⟨?_, ?_, ?_⟩, fun hserial => ?_⟩, locks_orInsertWith⟩, hlock _⟩
    · rw [orInsertWith_rest.1]
      exact hs'.ready.own
    · rw [orInsertWith_rest.2.1]
      exact hs'.ready.backed
    · exact hR _ _ _ _ hmay hs'.ready.rest
    · rw [orInsertWith_rest.2.2]
      exact hs'.serial hserial

omit hR hheld hstore

/-- The locks are given back in the reverse order, each with what it guards in order. -/
theorem unlock_agent_valid {mutex : ℕ} {next : Work} (hmem : Lock.agent mutex ∉ held)
    (hnext : ∃ Q, (∀ s, Inv serialized eng σ₀ s → Left serialized t es a R mutex s → Q s) ∧
      Stable (discipline serialized eng σ₀) t held Q ∧
        Valid (discipline serialized eng σ₀) t held Q next) :
    Valid (discipline serialized eng σ₀) t (insert (.agent mutex) held)
      (Left serialized t es a R mutex) (.unlock (.agent mutex) next) := by
  have hheld : insert (Lock.agent mutex) held \ {Lock.agent mutex} = held :=
    Set.insert_sdiff_self_of_notMem hmem
  refine ⟨Set.mem_insert .., fun s hinv hs b hb => ?_, ?_⟩
  · rw [hinv.keys b a mutex hb hs.lock]
    exact hs.idle
  · rw [hheld]
    exact hnext

end Locks

section Methods

variable {serialized : Bool} {eng : Engine} {σ₀ : Store} {t : ℕ} {ports : Ports}
  {a : AgentId} {op : Op} {es : List Ended} {R : Shared → Prop}

/-- Between two use cases of a call. -/
def Between (t : ℕ) (es : List Ended) (R : Shared → Prop) (s : Shared) : Prop :=
  own t s.ended = es ∧ R s

theorem stable_between {held : Set Lock} (hR : Lasting serialized eng σ₀ R) :
    Stable (discipline serialized eng σ₀) t held (Between t es R) :=
  fun _ _ _ _ hu _ _ _ hmay h => ⟨(own_of_may hmay hu).trans h.1, hR _ _ _ _ hmay h.2⟩

/-- A use case under its locks. -/
theorem dispatch_valid (hR : Lasting serialized eng σ₀ R) {next : Reply → Work}
    (hnext : ∀ reply, Valid (discipline serialized eng σ₀) t ∅
      (Between t (es ++ [⟨t, a, op, ports.faults op, reply⟩]) R) (next reply)) :
    Valid (discipline serialized eng σ₀) t ∅ (Ready t es a op R)
      (dispatch serialized eng ports t a op next) := by
  unfold dispatch locked
  cases serialized with
  | false =>
    rw [if_neg Bool.false_ne_true]
    have hentered : ∀ mutex, Valid (discipline false eng σ₀) t (insert (.agent mutex) ∅)
        (Entered false t es a op R mutex)
        (useCase eng (ports.faults op) t a op fun reply =>
          .unlock (.agent mutex) (next reply)) := by
      intro mutex
      refine useCase_valid hR (Set.mem_insert ..) (fun h => by cases h) fun reply => ?_
      refine unlock_agent_valid (Set.notMem_empty _) ⟨_, ?_, stable_between hR, hnext reply⟩
      exact fun s _ hs => ⟨hs.own, hs.rest⟩
    refine (acquire_valid hR (fun l hl => absurd hl (Set.notMem_empty l)) (fun h => by cases h)
      hentered).weaken fun s _ hs => ⟨hs, fun h => by cases h⟩
  | true =>
    rw [if_pos rfl]
    refine ⟨fun h hh => absurd hh (Set.notMem_empty h), fun h hh => absurd hh (Set.notMem_empty h),
      ?_⟩
    have hstore : true = true → Lock.store ∈ (insert Lock.store ∅ : Set Lock) :=
      fun _ => Set.mem_insert ..
    have hentered : ∀ mutex, Valid (discipline true eng σ₀) t
        (insert (.agent mutex) (insert .store ∅)) (Entered true t es a op R mutex)
        (useCase eng (ports.faults op) t a op fun reply =>
          .unlock (.agent mutex) (.unlock .store (next reply))) := by
      intro mutex
      refine useCase_valid hR (Set.mem_insert ..) (fun h => .inr (hstore h)) fun reply => ?_
      refine unlock_agent_valid (by simp) ⟨fun s => Between t _ R s ∧ s.running = [],
        fun s _ hs => ⟨⟨hs.own, hs.rest⟩, hs.serial rfl⟩, ?_, ?_⟩
      · refine (stable_between hR).and ?_
        intro u other s s' _ hother _ _ hmay hs
        rw [(hmay.serial rfl fun hmem => hother _ hmem (hstore rfl)).2.1]
        exact hs
      · refine ⟨hstore rfl, fun s _ hs _ => hs.2, _, fun s _ hs => hs.1, stable_between hR, ?_⟩
        rw [Set.insert_sdiff_self_of_notMem (Set.notMem_empty _)]
        exact hnext reply
    refine (acquire_valid hR (fun l hl => ?_) hstore hentered).weaken fun s _ hs =>
      ⟨hs.1, hs.2⟩
    rcases hl with rfl | hl
    · rfl
    · exact absurd hl (Set.notMem_empty l)

theorem backed_of_expired {σ : Store} {now : Instant} :
    ∀ item ∈ expiredItems σ now, Backed σ item.1 item.2 ∧ Reverts now item.2 := by
  intro item hitem
  obtain ⟨row, hrow, rfl⟩ := List.mem_map.mp hitem
  obtain ⟨hmem, hexpired⟩ := List.mem_filter.mp ((StampedLog.mem_inOrder _).mp hrow)
  rw [Bool.and_eq_true] at hexpired
  exact ⟨⟨rfl, ⟨row, hmem, rfl⟩, hexpired.1⟩, rfl⟩

theorem backed_of_orphan {σ : Store} {now : Instant} :
    ∀ item ∈ orphanItems σ now, Backed σ item.1 item.2 ∧ Reverts now item.2 := by
  intro item hitem
  obtain ⟨orphan, _, rfl⟩ := List.mem_map.mp hitem
  exact ⟨rfl, rfl⟩

def AllBacked (items : List (AgentId × Op)) (s : Shared) : Prop :=
  ∀ item ∈ items, Backed s.store item.1 item.2

theorem lasting_allBacked (items : List (AgentId × Op)) :
    Lasting serialized eng σ₀ (AllBacked items) :=
  fun _ _ _ _ hmay h item hitem => (h item hitem).kept hmay.rows

theorem lasting_true : Lasting serialized eng σ₀ fun _ => True := fun _ _ _ _ _ _ => trivial

/-- The use cases of a sweep so far, none of which has failed. -/
def Clean (now : Instant) (es : List Ended) : Prop :=
  ∀ e ∈ es, Reverts now e.op ∧ ∀ error, e.reply ≠ .error error

/-- A loop of a sweep, over items that were listed before the locks were taken. -/
theorem revertAll_valid {now : Instant} {stop : Except MemError ℕ → Work} {next : ℕ → Work}
    (hstop : ∀ es error, (∀ e ∈ es, Reverts now e.op) → (∃ e ∈ es, e.reply = .error error) →
      Valid (discipline serialized eng σ₀) t ∅ (Between t es fun _ => True) (stop (.error error)))
    (hnext : ∀ es, Clean now es → Valid (discipline serialized eng σ₀) t ∅
      (Between t es fun _ => True) (next (reverted es))) :
    ∀ (items : List (AgentId × Op)) (es : List Ended) (n : ℕ), n = reverted es → Clean now es →
      (∀ item ∈ items, Reverts now item.2) →
      Valid (discipline serialized eng σ₀) t ∅ (Between t es (AllBacked items))
        (revertAll serialized eng ports t stop items n next) := by
  intro items
  induction items with
  | nil =>
    intro es n hn hclean _
    subst hn
    exact (hnext es hclean).weaken fun s _ hs => ⟨hs.1, trivial⟩
  | cons item items ih =>
    intro es n hn hclean hitems
    obtain ⟨a, op⟩ := item
    have hop : Reverts now op := hitems _ (.head _)
    have hrest : ∀ item ∈ items, Reverts now item.2 := fun i hi => hitems i (.tail _ hi)
    have hready : Valid (discipline serialized eng σ₀) t ∅ (Ready t es a op (AllBacked items))
        (revertAll serialized eng ports t stop ((a, op) :: items) n next) := by
      refine dispatch_valid (lasting_allBacked items) fun reply => ?_
      have hextend : ∀ response, reply = .ok response →
          Clean now (es ++ [⟨t, a, op, ports.faults op, reply⟩]) := by
        intro response hreply e he
        rcases List.mem_append.mp he with he | he
        · exact hclean e he
        · rw [List.mem_singleton.mp he]
          refine ⟨hop, fun error herror => ?_⟩
          rw [hreply] at herror
          cases herror
      have hcount : reverted (es ++ [⟨t, a, op, ports.faults op, reply⟩]) =
          n + if reply = .ok (.reverted true) then 1 else 0 := by
        rw [hn, reverted, reverted, List.countP_append]
        simp
      cases reply with
      | error error =>
        refine (hstop _ error ?_ ⟨_, List.mem_append_right _ (.head _), rfl⟩).weaken
          fun s _ hs => ⟨hs.1, trivial⟩
        intro e he
        rcases List.mem_append.mp he with he | he
        · exact (hclean e he).1
        · rw [List.mem_singleton.mp he]
          exact hop
      | ok response =>
        by_cases hdone : response = .reverted true
        · subst hdone
          exact ih _ _ (by rw [hcount, if_pos rfl]) (hextend _ rfl) hrest
        · have hsame : n = reverted (es ++ [⟨t, a, op, ports.faults op, .ok response⟩]) := by
            rw [hcount, if_neg fun h => hdone (Except.ok.inj h), Nat.add_zero]
          have hskip := ih _ n hsame (hextend _ rfl) hrest
          cases response with
          | reverted done =>
            cases done with
            | true => exact absurd rfl hdone
            | false => exact hskip
          | ingested _ | asserted _ | adjudicated _ | reconciled _ => exact hskip
          | edgeAppended => exact hskip
    exact hready.weaken fun s _ hs =>
      ⟨hs.1, hs.2 _ (.head _), fun i hi => hs.2 i (.tail _ hi)⟩

/-- A call that dispatches one use case. -/
theorem dispatch_once {now : Instant} {c : Call}
    (hanswers : ∀ reply, Answers now [⟨t, a, op, ports.faults op, reply⟩] c (.replied reply)) :
    Valid (discipline serialized eng σ₀) t ∅ (Ready t [] a op fun _ => True)
      (dispatch serialized eng ports t a op fun reply => .done ⟨now, c, .replied reply⟩) := by
  refine dispatch_valid lasting_true fun reply => ⟨rfl, fun s _ hs => ?_⟩
  show Answers now (own t s.ended) c (.replied reply)
  rw [hs.1]
  exact hanswers reply

theorem submit_valid {now : Instant} {handleId : Uuid} {response : AdjudicationResponse}
    {assertionRef : Uuid} :
    Valid (discipline serialized eng σ₀) t ∅ (fun s => own t s.ended = [])
      (handle serialized eng ports t now (.submitAdjudication handleId response assertionRef)) := by
  have hreturn : ∀ error, (error = .pendingStore ∨ error = .adjudicationHandleNotFound handleId) →
      Valid (discipline serialized eng σ₀) t ∅ (fun s => own t s.ended = [])
        (.done ⟨now, .submitAdjudication handleId response assertionRef,
          .replied (.error error)⟩) := by
    refine fun error herror => ⟨rfl, fun s _ hs => .inr ⟨hs, ?_⟩⟩
    rcases herror with rfl | rfl
    · exact .inl rfl
    · exact .inr rfl
  have hstable : Stable (discipline serialized eng σ₀) t ∅ fun s => own t s.ended = [] :=
    discipline_lawful.fresh_stable t
  unfold handle HandleCalls.submitAdjudication
  dsimp only
  by_cases hpresent : eng.pendingStorePresent = true
  · rw [if_pos hpresent]
    intro s hinv hs
    refine ⟨hinv, May.refl t ∅ s, ?_⟩
    split_ifs
    · exact ⟨_, hstable, hs, hreturn _ (.inl rfl)⟩
    · beta_reduce
      split
      · exact ⟨_, hstable, hs, hreturn _ (.inr rfl)⟩
      · rename_i row hrow
        refine ⟨Ready t [] row.agentId (.submitAdjudication handleId response now assertionRef)
          fun _ => True, ?_, ⟨hs, ?_, trivial⟩, dispatch_once fun reply => .inl ⟨_, _, rfl⟩⟩
        · exact fun u other s s' hu _ _ _ hmay h => h.kept lasting_true hu hmay
        · exact ⟨row, (handleId_of_getPending hrow).1, (handleId_of_getPending hrow).2, rfl⟩
  · rw [if_neg hpresent]
    exact hreturn _ (.inr rfl)

theorem sweep_valid {now : Instant} :
    Valid (discipline serialized eng σ₀) t ∅ (fun s => own t s.ended = [])
      (handle serialized eng ports t now .sweepExpiredAdjudications) := by
  have hfailed : ∀ es error, (∀ e ∈ es, Reverts now e.op) →
      (error = .pendingStore ∨ ∃ e ∈ es, e.reply = .error error) →
      Valid (discipline serialized eng σ₀) t ∅ (Between t es fun _ => True)
        (.done ⟨now, .sweepExpiredAdjudications, .swept (.error error)⟩) := by
    refine fun es error hes herror => ⟨rfl, fun s _ hs => ?_⟩
    show Answers now (own t s.ended) .sweepExpiredAdjudications (.swept (.error error))
    rw [hs.1]
    exact ⟨hes, herror⟩
  have hdone : ∀ es, Clean now es → Valid (discipline serialized eng σ₀) t ∅
      (Between t es fun _ => True)
      (.done ⟨now, .sweepExpiredAdjudications, .swept (.ok (reverted es))⟩) := by
    refine fun es hes => ⟨rfl, fun s _ hs => ?_⟩
    show Answers now (own t s.ended) .sweepExpiredAdjudications (.swept (.ok (reverted es)))
    rw [hs.1]
    exact ⟨rfl, hes⟩
  have hnil : Clean now [] := fun e he => absurd he List.not_mem_nil
  unfold handle HandleCalls.sweepExpiredAdjudications
  dsimp only
  by_cases hpresent : eng.pendingStorePresent = true
  · rw [if_pos hpresent]
    intro s hinv hs
    refine ⟨hinv, May.refl t ∅ s, ?_⟩
    beta_reduce
    by_cases hlist : ports.listExpired = true
    · rw [if_pos hlist]
      exact ⟨_, stable_between lasting_true, ⟨hs, trivial⟩,
        hfailed [] _ (fun e he => absurd he List.not_mem_nil) (.inl rfl)⟩
    · rw [if_neg hlist]
      refine ⟨_, stable_between (lasting_allBacked (expiredItems s.store now)),
        ⟨hs, fun item hitem => (backed_of_expired item hitem).1⟩, ?_⟩
      refine revertAll_valid (fun es error hes herror => hfailed es error hes (.inr herror))
        (fun es hes => ?_) _ [] 0 rfl hnil fun item hitem => (backed_of_expired item hitem).2
      intro s' hinv' hs'
      refine ⟨hinv', May.refl t ∅ s', ?_⟩
      split_ifs
      · exact ⟨_, stable_between lasting_true, hs',
          hfailed es _ (fun e he => (hes e he).1) (.inl rfl)⟩
      · refine ⟨_, stable_between (lasting_allBacked (orphanItems s'.store now)),
          ⟨hs'.1, fun item hitem => (backed_of_orphan item hitem).1⟩, ?_⟩
        exact revertAll_valid (fun es error hes herror => hfailed es error hes (.inr herror))
          hdone _ es _ rfl hes fun item hitem => (backed_of_orphan item hitem).2
  · rw [if_neg hpresent]
    exact (hdone [] hnil).weaken fun s _ hs => ⟨hs, trivial⟩

/-- Every write method keeps the discipline. -/
theorem handle_valid (now : Instant) (c : Call) :
    Valid (discipline serialized eng σ₀) t ∅ ((discipline serialized eng σ₀).fresh t)
      (handle serialized eng ports t now c) := by
  cases c with
  | ingestClaim req claimRef oracleReply =>
    exact Valid.weaken (dispatch_once fun reply => ⟨_, rfl⟩) fun s _ hs => ⟨hs, rfl, trivial⟩
  | assertValidity req assertionRef =>
    exact Valid.weaken (dispatch_once fun reply => ⟨_, rfl⟩) fun s _ hs => ⟨hs, rfl, trivial⟩
  | reconcile req stamp =>
    exact Valid.weaken (dispatch_once fun reply => ⟨_, rfl⟩) fun s _ hs => ⟨hs, rfl, trivial⟩
  | submitAdjudication handleId response assertionRef => exact submit_valid
  | sweepExpiredAdjudications => exact sweep_valid

theorem callable_valid (call : ℕ) (task : Work) (h : Callable serialized eng call task) :
    Valid (discipline serialized eng σ₀) call ∅ ((discipline serialized eng σ₀).fresh call)
      task := by
  obtain ⟨ports, now, c, rfl⟩ := h
  exact handle_valid now c

end Methods

end Mempill.CallDiscipline
