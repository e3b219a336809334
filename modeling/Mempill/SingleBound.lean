import Mempill.ConflictSurfacing

set_option autoImplicit false

/-!
# Single effective bound

A recorded bound stays the bound of its claim until an accepted reopen.
-/
namespace Mempill.SingleBound
open Mempill.Types Mempill.Persistence Mempill.TruthEngine Mempill.Rows Mempill.ActiveBound
open Mempill.AssertValidity Mempill.SubmitAdjudication Mempill.Engine Mempill.Steps
open Mempill.IngestClaim Mempill.Invariants Mempill.ClaimLog Mempill.ConflictSurfacing Transition

section Writers

/-- What a verdict that is not refused bounds, and at which instant. -/
def verdictBound (config : EngineConfig) (σ : Store) (handleId : Uuid)
    (response : AdjudicationResponse) (now : Instant) : Option (AgentId × ClaimRef × Instant) := do
  let row ← getPending σ handleId
  let challenger ← loadClaim σ row.agentId row.challengerClaimRef
  if row.expiresAt.all (fun t => decide (now < t)) ∧
      currentDisposition σ row.agentId row.challengerClaimRef = some .queuedForAdjudication then
    match response.verdict with
    | .affirm => some (row.agentId, row.incumbentClaimRef, (affirmBoundAt config challenger now).1)
    | .deny => some (row.agentId, row.challengerClaimRef, now)
    | .unknown => none
  else none

/-- The three writers of an assertion, with their guards. -/
inductive AssertionWritten (eng : Engine) (σ : Store) : Op → ValidityAssertion → Prop where
  | host {req : AssertValidityRequest} {now : Instant} {assertionRef : Uuid} {target : Claim}
      {at_ : Instant} {granularity : Option DateGranularity}
      (hassert : req.assertion = .bound at_ granularity)
      (haccepted : BoundAccepted σ req target at_ now) :
      AssertionWritten eng σ (.assertValidity req now assertionRef)
        (hostAssertion req (.bound at_ granularity) now assertionRef)
  | reopen {req : AssertValidityRequest} {now : Instant} {assertionRef : Uuid}
      (hassert : req.assertion = .reopen) (haccepted : ReopenAccepted σ req now) :
      AssertionWritten eng σ (.assertValidity req now assertionRef)
        (hostAssertion req (.reopen now) now assertionRef)
  | verdict {handleId : Uuid} {response : AdjudicationResponse} {now : Instant}
      {assertionRef : Uuid} {agentId : AgentId} {r : ClaimRef} {at_ : Instant}
      {granularity : Option DateGranularity}
      (hbound : verdictBound eng.config σ handleId response now = some (agentId, r, at_)) :
      AssertionWritten eng σ (.submitAdjudication handleId response now assertionRef)
        (oracleAssertion agentId r at_ granularity now assertionRef)

variable {eng : Engine} {σ : Store} {op : Op} {w : Written} {a : ValidityAssertion}

theorem verdictBound_of_accepted (config : EngineConfig) {handleId : Uuid} {now : Instant}
    {row : PendingAdjudicationRow} {challenger : Claim} (response : AdjudicationResponse)
    (h : VerdictAccepted σ handleId now row challenger) :
    verdictBound config σ handleId response now =
      match response.verdict with
      | .affirm =>
        some (row.agentId, row.incumbentClaimRef, (affirmBoundAt config challenger now).1)
      | .deny => some (row.agentId, row.challengerClaimRef, now)
      | .unknown => none := by
  have hun : row.expiresAt.all (fun t => decide (now < t)) = true := by
    cases he : row.expiresAt with
    | none => rfl
    | some t => simpa using h.unexpired t he
  simp only [verdictBound, h.pending, h.load, Option.bind_eq_bind, Option.bind_some]
  rw [if_pos ⟨hun, h.queued⟩]

theorem assertionWritten_of_mem (h : Outcome eng σ op w) (ha : a ∈ w.assertions) :
    AssertionWritten eng σ op a := by
  cases h with
  | bounded hassert haccepted =>
    rw [List.mem_singleton.mp ha]
    exact .host hassert haccepted
  | reopened hassert haccepted =>
    rw [List.mem_singleton.mp ha]
    exact .reopen hassert haccepted
  | @resolved handleId response now assertionRef row challenger haccepted =>
    have hbound := verdictBound_of_accepted eng.config response haccepted
    cases hv : response.verdict with
    | affirm =>
      rw [hv] at hbound
      simp only [verdictWritten, hv, List.mem_singleton] at ha
      rw [ha]
      exact .verdict hbound
    | deny =>
      rw [hv] at hbound
      simp only [verdictWritten, hv, List.mem_singleton] at ha
      rw [ha]
      exact .verdict hbound
    | unknown => simp [verdictWritten, hv] at ha
  | _ => cases ha

end Writers

section Condition

/-- A bound request meets the bound on record, if there is one, at a stamp that has
    reached it; an applied verdict meets one at its own instant only. -/
def meetsReachedBound (config : EngineConfig) (σ : Store) : Op → Bool
  | .assertValidity req now _ =>
    match req.assertion with
    | .bound _ _ =>
      (recordedBound (assertionsOf σ req.agentId req.target)).all fun e => decide (e ≤ now)
    | .reopen => true
  | .submitAdjudication handleId response now _ =>
    (verdictBound config σ handleId response now).all fun (agentId, r, at_) =>
      (recordedBound (assertionsOf σ agentId r)).all fun e => decide (e = at_)
  | _ => true

/-- The steps that the single-bound guarantee asks for. -/
def Steady (config : EngineConfig) (σ : Store) (op : Op) : Prop :=
  Orderly σ op ∧ meetsReachedBound config σ op = true

instance (config : EngineConfig) (σ : Store) (op : Op) : Decidable (Steady config σ op) := by
  unfold Steady; infer_instance

/-- The operation is an accepted reopen of this claim. -/
def Reopens (agentId : AgentId) (r : ClaimRef) (σ : Store) (op : Op) : Prop :=
  ∃ req now assertionRef, op = .assertValidity req now assertionRef ∧ req.agentId = agentId ∧
    req.target = r ∧ req.assertion = .reopen ∧ ReopenAccepted σ req now

end Condition

section Step

variable {eng : Engine} {σ σ' : Store} {op : Op} {agentId : AgentId} {r : ClaimRef}
variable {e now : Instant}

theorem recordedBound_eq_some {as : List ValidityAssertion} (h : recordedBound as = some e) :
    ∃ a granularity, as.getLast? = some a ∧ a.kind = .bound e granularity := by
  unfold recordedBound at h
  cases hl : as.getLast? with
  | none => rw [hl] at h; cases h
  | some a =>
    rw [hl, Option.bind_some, toBoundState] at h
    cases hk : a.kind with
    | bound at_ granularity =>
      rw [hk] at h
      have hat : at_ = e := Option.some.inj h
      exact ⟨a, granularity, rfl, hat ▸ hk⟩
    | reopen _ => rw [hk] at h; cases h

/-- A bound on record that a later stamp has reached is the active bound there. -/
theorem activeBoundAt_of_recordedBound (hσ : OrderlyReachable eng σ)
    (hb : recordedBound (assertionsOf σ agentId r) = some e) (htimely : Timely σ agentId r now)
    (he : e ≤ now) :
    ∃ b, activeBoundAt (assertionsOf σ agentId r) now = some b ∧ b.boundAt = e := by
  have hinv := logInvariant_of_orderly hσ agentId r
  obtain ⟨a, granularity, hl, hk⟩ := recordedBound_eq_some hb
  have hstated : statedInstant a = e := by rw [statedInstant, hk]
  have hreached : ∀ b, (assertionsOf σ agentId r).getLast? = some b → Effective now b := by
    intro b hlb
    rw [hl] at hlb
    cases hlb
    exact ⟨le_of_lt (htimely.assertions a (List.mem_of_getLast? hl)), hstated ▸ he⟩
  refine ⟨⟨e, a.assertionRef, granularity⟩, ?_, rfl⟩
  rw [activeBoundAt_of_reached hinv hreached, hl, Option.bind_some, toBoundState, hk]

/-- A steady step other than a reopen records no other instant on a bounded claim. -/
theorem new_assertion_of_steady (hσ : OrderlyReachable eng σ)
    (hb : recordedBound (assertionsOf σ agentId r) = some e) (hsteady : Steady eng.config σ op)
    (hno : ¬ Reopens agentId r σ op) {a : ValidityAssertion}
    (ha : AssertionWritten eng σ op a) (hagent : a.agentId = agentId)
    (htarget : a.targetClaim = r) : ∃ granularity, a.kind = .bound e granularity := by
  obtain ⟨horder, hmeets⟩ := hsteady
  cases ha with
  | @host req now assertionRef target at_ granularity hassert haccepted =>
    subst hagent htarget
    simp only [meetsReachedBound, hassert, hostAssertion] at hmeets hb
    rw [hb] at hmeets
    obtain ⟨b, hactive, _⟩ := activeBoundAt_of_recordedBound hσ hb (horder _ _ _ rfl)
      (of_decide_eq_true hmeets)
    rw [haccepted.notBound] at hactive
    cases hactive
  | @reopen req now assertionRef hassert haccepted =>
    exact absurd ⟨req, now, assertionRef, rfl, hagent, htarget, hassert, haccepted⟩ hno
  | @verdict handleId response now assertionRef agentId' r' at_ granularity hbound =>
    subst hagent htarget
    simp only [meetsReachedBound, hbound, oracleAssertion, Option.all_some] at hmeets hb
    rw [hb] at hmeets
    have heq : e = at_ := of_decide_eq_true hmeets
    exact ⟨granularity, by rw [heq]; rfl⟩

/-- The assertions of a claim from one state of a run to a later one. -/
def ExtendsAt (e : Instant) (agentId : AgentId) (r : ClaimRef) (σ σ' : Store) : Prop :=
  ∃ new, assertionsOf σ' agentId r = assertionsOf σ agentId r ++ new ∧
    ∀ a ∈ new, ∃ granularity, a.kind = .bound e granularity

theorem recordedBound_of_extendsAt (hb : recordedBound (assertionsOf σ agentId r) = some e)
    (h : ExtendsAt e agentId r σ σ') : recordedBound (assertionsOf σ' agentId r) = some e := by
  obtain ⟨new, hnew, hall⟩ := h
  rw [hnew]
  cases new using List.reverseRecOn with
  | nil => rwa [List.append_nil]
  | append_singleton new a =>
    obtain ⟨granularity, hk⟩ := hall a (by simp)
    rw [← List.append_assoc, recordedBound, List.getLast?_concat, Option.bind_some, toBoundState,
      hk]
    rfl

theorem ExtendsAt.trans {σ'' : Store} (h : ExtendsAt e agentId r σ σ')
    (h' : ExtendsAt e agentId r σ' σ'') : ExtendsAt e agentId r σ σ'' := by
  obtain ⟨new, hnew, hall⟩ := h
  obtain ⟨new', hnew', hall'⟩ := h'
  refine ⟨new ++ new', by rw [hnew', hnew, List.append_assoc], fun a ha => ?_⟩
  exact (List.mem_append.mp ha).elim (hall a) (hall' a)

theorem extendsAt_of_step (hσ : OrderlyReachable eng σ)
    (hb : recordedBound (assertionsOf σ agentId r) = some e) (hsteady : Steady eng.config σ op)
    (hno : ¬ Reopens agentId r σ op) (hst : Step eng σ op σ') : ExtendsAt e agentId r σ σ' := by
  obtain ⟨w, ho, happ⟩ := apply_outcome eng σ op
  refine ⟨newAssertions w agentId r, ?_, fun a ha => ?_⟩
  · rw [hst.2]
    exact assertionsOf_append happ agentId r
  · obtain ⟨hmem, hp⟩ := List.mem_filter.mp ha
    simp only [Bool.and_eq_true, beq_iff_eq] at hp
    exact new_assertion_of_steady hσ hb hsteady hno (assertionWritten_of_mem ho hmem) hp.1 hp.2

end Step

section Requests

structure PassesGates (σ : Store) (req : AssertValidityRequest) (at_ : Instant) : Prop where
  provenance : req.provenance.isCheapPathEligible = true
  free : underAdjudication σ req.agentId req.target = false
  coherent : ∃ target, loadClaim σ req.agentId req.target = some target ∧
    ∀ s, target.validTime.start = some s → s ≤ at_

/-- How a bound request on a claim bounded at `e` is answered. -/
structure KeepsBound (σ : Store) (req : AssertValidityRequest) (at_ e now : Instant)
    (assertionRef : Uuid) : Prop where
  writesNothing : (AssertValidity.execute σ req now assertionRef).2 = σ
  repeated : PassesGates σ req at_ → at_ = e →
    ∃ resp, (AssertValidity.execute σ req now assertionRef).1 = .ok resp ∧ resp.noOp = true ∧
      resp.effectiveAt = some e
  different : at_ ≠ e →
    ∃ err, (AssertValidity.execute σ req now assertionRef).1 = .error err ∧
      (PassesGates σ req at_ → err = .alreadyBound req.target e)

variable {σ : Store} {req : AssertValidityRequest} {at_ e now : Instant}
variable {granularity : Option DateGranularity} {assertionRef : Uuid}

theorem keepsBound_of_active (hassert : req.assertion = .bound at_ granularity) {b : BoundState}
    (hactive : activeBoundAt (assertionsOf σ req.agentId req.target) now = some b)
    (hb : b.boundAt = e) : KeepsBound σ req at_ e now assertionRef := by
  have refused : ∀ err, AssertValidity.execute σ req now assertionRef = (.error err, σ) →
      ¬ PassesGates σ req at_ → KeepsBound σ req at_ e now assertionRef := fun err h hno =>
    ⟨by rw [h], fun hp => absurd hp hno, fun _ => ⟨err, by rw [h], fun hp => absurd hp hno⟩⟩
  by_cases hprov : req.provenance.isCheapPathEligible = true
  case neg =>
    exact refused (.insufficientProvenanceForOverturn req.provenance)
      (by simp [AssertValidity.execute, hprov]) fun hp => hprov hp.provenance
  cases hload : loadClaim σ req.agentId req.target with
  | none =>
    refine refused (.claimNotFound req.target) (by simp [AssertValidity.execute, hprov, hload])
      fun hp => ?_
    obtain ⟨target, ht, _⟩ := hp.coherent
    rw [hload] at ht
    cases ht
  | some target =>
    have hexec : AssertValidity.execute σ req now assertionRef =
        executeBound σ req target (some b) at_ granularity now assertionRef := by
      simp [AssertValidity.execute, hprov, hload, hassert, activeBoundAt_load, hactive]
    by_cases hfree : underAdjudication σ req.agentId req.target = true
    · refine refused (.targetUnderAdjudication req.target) ?_ fun hp => ?_
      · rw [hexec]
        simp [executeBound, hfree]
      · rw [hp.free] at hfree
        cases hfree
    by_cases hstart : target.validTime.start.any (fun start => decide (at_ < start)) = true
    · refine refused (.incoherentTemporalWindow (target.validTime.start.getD 0) at_) ?_
        fun hp => ?_
      · rw [hexec]
        simp [executeBound, hfree, hstart]
      · obtain ⟨target', ht, hle⟩ := hp.coherent
        rw [hload] at ht
        cases ht
        cases hs : target.validTime.start with
        | none => simp [hs] at hstart
        | some s =>
          rw [hs] at hstart
          exact absurd (hle s hs) (not_le_of_gt (by simpa using hstart))
    by_cases hat : at_ = e
    · have hboundAt : b.boundAt = at_ := hb.trans hat.symm
      rw [executeBound, if_neg hfree, if_neg hstart] at hexec
      simp only [if_pos hboundAt] at hexec
      rw [hboundAt, hat] at hexec
      exact ⟨by rw [hexec], fun _ _ => ⟨_, by rw [hexec], rfl, rfl⟩, fun hne => absurd hat hne⟩
    · have hboundAt : ¬ b.boundAt = at_ := fun h => hat (h.symm.trans hb)
      rw [executeBound, if_neg hfree, if_neg hstart] at hexec
      simp only [if_neg hboundAt] at hexec
      rw [hb] at hexec
      exact ⟨by rw [hexec], fun _ h => absurd h hat, fun _ => ⟨_, by rw [hexec], fun _ => rfl⟩⟩

end Requests

section Main

variable {eng : Engine} {σ σ' : Store} {agentId : AgentId} {r : ClaimRef} {e : Instant}

def SteadyUnopened (config : EngineConfig) (agentId : AgentId) (r : ClaimRef) (σ : Store)
    (op : Op) : Prop :=
  Steady config σ op ∧ ¬ Reopens agentId r σ op

theorem orderly_of_steady (h : Reach Store.New
    (Restrict (Step eng) (Steady eng.config)) σ) : OrderlyReachable eng σ :=
  h.mono fun _ _ _ hst => ⟨hst.1.1, hst.2⟩

/-- In a steady run a recorded bound stays until a reopen: later steps record no
    other instant on the claim, and every further bound request that is made
    steadily is answered by the bound on record. -/
theorem bound_kept_until_reopen {ops : List Op}
    (hσ : Reach Store.New (Restrict (Step eng) (Steady eng.config)) σ)
    (hb : recordedBound (assertionsOf σ agentId r) = some e)
    (hrun : Run (Restrict (Step eng) (SteadyUnopened eng.config agentId r)) σ ops σ') :
    ExtendsAt e agentId r σ σ' ∧ recordedBound (assertionsOf σ' agentId r) = some e ∧
      ∀ (req : AssertValidityRequest) (now : Instant) (assertionRef : Uuid) (at_ : Instant)
        (granularity : Option DateGranularity), req.agentId = agentId → req.target = r →
        req.assertion = .bound at_ granularity →
        Steady eng.config σ' (.assertValidity req now assertionRef) →
        KeepsBound σ' req at_ e now assertionRef := by
  have hrest : OrderlyReachable eng σ' ∧ ExtendsAt e agentId r σ σ' := by
    refine hrun.preserves
      (P := fun τ => OrderlyReachable eng τ ∧ ExtendsAt e agentId r σ τ)
      ⟨orderly_of_steady hσ, [], by simp, by simp⟩ fun τ op τ' hτ hst => ?_
    obtain ⟨⟨hsteady, hno⟩, hstep⟩ := hst
    refine ⟨hτ.1.step ⟨hsteady.1, hstep⟩, hτ.2.trans ?_⟩
    exact extendsAt_of_step hτ.1 (recordedBound_of_extendsAt hb hτ.2) hsteady hno hstep
  obtain ⟨hσ', hext⟩ := hrest
  have hb' := recordedBound_of_extendsAt hb hext
  refine ⟨hext, hb', ?_⟩
  rintro req now assertionRef at_ granularity rfl rfl hassert ⟨horder, hmeets⟩
  simp only [meetsReachedBound, hassert, hb', Option.all_some, decide_eq_true_eq] at hmeets
  obtain ⟨b, hactive, hbe⟩ := activeBoundAt_of_recordedBound hσ' hb' (horder _ _ _ rfl) hmeets
  exact keepsBound_of_active hassert hactive hbe

theorem bound_kept_over_write :
    let σ' := Engine.apply (defaultEngine false) (boundedParis 15)
      (.ingestClaim berlin 30 ⟨2⟩ (.ok 0))
    ExtendsAt 15 agent ⟨1⟩ (boundedParis 15) σ' ∧
      recordedBound (assertionsOf σ' agent ⟨1⟩) = some 15 ∧
      ∀ (req : AssertValidityRequest) (now : Instant) (assertionRef : Uuid) (at_ : Instant)
        (granularity : Option DateGranularity), req.agentId = agent → req.target = ⟨1⟩ →
        req.assertion = .bound at_ granularity →
        Steady EngineConfig.default σ' (.assertValidity req now assertionRef) →
        KeepsBound σ' req at_ 15 now assertionRef :=
  have hreach : Reach Store.New
      (Restrict (Step (defaultEngine false)) (Steady EngineConfig.default)) (boundedParis 15) :=
    run_reach_under (by decide)
  have hrun : Run (Restrict (Step (defaultEngine false))
      (SteadyUnopened EngineConfig.default agent ⟨1⟩)) (boundedParis 15)
      [.ingestClaim berlin 30 ⟨2⟩ (.ok 0)]
      (Engine.apply (defaultEngine false) (boundedParis 15)
        (.ingestClaim berlin 30 ⟨2⟩ (.ok 0))) :=
    .cons ⟨⟨by decide, fun ⟨_, _, _, h, _⟩ => by cases h⟩, by decide, rfl⟩ (.nil _)
  bound_kept_until_reopen hreach (by decide) hrun

def affirmedOnce : Store :=
  run (defaultEngine true) Store.sqlite
    [.ingestClaim (remember "Paris" (some (dated 1 none))) 10 ⟨1⟩ (.ok 100),
      .ingestClaim (remember "Berlin" (some (dated 5 none))) 20 ⟨2⟩ (.ok 101),
      .ingestClaim (remember "Rome" (some (dated 8 none))) 21 ⟨3⟩ (.ok 102),
      verdictOn 101 .affirm 30 500]

/-- A request before the instant of the bound replaces it, and so does a second
    affirm. -/
theorem bound_moved_without_reopen :
    (Reachable (defaultEngine false) (boundedParis 100) ∧ Fresh 51 (boundedParis 100) ∧
      recordedBound (assertionsOf (boundedParis 100) agent ⟨1⟩) = some 100 ∧
      recordedBound (assertionsOf (AssertValidity.execute (boundedParis 100)
        (assertOn 1 (.bound 50 none)) 30 51).2 agent ⟨1⟩) = some 50) ∧
    Reachable (defaultEngine true) affirmedOnce ∧ Fresh 501 affirmedOnce ∧
      recordedBound (assertionsOf affirmedOnce agent ⟨1⟩) = some 5 ∧
      recordedBound (assertionsOf (Engine.apply (defaultEngine true) affirmedOnce
        (verdictOn 102 .affirm 40 501)) agent ⟨1⟩) = some 8 :=
  ⟨⟨run_reachable (by decide), by decide, by decide, by decide⟩, run_reachable (by decide),
    by decide, by decide, by decide⟩

end Main

end Mempill.SingleBound
