import Mempill.AnsweredHistory
import Mempill.BoundEffect
import Mempill.EndFact

set_option autoImplicit false

/-!
# Ended facts

When the bound step of an ending still finds the line as the resolve step left it.
-/
namespace Mempill.EndedFact
open Mempill.Types Mempill.Persistence Mempill.TruthEngine Mempill.Rows Mempill.IngestClaim
open Mempill.AssertValidity Mempill.Engine Mempill.EndFact Mempill.Invariants Mempill.BoundEffect
open Mempill.FixedHistory Mempill.AnsweredHistory Transition

section Statement

/-- The one claim of the line that is live at `now`. -/
def SoleLive (config : EngineConfig) (σ : Store) (agentId : AgentId) (subject predicate : String)
    (now : Instant) (r : ClaimRef) : Prop :=
  (foldForClose config σ agentId subject predicate now).liveClaims.map (·.claim.claimRef) = [r]

/-- A call that wrote a bound wrote it on the sole live claim, and no call is told that
    the claim is bound already. -/
structure NeverGuesses (config : EngineConfig) (σ : Store) (req : EndFactRequest)
    (now : Instant) (result : Except MempillDxError EndFactReceipt) : Prop where
  sole : ∀ receipt, result = .ok receipt → receipt.noOp = false →
    SoleLive config σ req.agentId req.subject req.predicate now receipt.claimRef
  notBound : ∀ target existing, result ≠ .error (.engine (.alreadyBound target existing))

/-- How the bound step finds the claim that the resolve step settled on. -/
inductive Settled (config : EngineConfig) (σ : Store) (req : EndFactRequest) (now : Instant)
    (target : Claim) (atDt : Instant) : Prop where
  /-- The line resolves to it still. -/
  | stands (h : resolveLiveClaimForLine config σ req.agentId req.subject req.predicate now =
      .single target.claimRef)
  | notFirstHand (h : (req.provenance.getD (.external .userAsserted)).isCheapPathEligible =
      false)
  | underAdjudication (h : underAdjudication σ req.agentId target.claimRef = true)
  | startsLater (start : Instant) (hstart : target.validTime.start = some start)
      (h : atDt < start)
  | boundAlike (existing : BoundState)
      (hactive : activeBoundAt (assertionsOf σ req.agentId target.claimRef) now = some existing)
      (h : existing.boundAt = atDt)
  | endsByItself (ownEnd : Instant)
      (hactive : activeBoundAt (assertionsOf σ req.agentId target.claimRef) now = none)
      (hstop : target.validTime.stop = some ownEnd) (h : ownEnd ≤ atDt)

/-- A call is settled where its bound step finds the claim, if any, so. -/
def Settles (parse : String → Option (Instant × DateGranularity)) (config : EngineConfig)
    (seen : Store) (resolvedAt : Instant) (σ : Store) (req : EndFactRequest) (now : Instant) :
    Prop :=
  ∀ atDt atGran target, parse req.at_ = some (atDt, atGran) → target ∈ seen.claims →
    target.agentId = req.agentId →
    resolveLiveClaimForLine config seen req.agentId req.subject req.predicate resolvedAt =
      .single target.claimRef →
    Settled config σ req now target atDt

end Statement

section Resolution

variable {eng : Engine} {config : EngineConfig} {σ σ' : Store} {agentId : AgentId}
variable {subject predicate : String} {now : Instant} {r : ClaimRef}

theorem resolve_eq_single_iff :
    resolveLiveClaimForLine config σ agentId subject predicate now = .single r ↔
      SoleLive config σ agentId subject predicate now r := by
  unfold resolveLiveClaimForLine SoleLive
  cases (foldForClose config σ agentId subject predicate now).liveClaims with
  | nil => simp
  | cons cs rest =>
    cases rest with
    | nil => simp
    | cons _ _ => simp

theorem foldForClose_eq :
    foldForClose config σ agentId subject predicate now =
      foldStatuses (lineRows config σ agentId subject predicate (some now) now) now config :=
  fold_readLine now none

/-- The line resolves to a stored claim of its own that has no active bound. -/
theorem exists_target (hσ : Reachable eng σ)
    (h : resolveLiveClaimForLine config σ agentId subject predicate now = .single r) :
    ∃ target ∈ σ.claims, target.agentId = agentId ∧ target.claimRef = r ∧
      activeBoundAt (assertionsOf σ agentId target.claimRef) now = none := by
  have hsole := resolve_eq_single_iff.mp h
  rw [SoleLive, foldForClose_eq] at hsole
  have hmem := List.mem_map.mp (hsole ▸ List.mem_singleton_self r)
  obtain ⟨cs, hcs, href⟩ := hmem
  obtain ⟨hrow, hlive⟩ := foldStatuses_subset (lineRows_nodup hσ _ _ _ _ _ _) _ hcs
  obtain ⟨target, htarget, rfl⟩ := mem_lineRows.mp hrow
  obtain ⟨hstored, hline, _⟩ := mem_lineClaims.mp htarget
  simp only [onLine, Bool.and_eq_true, beq_iff_eq] at hline
  exact ⟨target, hstored, hline.1.1, href, ((rowOf_isLive _ _ _ _ _).mp hlive).1⟩

theorem loadClaim_of_mem (hσ : Reachable eng σ) {c : Claim} (hc : c ∈ σ.claims) :
    loadClaim σ c.agentId c.claimRef = some c := by
  cases hload : loadClaim σ c.agentId c.claimRef with
  | none =>
    have hnone := List.find?_eq_none.mp hload c hc
    simp at hnone
  | some target => rw [loadClaim_eq hσ hc hload]

end Resolution

section BoundStep

variable {eng : Engine} {parse : String → Option (Instant × DateGranularity)}
variable {seen σ : Store} {req : EndFactRequest} {resolvedAt now atDt : Instant}
variable {atGran : DateGranularity} {assertionRef : Uuid} {target : Claim}

/-- A call whose line resolves does what its bound step does. -/
theorem endFact_of_resolved (hparse : parse req.at_ = some (atDt, atGran)) {r : ClaimRef}
    (hresolved : resolveLiveClaimForLine eng.config seen req.agentId req.subject req.predicate
      resolvedAt = .single r) :
    (endFact parse eng.config seen resolvedAt σ req now assertionRef).1 =
      match (AssertValidity.execute σ (boundRequest req r atDt atGran) now assertionRef).1 with
      | .error e => .error (.engine e)
      | .ok resp => .ok ⟨resp.claimRef, resp.disposition, resp.effectiveAt.getD atDt,
          resp.noOp⟩ := by
  simp only [endFact, hparse, hresolved]
  rcases AssertValidity.execute σ (boundRequest req r atDt atGran) now assertionRef with ⟨_ | _, _⟩
    <;> rfl

theorem execute_of_loaded (hσ : Reachable eng σ) (hstored : target ∈ σ.claims)
    (hagent : target.agentId = req.agentId)
    (hprov : (req.provenance.getD (.external .userAsserted)).isCheapPathEligible = true) :
    AssertValidity.execute σ (boundRequest req target.claimRef atDt atGran) now assertionRef =
      executeBound σ (boundRequest req target.claimRef atDt atGran) target
        (activeBoundAt (assertionsOf σ req.agentId target.claimRef) now) atDt (some atGran) now
        assertionRef := by
  have hload := loadClaim_of_mem hσ hstored
  rw [hagent] at hload
  simp [AssertValidity.execute, boundRequest, hprov, hload, activeBoundAt_load]

/-- A bound step that answers with a new bound, or that the claim is bound otherwise,
    has passed the gates before. -/
theorem neverGuesses_of_settled (hσ : Reachable eng σ) (hstored : target ∈ σ.claims)
    (hagent : target.agentId = req.agentId)
    (h : Settled eng.config σ req now target atDt) (hparse : parse req.at_ = some (atDt, atGran))
    (hresolved : resolveLiveClaimForLine eng.config seen req.agentId req.subject req.predicate
      resolvedAt = .single target.claimRef) :
    NeverGuesses eng.config σ req now
      (endFact parse eng.config seen resolvedAt σ req now assertionRef).1 := by
  rw [endFact_of_resolved hparse hresolved]
  by_cases hprov : (req.provenance.getD (.external .userAsserted)).isCheapPathEligible = true
  case neg =>
    simp only [Bool.not_eq_true] at hprov
    constructor <;> simp [AssertValidity.execute, boundRequest, hprov]
  rw [execute_of_loaded hσ hstored hagent hprov]
  unfold executeBound
  by_cases hfree : underAdjudication σ req.agentId target.claimRef = true
  case pos => constructor <;> simp [boundRequest, hfree]
  by_cases hstart : target.validTime.start.any (fun start => decide (atDt < start)) = true
  case pos => constructor <;> simp [boundRequest, hfree, hstart]
  cases h with
  | stands hstands =>
    obtain ⟨_, _, _, href, hactive⟩ := exists_target hσ hstands
    rw [href] at hactive
    have hsole := resolve_eq_single_iff.mp hstands
    cases hstop : target.validTime.stop.filter (fun ownEnd => decide (ownEnd ≤ atDt)) <;>
      constructor <;> simp [boundRequest, hfree, hstart, hactive, hsole]
  | notFirstHand hnot => rw [hprov] at hnot; cases hnot
  | underAdjudication hunder => exact absurd hunder hfree
  | startsLater start hsome hlt =>
    rw [hsome] at hstart
    simp [hlt] at hstart
  | boundAlike existing hactive hat =>
    constructor <;> simp [boundRequest, hfree, hstart, hactive, hat]
  | endsByItself ownEnd hactive hstop hle =>
    have hfilter : target.validTime.stop.filter (fun ownEnd => decide (ownEnd ≤ atDt)) =
        some ownEnd := by
      rw [hstop, Option.filter_some, if_pos (by simpa using hle)]
    constructor <;> simp [boundRequest, hfree, hstart, hactive, hfilter]

theorem settled_of_neverGuesses (hσ : Reachable eng σ) (hstored : target ∈ σ.claims)
    (hagent : target.agentId = req.agentId) (hparse : parse req.at_ = some (atDt, atGran))
    (hresolved : resolveLiveClaimForLine eng.config seen req.agentId req.subject req.predicate
      resolvedAt = .single target.claimRef)
    (h : NeverGuesses eng.config σ req now
      (endFact parse eng.config seen resolvedAt σ req now assertionRef).1) :
    Settled eng.config σ req now target atDt := by
  rw [endFact_of_resolved hparse hresolved] at h
  by_cases hprov : (req.provenance.getD (.external .userAsserted)).isCheapPathEligible = true
  case neg => exact .notFirstHand (by simpa using hprov)
  rw [execute_of_loaded hσ hstored hagent hprov] at h
  unfold executeBound at h
  by_cases hfree : underAdjudication σ req.agentId target.claimRef = true
  case pos => exact .underAdjudication hfree
  by_cases hstart : target.validTime.start.any (fun start => decide (atDt < start)) = true
  case pos =>
    obtain ⟨start, hsome, hlt⟩ := (Option.any_eq_true _ _).mp hstart
    exact .startsLater start hsome (of_decide_eq_true hlt)
  cases hactive : activeBoundAt (assertionsOf σ req.agentId target.claimRef) now with
  | some existing =>
    by_cases hat : existing.boundAt = atDt
    · exact .boundAlike existing hactive hat
    · refine absurd ?_ (h.notBound target.claimRef existing.boundAt)
      simp [boundRequest, hfree, hstart, hactive, hat]
  | none =>
    cases hstop : target.validTime.stop.filter (fun ownEnd => decide (ownEnd ≤ atDt)) with
    | some ownEnd =>
      obtain ⟨hsome, hle⟩ := Option.filter_eq_some_iff.mp hstop
      exact .endsByItself ownEnd hactive hsome (of_decide_eq_true hle)
    | none =>
      refine .stands (resolve_eq_single_iff.mpr (h.sole ⟨target.claimRef, .superseded, atDt, false⟩
        ?_ rfl))
      simp [boundRequest, hfree, hstart, hactive, hstop]

end BoundStep

section Between

variable {eng : Engine} {seen σ : Store} {ops : List Op} {agentId : AgentId}
variable {subject predicate : String} {now : Instant}

/-- Operations that do not reach the line up to an instant leave what it resolves to. -/
theorem resolution_of_run
    (hrun : Run (Restrict (Step eng)
      (fun τ op => ¬ Backdates eng τ ⟨agentId, subject, predicate, some now, none⟩ now op))
      seen ops σ) :
    resolveLiveClaimForLine eng.config σ agentId subject predicate now =
      resolveLiveClaimForLine eng.config seen agentId subject predicate now := by
  induction hrun with
  | nil _ => rfl
  | @cons τ _ _ op _ hst _ ih =>
    obtain ⟨hkeeps, hsup, rfl⟩ := hst
    have hline : SameLine τ (apply eng τ op) agentId subject predicate now :=
      sameLine_of_step hsup hkeeps
    rw [ih]
    unfold resolveLiveClaimForLine
    rw [foldForClose_eq, foldForClose_eq, lineRows_congr eng.config hline]

end Between

section Main

/-- Whatever runs between the two steps, the call never guesses exactly when its bound
    step finds the line settled. -/
theorem end_fact_never_guesses_iff {eng : Engine} {seen σ : Store} {ops : List Op}
    (hseen : Reachable eng seen) (hrun : Run (Step eng) seen ops σ)
    (parse : String → Option (Instant × DateGranularity)) (req : EndFactRequest)
    (resolvedAt now : Instant) (assertionRef : Uuid) :
    NeverGuesses eng.config σ req now
        (endFact parse eng.config seen resolvedAt σ req now assertionRef).1 ↔
      Settles parse eng.config seen resolvedAt σ req now := by
  have hσ := hrun.reach hseen
  constructor
  · intro h atDt atGran target hparse hstored hagent hresolved
    exact settled_of_neverGuesses hσ (claims_subset_of_run hrun hstored) hagent hparse hresolved h
  · intro h
    cases hparse : parse req.at_ with
    | none => constructor <;> simp [endFact, hparse]
    | some parsed =>
      obtain ⟨atDt, atGran⟩ := parsed
      cases hresolved : resolveLiveClaimForLine eng.config seen req.agentId req.subject
          req.predicate resolvedAt with
      | empty => constructor <;> simp [endFact, hparse, hresolved]
      | ambiguous _ => constructor <;> simp [endFact, hparse, hresolved]
      | single r =>
        obtain ⟨target, hstored, hagent, rfl, _⟩ := exists_target hseen hresolved
        exact neverGuesses_of_settled hσ (claims_subset_of_run hrun hstored) hagent
          (h atDt atGran target hparse hstored hagent hresolved) hparse hresolved

def dateOf (text : String) : Option (Instant × DateGranularity) :=
  if text = "2005" then some (5, .year) else if text = "2008" then some (8, .year) else none

/-- The one line of the examples, to be ended by a date. -/
def ending (text : String) : EndFactRequest := ⟨agent, "user", "location", text, none, none⟩

def settledIn (city : String) : Op :=
  .ingestClaim (remember city (some (dated 1 none))) 10 ⟨1⟩ (.ok 0)

/-- A fact about another line is stored between the two steps. -/
theorem paris_is_ended :
    let seen := run (defaultEngine false) Store.sqlite [settledIn "Paris"]
    let σ := run (defaultEngine false) seen [remembered "employer" 12 2]
    let answer := (endFact dateOf EngineConfig.default seen 11 σ (ending "2008") 13 60).1
    answer = .ok ⟨⟨1⟩, .superseded, 8, false⟩ ∧
      NeverGuesses EngineConfig.default σ (ending "2008") 13 answer := by
  intro seen σ answer
  have hseen : Reachable (defaultEngine false) seen := run_reachable (by decide)
  have hother : ¬ Backdates (defaultEngine false) seen
      ⟨agent, "user", "location", some 13, none⟩ 13 (remembered "employer" 12 2) := by
    rintro ⟨_, hadds | ⟨_, _, habout⟩⟩
    · exact absurd hadds.2.2.1 (by decide)
    · exact habout
  have hsup : Supplied seen (remembered "employer" 12 2) := by decide
  have hrun : Run (Step (defaultEngine false)) seen [remembered "employer" 12 2] σ :=
    .cons ⟨hsup, rfl⟩ (.nil _)
  refine ⟨by decide, ?_⟩
  refine (end_fact_never_guesses_iff hseen hrun dateOf (ending "2008") 11 13 60).mpr
    fun _ _ _ _ _ _ hresolved => .stands ?_
  refine (resolution_of_run (.cons ⟨hother, hsup, rfl⟩ (.nil _))).trans ?_
  rw [← hresolved]
  decide

/-- Two calls resolve the line; the first to write makes the second fail. And a rival
    fact stored in between leaves the call to bound one of two live claims. -/
theorem late_end_guesses :
    let seen := run (defaultEngine false) Store.sqlite [settledIn "Paris"]
    let otherEnd : List Op :=
      [.assertValidity (boundRequest (ending "2005") ⟨1⟩ 5 .year) 12 50]
    let rival : List Op := [.ingestClaim (remember "Berlin" (some (dated 5 none))) 12 ⟨2⟩ (.ok 0)]
    let call (ops : List Op) := (endFact dateOf EngineConfig.default seen 11
      (run (defaultEngine false) seen ops) (ending "2008") 13 60).1
    Reachable (defaultEngine false) seen ∧ Runnable (defaultEngine false) seen otherEnd ∧
      Runnable (defaultEngine false) seen rival ∧
      call otherEnd = .error (.engine (.alreadyBound ⟨1⟩ 5)) ∧
      call rival = .ok ⟨⟨1⟩, .superseded, 8, false⟩ ∧
      ¬ SoleLive EngineConfig.default (run (defaultEngine false) seen rival) agent "user"
        "location" 13 ⟨1⟩ :=
  ⟨run_reachable (by decide), by decide, by decide, by decide, by decide, by
    unfold SoleLive; decide⟩

end Main

end Mempill.EndedFact
