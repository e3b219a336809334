import Mempill.Lib.Timeline
import Mempill.BoundEffect
import Mempill.PointInTime
import Mempill.WriteGate

set_option autoImplicit false

/-!
# Clean successions

Runs of trusted external writes that are all committed cheaply, and of bounds.
The store they leave is a timeline, and a recall at an instant answers the claim
in force there.
-/
namespace Mempill.CleanSuccession
open Mempill.Types Mempill.Persistence Mempill.TruthEngine Mempill.Ledger Mempill.ValidTimeHelpers
open Mempill.Rows Mempill.ActiveBound Mempill.IngestClaim Mempill.AssertValidity Mempill.QueryMemory
open Mempill.Engine Mempill.Steps Mempill.Invariants Mempill.RowEffects Mempill.WriteGate
open Mempill.PointInTime Transition HalfOpen StampedLog

section Statement

/-- The bound of a claim that the toggle walk ends on once all its assertions are
    recorded and reached. -/
def boundInForce (as : List ValidityAssertion) : Option Instant :=
  ((lastMax assertionKey as).bind toBoundState).map (·.boundAt)

/-- `[start, min(own end, bound))`. -/
def spanOf (σ : Store) (c : Claim) : Span Instant :=
  (window c.validTime).cut (boundInForce (assertionsOf σ c.agentId c.claimRef))

def answeredCheap (eng : Engine) (σ : Store) (req : IngestClaimRequest) (now : Instant)
    (claimRef : ClaimRef) (reply : Except String Uuid) : Bool :=
  match (IngestClaim.execute eng σ req now claimRef reply).1 with
  | .ok resp => resp.disposition == .committedCheap
  | .error _ => false

def BoundsByNow (now : Instant) : ValidityAssertionInput → Prop
  | .bound at_ _ => at_ ≤ now
  | .reopen => False

instance (now : Instant) (a : ValidityAssertionInput) : Decidable (BoundsByNow now a) := by
  cases a <;> unfold BoundsByNow <;> infer_instance

structure CleanWrite (eng : Engine) (line : SubjectLineRef) (σ : Store)
    (req : IngestClaimRequest) (now : Instant) (claimRef : ClaimRef)
    (reply : Except String Uuid) : Prop where
  agent : req.agentId = line.agentId
  subject : req.subject = line.subject
  predicate : req.predicate = line.predicate
  provenance : req.provenance.isCheapPathEligible = true
  trusted : claimIsTrusted (stamp req claimRef now) eng.config.validTimeConfidenceThreshold = true
  value : ∀ c ∈ σ.claims, c.fact.value ≠ req.value
  answer : answeredCheap eng σ req now claimRef reply = true

/-- The write is stamped no earlier than the assertions on the claims whose spans its
    own window runs into. -/
def SeenBy (σ : Store) (req : IngestClaimRequest) (now : Instant) : Prop :=
  ∀ c ∈ σ.claims, ¬ (requestWindow req).Apart (spanOf σ c) →
    ∀ a ∈ assertionsOf σ c.agentId c.claimRef, a.assertedAt ≤ now

def Clean (eng : Engine) (line : SubjectLineRef) (σ : Store) : Op → Prop
  | .ingestClaim req now claimRef reply => CleanWrite eng line σ req now claimRef reply
  | .assertValidity req now _ => BoundsByNow now req.assertion
  | _ => False

def Seen (σ : Store) : Op → Prop
  | .ingestClaim req now _ _ => SeenBy σ req now
  | _ => True

instance (eng : Engine) (line : SubjectLineRef) (σ : Store) (req : IngestClaimRequest)
    (now : Instant) (claimRef : ClaimRef) (reply : Except String Uuid) :
    Decidable (CleanWrite eng line σ req now claimRef reply) :=
  decidable_of_iff
    (req.agentId = line.agentId ∧ req.subject = line.subject ∧ req.predicate = line.predicate ∧
      req.provenance.isCheapPathEligible = true ∧
      claimIsTrusted (stamp req claimRef now) eng.config.validTimeConfidenceThreshold = true ∧
      (∀ c ∈ σ.claims, c.fact.value ≠ req.value) ∧
      answeredCheap eng σ req now claimRef reply = true)
    ⟨fun ⟨h1, h2, h3, h4, h5, h6, h7⟩ => ⟨h1, h2, h3, h4, h5, h6, h7⟩,
      fun h => ⟨h.agent, h.subject, h.predicate, h.provenance, h.trusted, h.value, h.answer⟩⟩

instance (σ : Store) (req : IngestClaimRequest) (now : Instant) :
    Decidable (SeenBy σ req now) := by unfold SeenBy; infer_instance

instance (eng : Engine) (line : SubjectLineRef) (σ : Store) :
    (op : Op) → Decidable (Clean eng line σ op)
  | .ingestClaim req now claimRef reply =>
    inferInstanceAs (Decidable (CleanWrite eng line σ req now claimRef reply))
  | .assertValidity req now _ => inferInstanceAs (Decidable (BoundsByNow now req.assertion))
  | .submitAdjudication .. | .reconcile .. | .sweepExpired .. | .sweepOrphan ..
  | .appendEdge .. => .isFalse id

instance (σ : Store) : (op : Op) → Decidable (Seen σ op)
  | .ingestClaim req now _ _ => inferInstanceAs (Decidable (SeenBy σ req now))
  | .assertValidity .. | .submitAdjudication .. | .reconcile .. | .sweepExpired ..
  | .sweepOrphan .. | .appendEdge .. => .isTrue trivial

abbrev CleanReachable (eng : Engine) (line : SubjectLineRef) : Store → Prop :=
  Reach Store.New (Restrict (Step eng) fun σ op => Clean eng line σ op ∧ Seen σ op)

/-- A recall at `t` answers the claim whose span contains `t` and no other, and no
    belief where there is none. -/
structure RecalledAt (config : EngineConfig) (σ : Store) (line : SubjectLineRef)
    (now t : Instant) : Prop where
  inside : ∀ c ∈ σ.claims, (spanOf σ c).Mem t →
    let answer := recallAt config σ line.agentId line.subject line.predicate now t
    answer.status = .resolved ∧ answer.primary.map (·.claimRef) = some c.claimRef ∧
      answer.alternatives = []
  outside : (∀ c ∈ σ.claims, ¬ (spanOf σ c).Mem t) →
    let answer := recallAt config σ line.agentId line.subject line.predicate now t
    answer.status = .noBelief ∧ answer.primary = none ∧ answer.alternatives = []

end Statement

section Log

/-- What a clean run keeps of the log of a claim. -/
structure CleanLog (as : List ValidityAssertion) (es : List LedgerEntry) : Prop where
  /-- Only bounds, at instants reached by their stamps. -/
  bounds : ∀ a ∈ as, toBoundState a ≠ none ∧ statedInstant a ≤ a.assertedAt
  /-- The commit, and the entries of the bounds. -/
  entries : ∀ e ∈ es, e.disposition = .committedCheap ∨
    e.disposition = .superseded ∧ verdictField e = some verdictHostBound
  /-- An unbounded claim is not superseded. -/
  unbounded : as = [] → ∀ e ∈ es, e.disposition = .committedCheap

variable {as : List ValidityAssertion} {es : List LedgerEntry} {q : Instant}

theorem CleanLog.effective_iff (h : CleanLog as es) {a : ValidityAssertion} (ha : a ∈ as) :
    Effective q a ↔ a.assertedAt ≤ q :=
  ⟨And.left, fun hle => ⟨hle, le_trans (h.bounds a ha).2 hle⟩⟩

/-- Once all assertions are recorded the walk ends on the bound in force. -/
theorem CleanLog.activeBoundAt (h : CleanLog as es) (hq : ∀ a ∈ as, a.assertedAt ≤ q) :
    activeBoundAt as q = (lastMax assertionKey as).bind toBoundState := by
  have hall : as.filter (fun a => decide (Effective q a)) = as :=
    List.filter_eq_self.mpr fun a ha => decide_eq_true ((h.effective_iff ha).mpr (hq a ha))
  rw [activeBoundAt_eq, lastEffective, hall]

theorem CleanLog.bound_isSome (h : CleanLog as es) (hne : as ≠ []) :
    ((lastMax assertionKey as).bind toBoundState).isSome = true := by
  rcases lastMax_spec assertionKey as with ⟨_, hnil⟩ | ⟨a, ha, hmem, _⟩
  · exact absurd hnil hne
  · rw [ha, Option.bind_some, Option.isSome_iff_ne_none]
    exact (h.bounds a hmem).1

/-- A bound is accepted only before all stored bounds, so that only the first one
    counts. -/
theorem CleanLog.boundInForce_concat (h : CleanLog as es) {a : ValidityAssertion}
    (hnone : TruthEngine.activeBoundAt as a.assertedAt = none) (hne : as ≠ []) :
    boundInForce (as ++ [a]) = boundInForce as := by
  have hlate : ∀ b ∈ as, a.assertedAt < b.assertedAt := by
    intro b hb
    by_contra hle
    have heff : Effective a.assertedAt b := (h.effective_iff hb).mpr (not_lt.mp hle)
    rw [activeBoundAt_eq] at hnone
    have hmem : b ∈ as.filter (fun x => decide (Effective a.assertedAt x)) :=
      List.mem_filter.mpr ⟨hb, decide_eq_true heff⟩
    rcases lastMax_spec assertionKey (as.filter fun x => decide (Effective a.assertedAt x)) with
      ⟨_, hnil⟩ | ⟨x, hx, hxmem, _⟩
    · rw [hnil] at hmem
      cases hmem
    · rw [lastEffective, hx, Option.bind_some] at hnone
      exact (h.bounds x (List.mem_of_mem_filter hxmem)).1 hnone
  unfold boundInForce
  rw [lastMax_concat]
  rcases lastMax_spec assertionKey as with ⟨_, hnil⟩ | ⟨b, hb, hmem, _⟩
  · exact absurd hnil hne
  · have hkey : ¬ assertionKey b ≤ assertionKey a := fun hle =>
      absurd (le_antisymm hle (assertionKey_le_of_lt (hlate b hmem)))
        fun heq => absurd (congrArg (fun k => (ofLex k).1) heq) (ne_of_gt (hlate b hmem))
    rw [hb, keepLast, if_neg hkey]

theorem CleanLog.undenied (h : CleanLog as es) (ties : TieOrder LedgerEntry) :
    deniedByEntries (inOrder LedgerEntry.recordedAt (ties.arrange es)) = false := by
  unfold deniedByEntries
  cases hl : (inOrder LedgerEntry.recordedAt (ties.arrange es)).getLast? with
  | none => rfl
  | some e =>
    have hmem : e ∈ es := ties.mem_arrange.mp ((mem_inOrder _).mp (List.mem_of_getLast? hl))
    rcases h.entries e hmem with hc | ⟨hs, hv⟩
    · simp [hc]
    · simp [hs, hv, verdictHostBound]

theorem CleanLog.latest (h : CleanLog as es) {ties : TieOrder LedgerEntry} {d : Disposition}
    (hd : (ties.first LedgerEntry.recordedAt es).map (·.disposition) = some d) :
    (d = .committedCheap ∨ d = .superseded) ∧ (as = [] → d = .committedCheap) := by
  obtain ⟨e, he, rfl⟩ := Option.map_eq_some_iff.mp hd
  have hmem : e ∈ es := ties.mem_of_first LedgerEntry.recordedAt he
  exact ⟨(h.entries e hmem).imp_right And.left, fun hnil => h.unbounded hnil e hmem⟩

end Log

section Rows

variable {σ : Store} {c : Claim} {q : Instant}
variable (h : CleanLog (assertionsOf σ c.agentId c.claimRef)
  (entriesOf σ c.agentId none c.claimRef))
variable (hq : ∀ a ∈ assertionsOf σ c.agentId c.claimRef, a.assertedAt ≤ q)

include h hq

theorem effectiveWindow_of_clean :
    effectiveWindow (rowOf σ c.agentId none q c) = spanOf σ c := by
  rw [effectiveWindow, rowOf_boundAt, h.activeBoundAt hq]
  rfl

theorem isCandidate_of_clean :
    isCandidate (deniedOf σ c.agentId none) (rowOf σ c.agentId none q c) = true := by
  have hhard : ((latestOf σ c.agentId none c.claimRef).map isHardExcludedDisposition).getD
      false = false := by
    cases hl : latestOf σ c.agentId none c.claimRef with
    | none => rfl
    | some d => rcases (h.latest hl).1 with rfl | rfl <;> rfl
  have hdenied : deniedOf σ c.agentId none c.claimRef = false := h.undenied σ.ties
  by_cases hnil : assertionsOf σ c.agentId c.claimRef = []
  · have hlive : (rowOf σ c.agentId none q c).isLive = true := by
      rw [rowOf_isLive, hnil]
      refine ⟨rfl, fun d hd => ?_⟩
      rw [(h.latest hd).2 hnil]
      rfl
    simp [isCandidate, hhard, hlive]
  · have hsome := h.bound_isSome hnil
    rw [← h.activeBoundAt hq] at hsome
    simp [isCandidate, hhard, hdenied, hsome]

end Rows

section Write

variable {eng : Engine} {σ : Store} {req : IngestClaimRequest} {now : Instant}
variable {claimRef : ClaimRef} {reply : Except String Uuid}

theorem admitted_of_answered (hprov : req.provenance.isCheapPathEligible = true)
    (h : answeredCheap eng σ req now claimRef reply = true) :
    Admitted eng.config σ req claimRef now ∧
      (gateDecision eng σ req (stamp req claimRef now) now).disposition = .committedCheap := by
  unfold answeredCheap at h
  cases hexec : (IngestClaim.execute eng σ req now claimRef reply).1 with
  | error e => simp [hexec] at h
  | ok resp =>
    simp only [hexec, beq_iff_eq] at h
    rcases external_ok_cases hprov hexec with hadmitted | ⟨_, hquarantined⟩
    · rw [execute_of_admitted hadmitted] at hexec
      rw [executeAdmitted_ok hexec] at h
      exact ⟨hadmitted, h⟩
    · rw [h] at hquarantined
      cases hquarantined

theorem succession_of_cheap (hσ : Reachable eng σ) (hfresh : Fresh claimRef.uuid σ)
    (hprov : req.provenance.isCheapPathEligible = true)
    (hvalue : ∀ c ∈ σ.claims, c.fact.value ≠ req.value)
    (hcheap : (gateDecision eng σ req (stamp req claimRef now) now).disposition =
      .committedCheap)
    {cs : ClaimWithStatus} (hcs : cs ∈ writeCandidates eng.config σ req now) :
    isTrustedSuccession (writeGroup eng.config σ req claimRef now)
      eng.config.validTimeConfidenceThreshold = true := by
  obtain ⟨inc, hinc⟩ := exists_incumbentRow hσ hcs
  have hother : req.value ≠ inc.claim.fact.value := fun heq =>
    hvalue _ (onLine_of_mem_writeRows
      (mem_writeRows_of_candidate (mem_of_incumbentRow hσ hinc))).1 heq.symm
  rw [gate_disposition hσ hfresh hprov, hinc] at hcheap
  by_contra hnot
  simp only [hother, false_and, if_false, hnot] at hcheap
  split_ifs at hcheap

end Write

section Steps

def Represents (σ : Store) (T : Timeline ClaimRef Instant) : Prop :=
  T.members = σ.claims.map fun c => (c.claimRef, spanOf σ c)

structure CleanStore (eng : Engine) (line : SubjectLineRef) (σ : Store) : Prop where
  onLine : ∀ c ∈ σ.claims, onLine line.agentId line.subject line.predicate c = true
  trusted : ∀ c ∈ σ.claims,
    claimIsTrusted c eng.config.validTimeConfidenceThreshold = true
  logs : ∀ c ∈ σ.claims, CleanLog (assertionsOf σ c.agentId c.claimRef)
    (entriesOf σ c.agentId none c.claimRef)
  timeline : ∃ T, Represents σ T

variable {eng : Engine} {line : SubjectLineRef} {σ σ' : Store}

theorem CleanStore.agent (h : CleanStore eng line σ) {c : Claim} (hc : c ∈ σ.claims) :
    c.agentId = line.agentId := by
  have hline := h.onLine c hc
  simp only [Persistence.onLine, Bool.and_eq_true, beq_iff_eq] at hline
  exact hline.1.1

theorem CleanStore.apart (h : CleanStore eng line σ) :
    σ.claims.Pairwise fun c d => (spanOf σ c).Apart (spanOf σ d) := by
  obtain ⟨T, hT⟩ := h.timeline
  have hapart := T.apart
  rw [hT, List.pairwise_map] at hapart
  exact hapart

theorem cleanStore_of_new (eng : Engine) (line : SubjectLineRef) (h : σ.New) :
    CleanStore eng line σ := by
  obtain ⟨ties, rfl⟩ := h
  exact ⟨by simp [Store.empty], by simp [Store.empty], by simp [Store.empty], Timeline.empty, rfl⟩

section Ingest

variable {req : IngestClaimRequest} {now : Instant} {claimRef : ClaimRef}
variable {reply : Except String Uuid}

theorem apart_of_clean_write (hσ : Reachable eng σ) (h : CleanStore eng line σ)
    (hfresh : Fresh claimRef.uuid σ)
    (hclean : CleanWrite eng line σ req now claimRef reply) (hseen : SeenBy σ req now)
    {c : Claim} (hc : c ∈ σ.claims) :
    (spanOf σ c).Apart (requestWindow req) := by
  obtain ⟨hagent, hsub, hpred, hprov, _, hvalue, hanswer⟩ := hclean
  obtain ⟨_, hcheap⟩ := admitted_of_answered hprov hanswer
  by_contra hnot
  have hrecorded := hseen c hc fun hapart => hnot hapart.symm
  have hlog := h.logs c hc
  have hca : c.agentId = req.agentId := (h.agent hc).trans hagent.symm
  have hwin := effectiveWindow_of_clean hlog hrecorded
  have hcand := isCandidate_of_clean hlog hrecorded
  rw [hca] at hwin hcand
  have hline : Persistence.onLine req.agentId req.subject req.predicate c = true := by
    rw [hagent, hsub, hpred]
    exact h.onLine c hc
  have hrow : rowOf σ req.agentId none now c ∈ writeRows eng.config σ req now :=
    mem_lineRows.mpr ⟨c, mem_lineClaims.mpr ⟨hc, hline, rfl⟩, rfl⟩
  have hmem : rowOf σ req.agentId none now c ∈ writeCandidates eng.config σ req now :=
    List.mem_filter.mpr ⟨hrow, hcand⟩
  have hsucc := succession_of_cheap hσ hfresh hprov hvalue hcheap hmem
  have hapart := apart_of_succession hsucc hmem
  rw [hwin] at hapart
  exact hnot hapart.symm

theorem CleanStore.ingest (hσ : Reachable eng σ) (h : CleanStore eng line σ)
    (hfresh : Fresh claimRef.uuid σ)
    (hclean : CleanWrite eng line σ req now claimRef reply) (hseen : SeenBy σ req now) :
    CleanStore eng line (IngestClaim.execute eng σ req now claimRef reply).2 := by
  have hapart := fun c hc => apart_of_clean_write hσ h hfresh hclean hseen (c := c) hc
  obtain ⟨hagent, hsub, hpred, hprov, htrust, _, hanswer⟩ := hclean
  obtain ⟨hadmitted, hcheap⟩ := admitted_of_answered hprov hanswer
  have happ := ingest_appends hadmitted reply
  generalize (IngestClaim.execute eng σ req now claimRef reply).2 = σ' at happ ⊢
  have hnew : ∀ c ∈ σ.claims, c.claimRef ≠ (stamp req claimRef now).claimRef := fun c hc heq =>
    Fresh.claim hfresh hc (congrArg ClaimRef.uuid heq)
  have hassert : ∀ c ∈ σ.claims, assertionsOf σ' c.agentId c.claimRef =
      assertionsOf σ c.agentId c.claimRef := fun c hc =>
    assertionsOf_of_untouched happ (untouched_of_ingested (hnew c hc))
  have hspan : ∀ c ∈ σ.claims, spanOf σ' c = spanOf σ c := fun c hc => by
    rw [spanOf, hassert c hc, spanOf]
  have hown : assertionsOf σ' (stamp req claimRef now).agentId
      (stamp req claimRef now).claimRef = [] := assertionsOf_ingested happ hfresh
  have hcases : ∀ c ∈ σ'.claims, c ∈ σ.claims ∨ c = stamp req claimRef now := by
    intro c hc
    rw [happ.claims] at hc
    simpa using hc
  constructor
  · intro c hc
    rcases hcases c hc with hc | rfl
    · exact h.onLine c hc
    · simp [Persistence.onLine, stamp, hagent, hsub, hpred]
  · intro c hc
    rcases hcases c hc with hc | rfl
    · exact h.trusted c hc
    · exact htrust
  · intro c hc
    rcases hcases c hc with hc | rfl
    · rw [hassert c hc,
        entriesOf_of_untouched happ (untouched_of_ingested (hnew c hc))]
      exact h.logs c hc
    · rw [hown, entriesOf_ingested happ hfresh rfl rfl]
      refine ⟨by simp, fun e he => .inl ?_, fun _ e he => ?_⟩ <;>
      · rw [List.mem_singleton.mp he]
        exact hcheap
  · obtain ⟨T, hT⟩ := h.timeline
    refine ⟨T.insert claimRef (requestWindow req) fun x hx => ?_, ?_⟩
    · rw [hT] at hx
      obtain ⟨c, hc, rfl⟩ := List.mem_map.mp hx
      exact hapart c hc
    · have hreq : spanOf σ' (stamp req claimRef now) = requestWindow req := by
        rw [spanOf, hown]
        exact Span.cut_none _
      have hmembers : T.members = σ.claims.map fun c => (c.claimRef, spanOf σ c) := hT
      rw [Represents, Timeline.members_insert, hmembers, happ.claims, List.map_append,
        List.map_singleton, hreq]
      congr 1
      exact List.map_congr_left fun c hc => by rw [hspan c hc]

end Ingest

section Bound

variable {req : AssertValidityRequest} {at_ now : Instant}
variable {granularity : Option DateGranularity} {assertionRef : Uuid} {target : Claim}

abbrev boundWritten (req : AssertValidityRequest) (at_ : Instant)
    (granularity : Option DateGranularity) (now : Instant) (assertionRef : Uuid) : Written :=
  { assertions := [hostAssertion req (.bound at_ granularity) now assertionRef]
    ledger := [hostEntry req .superseded (hostBoundRationale at_) now] }

variable (happ : Appends σ σ' (boundWritten req at_ granularity now assertionRef))

include happ

theorem assertionsOf_bounded {c : Claim} (hagent : c.agentId = req.agentId)
    (href : c.claimRef = req.target) :
    assertionsOf σ' c.agentId c.claimRef = assertionsOf σ c.agentId c.claimRef ++
      [hostAssertion req (.bound at_ granularity) now assertionRef] := by
  rw [assertionsOf_append happ, hagent, href]
  simp [hostAssertion]

theorem entriesOf_bounded {c : Claim} (hagent : c.agentId = req.agentId)
    (href : c.claimRef = req.target) :
    entriesOf σ' c.agentId none c.claimRef = entriesOf σ c.agentId none c.claimRef ++
      [hostEntry req .superseded (hostBoundRationale at_) now] := by
  rw [entriesOf_append happ, hagent, href]
  simp [hostEntry, withinCutoff]

omit happ in
theorem untouched_of_bounded {agentId : AgentId} {r : ClaimRef} (hne : r ≠ req.target) :
    Untouched (boundWritten req at_ granularity now assertionRef) agentId r := by
  constructor
  · intro a ha _ heq
    rw [List.mem_singleton.mp ha] at heq
    exact hne heq.symm
  · intro e he _ heq
    rw [List.mem_singleton.mp he] at heq
    exact hne heq.symm

/-- The first bound of a claim closes its span; a later one changes nothing. -/
theorem spanOf_bounded {c : Claim} (hagent : c.agentId = req.agentId)
    (href : c.claimRef = req.target)
    (hlog : CleanLog (assertionsOf σ c.agentId c.claimRef) (entriesOf σ c.agentId none c.claimRef))
    (hnone : activeBoundAt (assertionsOf σ req.agentId req.target) now = none) :
    spanOf σ' c =
      if assertionsOf σ req.agentId req.target = [] then (spanOf σ c).cut (some at_)
      else spanOf σ c := by
  rw [spanOf, spanOf, assertionsOf_bounded happ hagent href]
  rw [hagent, href] at hlog ⊢
  split
  · rename_i hnil
    rw [hnil]
    exact congrArg (fun s => Span.cut s (some at_)) (Span.cut_none _).symm
  · rename_i hne
    rw [hlog.boundInForce_concat hnone hne]

theorem CleanStore.bound (h : CleanStore eng line σ) (hle : at_ ≤ now)
    (haccepted : BoundAccepted σ req target at_ now) : CleanStore eng line σ' := by
  obtain ⟨htarget, htargetAgent, htargetRef⟩ := mem_of_loadClaim haccepted.load
  have hagent : ∀ c ∈ σ.claims, c.agentId = req.agentId := fun c hc =>
    (h.agent hc).trans ((h.agent htarget).symm.trans htargetAgent)
  have hclaims : σ'.claims = σ.claims := by rw [happ.claims, List.append_nil]
  constructor
  · exact fun c hc => h.onLine c (hclaims ▸ hc)
  · exact fun c hc => h.trusted c (hclaims ▸ hc)
  · intro c hc
    rw [hclaims] at hc
    have hlog := h.logs c hc
    by_cases href : c.claimRef = req.target
    · rw [assertionsOf_bounded happ (hagent c hc) href, entriesOf_bounded happ (hagent c hc) href]
      refine ⟨fun a ha => ?_, fun e he => ?_, fun hnil => by simp at hnil⟩
      · rcases List.mem_append.mp ha with ha | ha
        · exact hlog.bounds a ha
        · rw [List.mem_singleton.mp ha]
          exact ⟨by simp [toBoundState, hostAssertion], hle⟩
      · rcases List.mem_append.mp he with he | he
        · exact hlog.entries e he
        · rw [List.mem_singleton.mp he]
          exact .inr ⟨rfl, rfl⟩
    · rw [assertionsOf_of_untouched happ (untouched_of_bounded href),
        entriesOf_of_untouched happ (untouched_of_bounded href)]
      exact hlog
  · obtain ⟨T, hT⟩ := h.timeline
    have hmembers : T.members = σ.claims.map fun c => (c.claimRef, spanOf σ c) := hT
    have hother : ∀ c ∈ σ.claims, c.claimRef ≠ req.target → spanOf σ' c = spanOf σ c :=
      fun c _ hne => by
        rw [spanOf, assertionsOf_of_untouched happ (untouched_of_bounded hne), spanOf]
    have hown : ∀ c ∈ σ.claims, c.claimRef = req.target → spanOf σ' c =
        if assertionsOf σ req.agentId req.target = [] then (spanOf σ c).cut (some at_)
        else spanOf σ c := fun c hc href =>
      spanOf_bounded happ (hagent c hc) href (h.logs c hc) haccepted.notBound
    by_cases hnil : assertionsOf σ req.agentId req.target = []
    · refine ⟨T.close req.target at_, ?_⟩
      rw [Represents, Timeline.members_close, hmembers, hclaims, List.map_map]
      refine List.map_congr_left fun c hc => ?_
      by_cases href : c.claimRef = req.target
      · simp [Timeline.closeMember, href, hown c hc href, hnil]
      · simp [Timeline.closeMember, href, hother c hc href]
    · refine ⟨T, ?_⟩
      rw [Represents, hmembers, hclaims]
      refine List.map_congr_left fun c hc => ?_
      by_cases href : c.claimRef = req.target
      · rw [hown c hc href, if_neg hnil]
      · rw [hother c hc href]

end Bound

theorem CleanStore.step {op : Op} (hσ : Reachable eng σ) (h : CleanStore eng line σ)
    (hclean : Clean eng line σ op) (hseen : Seen σ op) (hst : Step eng σ op σ') :
    CleanStore eng line σ' := by
  obtain ⟨hsup, rfl⟩ := hst
  cases op with
  | ingestClaim req now claimRef reply => exact h.ingest hσ hsup hclean hseen
  | assertValidity req now assertionRef =>
    cases hassert : req.assertion with
    | reopen =>
      simp only [Clean, hassert] at hclean
      exact hclean.elim
    | bound at_ granularity =>
      simp only [Clean, hassert] at hclean
      simp only [Engine.apply]
      rcases execute_bound_cases σ now assertionRef hassert
        with ⟨target, haccepted, hexec⟩ | ⟨hexec, _⟩
      · rw [hexec]
        exact h.bound (writeValidityAndLedger_appends σ _ _) hclean haccepted
      · rw [hexec]
        exact h
  | _ => exact hclean.elim

theorem cleanStore_of_cleanReachable (h : CleanReachable eng line σ) : CleanStore eng line σ := by
  refine Reach.invariant h (fun σ hσ => cleanStore_of_new eng line hσ) ?_
  intro σ op σ' hr hP hst
  exact hP.step hr.unrestrict hst.1.1 hst.1.2 hst.2

end Steps

section Recall

variable {eng : Engine} {line : SubjectLineRef} {σ : Store} {now t : Instant}

variable (h : CleanStore eng line σ) (hq : StampsBy σ now)

include h hq

theorem believedRows_of_clean :
    believedRows eng.config σ line.agentId line.subject line.predicate now =
      (lineClaims eng.config σ line.agentId line.subject line.predicate none).map
        (rowOf σ line.agentId none now) := by
  rw [believedRows, candidateRows, lineRows_of_stampsBy hq, deniedOf_of_stampsBy hq,
    List.filter_eq_self.mpr, lineRows]
  intro cs hcs
  obtain ⟨c, hc, rfl⟩ := mem_lineRows.mp hcs
  have hmem := (mem_lineClaims.mp hc).1
  have hcand := isCandidate_of_clean (q := now) (h.logs c hmem) fun a ha =>
    hq.assertions a (mem_assertionsOf.mp ha).1
  rwa [h.agent hmem] at hcand

theorem effectiveWindow_row {c : Claim} (hc : c ∈ σ.claims) :
    effectiveWindow (rowOf σ line.agentId none now c) = spanOf σ c := by
  have hwin := effectiveWindow_of_clean (q := now) (h.logs c hc) fun a ha =>
    hq.assertions a (mem_assertionsOf.mp ha).1
  rwa [h.agent hc] at hwin

omit hq in
theorem lineClaims_perm :
    (lineClaims eng.config σ line.agentId line.subject line.predicate none).Perm σ.claims := by
  have hall : (σ.claims.filter fun c => Persistence.onLine line.agentId line.subject
      line.predicate c && withinCutoff none c.transactionTime) = σ.claims :=
    List.filter_eq_self.mpr fun c hc => by simp [h.onLine c hc, withinCutoff]
  unfold lineClaims loadSubjectLine
  rw [hall]
  exact (inOrder_perm _ _).trans (inOrder_perm _ _)

omit hq in
theorem mem_lineClaims_iff {c : Claim} :
    c ∈ lineClaims eng.config σ line.agentId line.subject line.predicate none ↔ c ∈ σ.claims :=
  (lineClaims_perm h).mem_iff

theorem believed_succession :
    isTrustedSuccession
      ((believedRows eng.config σ line.agentId line.subject line.predicate now).map
        claimWithEffectiveWindow)
      eng.config.validTimeConfidenceThreshold = true := by
  rw [believedRows_of_clean h hq, isTrustedSuccession_iff, List.map_map, List.pairwise_map]
  constructor
  · intro w hw
    obtain ⟨c, hc, rfl⟩ := List.mem_map.mp hw
    exact h.trusted c ((mem_lineClaims_iff h).mp hc)
  · have hpair : (lineClaims eng.config σ line.agentId line.subject line.predicate none).Pairwise
        fun c d => (spanOf σ c).Apart (spanOf σ d) :=
      ((lineClaims_perm h).pairwise_iff fun hcd => hcd.symm).mpr h.apart
    refine hpair.imp_of_mem fun hc hd hcd => ?_
    simp only [Function.comp_apply, window_claimWithEffectiveWindow]
    rwa [effectiveWindow_row h hq ((mem_lineClaims_iff h).mp hc),
      effectiveWindow_row h hq ((mem_lineClaims_iff h).mp hd)]

theorem mem_believedAt_iff {cs : ClaimWithStatus} :
    cs ∈ believedAt eng.config σ line.agentId line.subject line.predicate now t ↔
      ∃ c ∈ σ.claims, (spanOf σ c).Mem t ∧ rowOf σ line.agentId none now c = cs := by
  rw [believedAt, List.mem_filter, believedRows_of_clean h hq, List.mem_map, decide_eq_true_iff]
  constructor
  · rintro ⟨⟨c, hc, rfl⟩, ht⟩
    have hmem := (mem_lineClaims_iff h).mp hc
    exact ⟨c, hmem, effectiveWindow_row h hq hmem ▸ ht, rfl⟩
  · rintro ⟨c, hc, ht, rfl⟩
    exact ⟨⟨c, (mem_lineClaims_iff h).mpr hc, rfl⟩, (effectiveWindow_row h hq hc).symm ▸ ht⟩

theorem believedAt_eq_singleton (hσ : Reachable eng σ) {c : Claim} (hc : c ∈ σ.claims)
    (ht : (spanOf σ c).Mem t) :
    believedAt eng.config σ line.agentId line.subject line.predicate now t =
      [rowOf σ line.agentId none now c] := by
  have hmem := (mem_believedAt_iff h hq (t := t)).mpr ⟨c, hc, ht, rfl⟩
  obtain ⟨hrow, hin⟩ := List.mem_filter.mp hmem
  have hsingle := filter_windows_eq_singleton
    (candidateRows_nodup hσ eng.config line.agentId line.subject line.predicate (some now) now)
    claimWithEffectiveWindow (fun _ => rfl) (believed_succession h hq) hrow
    ((window_claimWithEffectiveWindow _).symm ▸ of_decide_eq_true hin)
  simp only [window_claimWithEffectiveWindow] at hsingle
  exact hsingle

theorem believedAt_eq_nil (ht : ∀ c ∈ σ.claims, ¬ (spanOf σ c).Mem t) :
    believedAt eng.config σ line.agentId line.subject line.predicate now t = [] := by
  rw [List.eq_nil_iff_forall_not_mem]
  intro cs hcs
  obtain ⟨c, hc, hct, _⟩ := (mem_believedAt_iff h hq).mp hcs
  exact ht c hc hct

/-- A clean store answers every instant from its spans. -/
theorem recalledAt_of_clean (hσ : Reachable eng σ) : RecalledAt eng.config σ line now t := by
  have hfold := queryFold_of_succession (t := t) hσ (believed_succession h hq)
  have hrecall : ∃ ledgerEntries, recallAt eng.config σ line.agentId line.subject line.predicate
      now t = project (queryFold eng.config σ
        ⟨line.agentId, line.subject, line.predicate, none, some t⟩ now) ledgerEntries now eng.config
        (anyContested (queryFold eng.config σ
          ⟨line.agentId, line.subject, line.predicate, none, some t⟩ now).liveClaims) :=
    ⟨_, rfl⟩
  obtain ⟨ledgerEntries, hrecall⟩ := hrecall
  rw [hfold] at hrecall
  constructor
  · intro c hc ht
    have hsingle := believedAt_eq_singleton h hq hσ hc ht
    rw [hsingle] at hrecall
    have hlive : (⟨[rowOf σ line.agentId none now c], false, true, visibleRows eng.config σ
        line.agentId line.subject line.predicate now⟩ : FoldResult).liveClaims =
          [rowOf σ line.agentId none now c] := rfl
    have hproj := project_of_singleton ledgerEntries now eng.config
      (anyContested [rowOf σ line.agentId none now c]) hlive rfl
    have hcontested : anyContested [rowOf σ line.agentId none now c] = false := by
      have hlatest : latestOf σ line.agentId none c.claimRef ≠ some .contested := by
        rw [← h.agent hc]
        intro hl
        rcases ((h.logs c hc).latest hl).1 with hd | hd <;> cases hd
      simpa [anyContested] using hlatest
    have hstart : c.validTime.isUnknown = false := by
      obtain ⟨_, start, hstart⟩ := (claimIsTrusted_iff _ _).mp (h.trusted c hc)
      simp [ValidTime.isUnknown, hstart]
    rw [← hrecall, hcontested, rowOf_claim, hstart] at hproj
    exact ⟨hproj.1, by rw [hproj.2.1]; rfl, hproj.2.2⟩
  · intro ht
    rw [believedAt_eq_nil h hq ht] at hrecall
    dsimp only
    rw [hrecall]
    exact project_of_nil _ _ _ _ rfl

/-- The store refines its timeline: a recall at `t` answers the claim in force. -/
theorem recallAt_eq_inForce (hσ : Reachable eng σ) {T : Timeline ClaimRef Instant}
    (hT : Represents σ T) :
    (recallAt eng.config σ line.agentId line.subject line.predicate now t).primary.map
      (·.claimRef) = T.inForce t := by
  have hmembers : T.members = σ.claims.map fun c => (c.claimRef, spanOf σ c) := hT
  have hanswer := recalledAt_of_clean (t := t) h hq hσ
  cases hf : T.inForce t with
  | none =>
    rw [Timeline.inForce_eq_none_iff, hmembers] at hf
    rw [(hanswer.outside fun c hc => hf _ (List.mem_map_of_mem hc)).2.1]
    rfl
  | some r =>
    obtain ⟨s, hs, hst⟩ := (T.inForce_eq_some_iff t r).mp hf
    rw [hmembers] at hs
    obtain ⟨c, hc, heq⟩ := List.mem_map.mp hs
    cases heq
    exact (hanswer.inside c hc hst).2.1

end Recall

section Main

variable {eng : Engine} {line : SubjectLineRef} {σ : Store}

/-- In every clean run whose writes have seen the bounds of the spans they run into,
    the spans stay apart and every instant is answered by the claim in force. -/
theorem clean_succession_recalled (h : CleanReachable eng line σ) {now : Instant}
    (hq : StampsBy σ now) (t : Instant) :
    (σ.claims.Pairwise fun c d => (spanOf σ c).Apart (spanOf σ d)) ∧
      RecalledAt eng.config σ line now t :=
  ⟨(cleanStore_of_cleanReachable h).apart,
    recalledAt_of_clean (cleanStore_of_cleanReachable h) hq h.unrestrict⟩

def gapFilled : List Op :=
  [.ingestClaim (remember "Paris" (some (dated 1 none))) 10 ⟨1⟩ (.ok 0),
    .assertValidity (assertOn 1 (.bound 15 none)) 20 50,
    .ingestClaim (remember "Berlin" (some (dated 25 none))) 30 ⟨2⟩ (.ok 0),
    .ingestClaim (remember "Rome" (some (dated 15 (some 20)))) 40 ⟨3⟩ (.ok 0)]

def userLocation : SubjectLineRef := ⟨agent, "user", "location"⟩

theorem gap_filled_recalled :
    ((run (defaultEngine false) Store.sqlite gapFilled).claims.Pairwise fun c d =>
        (spanOf (run (defaultEngine false) Store.sqlite gapFilled) c).Apart
          (spanOf (run (defaultEngine false) Store.sqlite gapFilled) d)) ∧
      RecalledAt EngineConfig.default (run (defaultEngine false) Store.sqlite gapFilled)
        userLocation 50 17 :=
  clean_succession_recalled
    (run_reach_under (by decide) : CleanReachable (defaultEngine false) userLocation _)
    ⟨by decide, by decide, by decide⟩ 17

/-- A write stamped before a bound and executed after it. -/
def overtaken : List Op :=
  [.ingestClaim (remember "Paris" (some (dated 1 none))) 10 ⟨1⟩ (.ok 0),
    .assertValidity (assertOn 1 (.bound 15 none)) 20 50,
    .ingestClaim (remember "Berlin" (some (dated 5 none))) 16 ⟨2⟩ (.ok 0)]

/-- The write neither sees the claim nor its bound, so the spans overlap and Berlin
    is recalled before its start. -/
theorem overtaken_write_overlaps :
    let σ := run (defaultEngine false) Store.sqlite overtaken
    Reach Store.New
        (Restrict (Step (defaultEngine false)) (Clean (defaultEngine false) userLocation)) σ ∧
      StampsBy σ 30 ∧
      ¬ (σ.claims.Pairwise fun c d => (spanOf σ c).Apart (spanOf σ d)) ∧
      ((recallAt EngineConfig.default σ agent "user" "location" 30 3).primary.map
        (·.claimRef)) = some ⟨2⟩ ∧
      ¬ RecalledAt EngineConfig.default σ userLocation 30 3 := by
  refine ⟨run_reach_under (by decide), ⟨by decide, by decide, by decide⟩, by decide, by decide,
    fun h => ?_⟩
  have hin := h.inside (stamp (remember "Paris" (some (dated 1 none))) ⟨1⟩ 10) (by decide)
    (by decide)
  revert hin
  decide

end Main

end Mempill.CleanSuccession
