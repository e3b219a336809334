import Mempill.Answers
import Mempill.ReconcilePass
import Mempill.Verdicts

set_option autoImplicit false

/-!
# Denied claims

What keeps a challenger that an oracle denied out of sight until it is reopened.
-/
namespace Mempill.DeniedClaims
open Mempill.Types Mempill.Persistence Mempill.TruthEngine Mempill.Ledger Mempill.Gate Mempill.Rows
open Mempill.IngestClaim Mempill.AssertValidity Mempill.SubmitAdjudication Mempill.Reconcile
open Mempill.QueryMemory Mempill.Engine Mempill.Steps Mempill.Invariants Mempill.ClaimLog
open Mempill.Answers Mempill.ReconcilePass Mempill.Verdicts Transition StampedLog

section Log

def denying (e : LedgerEntry) : Bool :=
  e.disposition == .superseded && verdictField e == some "deny"

/-- A denial that no reinstatement follows. -/
def unlifted (es : List LedgerEntry) : Bool := (afterLastReinstated es).any denying

/-- A denial that is not lifted is the one latest entry of its claim, whatever the order
    of ties. -/
def Standing (es : List LedgerEntry) : Prop :=
  unlifted es = true →
    ∃ e ∈ es, denying e = true ∧ ∀ x ∈ es, x = e ∨ x.recordedAt < e.recordedAt

/-- What one step appends to the entries of a claim. -/
inductive DenialEffect (es : List LedgerEntry) : List LedgerEntry → Prop where
  | spared {news : List LedgerEntry}
      (hnews : ∀ e ∈ news, e.disposition ≠ .reinstated ∧ denying e = false)
      (hstale : unlifted es = true → ∀ e ∈ news, ∃ x ∈ es, e.recordedAt < x.recordedAt) :
      DenialEffect es news
  | reopened {e : LedgerEntry} (he : e.disposition = .reinstated) : DenialEffect es [e]
  | denied {e : LedgerEntry} (he : denying e = true)
      (hlt : ∀ x ∈ es, x.recordedAt < e.recordedAt) : DenialEffect es [e]

variable {es news : List LedgerEntry}

theorem superseded_of_denying {e : LedgerEntry} (h : denying e = true) :
    e.disposition = .superseded ∧ verdictField e = some "deny" := by
  simpa [denying] using h

theorem not_denying {e : LedgerEntry} (h : e.disposition ≠ .superseded) : denying e = false := by
  simp [denying, h]

theorem afterLastReinstated_append (h : ∀ e ∈ news, e.disposition ≠ .reinstated) :
    afterLastReinstated (es ++ news) = afterLastReinstated es ++ news := by
  unfold afterLastReinstated
  rw [List.reverse_append, List.takeWhile_append_of_pos, List.reverse_append, List.reverse_reverse]
  intro e he
  simpa using h e (List.mem_reverse.mp he)

theorem unlifted_append (h : ∀ e ∈ news, e.disposition ≠ .reinstated) :
    unlifted (es ++ news) = (unlifted es || news.any denying) := by
  rw [unlifted, afterLastReinstated_append h, List.any_append, unlifted]

theorem any_denying_of_spared (h : ∀ e ∈ news, e.disposition ≠ .reinstated ∧ denying e = false) :
    news.any denying = false := by
  rw [List.any_eq_false]
  intro e he
  simp [(h e he).2]

theorem unlifted_reopened {e : LedgerEntry} (he : e.disposition = .reinstated) :
    unlifted (es ++ [e]) = false := by
  simp [unlifted, afterLastReinstated, he]

theorem Standing.step (h : Standing es) (heff : DenialEffect es news) : Standing (es ++ news) := by
  intro hdenied
  cases heff with
  | spared hnews hstale =>
    rw [unlifted_append fun e he => (hnews e he).1, any_denying_of_spared hnews,
      Bool.or_false] at hdenied
    obtain ⟨e, hmem, hdeny, hmax⟩ := h hdenied
    refine ⟨e, List.mem_append_left _ hmem, hdeny, fun x hx => ?_⟩
    rcases List.mem_append.mp hx with hx | hx
    · exact hmax x hx
    · obtain ⟨y, hy, hlt⟩ := hstale hdenied x hx
      rcases hmax y hy with rfl | hle
      · exact .inr hlt
      · exact .inr (hlt.trans hle)
  | reopened he =>
    rw [unlifted_reopened he] at hdenied
    cases hdenied
  | @denied e he hlt =>
    refine ⟨e, List.mem_append_right _ (List.mem_singleton_self e), he, fun x hx => ?_⟩
    rcases List.mem_append.mp hx with hx | hx
    · exact .inr (hlt x hx)
    · exact .inl (List.mem_singleton.mp hx)

/-- Only a reinstatement lifts a denial. -/
theorem unlifted_kept (hnews : ∀ e ∈ news, e.disposition ≠ .reinstated) (h : unlifted es = true) :
    unlifted (es ++ news) = true := by
  rw [unlifted_append hnews, h, Bool.true_or]

end Log

section Condition

def Denied (σ : Store) (agentId : AgentId) (r : ClaimRef) : Prop :=
  unlifted (entriesOf σ agentId none r) = true

instance (σ : Store) (agentId : AgentId) (r : ClaimRef) : Decidable (Denied σ agentId r) :=
  inferInstanceAs (Decidable (_ = true))

/-- A verdict that the guards let through is stamped after the entries of a challenger
    it denies, which does not depend on itself, and it writes no entry for another
    denied claim but one stamped before that claim's latest. -/
def Spares (σ : Store) (row : PendingAdjudicationRow) (verdict : AdjudicationVerdict)
    (now : Instant) : Prop :=
  LetsThrough σ row now →
    (verdict = .deny →
      (∀ e ∈ entriesOf σ row.agentId none row.challengerClaimRef, e.recordedAt < now) ∧
        row.challengerClaimRef ∉ alsoWritten σ row .deny) ∧
    ∀ r ∈ alsoWritten σ row verdict, Denied σ row.agentId r →
      ∃ e ∈ entriesOf σ row.agentId none r, now < e.recordedAt

instance (σ : Store) (row : PendingAdjudicationRow) (verdict : AdjudicationVerdict)
    (now : Instant) : Decidable (Spares σ row verdict now) :=
  inferInstanceAs (Decidable (_ → _))

def SparesDenied (σ : Store) : Op → Prop
  | .submitAdjudication handleId response now _ =>
    match getPending σ handleId with
    | none => True
    | some row => Spares σ row response.verdict now
  | _ => True

instance (σ : Store) : (op : Op) → Decidable (SparesDenied σ op)
  | .submitAdjudication handleId response now _ =>
    match h : getPending σ handleId with
    | none => .isTrue (by simp [SparesDenied, h])
    | some row => decidable_of_iff (Spares σ row response.verdict now) (by simp [SparesDenied, h])
  | .ingestClaim _ _ _ _ => .isTrue trivial
  | .assertValidity _ _ _ => .isTrue trivial
  | .reconcile _ _ => .isTrue trivial
  | .sweepExpired _ _ => .isTrue trivial
  | .sweepOrphan _ _ => .isTrue trivial
  | .appendEdge _ => .isTrue trivial

end Condition

section Step

variable {eng : Engine} {σ : Store} {op : Op} {w : Written} {agentId : AgentId} {r : ClaimRef}

theorem latestOf_of_denied (h : Standing (entriesOf σ agentId none r))
    (hdenied : Denied σ agentId r) : latestOf σ agentId none r = some .superseded := by
  obtain ⟨e, hmem, hdeny, hmax⟩ := h hdenied
  rw [latestOf, σ.ties.first_unique _ hmem hmax, Option.map_some, (superseded_of_denying hdeny).1]

theorem currentDisposition_of_denied (h : Standing (entriesOf σ agentId none r))
    (hdenied : Denied σ agentId r) : currentDisposition σ agentId r = some .superseded := by
  obtain ⟨e, hmem, hdeny, hmax⟩ := h hdenied
  rw [currentDisposition_eq, σ.ties.last_unique _ hmem hmax, Option.map_some,
    (superseded_of_denying hdeny).1]

theorem not_denied_of_queued (h : Standing (entriesOf σ agentId none r))
    (hqueued : currentDisposition σ agentId r = some .queuedForAdjudication) :
    ¬ Denied σ agentId r := by
  intro hdenied
  rw [currentDisposition_of_denied h hdenied] at hqueued
  cases hqueued

/-- The ledger scan finds every standing denial. -/
theorem deniedOf_of_denied (h : Standing (entriesOf σ agentId none r))
    (hdenied : Denied σ agentId r) : deniedOf σ agentId none r = true := by
  obtain ⟨e, hmem, hdeny, hmax⟩ := h hdenied
  obtain ⟨hsup, hv⟩ := superseded_of_denying hdeny
  have hget : (inOrder LedgerEntry.recordedAt
      (σ.ties.arrange (entriesOf σ agentId none r))).getLast? = some e :=
    (σ.ties.getLast?_inOrder _ _).trans (σ.ties.last_unique _ hmem hmax)
  simp [deniedOf, deniedByEntries, hget, hsup, hv]

theorem effect_of_undenied (hnot : ¬ Denied σ agentId r) {news : List LedgerEntry}
    (hnews : ∀ e ∈ news, quiet e.disposition = true) :
    DenialEffect (entriesOf σ agentId none r) news :=
  .spared (fun e he =>
      have hquiet := not_superseded_of_quiet (hnews e he)
      ⟨hquiet.2, not_denying hquiet.1⟩)
    fun h => absurd h hnot

theorem effect_of_nothing (hw : newEntries w agentId r = []) :
    DenialEffect (entriesOf σ agentId none r) (newEntries w agentId r) :=
  .spared (by simp [hw]) (by simp [hw])

/-- A single quiet entry is written for one claim, and every other claim keeps its log. -/
theorem effect_of_single {e : LedgerEntry} (hw : w.ledger = [e])
    (hquiet : quiet e.disposition = true)
    (hnot : e.agentId = agentId → e.claimRef = r → ¬ Denied σ agentId r) :
    DenialEffect (entriesOf σ agentId none r) (newEntries w agentId r) := by
  by_cases ht : e.agentId = agentId ∧ e.claimRef = r
  · refine effect_of_undenied (hnot ht.1 ht.2) fun x hx => ?_
    rw [mem_newEntries, hw, List.mem_singleton] at hx
    exact hx.1 ▸ hquiet
  · exact effect_of_nothing (by rw [newEntries_single hw, if_neg ht])

theorem effect_of_resolved {response : AdjudicationResponse} {now : Instant}
    {assertionRef : Uuid} {row : PendingAdjudicationRow} {challenger : Claim}
    (hstanding : ∀ agentId r, Standing (entriesOf σ agentId none r))
    (hlets : LetsThrough σ row now) (hspares : Spares σ row response.verdict now) :
    let w := verdictWritten eng.config σ row challenger response now assertionRef
    DenialEffect (entriesOf σ agentId none r) (newEntries w agentId r) := by
  dsimp only
  obtain ⟨hdeny, hother⟩ := hspares hlets
  have hfree := not_denied_of_queued (hstanding _ _) hlets.2
  by_cases ht : response.verdict = .deny ∧ row.agentId = agentId ∧ row.challengerClaimRef = r
  · obtain ⟨hv, rfl, rfl⟩ := ht
    obtain ⟨hlt, hself⟩ := hdeny hv
    rw [newEntries_denied hv hself]
    exact .denied rfl hlt
  · refine .spared (fun e he => ?_) fun hdenied e he => ?_
    · obtain ⟨hmem, hagent, href⟩ := mem_newEntries.mp he
      have hentry := verdictEntry_of_mem hmem
      refine ⟨?_, Bool.eq_false_iff.mpr fun hd => ?_⟩
      · rcases hentry.disposition with h | h | h | h <;> rw [h] <;> decide
      · obtain ⟨hverdict, _, hch⟩ := hentry.denying (superseded_of_denying hd).2
        exact ht ⟨hverdict, hentry.agentId ▸ hagent, hch ▸ href⟩
    · obtain ⟨hmem, hagent, href⟩ := mem_newEntries.mp he
      have hentry := verdictEntry_of_mem hmem
      have hrow : row.agentId = agentId := hentry.agentId ▸ hagent
      subst hrow href
      rcases hentry.claimRef with hch | hin
      · exact absurd (hch ▸ hdenied) hfree
      · obtain ⟨x, hx, hlt⟩ := hother _ hin hdenied
        exact ⟨x, hx, hentry.recordedAt ▸ hlt⟩

theorem not_denied_of_free {target : ClaimRef} (h : Standing (entriesOf σ agentId none target))
    (hfree : underAdjudication σ agentId target = false) : ¬ Denied σ agentId target := by
  intro hdenied
  have hscan : buildDeniedViaAdjudicationSet (loadLedgerForClaims σ agentId [target] none) target =
      true :=
    (buildDeniedViaAdjudicationSet_load (List.mem_singleton_self target)).trans
      (deniedOf_of_denied h hdenied)
  simp [underAdjudication, hscan] at hfree

theorem effect_of_reconciled (hσ : Reachable eng σ)
    (hstanding : ∀ agentId r, Standing (entriesOf σ agentId none r)) {req : ReconcileRequest}
    {now : Instant} :
    let w : Written := { ledger := (decisions eng σ req now).map (decisionEntry req.agentId now) }
    DenialEffect (entriesOf σ agentId none r) (newEntries w agentId r) := by
  intro w
  have hdecided : ∀ e ∈ newEntries w agentId r, quiet e.disposition = true ∧
      ¬ Denied σ agentId r := by
    intro e he
    obtain ⟨hmem, hagent, href⟩ := mem_newEntries.mp he
    obtain ⟨d, hd, rfl⟩ := List.mem_map.mp hmem
    refine ⟨quiet_of_mem_decisions hd, fun hdenied => ?_⟩
    subst hagent href
    cases latestOf_of_decision hσ hd (latestOf_of_denied (hstanding _ _) hdenied)
  by_cases hdenied : Denied σ agentId r
  · refine effect_of_nothing (List.eq_nil_iff_forall_not_mem.mpr fun e he => ?_)
    exact (hdecided e he).2 hdenied
  · exact effect_of_undenied hdenied fun e he => (hdecided e he).1

theorem effect_of_step (hσ : Reachable eng σ)
    (hstanding : ∀ agentId r, Standing (entriesOf σ agentId none r)) (hsup : Supplied σ op)
    (h : Outcome eng σ op w) (hspares : SparesDenied σ op) (agentId : AgentId) (r : ClaimRef) :
    DenialEffect (entriesOf σ agentId none r) (newEntries w agentId r) := by
  cases h with
  | silent _ => exact effect_of_nothing rfl
  | edged => exact effect_of_nothing rfl
  | @ingested req now claimRef reply _ =>
    refine effect_of_single rfl (adjudicate_quiet _ _) fun _ href hdenied => ?_
    have hfresh : Fresh r.uuid σ := href ▸ hsup
    rw [Denied, entriesOf_of_fresh hfresh] at hdenied
    cases hdenied
  | @bounded req now assertionRef target at_ granularity _ haccepted =>
    by_cases ht : req.agentId = agentId ∧ req.target = r
    · obtain ⟨rfl, rfl⟩ := ht
      rw [newEntries_single rfl, if_pos ⟨rfl, rfl⟩]
      have hfree := not_denied_of_free (hstanding _ _) haccepted.free
      refine .spared (fun e he => ?_) fun hdenied => absurd hdenied hfree
      rw [List.mem_singleton.mp he]
      exact ⟨by simp [hostEntry], rfl⟩
    · exact effect_of_nothing (by rw [newEntries_single rfl]; exact if_neg ht)
  | @reopened req now assertionRef _ _ =>
    by_cases ht : req.agentId = agentId ∧ req.target = r
    · rw [newEntries_single rfl]
      exact (if_pos ht).symm ▸ .reopened rfl
    · exact effect_of_nothing (by rw [newEntries_single rfl]; exact if_neg ht)
  | resolved haccepted =>
    have hspared := hspares
    rw [SparesDenied, haccepted.pending] at hspared
    exact effect_of_resolved hstanding (letsThrough_of_accepted haccepted) hspared
  | lazilyExpired hrow hqueued =>
    exact effect_of_single rfl rfl fun hagent href => by
      subst hagent href
      exact not_denied_of_queued (hstanding _ _) hqueued
  | reconciled => exact effect_of_reconciled hσ hstanding
  | sweptRow hqueued =>
    exact effect_of_single rfl rfl fun hagent href => by
      subst hagent href
      exact not_denied_of_queued (hstanding _ _) hqueued
  | sweptOrphan hqueued =>
    exact effect_of_single rfl rfl fun hagent href => by
      subst hagent href
      exact not_denied_of_queued (hstanding _ _) hqueued

end Step

section Runs

variable {eng : Engine} {σ σ' : Store} {op : Op} {agentId : AgentId} {r : ClaimRef}

/-- Reached by steps that spare the denied claims. -/
abbrev SparingReachable (eng : Engine) : Store → Prop :=
  Reach Store.New (Restrict (Step eng) SparesDenied)

theorem standing_of_sparing (h : SparingReachable eng σ) :
    ∀ agentId r, Standing (entriesOf σ agentId none r) := by
  refine Reach.invariant (P := fun σ => ∀ agentId r, Standing (entriesOf σ agentId none r)) h
    (fun σ hσ agentId r hdenied => ?_) fun σ op σ' hr hP hst agentId r => ?_
  · obtain ⟨ties, rfl⟩ := hσ
    cases hdenied
  · obtain ⟨hspares, hsup, rfl⟩ := hst
    obtain ⟨w, ho, happ⟩ := apply_outcome eng σ op
    rw [entriesOf_newEntries happ]
    exact (hP agentId r).step (effect_of_step hr.unrestrict hP hsup ho hspares agentId r)

/-- The host reopens the claim, and the reopen is not a no-op. -/
def Reopens (agentId : AgentId) (r : ClaimRef) (σ : Store) : Op → Prop
  | .assertValidity req now _ => req.agentId = agentId ∧ req.target = r ∧
      req.assertion = .reopen ∧ ReopenAccepted σ req now
  | _ => False

theorem reopens_of_reinstated {w : Written} (h : Outcome eng σ op w) {e : LedgerEntry}
    (he : e ∈ newEntries w agentId r) (hre : e.disposition = .reinstated) :
    Reopens agentId r σ op := by
  obtain ⟨hmem, hagent, href⟩ := mem_newEntries.mp he
  have hloud : ∀ {e' : LedgerEntry}, quiet e'.disposition = true → e ≠ e' := by
    rintro _ hquiet rfl
    exact (not_superseded_of_quiet hquiet).2 hre
  cases h with
  | silent _ => cases hmem
  | edged => cases hmem
  | ingested _ => exact absurd (List.mem_singleton.mp hmem) (hloud (adjudicate_quiet _ _))
  | bounded _ _ =>
    rw [List.mem_singleton.mp hmem] at hre
    cases hre
  | reopened hassert haccepted =>
    rw [List.mem_singleton.mp hmem] at hagent href
    exact ⟨hagent, href, hassert, haccepted⟩
  | resolved _ =>
    rcases (verdictEntry_of_mem hmem).disposition with hd | hd | hd | hd <;> rw [hd] at hre <;>
      cases hre
  | reconciled =>
    obtain ⟨d, hd, rfl⟩ := List.mem_map.mp hmem
    exact absurd hre (not_superseded_of_quiet (quiet_of_mem_decisions hd)).2
  | lazilyExpired _ _ => exact absurd (List.mem_singleton.mp hmem) (hloud rfl)
  | sweptRow _ => exact absurd (List.mem_singleton.mp hmem) (hloud rfl)
  | sweptOrphan _ => exact absurd (List.mem_singleton.mp hmem) (hloud rfl)

/-- A denied claim stays denied until it is reopened. -/
theorem denied_of_step (hdenied : Denied σ agentId r) (hst : Step eng σ op σ')
    (hreopen : ¬ Reopens agentId r σ op) : Denied σ' agentId r := by
  obtain ⟨_, rfl⟩ := hst
  obtain ⟨w, ho, happ⟩ := apply_outcome eng σ op
  rw [Denied, entriesOf_newEntries happ]
  exact unlifted_kept (fun e he hre => hreopen (reopens_of_reinstated ho he hre)) hdenied

theorem denied_of_run {ops : List Op} (hdenied : Denied σ agentId r)
    (hrun : Run (Restrict (Step eng) fun σ op => SparesDenied σ op ∧ ¬ Reopens agentId r σ op) σ
      ops σ') : Denied σ' agentId r :=
  hrun.preserves (P := fun σ => Denied σ agentId r) hdenied fun _ _ _ hP hst =>
    denied_of_step hP hst.2 hst.1.2

theorem sparing_of_run {ops : List Op} {C : Store → Op → Prop} (hσ : SparingReachable eng σ)
    (hrun : Run (Restrict (Step eng) fun σ op => SparesDenied σ op ∧ C σ op) σ ops σ') :
    SparingReachable eng σ' :=
  hrun.preserves (P := SparingReachable eng) hσ fun _ _ _ hr hst => hr.step ⟨hst.1.1, hst.2⟩

variable (eng) in
/-- An applied denial denies its challenger. -/
theorem denied_of_submit {handleId : Uuid}
    {response : AdjudicationResponse} {now : Instant} {assertionRef : Uuid}
    {row : PendingAdjudicationRow} {outcome : AdjudicationOutcome}
    (hspares : SparesDenied σ (.submitAdjudication handleId response now assertionRef))
    (hrow : getPending σ handleId = some row) (hverdict : response.verdict = .deny)
    (hok : (SubmitAdjudication.execute eng.config σ handleId response now assertionRef).1 =
      .ok outcome) :
    outcome.claimRef = row.challengerClaimRef ∧
      Denied (SubmitAdjudication.execute eng.config σ handleId response now assertionRef).2
        row.agentId row.challengerClaimRef := by
  rcases submit_cases eng.config σ handleId response now assertionRef with
    ⟨row', challenger, haccepted, hres, happ⟩ | ⟨⟨e, herr⟩, _⟩
  · have hsame : row' = row := by
      have := haccepted.pending
      rw [hrow] at this
      exact (Option.some.inj this).symm
    subst hsame
    rw [SparesDenied, hrow] at hspares
    have hself := ((hspares (letsThrough_of_accepted haccepted)).1 hverdict).2
    rw [hres] at hok
    refine ⟨(congrArg AdjudicationOutcome.claimRef (Except.ok.inj hok)).symm, ?_⟩
    rw [Denied, entriesOf_newEntries happ, newEntries_denied hverdict hself,
      unlifted_append (by simp [supersededEntry])]
    exact Bool.or_eq_true_iff.mpr (.inr rfl)
  · rw [herr] at hok
    cases hok

end Runs

section Sight

variable {eng : Engine} {σ : Store} {agentId : AgentId} {r : ClaimRef}

def offered (answer : BeliefProjection) : List ClaimRef :=
  (answer.primary.toList ++ answer.alternatives).map (·.claimRef)

/-- The claim is not live at any instant, in no answer that reads its whole ledger, and
    in neither of the candidate sets that the writes are classified against. -/
structure OutOfSight (eng : Engine) (σ : Store) (agentId : AgentId) (r : ClaimRef) : Prop where
  live : ∀ claim, claim.claimRef = r → ∀ asOf, (rowOf σ agentId none asOf claim).isLive = false
  answers : ∀ (req : QueryMemoryRequest) (now : Instant), req.agentId = agentId →
    (∀ e ∈ entriesOf σ agentId none r, e.recordedAt ≤ req.asOfTxTime.getD now) →
      r ∉ offered (QueryMemory.execute eng.config σ req now)
  ingest : ∀ subject predicate now,
    r ∉ (conflictCandidates eng.config σ agentId subject predicate now).map (·.claimRef)
  reconcile : ∀ line now, r ∉ (passCandidates eng σ agentId now line).map (·.claimRef)

theorem mem_of_offered {fold : FoldResult} {ledgerEntries : List LedgerEntry} {now : Instant}
    {config : EngineConfig} {contested : Bool}
    (h : r ∈ offered (project fold ledgerEntries now config contested)) :
    ∃ cs ∈ fold.liveClaims, cs.claim.claimRef = r := by
  have hbeliefs : ∀ b ∈ (project fold ledgerEntries now config contested).primary.toList ++
      (project fold ledgerEntries now config contested).alternatives,
      b ∈ fold.liveClaims.map (liveBelief now config) := by
    intro b hb
    match hl : fold.liveClaims with
    | [] => simp [project, hl] at hb
    | [cs] => cases hc : fold.hasConflict <;> simpa [project, hl, hc] using hb
    | x :: y :: rest => simpa [project, hl] using hb
  obtain ⟨b, hb, rfl⟩ := List.mem_map.mp h
  obtain ⟨cs, hcs, rfl⟩ := List.mem_map.mp (hbeliefs b hb)
  exact ⟨cs, hcs, rfl⟩

theorem entriesOf_of_le {t : Instant} (h : ∀ e ∈ entriesOf σ agentId none r, e.recordedAt ≤ t) :
    entriesOf σ agentId (some t) r = entriesOf σ agentId none r := by
  refine List.filter_congr fun e he => ?_
  by_cases hp : (e.agentId == agentId && e.claimRef == r) = true
  · have hle := h e (List.mem_filter.mpr ⟨he, by rw [hp]; rfl⟩)
    simp [withinCutoff, hle]
  · simp only [Bool.not_eq_true] at hp
    rw [hp, Bool.false_and, Bool.false_and]

/-- A recall offers candidate rows only. -/
theorem isCandidate_of_selected {config : EngineConfig} {req : QueryMemoryRequest}
    {now : Instant} (hσ : Reachable eng σ) {cs : ClaimWithStatus}
    (h : cs ∈ (queryFold config σ req now).liveClaims) :
    cs ∈ requestCandidates config σ req now := by
  have hrows := requestRows_nodup hσ config req now
  have hlive : ∀ t, cs ∈ (foldStatuses (requestRows config σ req now) t config).liveClaims →
      cs ∈ requestCandidates config σ req now := by
    intro t ht
    obtain ⟨hmem, hlive⟩ := foldStatuses_subset hrows t ht
    exact List.mem_filter.mpr ⟨hmem, isCandidate_of_live hmem hlive _⟩
  cases hv : req.validAt with
  | none =>
    rw [queryFold_of_none config σ req hv now] at h
    exact hlive _ h
  | some t =>
    cases hs : candidatesSucceed config σ req now with
    | true =>
      rw [(queryFold_of_candidates hσ hv hs).1] at h
      exact List.mem_of_mem_filter h
    | false =>
      rw [queryFold_of_rows hv hs] at h
      exact hlive t h

variable {cutoff : Option Instant}

theorem not_candidate_of_denied (hlatest : latestOf σ agentId cutoff r = some .superseded)
    (hdenied : deniedOf σ agentId cutoff r = true) {config : EngineConfig}
    {subject predicate : String} {asOf : Instant} :
    ∀ cs ∈ candidateRows config σ agentId subject predicate cutoff asOf, cs.claim.claimRef ≠ r := by
  rintro cs hcs rfl
  obtain ⟨hmem, hcandidate⟩ := List.mem_filter.mp hcs
  obtain ⟨c, _, rfl⟩ := mem_lineRows.mp hmem
  have hdead : (rowOf σ agentId cutoff asOf c).isLive = false := by
    rw [Bool.eq_false_iff]
    intro hlive
    cases ((rowOf_isLive σ agentId cutoff asOf c).mp hlive).2 _ hlatest
  rw [rowOf_claim] at hdenied
  simp [isCandidate, hdead, hdenied] at hcandidate

theorem outOfSight_of_denied (hσ : SparingReachable eng σ) (hdenied : Denied σ agentId r) :
    OutOfSight eng σ agentId r := by
  have hstanding := standing_of_sparing hσ agentId r
  have hlatest := latestOf_of_denied hstanding hdenied
  have hscan := deniedOf_of_denied hstanding hdenied
  refine ⟨?_, ?_,
    fun _ _ _ => not_mem_conflictCandidates (not_candidate_of_denied hlatest hscan),
    fun _ _ => not_mem_passCandidates (not_candidate_of_denied hlatest hscan)⟩
  · rintro claim rfl asOf
    rw [Bool.eq_false_iff]
    intro hlive
    cases ((rowOf_isLive σ agentId none asOf claim).mp hlive).2 _ hlatest
  · rintro req now rfl hle hr
    obtain ⟨ledgerEntries, hexec⟩ := execute_eq_project eng.config σ req now
    rw [hexec] at hr
    obtain ⟨cs, hcs, href⟩ := mem_of_offered hr
    have hentries := entriesOf_of_le hle
    refine not_candidate_of_denied ?_ ?_ cs (isCandidate_of_selected hσ.unrestrict hcs) href
    · rw [latestOf, hentries]
      exact hlatest
    · rw [deniedOf, hentries]
      exact hscan

end Sight

section Main

variable {eng : Engine} {σ τ : Store} {ops : List Op} {handleId : Uuid}

/-- Along a run that spares the denied claims, a challenger that an applied verdict
    denied is out of sight in every store up to its next reopen. -/
theorem denied_challenger_out_of_sight (hσ : SparingReachable eng σ)
    {response : AdjudicationResponse} {now : Instant} {assertionRef : Uuid}
    {row : PendingAdjudicationRow} {outcome : AdjudicationOutcome}
    (hfresh : Fresh assertionRef σ)
    (hspares : SparesDenied σ (.submitAdjudication handleId response now assertionRef))
    (hrow : getPending σ handleId = some row) (hverdict : response.verdict = .deny)
    (hok : (SubmitAdjudication.execute eng.config σ handleId response now assertionRef).1 =
      .ok outcome)
    (hrun : Run (Restrict (Step eng) fun σ op =>
        SparesDenied σ op ∧ ¬ Reopens row.agentId outcome.claimRef σ op)
      (SubmitAdjudication.execute eng.config σ handleId response now assertionRef).2 ops τ) :
    OutOfSight eng τ row.agentId outcome.claimRef := by
  obtain ⟨href, hdenied⟩ := denied_of_submit eng hspares hrow hverdict hok
  have hstart : SparingReachable eng
      (SubmitAdjudication.execute eng.config σ handleId response now assertionRef).2 :=
    hσ.step ⟨hspares, hfresh, rfl⟩
  rw [← href] at hdenied
  exact outOfSight_of_denied (sparing_of_run hstart hrun) (denied_of_run hdenied hrun)

/-- A fact about 5 on, challenged from 1 on. -/
def challenged : List Op :=
  [.ingestClaim (remember "Paris" (some (dated 5 none))) 10 ⟨1⟩ (.ok 0),
    .ingestClaim (remember "Berlin" (some (dated 1 none))) 20 ⟨2⟩ (.ok 101)]

def rome (stop : Instant) : Op :=
  .ingestClaim (remember "Rome" (some (dated 3 (some stop)))) 30 ⟨3⟩ (.ok 102)

def berlinRow : PendingAdjudicationRow :=
  (getPending (run (defaultEngine true) Store.sqlite challenged) 101).get (by decide)

theorem denied_berlin_out_of_sight :
    let σ := run (defaultEngine true) Store.sqlite challenged
    let τ := run (defaultEngine true) σ
      [verdictOn 101 .deny 25 50, rome 7, verdictOn 102 .affirm 40 51]
    OutOfSight (defaultEngine true) τ agent ⟨2⟩ := by
  intro σ τ
  have hreach : SparingReachable (defaultEngine true) σ := run_reach_under (by decide)
  have hspares : SparesDenied σ (verdictOn 101 .deny 25 50) := by decide
  have hrow : getPending σ 101 = some berlinRow := rfl
  have hok : (SubmitAdjudication.execute EngineConfig.default σ 101
      ⟨101, .deny, .external .externalFirstHand⟩ 25 50).1 = .ok ⟨101, .superseded, ⟨2⟩⟩ := rfl
  exact denied_challenger_out_of_sight hreach (by decide) hspares hrow rfl hok
    (.cons (i := rome 7) ⟨⟨by decide, id⟩, by decide, rfl⟩
      (.cons (i := verdictOn 102 .affirm 40 51) ⟨⟨by decide, id⟩, by decide, rfl⟩ (.nil _)))

/-- The second challenge names the denied challenger, and its verdict supersedes it
    anew. -/
theorem denied_berlin_resurfaces :
    let σ := run (defaultEngine true) Store.sqlite (challenged ++ [rome 5])
    let denied := SubmitAdjudication.execute EngineConfig.default σ 101
      ⟨101, .deny, .external .externalFirstHand⟩ 40 50
    let τ := apply (defaultEngine true) denied.2 (verdictOn 102 .affirm 50 51)
    Reachable (defaultEngine true) σ ∧ denied.1 = .ok ⟨101, .superseded, ⟨2⟩⟩ ∧
      Step (defaultEngine true) denied.2 (verdictOn 102 .affirm 50 51) τ ∧
      ¬ Reopens agent ⟨2⟩ denied.2 (verdictOn 102 .affirm 50 51) ∧
      (recallAt EngineConfig.default τ agent "user" "location" 60 2).primary.map
        (·.claimRef) = some ⟨2⟩ ∧
      ¬ OutOfSight (defaultEngine true) τ agent ⟨2⟩ := by
  refine ⟨run_reachable (by decide), rfl, ⟨by decide, rfl⟩, id, by decide, fun h => ?_⟩
  exact h.ingest "user" "location" 60 (by decide)

end Main

end Mempill.DeniedClaims
