import Mathlib.Data.Set.Finite.Lattice
import Mempill.AffirmSettles
import Mempill.SweepDrains

set_option autoImplicit false

/-!
# The two sources of liveness

When the latest disposition of a claim and the toggle walk over its assertions tell
the same of it, at every instant that no stored stamp comes after.
-/
namespace Mempill.LivenessAgreement
open Mempill.Types Mempill.Persistence Mempill.TruthEngine Mempill.Ledger Mempill.Rows
open Mempill.ActiveBound Mempill.IngestClaim Mempill.AssertValidity Mempill.SubmitAdjudication
open Mempill.Engine Mempill.Steps Mempill.Invariants Mempill.ClaimLog Mempill.ReconcilePass
open Mempill.Verdicts Mempill.SweepDrains Transition StampedLog

section Log

def Superseded (ties : TieOrder LedgerEntry) (es : List LedgerEntry) : Prop :=
  (ties.first LedgerEntry.recordedAt es).map (·.disposition) = some .superseded

instance (ties : TieOrder LedgerEntry) (es : List LedgerEntry) : Decidable (Superseded ties es) :=
  inferInstanceAs (Decidable (_ = _))

/-- One of the new entries becomes the latest of the log. -/
def Overtakes (ties : TieOrder LedgerEntry) (es news : List LedgerEntry) : Prop :=
  ties.Overtakes LedgerEntry.recordedAt es news

instance (ties : TieOrder LedgerEntry) (es news : List LedgerEntry) :
    Decidable (Overtakes ties es news) :=
  inferInstanceAs (Decidable (ties.Overtakes ..))

/-- One that neither ends nor restores the claim. -/
def FlagAhead (ties : TieOrder LedgerEntry) (es news : List LedgerEntry) : Prop :=
  ∃ x ∈ news, quiet x.disposition = true ∧
    ties.first LedgerEntry.recordedAt (es ++ news) = some x

instance (ties : TieOrder LedgerEntry) (es news : List LedgerEntry) :
    Decidable (FlagAhead ties es news) :=
  inferInstanceAs (Decidable (∃ x ∈ news, _))

/-- The assertion becomes the last effective one at `t`. -/
def Prevails (as : List ValidityAssertion) (a : ValidityAssertion) (t : Instant) : Prop :=
  statedInstant a ≤ t ∧ ∀ b ∈ as, statedInstant b ≤ t → assertionKey b ≤ assertionKey a

instance (as : List ValidityAssertion) (a : ValidityAssertion) (t : Instant) :
    Decidable (Prevails as a t) :=
  inferInstanceAs (Decidable (_ ∧ ∀ b ∈ as, _))

def Agree (ties : TieOrder LedgerEntry) (as : List ValidityAssertion) (es : List LedgerEntry)
    (t : Instant) : Prop :=
  Superseded ties es ↔ activeBoundAt as t ≠ none

/-- An assertion that is to change the state of its claim prevails exactly if an entry
    written with it becomes the latest. Where that entry is a flag, the claim is live for
    both sources already. -/
def SettlesAt (ties : TieOrder LedgerEntry) (as : List ValidityAssertion)
    (es news : List LedgerEntry) (a : ValidityAssertion) (t : Instant) : Prop :=
  if FlagAhead ties es news then ¬ Superseded ties es ∧ ¬ Prevails as a t
  else (Superseded ties es ↔ toBoundState a ≠ none) ∨
    (Overtakes ties es news ↔ Prevails as a t)

variable {ties : TieOrder LedgerEntry} {as : List ValidityAssertion}
variable {es news : List LedgerEntry} {a : ValidityAssertion} {t : Instant}

theorem activeBoundAt_concat (has : ∀ b ∈ as, b.assertedAt ≤ t) (ha : a.assertedAt ≤ t) :
    activeBoundAt (as ++ [a]) t =
      if Prevails as a t then toBoundState a else activeBoundAt as t := by
  rw [activeBoundAt_eq, activeBoundAt_eq, lastEffective_concat]
  by_cases hreached : statedInstant a ≤ t
  case neg =>
    have hnot : ¬ Effective t a := fun h => hreached h.2
    have hlost : ¬ Prevails as a t := fun h => hreached h.1
    rw [if_neg hnot, if_neg hlost]
  have heffective : Effective t a := ⟨ha, hreached⟩
  rw [if_pos heffective]
  cases hl : lastEffective as t with
  | none =>
    have hwins : Prevails as a t := by
      refine ⟨hreached, fun b hb hstated => ?_⟩
      have hmem : b ∈ as.filter fun a => decide (Effective t a) :=
        List.mem_filter.mpr ⟨hb, decide_eq_true ⟨has b hb, hstated⟩⟩
      rcases lastMax_spec assertionKey (as.filter fun a => decide (Effective t a)) with
        ⟨_, hnil⟩ | ⟨x, hx, _, _⟩
      · rw [hnil] at hmem
        cases hmem
      · rw [lastEffective, hx] at hl
        cases hl
    rw [if_pos hwins]
    rfl
  | some held =>
    obtain ⟨hheld, hheldEffective⟩ := mem_of_lastEffective hl
    have hiff : Prevails as a t ↔ assertionKey held ≤ assertionKey a := by
      refine ⟨fun h => h.2 held hheld hheldEffective.2, fun hle => ?_⟩
      refine ⟨hreached, fun b hb hstated => ?_⟩
      have hmem : b ∈ as.filter fun a => decide (Effective t a) :=
        List.mem_filter.mpr ⟨hb, decide_eq_true ⟨has b hb, hstated⟩⟩
      exact le_trans (le_of_lastMax assertionKey hl hmem) hle
    simp only [keepLast, hiff]
    split <;> rfl

theorem superseded_of_not_overtakes (h : ¬ Overtakes ties es news) :
    Superseded ties (es ++ news) ↔ Superseded ties es := by
  rw [Superseded, ties.first_append_of_not_overtakes _ h, Superseded]

theorem not_superseded_of_flagAhead (h : FlagAhead ties es news) :
    ¬ Superseded ties (es ++ news) := by
  obtain ⟨x, _, hquiet, hfirst⟩ := h
  rw [Superseded, hfirst, Option.map_some, Option.some_inj]
  exact (not_superseded_of_quiet hquiet).1

/-- The entry read of an assertion's own says what the assertion says. -/
theorem superseded_of_overtakes (h : Overtakes ties es news) (hflag : ¬ FlagAhead ties es news)
    (hsame : ∀ x ∈ news, quiet x.disposition = false →
      (x.disposition = .superseded ↔ toBoundState a ≠ none)) :
    Superseded ties (es ++ news) ↔ toBoundState a ≠ none := by
  obtain ⟨x, hx, hfirst⟩ := h
  rw [Superseded, hfirst, Option.map_some, Option.some_inj]
  exact hsame x hx (Bool.eq_false_iff.mpr fun hquiet => hflag ⟨x, hx, hquiet, hfirst⟩)

/-- Quiet entries break the agreement on a superseded claim only, and only as its latest
    ones. -/
theorem Agree.noted_iff (h : Agree ties as es t)
    (hquiet : ∀ e ∈ news, quiet e.disposition = true) :
    Agree ties as (es ++ news) t ↔ (Superseded ties es → ¬ Overtakes ties es news) := by
  unfold Agree at h ⊢
  rw [← h]
  by_cases hover : Overtakes ties es news
  · have hflag : FlagAhead ties es news := by
      obtain ⟨x, hx, hfirst⟩ := hover
      exact ⟨x, hx, hquiet x hx, hfirst⟩
    have hnot := not_superseded_of_flagAhead hflag
    tauto
  · rw [superseded_of_not_overtakes hover]
    tauto

/-- An assertion and the entries written with it. -/
theorem Agree.asserted_iff (h : Agree ties as es t) (has : ∀ b ∈ as, b.assertedAt ≤ t)
    (ha : a.assertedAt ≤ t)
    (hsame : ∀ x ∈ news, quiet x.disposition = false →
      (x.disposition = .superseded ↔ toBoundState a ≠ none))
    (hflags : FlagAhead ties es news → toBoundState a ≠ none) :
    Agree ties (as ++ [a]) (es ++ news) t ↔ SettlesAt ties as es news a t := by
  unfold Agree at h ⊢
  rw [activeBoundAt_concat has ha, SettlesAt]
  by_cases hflag : FlagAhead ties es news
  · have hbound := hflags hflag
    rw [if_pos hflag, iff_false_left (not_superseded_of_flagAhead hflag), h]
    by_cases hprevails : Prevails as a t
    · simp [hprevails, hbound]
    · simp [hprevails]
  rw [if_neg hflag, h]
  by_cases hover : Overtakes ties es news
  · rw [superseded_of_overtakes hover hflag hsame]
    by_cases hprevails : Prevails as a t
    · simp [hover, hprevails]
    · simp [hover, hprevails, iff_comm]
  · rw [superseded_of_not_overtakes hover, h]
    by_cases hprevails : Prevails as a t
    · simp [hover, hprevails]
    · simp [hover, hprevails]

end Log

section Stores

def StoreAgrees (σ : Store) : Prop :=
  ∀ t, StampsBy σ t → ∀ agentId r,
    Agree σ.ties (assertionsOf σ agentId r) (entriesOf σ agentId none r) t

/-- The assertion is told alike by both sources, at every instant that no stamp comes
    after. -/
def Settles (σ : Store) (a : ValidityAssertion) (news : List LedgerEntry) : Prop :=
  ∀ t, StampsBy σ t → a.assertedAt ≤ t →
    SettlesAt σ.ties (assertionsOf σ a.agentId a.targetClaim)
      (entriesOf σ a.agentId none a.targetClaim) news a t

/-- Entries that neither end nor restore their claim do not hide a supersession. -/
def Stays (σ : Store) (agentId : AgentId) (r : ClaimRef) (news : List LedgerEntry) : Prop :=
  Superseded σ.ties (entriesOf σ agentId none r) →
    ¬ Overtakes σ.ties (entriesOf σ agentId none r) news

instance (σ : Store) (agentId : AgentId) (r : ClaimRef) (news : List LedgerEntry) :
    Decidable (Stays σ agentId r news) :=
  inferInstanceAs (Decidable (_ → _))

variable {σ σ' : Store} {w : Written} {a : ValidityAssertion} {e : LedgerEntry}
variable {es news : List LedgerEntry} {t : Instant} {agentId : AgentId} {r : ClaimRef}

theorem exists_stampsBy (σ : Store) : ∃ t, StampsBy σ t := by
  obtain ⟨t, ht⟩ := (List.finite_toSet (σ.claims.map (·.transactionTime) ++
    (σ.assertions.map (·.assertedAt) ++ σ.ledger.map (·.recordedAt)))).bddAbove
  refine ⟨t, fun c hc => ht ?_, fun a ha => ht ?_, fun e he => ht ?_⟩
  · exact List.mem_append_left _ (List.mem_map_of_mem hc)
  · exact List.mem_append_right _ (List.mem_append_left _ (List.mem_map_of_mem ha))
  · exact List.mem_append_right _ (List.mem_append_right _ (List.mem_map_of_mem he))

theorem stampsBy_of_appends (happ : Appends σ σ' w) (h : StampsBy σ' t) : StampsBy σ t := by
  refine ⟨fun c hc => h.claims c ?_, fun a ha => h.assertions a ?_, fun e he => h.ledger e ?_⟩
  · rw [happ.claims]
    exact List.mem_append_left _ hc
  · rw [happ.assertions]
    exact List.mem_append_left _ ha
  · rw [happ.ledger]
    exact List.mem_append_left _ he

theorem assertedAt_le (h : StampsBy σ t) : ∀ a ∈ assertionsOf σ agentId r, a.assertedAt ≤ t :=
  fun a ha => h.assertions a (List.mem_of_mem_filter ha)

/-- A claim whose assertions a step does not extend. -/
theorem agree_noted_iff (happ : Appends σ σ' w) (h : StoreAgrees σ) (ht : StampsBy σ' t)
    (ha : newAssertions w agentId r = [])
    (he : ∀ e ∈ newEntries w agentId r, quiet e.disposition = true) :
    Agree σ'.ties (assertionsOf σ' agentId r) (entriesOf σ' agentId none r) t ↔
      Stays σ agentId r (newEntries w agentId r) := by
  have hagree := h t (stampsBy_of_appends happ ht) agentId r
  have hassertions : assertionsOf σ' agentId r = assertionsOf σ agentId r := by
    rw [assertionsOf_append happ, show List.filter _ w.assertions = [] from ha, List.append_nil]
  rw [happ.ties, hassertions, entriesOf_newEntries happ, hagree.noted_iff he]
  exact Iff.rfl

theorem stays_of_no_entry (h : newEntries w agentId r = []) :
    Stays σ agentId r (newEntries w agentId r) := by
  rw [h]
  exact fun _ => TieOrder.not_overtakes_nil _ _

theorem agrees_noted_iff (happ : Appends σ σ' w) (h : StoreAgrees σ) (ha : w.assertions = [])
    (he : ∀ e ∈ w.ledger, quiet e.disposition = true) :
    StoreAgrees σ' ↔
      ∀ e ∈ w.ledger, Stays σ e.agentId e.claimRef (newEntries w e.agentId e.claimRef) := by
  have hassertions : ∀ agentId r, newAssertions w agentId r = [] := by
    intro agentId r
    rw [newAssertions, ha, List.filter_nil]
  have hentries : ∀ agentId r, ∀ e ∈ newEntries w agentId r, quiet e.disposition = true :=
    fun agentId r e hmem => he e (mem_newEntries.mp hmem).1
  constructor
  · intro hagrees e hmem
    obtain ⟨t, ht⟩ := exists_stampsBy σ'
    exact (agree_noted_iff happ h ht (hassertions _ _) (hentries _ _)).mp (hagrees t ht _ _)
  · intro hstays t ht agentId r
    rw [agree_noted_iff happ h ht (hassertions _ _) (hentries _ _)]
    by_cases hnil : newEntries w agentId r = []
    · exact stays_of_no_entry hnil
    · obtain ⟨e, hmem⟩ := List.exists_mem_of_ne_nil _ hnil
      obtain ⟨hwritten, rfl, rfl⟩ := mem_newEntries.mp hmem
      exact hstays e hwritten

/-- What a step that asserts writes: the assertion, its entry, and for a bound quiet ones
    behind. -/
structure Asserts (w : Written) (a : ValidityAssertion) (e : LedgerEntry)
    (es : List LedgerEntry) : Prop where
  claims : w.claims = []
  assertions : w.assertions = [a]
  ledger : w.ledger = e :: es
  agentId : e.agentId = a.agentId
  claimRef : e.claimRef = a.targetClaim
  same : e.disposition = .superseded ↔ toBoundState a ≠ none
  loud : quiet e.disposition = false
  stamped : ∀ x ∈ e :: es, x.recordedAt = a.assertedAt
  quiet : ∀ x ∈ es, quiet x.disposition = true
  bounds : es ≠ [] → toBoundState a ≠ none

theorem stampsBy_of_asserts (happ : Appends σ σ' w) (hw : Asserts w a e es) :
    StampsBy σ' t ↔ StampsBy σ t ∧ a.assertedAt ≤ t := by
  refine ⟨fun h => ⟨stampsBy_of_appends happ h, h.assertions a ?_⟩, fun ⟨h, ha⟩ => ⟨?_, ?_, ?_⟩⟩
  · simp [happ.assertions, hw.assertions]
  · rw [happ.claims, hw.claims, List.append_nil]
    exact h.claims
  · intro b hb
    rw [happ.assertions, hw.assertions, List.mem_append, List.mem_singleton] at hb
    rcases hb with hb | rfl
    · exact h.assertions b hb
    · exact ha
  · intro x hx
    rw [happ.ledger, hw.ledger, List.mem_append] at hx
    rcases hx with hx | hx
    · exact h.ledger x hx
    · exact hw.stamped x hx ▸ ha

theorem agree_target_iff (happ : Appends σ σ' w) (h : StoreAgrees σ) (hw : Asserts w a e es)
    (ht : StampsBy σ' t) :
    Agree σ'.ties (assertionsOf σ' a.agentId a.targetClaim)
        (entriesOf σ' a.agentId none a.targetClaim) t ↔
      SettlesAt σ.ties (assertionsOf σ a.agentId a.targetClaim)
        (entriesOf σ a.agentId none a.targetClaim) (newEntries w a.agentId a.targetClaim) a t := by
  obtain ⟨hold, ha⟩ := (stampsBy_of_asserts happ hw).mp ht
  have hassertions : newAssertions w a.agentId a.targetClaim = [a] := by
    rw [newAssertions_single hw.assertions, if_pos ⟨rfl, rfl⟩]
  have hmem : ∀ {x}, x ∈ newEntries w a.agentId a.targetClaim → x = e ∨ x ∈ es := fun hx => by
    have hx := (mem_newEntries.mp hx).1
    rw [hw.ledger] at hx
    exact List.mem_cons.mp hx
  rw [assertionsOf_append happ, show List.filter _ w.assertions = [a] from hassertions,
    entriesOf_newEntries happ, happ.ties]
  refine (h t hold _ _).asserted_iff (assertedAt_le hold) ha (fun x hx hloud => ?_) ?_
  · rcases hmem hx with rfl | hx
    · exact hw.same
    · rw [hw.quiet x hx] at hloud
      cases hloud
  · rintro ⟨x, hx, hquiet, _⟩
    rcases hmem hx with rfl | hx
    · rw [hw.loud] at hquiet
      cases hquiet
    · exact hw.bounds (List.ne_nil_of_mem hx)

theorem agree_other_iff (happ : Appends σ σ' w) (h : StoreAgrees σ) (hw : Asserts w a e es)
    (ht : StampsBy σ' t) (hne : ¬ (r = a.targetClaim ∧ agentId = a.agentId)) :
    Agree σ'.ties (assertionsOf σ' agentId r) (entriesOf σ' agentId none r) t ↔
      Stays σ agentId r (newEntries w agentId r) := by
  have hassertions : newAssertions w agentId r = [] := by
    rw [newAssertions_single hw.assertions, if_neg fun h => hne ⟨h.2.symm, h.1.symm⟩]
  apply agree_noted_iff happ h ht hassertions
  intro x hx
  obtain ⟨hmem, rfl, rfl⟩ := mem_newEntries.mp hx
  rw [hw.ledger] at hmem
  rcases List.mem_cons.mp hmem with rfl | hmem
  · exact absurd ⟨hw.claimRef, hw.agentId⟩ hne
  · exact hw.quiet x hmem

theorem agrees_asserted_iff (happ : Appends σ σ' w) (h : StoreAgrees σ) (hw : Asserts w a e es) :
    StoreAgrees σ' ↔ Settles σ a (newEntries w a.agentId a.targetClaim) ∧ ∀ x ∈ es,
      x.agentId = a.agentId ∧ x.claimRef = a.targetClaim ∨
        Stays σ x.agentId x.claimRef (newEntries w x.agentId x.claimRef) := by
  constructor
  · intro hagrees
    refine ⟨fun t ht ha => ?_, fun x hx => ?_⟩
    · have hlater := (stampsBy_of_asserts happ hw).mpr ⟨ht, ha⟩
      exact (agree_target_iff happ h hw hlater).mp (hagrees t hlater _ _)
    · by_cases htarget : x.claimRef = a.targetClaim ∧ x.agentId = a.agentId
      · exact .inl htarget.symm
      · obtain ⟨t, ht⟩ := exists_stampsBy σ'
        exact .inr ((agree_other_iff happ h hw ht htarget).mp (hagrees t ht _ _))
  · rintro ⟨hsettles, hstays⟩ t ht agentId r
    by_cases htarget : r = a.targetClaim ∧ agentId = a.agentId
    · obtain ⟨rfl, rfl⟩ := htarget
      obtain ⟨hold, ha⟩ := (stampsBy_of_asserts happ hw).mp ht
      exact (agree_target_iff happ h hw ht).mpr (hsettles t hold ha)
    · refine (agree_other_iff happ h hw ht htarget).mpr ?_
      by_cases hnil : newEntries w agentId r = []
      · exact stays_of_no_entry hnil
      · obtain ⟨x, hx⟩ := List.exists_mem_of_ne_nil _ hnil
        obtain ⟨hmem, rfl, rfl⟩ := mem_newEntries.mp hx
        rw [hw.ledger] at hmem
        rcases List.mem_cons.mp hmem with rfl | hmem
        · exact absurd ⟨hw.claimRef, hw.agentId⟩ htarget
        · exact (hstays x hmem).resolve_left fun h => htarget h.symm

end Stores

section Condition

/-- The assertion of an applied verdict settles its claim, and the entries for the other
    claims that the verdict writes for leave every supersession the latest of its claim. -/
def VerdictConcurs (config : EngineConfig) (σ : Store) (row : PendingAdjudicationRow)
    (challenger : Claim) (response : AdjudicationResponse) (now : Instant) (assertionRef : Uuid) :
    Prop :=
  let w := verdictWritten config σ row challenger response now assertionRef
  (∀ a ∈ w.assertions, Settles σ a (newEntries w a.agentId a.targetClaim)) ∧
    ∀ r ∈ row.challengerClaimRef :: alsoWritten σ row response.verdict,
      boundTarget row response.verdict = some r ∨ Stays σ row.agentId r (newEntries w row.agentId r)

/-- The assertion that an operation adds settles its claim, and its entries for other
    claims, as those of a sweep or a lapsed verdict, hide no supersession. -/
def Concurs (eng : Engine) (σ : Store) : Op → Prop
  | .assertValidity req now assertionRef =>
    match req.assertion with
    | .bound at_ granularity => (∃ target, BoundAccepted σ req target at_ now) →
      Settles σ (hostAssertion req (.bound at_ granularity) now assertionRef)
        [hostEntry req .superseded (hostBoundRationale at_) now]
    | .reopen => ReopenAccepted σ req now →
      Settles σ (hostAssertion req (.reopen now) now assertionRef)
        [hostEntry req .reinstated (reopenRationale now) now]
  | .submitAdjudication handleId response now assertionRef =>
    (∀ row challenger, VerdictAccepted σ handleId now row challenger →
      VerdictConcurs eng.config σ row challenger response now assertionRef) ∧
    ∀ row expiresAt, getPending σ handleId = some row → row.expiresAt = some expiresAt →
      expiresAt ≤ now → Queued σ row.agentId row.challengerClaimRef →
        Stays σ row.agentId row.challengerClaimRef
          [expiredEntry row (lazyExpiryRationale row expiresAt) now]
  | .sweepExpired row now => Queued σ row.agentId row.challengerClaimRef →
    Stays σ row.agentId row.challengerClaimRef [expiredEntry row (expiryRationale row now) now]
  | .sweepOrphan orphan now => Queued σ orphan.agentId orphan.challengerClaimRef →
    Stays σ orphan.agentId orphan.challengerClaimRef [orphanEntry orphan now]
  | _ => True

variable {eng : Engine} {σ σ' : Store} {op : Op} {w : Written} {now : Instant}
variable {agentId : AgentId} {r : ClaimRef} {news : List LedgerEntry}

theorem stays_of_live
    (h : ∀ d, latestOf σ agentId none r = some d → isNonLiveDisposition d = false) :
    Stays σ agentId r news := fun hsup => absurd (h _ hsup) (by decide)

theorem asserts_host {req : AssertValidityRequest} {kind : AssertionKind} {assertionRef : Uuid}
    {d : Disposition} {rationale : Json} (hloud : quiet d = false)
    (hsame : d = .superseded ↔ ∃ at_ granularity, kind = .bound at_ granularity) :
    let a := hostAssertion req kind now assertionRef
    let e := hostEntry req d rationale now
    Asserts { assertions := [a], ledger := [e] } a e [] := by
  refine ⟨rfl, rfl, rfl, rfl, rfl, ?_, hloud, fun x hx => ?_, by simp, absurd rfl⟩
  · cases kind with
    | bound at_ granularity => simpa [hostEntry, toBoundState, hostAssertion] using hsame
    | reopen t => simpa [hostEntry, toBoundState, hostAssertion] using hsame
  · rw [List.mem_singleton.mp hx]
    rfl

/-- A superseding verdict asserts its bound, with quiet entries of its instant behind. -/
theorem asserts_superseding {target overturning : ClaimRef} {boundAt : Instant}
    {granularity : Option DateGranularity} {assertionRef : Uuid} {verdict : String}
    {es : List LedgerEntry} (hstamped : ∀ x ∈ es, x.recordedAt = now)
    (hquiet : ∀ x ∈ es, quiet x.disposition = true) :
    let a := oracleAssertion agentId target boundAt granularity now assertionRef
    let e := supersededEntry agentId target overturning boundAt now verdict
    Asserts { assertions := [a], ledger := e :: es } a e es := by
  refine ⟨rfl, rfl, rfl, rfl, rfl, ?_, rfl, fun x hx => ?_, hquiet, fun _ => ?_⟩
  · simp [supersededEntry, oracleAssertion, toBoundState]
  · rcases List.mem_cons.mp hx with rfl | hx
    · rfl
    · exact hstamped x hx
  · simp [oracleAssertion, toBoundState]

variable {row : PendingAdjudicationRow} {challenger : Claim} {response : AdjudicationResponse}
variable {assertionRef : Uuid}

/-- A verdict other than Unknown asserts, with quiet entries for the others that it
    writes for and for the challenger. -/
theorem asserts_verdict {target : ClaimRef} (ht : boundTarget row response.verdict = some target) :
    ∃ a e es,
      Asserts (verdictWritten eng.config σ row challenger response now assertionRef) a e es ∧
      a.agentId = row.agentId ∧ a.targetClaim = target := by
  cases hv : response.verdict with
  | affirm =>
    rw [hv] at ht
    simp only [verdictWritten, hv]
    refine ⟨_, _, _, asserts_superseding (fun x hx => ?_) (fun x hx => ?_), rfl,
      Option.some.inj ht⟩
    · rcases List.mem_append.mp hx with hx | hx
      · exact (mem_cascadeEntries hx).2.1
      · rw [List.mem_singleton.mp hx]
        rfl
    · rcases List.mem_append.mp hx with hx | hx
      · exact quiet_of_mem_cascadeEntries hx
      · rw [List.mem_singleton.mp hx]
        rfl
  | deny =>
    rw [hv] at ht
    simp only [verdictWritten, hv]
    exact ⟨_, _, _, asserts_superseding (fun x hx => (mem_cascadeEntries hx).2.1)
      fun x hx => quiet_of_mem_cascadeEntries hx, rfl, Option.some.inj ht⟩
  | unknown =>
    rw [hv] at ht
    cases ht

theorem exists_entry_of_written
    (hr : r ∈ row.challengerClaimRef :: alsoWritten σ row response.verdict) :
    ∃ x ∈ (verdictWritten eng.config σ row challenger response now assertionRef).ledger,
      x.agentId = row.agentId ∧ x.claimRef = r := by
  rcases List.mem_cons.mp hr with rfl | hr
  · obtain ⟨x, hx⟩ := List.exists_mem_of_ne_nil _ newEntries_challenger_ne_nil
    exact ⟨x, mem_newEntries.mp hx⟩
  · exact exists_entry_of_alsoWritten eng.config challenger response now assertionRef hr

theorem agrees_verdict_iff (h : StoreAgrees σ)
    (happ : Appends σ σ' (verdictWritten eng.config σ row challenger response now assertionRef)) :
    StoreAgrees σ' ↔ VerdictConcurs eng.config σ row challenger response now assertionRef := by
  have hentry : ∀ x ∈ (verdictWritten eng.config σ row challenger response now
      assertionRef).ledger, x.agentId = row.agentId ∧
        x.claimRef ∈ row.challengerClaimRef :: alsoWritten σ row response.verdict := by
    intro x hx
    have hx := verdictEntry_of_mem hx
    exact ⟨hx.agentId, List.mem_cons.mpr hx.claimRef⟩
  have hwritten : ∀ r ∈ row.challengerClaimRef :: alsoWritten σ row response.verdict,
      ∃ x ∈ (verdictWritten eng.config σ row challenger response now assertionRef).ledger,
        x.agentId = row.agentId ∧ x.claimRef = r := fun _ hr => exists_entry_of_written hr
  unfold VerdictConcurs
  cases ht : boundTarget row response.verdict with
  | some target =>
    obtain ⟨a, e, es, hw, hagent, rfl⟩ : ∃ a e es,
        Asserts (verdictWritten eng.config σ row challenger response now assertionRef) a e es ∧
          a.agentId = row.agentId ∧ a.targetClaim = target := asserts_verdict ht
    rw [agrees_asserted_iff happ h hw]
    refine and_congr (by simp [hw.assertions]) ⟨fun hall r hr => ?_, fun hall x hx => ?_⟩
    · obtain ⟨x, hx, hxagent, rfl⟩ := hwritten r hr
      rw [hw.ledger] at hx
      rcases List.mem_cons.mp hx with rfl | hx
      · exact .inl (by rw [hw.claimRef])
      · exact (hall x hx).imp (fun hsame => by rw [hsame.2]) fun hstays => hxagent ▸ hstays
    · obtain ⟨hxagent, hin⟩ := hentry x (hw.ledger ▸ List.mem_cons_of_mem _ hx)
      rw [hxagent, hagent]
      exact (hall _ hin).imp_left fun hbound => ⟨rfl, (Option.some.inj hbound).symm⟩
  | none =>
    have hv : response.verdict = .unknown := by
      cases hv : response.verdict <;> rw [hv] at ht <;> first | rfl | cases ht
    have hassertions : (verdictWritten eng.config σ row challenger response now
        assertionRef).assertions = [] := by simp only [verdictWritten, hv]
    rw [agrees_noted_iff happ h hassertions fun x hx => ?_]
    · refine ⟨fun hall => ⟨by simp [hassertions], fun r hr => ?_⟩, fun hall x hx => ?_⟩
      · obtain ⟨x, hx, hxagent, rfl⟩ := hwritten r hr
        exact .inr (hxagent ▸ hall x hx)
      · obtain ⟨hxagent, hin⟩ := hentry x hx
        rw [hxagent]
        exact (hall.2 _ hin).resolve_left (by simp)
    · simp only [verdictWritten, hv, List.mem_cons, List.not_mem_nil, or_false] at hx
      rcases hx with rfl | rfl <;> rfl

end Condition

section Step

variable {eng : Engine} {σ σ' : Store} {op : Op} {w : Written}

/-- Quiet entries for claims that are live as their ledger has it. -/
theorem agrees_of_live (happ : Appends σ σ' w) (h : StoreAgrees σ) (ha : w.assertions = [])
    (he : ∀ e ∈ w.ledger, quiet e.disposition = true ∧
      ∀ d, latestOf σ e.agentId none e.claimRef = some d → isNonLiveDisposition d = false) :
    StoreAgrees σ' :=
  (agrees_noted_iff happ h ha fun e hmem => (he e hmem).1).mpr fun e hmem =>
    stays_of_live (he e hmem).2

/-- A step that writes one quiet entry. -/
theorem agrees_entry_iff {e : LedgerEntry} (happ : Appends σ σ' { ledger := [e] })
    (h : StoreAgrees σ) (hquiet : quiet e.disposition = true) :
    StoreAgrees σ' ↔ Stays σ e.agentId e.claimRef [e] := by
  rw [agrees_noted_iff happ h rfl fun x hx => List.mem_singleton.mp hx ▸ hquiet]
  simp [newEntries]

theorem agrees_submit_iff (h : StoreAgrees σ) (handleId : Uuid) (response : AdjudicationResponse)
    (now : Instant) (assertionRef : Uuid) :
    StoreAgrees (apply eng σ (.submitAdjudication handleId response now assertionRef)) ↔
      Concurs eng σ (.submitAdjudication handleId response now assertionRef) := by
  rw [Engine.apply, Concurs]
  by_cases haccepted : ∃ row challenger, VerdictAccepted σ handleId now row challenger
  · obtain ⟨row, challenger, haccepted⟩ := haccepted
    obtain ⟨written, hexec, happ, _⟩ := execute_of_verdictAccepted eng.config σ handleId response
      now assertionRef haccepted
    have happ := setPendingStatus_appends happ handleId .resolved
    rw [hexec]
    refine (agrees_verdict_iff h happ).trans ?_
    constructor
    · refine fun hverdict => ⟨fun row' challenger' haccepted' => ?_,
        fun row' expiresAt hrow' hexp hle => ?_⟩
      · obtain rfl := Option.some.inj (haccepted.pending.symm.trans haccepted'.pending)
        obtain rfl := Option.some.inj (haccepted.load.symm.trans haccepted'.load)
        exact hverdict
      · obtain rfl := Option.some.inj (haccepted.pending.symm.trans hrow')
        exact absurd (haccepted.unexpired expiresAt hexp) (not_lt_of_ge hle)
    · exact fun hall => hall.1 row challenger haccepted
  by_cases hlapsed : ∃ row expiresAt, getPending σ handleId = some row ∧
      row.expiresAt = some expiresAt ∧ expiresAt ≤ now ∧
        Queued σ row.agentId row.challengerClaimRef
  · obtain ⟨row, expiresAt, hrow, hexp, hle, hqueued⟩ := hlapsed
    have happ := appendLedgerEntry_appends σ
      (expiredEntry row (lazyExpiryRationale row expiresAt) now)
    have happ := setPendingStatus_appends happ row.handleId .expired
    rw [execute_of_lapsed eng.config σ handleId response now assertionRef hrow hexp hle hqueued]
    refine (agrees_entry_iff happ h rfl).trans ?_
    constructor
    · refine fun hstays => ⟨fun row' challenger haccepted' =>
        absurd ⟨row', challenger, haccepted'⟩ haccepted, fun row' expiresAt' hrow' hexp' _ _ => ?_⟩
      obtain rfl := Option.some.inj (hrow.symm.trans hrow')
      obtain rfl := Option.some.inj (hexp.symm.trans hexp')
      exact hstays
    · exact fun hall => hall.2 row expiresAt hrow hexp hle hqueued
  rcases submit_spec eng.config σ handleId response now assertionRef with
    ⟨row, challenger, _, hrow, _⟩ | ⟨row, expiresAt, hrow, hexp, hle, hqueued, _⟩ | ⟨_, hexec⟩
  · exact absurd ⟨row, challenger, hrow⟩ haccepted
  · exact absurd ⟨row, expiresAt, hrow, hexp, hle, hqueued⟩ hlapsed
  · rw [hexec]
    exact iff_of_true h ⟨fun row challenger hrow => absurd ⟨row, challenger, hrow⟩ haccepted,
      fun row expiresAt hrow hexp hle hqueued =>
        absurd ⟨row, expiresAt, hrow, hexp, hle, hqueued⟩ hlapsed⟩

/-- A claim taken off the queue by a sweep. -/
theorem agrees_reverted_iff {α : Type} {now : Instant} {revert : Store → α → Bool × Store}
    {entryOf : α → LedgerEntry} (hrev : Reverts now revert entryOf) (h : StoreAgrees σ) (item : α) :
    StoreAgrees (revert σ item).2 ↔
      (Queued σ (entryOf item).agentId (entryOf item).claimRef →
        Stays σ (entryOf item).agentId (entryOf item).claimRef [entryOf item]) := by
  by_cases hqueued : Queued σ (entryOf item).agentId (entryOf item).claimRef
  · rw [agrees_entry_iff (hrev.writes σ item hqueued) h (by rw [(hrev.contested item).1]; rfl),
      forall_prop_of_true hqueued]
  · refine iff_of_true ?_ fun hq => absurd hq hqueued
    rwa [hrev.idle σ item hqueued]

/-- What the host asserts of a claim. -/
theorem agrees_host_iff (h : StoreAgrees σ) (req : AssertValidityRequest) (now : Instant)
    (assertionRef : Uuid) :
    StoreAgrees (apply eng σ (.assertValidity req now assertionRef)) ↔
      Concurs eng σ (.assertValidity req now assertionRef) := by
  rw [Engine.apply, Concurs]
  cases hassert : req.assertion with
  | bound at_ granularity =>
    by_cases haccepted : ∃ target, BoundAccepted σ req target at_ now
    · obtain ⟨target, htarget⟩ := id haccepted
      have happ := writeValidityAndLedger_appends σ
        (hostAssertion req (.bound at_ granularity) now assertionRef)
        (hostEntry req .superseded (hostBoundRationale at_) now)
      rw [← execute_of_boundAccepted σ now assertionRef hassert htarget] at happ
      rw [agrees_asserted_iff happ h (asserts_host rfl (by simp))]
      simp [newEntries, hostEntry, hostAssertion, haccepted]
    · rcases execute_bound_cases σ now assertionRef hassert with ⟨target, htarget, _⟩ | hidle
      · exact absurd ⟨target, htarget⟩ haccepted
      · exact iff_of_true (by rwa [hidle.1]) fun hbound => absurd hbound haccepted
  | reopen =>
    rcases execute_reopen_cases σ now assertionRef hassert with ⟨haccepted, hexec⟩ | ⟨hnot, hexec⟩
    · have happ := writeValidityAndLedger_appends σ
        (hostAssertion req (.reopen now) now assertionRef)
        (hostEntry req .reinstated (reopenRationale now) now)
      rw [hexec, agrees_asserted_iff happ h (asserts_host rfl (by simp))]
      simp [newEntries, hostEntry, hostAssertion, haccepted]
    · exact iff_of_true (by rwa [hexec]) fun hreopen => absurd hreopen hnot

/-- A step keeps the agreement exactly if it concurs. -/
theorem agrees_step_iff (hσ : Reachable eng σ) (h : StoreAgrees σ) (hsup : Supplied σ op) :
    StoreAgrees (apply eng σ op) ↔ Concurs eng σ op := by
  cases op with
  | ingestClaim req now claimRef reply =>
    obtain ⟨w, hw, happ⟩ := apply_outcome eng σ (.ingestClaim req now claimRef reply)
    refine iff_of_true ?_ trivial
    cases hw with
    | silent _ => exact agrees_of_live happ h rfl (by simp)
    | ingested _ =>
      refine agrees_of_live happ h rfl fun e he => ?_
      rw [List.mem_singleton.mp he]
      refine ⟨adjudicate_quiet _ _, fun d hd => ?_⟩
      have hfresh : entriesOf σ req.agentId none claimRef = [] :=
        entriesOf_of_fresh hsup req.agentId none
      change latestOf σ req.agentId none claimRef = some d at hd
      rw [latestOf, hfresh, TieOrder.first_nil] at hd
      cases hd
  | assertValidity req now assertionRef => exact agrees_host_iff h req now assertionRef
  | submitAdjudication handleId response now assertionRef =>
    exact agrees_submit_iff h handleId response now assertionRef
  | reconcile req now =>
    obtain ⟨w, hw, happ⟩ := apply_outcome eng σ (.reconcile req now)
    refine iff_of_true ?_ trivial
    cases hw with
    | silent _ => exact agrees_of_live happ h rfl (by simp)
    | reconciled =>
      refine agrees_of_live happ h rfl fun e he => ?_
      obtain ⟨d, hd, rfl⟩ := List.mem_map.mp he
      exact ⟨quiet_of_mem_decisions hd, fun disposition hlatest =>
        latestOf_of_decision hσ hd hlatest⟩
  | sweepExpired row now => exact agrees_reverted_iff (reverts_expired now) h row
  | sweepOrphan orphan now => exact agrees_reverted_iff (reverts_orphan now) h orphan
  | appendEdge edge =>
    obtain ⟨w, hw, happ⟩ := apply_outcome eng σ (.appendEdge edge)
    refine iff_of_true ?_ trivial
    cases hw with
    | silent _ => exact agrees_of_live happ h rfl (by simp)
    | edged => exact agrees_of_live happ h rfl (by simp)

end Step

section Main

/-- The ledger ends a claim exactly if an active bound does, whatever the instant, and no
    row that the fold takes out by its disposition alone is open to the candidate sets. -/
structure SourcesAgree (config : EngineConfig) (σ : Store) : Prop where
  dispositions : ∀ t, StampsBy σ t → ∀ agentId r,
    buildLatestDispositionMap (loadLedgerForClaims σ agentId [r] none) r = some .superseded ↔
      (activeBoundAt (loadValidityAssertionsFor σ agentId r) t).isSome = true
  rows : ∀ t, StampsBy σ t → ∀ cutoff, (∀ c, cutoff = some c → StampsBy σ c) →
    ∀ (agentId : AgentId) (subject predicate : String) (validAt : Option Instant),
      let reads := readLine σ agentId subject predicate cutoff
      ∀ cs ∈ (fold reads.claims (loadValidityAssertionsFor σ agentId) t validAt config
          reads.latestDisposition).allClaims,
        cs.isLive = false → cs.boundAt = none →
          (cs.lastDisposition.map isHardExcludedDisposition).getD false = true

variable {eng : Engine} {σ : Store}

theorem dispositions_iff {agentId : AgentId} {r : ClaimRef} {t : Instant} :
    (buildLatestDispositionMap (loadLedgerForClaims σ agentId [r] none) r = some .superseded ↔
        (activeBoundAt (loadValidityAssertionsFor σ agentId r) t).isSome = true) ↔
      Agree σ.ties (assertionsOf σ agentId r) (entriesOf σ agentId none r) t := by
  rw [buildLatestDispositionMap_load (List.mem_singleton_self r), activeBoundAt_load,
    Option.isSome_iff_ne_none]
  exact Iff.rfl

theorem latestOf_within {cutoff : Option Instant} (h : ∀ c, cutoff = some c → StampsBy σ c)
    (agentId : AgentId) : latestOf σ agentId cutoff = latestOf σ agentId none := by
  cases cutoff with
  | none => rfl
  | some c => exact latestOf_of_stampsBy (h c rfl) agentId

theorem sourcesAgree_iff (config : EngineConfig) : SourcesAgree config σ ↔ StoreAgrees σ := by
  refine ⟨fun h t ht agentId r => dispositions_iff.mp (h.dispositions t ht agentId r),
    fun h => ⟨fun t ht agentId r => dispositions_iff.mpr (h t ht agentId r), ?_⟩⟩
  intro t ht cutoff hcutoff agentId subject predicate validAt reads cs hcs hdead hopen
  rw [fold_readLine, foldStatuses_allClaims] at hcs
  obtain ⟨c, _, rfl⟩ := mem_lineRows.mp hcs
  rw [rowOf_boundAt, Option.map_eq_none_iff] at hopen
  have hnot : latestOf σ agentId none c.claimRef ≠ some .superseded :=
    fun hsup => (h t ht agentId c.claimRef).mp hsup hopen
  rw [← latestOf_within hcutoff] at hnot
  rw [rowOf_lastDisposition]
  by_contra hsoft
  rw [Bool.eq_false_iff] at hdead
  refine hdead ((rowOf_isLive _ _ _ _ _).mpr ⟨hopen, fun d hd => ?_⟩)
  rw [hd] at hnot hsoft
  refine Bool.eq_false_iff.mpr fun hnonlive => ?_
  rcases isNonLive_iff.mp hnonlive with rfl | hhard
  · exact hnot rfl
  · exact hsoft hhard

/-- Along a run whose steps concur the two sources agree, and the first step that does
    not concur breaks them apart. -/
theorem liveness_sources_agree
    (h : Reach Store.New (Restrict (Step eng) (Concurs eng)) σ) :
    SourcesAgree eng.config σ ∧ ∀ op σ', Step eng σ op σ' →
      (SourcesAgree eng.config σ' ↔ Concurs eng σ op) := by
  have hagrees : StoreAgrees σ := by
    refine Reach.invariant (P := StoreAgrees) h (fun σ hσ t _ agentId r => ?_)
      fun σ op σ' hr hP hst => ?_
    · obtain ⟨ties, rfl⟩ := hσ
      simp [Agree, Superseded, assertionsOf, entriesOf, Store.empty, activeBoundAt_eq,
        lastEffective, TieOrder.first_nil, lastMax]
    · obtain ⟨hconcurs, hsup, rfl⟩ := hst
      exact (agrees_step_iff hr.unrestrict hP hsup).mpr hconcurs
  refine ⟨(sourcesAgree_iff _).mpr hagrees, fun op σ' hst => ?_⟩
  obtain ⟨hsup, rfl⟩ := hst
  rw [sourcesAgree_iff]
  exact agrees_step_iff h.unrestrict hagrees hsup

/-- A stamp after the rows of the claim, and an instant that it reaches. -/
theorem settles_of_timely {a : ValidityAssertion} {news : List LedgerEntry}
    (h : Timely σ a.agentId a.targetClaim a.assertedAt)
    (hreached : statedInstant a ≤ a.assertedAt) (hne : news ≠ [])
    (hnews : ∀ x ∈ news, x.recordedAt = a.assertedAt)
    (hflag : ¬ FlagAhead σ.ties (entriesOf σ a.agentId none a.targetClaim) news) :
    Settles σ a news := by
  intro t _ ha
  obtain ⟨x, hx⟩ := List.exists_mem_of_ne_nil news hne
  rw [SettlesAt, if_neg hflag]
  refine .inr (iff_of_true ?_ ?_)
  · exact TieOrder.overtakes_of_lt _ _ hne fun e he => ⟨x, hx, hnews x hx ▸ h.entries e he⟩
  · exact ⟨le_trans hreached ha, fun b hb _ => assertionKey_le_of_lt (h.assertions b hb)⟩

theorem affirmed_rivals_agree :
    let affirmed := apply (defaultEngine true) AffirmSettles.disputed (verdictOn 101 .affirm 30 50)
    SourcesAgree EngineConfig.default
      (apply (defaultEngine true) affirmed (.assertValidity (assertOn 1 .reopen) 40 51)) := by
  intro affirmed
  have hdisputed : Reach Store.New
      (Restrict (Step (defaultEngine true)) (Concurs (defaultEngine true)))
      AffirmSettles.disputed := by
    let paris : Op := .ingestClaim (remember "Paris" (some (dated 1 none))) 10 ⟨1⟩ (.ok 100)
    let berlin : Op := .ingestClaim (remember "Berlin" (some (dated 5 none))) 20 ⟨2⟩ (.ok 101)
    have hparis : Concurs (defaultEngine true) Store.sqlite paris := trivial
    have hberlin : Concurs (defaultEngine true) (apply (defaultEngine true) Store.sqlite paris)
        berlin := trivial
    exact .step (i := berlin) (.step (i := paris) (.init Store.new_sqlite)
      ⟨hparis, by decide, rfl⟩) ⟨hberlin, by decide, rfl⟩
  have haffirm : Concurs (defaultEngine true) AffirmSettles.disputed
      (verdictOn 101 .affirm 30 50) := by
    refine ⟨fun row challenger haccepted => ?_, fun row expiresAt hrow hexp _ _ => ?_⟩
    · obtain rfl : AffirmSettles.disputedRow = row := Option.some.inj haccepted.pending
      obtain rfl : AffirmSettles.challengerBerlin = challenger := Option.some.inj haccepted.load
      refine ⟨fun a ha => ?_, by decide⟩
      obtain rfl := List.mem_singleton.mp ha
      exact settles_of_timely (by decide) (by decide) (by decide) (by decide) (by decide)
    · obtain rfl : AffirmSettles.disputedRow = row := Option.some.inj hrow
      cases hexp
  have haffirmed := hdisputed.step (t := affirmed) ⟨haffirm, by decide, rfl⟩
  exact (liveness_sources_agree (haffirmed.step (i := .assertValidity (assertOn 1 .reopen) 40 51)
    ⟨fun _ => settles_of_timely (by decide) (by decide) (by decide) (by decide) (by decide),
      by decide, rfl⟩)).1

/-- Berlin ends Paris, and a second challenge of Paris is abstained from: the ledger of
    Paris is contested while its bound stays active. -/
theorem abstained_incumbent_disagrees :
    let σ := run (defaultEngine true) Store.sqlite
      (rivals ++ [.ingestClaim (remember "Rome" (some (dated 8 none))) 21 ⟨3⟩ (.ok 102),
        verdictOn 101 .affirm 30 50, verdictOn 102 .unknown 40 51])
    Reachable (defaultEngine true) σ ∧ StampsBy σ 40 ∧
      buildLatestDispositionMap (loadLedgerForClaims σ agent [⟨1⟩] none) ⟨1⟩ = some .contested ∧
      (activeBoundAt (loadValidityAssertionsFor σ agent ⟨1⟩) 40).map (·.boundAt) = some 5 ∧
      ¬ SourcesAgree EngineConfig.default σ := by
  refine ⟨run_reachable (by decide), ⟨by decide, by decide, by decide⟩, by decide, by decide,
    fun h => ?_⟩
  exact absurd (h.dispositions 40 ⟨by decide, by decide, by decide⟩ agent ⟨1⟩) (by decide)

end Main

end Mempill.LivenessAgreement
