import Mempill.BoundEffect
import Mempill.SingleBound

set_option autoImplicit false

/-!
# Bound and reopen

Rounds of a bound and a reopen of one claim, and when they leave its line as it
was.
-/
namespace Mempill.BoundRounds
open Mempill.Types Mempill.Persistence Mempill.TruthEngine Mempill.Rows Mempill.ActiveBound
open Mempill.AssertValidity Mempill.IngestClaim Mempill.Engine Mempill.Steps Mempill.Invariants
open Mempill.RowEffects Mempill.SingleBound Mempill.BoundEffect Transition StampedLog

section Rounds

def lineOf (σ : Store) (c : Claim) : List Claim :=
  σ.claims.filter (onLine c.agentId c.fact.subject c.fact.predicate)

/-- Nothing happens on the line of `c`: the same claims with the same logs. -/
structure Undisturbed (c : Claim) (σ τ : Store) : Prop where
  claims : lineOf τ c = lineOf σ c
  assertions : ∀ d ∈ lineOf σ c,
    assertionsOf τ c.agentId d.claimRef = assertionsOf σ c.agentId d.claimRef
  entries : ∀ d ∈ lineOf σ c,
    entriesOf τ c.agentId none d.claimRef = entriesOf σ c.agentId none d.claimRef

/-- An accepted bound of `c` at `e`, stamped `s` after the claim's log, and a later
    answered reopen stamped `t`, with nothing else on the line in between. -/
structure Round (eng : Engine) (c : Claim) (e s t : Instant) (σ τ : Store) : Prop where
  later : s < t
  assertions : ∀ a ∈ assertionsOf σ c.agentId c.claimRef, a.assertedAt < s
  entries : ∀ x ∈ entriesOf σ c.agentId none c.claimRef, x.recordedAt < s
  steps : ∃ (breq rreq : AssertValidityRequest) (bref rref : Uuid)
    (granularity : Option DateGranularity) (σ₁ σ₂ : Store) (ops : List Op),
    (breq.agentId = c.agentId ∧ breq.target = c.claimRef ∧
      breq.assertion = .bound e granularity ∧
      ∃ resp, (AssertValidity.execute σ breq s bref).1 = .ok resp ∧ resp.noOp = false) ∧
    (rreq.agentId = c.agentId ∧ rreq.target = c.claimRef ∧ rreq.assertion = .reopen ∧
      ∃ resp, (AssertValidity.execute σ₂ rreq t rref).1 = .ok resp) ∧
    Step eng σ (.assertValidity breq s bref) σ₁ ∧ Run (Step eng) σ₁ ops σ₂ ∧
      Undisturbed c σ₁ σ₂ ∧ Step eng σ₂ (.assertValidity rreq t rref) τ

/-- Rounds that reopen after the instant of their bound, with other steps between
    them that leave the line alone. -/
inductive Rounds (eng : Engine) (c : Claim) (q : Instant) (σ : Store) : Store → Prop where
  | nil : Rounds eng c q σ σ
  | idle {τ υ : Store} {ops : List Op} (h : Rounds eng c q σ τ)
      (hrun : Run (Step eng) τ ops υ) (hline : Undisturbed c τ υ) : Rounds eng c q σ υ
  | round {τ υ : Store} {e s t : Instant} (h : Rounds eng c q σ τ)
      (hround : Round eng c e s t τ υ) (hreached : e ≤ t) (hq : t ≤ q) : Rounds eng c q σ υ

end Rounds

section Restored

variable (config : EngineConfig) (c : Claim) (σ τ : Store) (q : Instant)

structure RestoredView (cutoff : Option Instant) : Prop where
  live : (ownRow τ c cutoff q).isLive = true
  liveClaims : (liveRows (ownLine config τ c cutoff q)).map (·.claim) =
    (liveRows (ownLine config σ c cutoff q)).map (·.claim)
  windows : (ownLine config τ c cutoff q).map (fun cs => (cs.claim, effectiveWindow cs)) =
    (ownLine config σ c cutoff q).map fun cs => (cs.claim, effectiveWindow cs)
  validAt : (ownCandidates config τ c cutoff q).map claimWithEffectiveWindow =
    (ownCandidates config σ c cutoff q).map claimWithEffectiveWindow

structure Restored : Prop where
  recalled : RestoredView config c σ τ q (some q)
  write : RestoredView config c σ τ q none
  conflict :
    conflictCandidates config τ c.agentId c.fact.subject c.fact.predicate q =
      conflictCandidates config σ c.agentId c.fact.subject c.fact.predicate q

end Restored

section Views

variable {config : EngineConfig} {c : Claim} {σ τ υ : Store} {q : Instant}

structure Alike (σ τ : Store) (agentId : AgentId) (cutoff : Option Instant) (q : Instant)
    (d : Claim) : Prop where
  isLive : (rowOf τ agentId cutoff q d).isLive = (rowOf σ agentId cutoff q d).isLive
  boundAt : (rowOf τ agentId cutoff q d).boundAt = (rowOf σ agentId cutoff q d).boundAt
  granularity : (rowOf τ agentId cutoff q d).boundAtGranularity =
    (rowOf σ agentId cutoff q d).boundAtGranularity
  candidate : isCandidate (deniedOf τ agentId cutoff) (rowOf τ agentId cutoff q d) =
    isCandidate (deniedOf σ agentId cutoff) (rowOf σ agentId cutoff q d)

theorem lineClaims_of_lineOf (h : lineOf τ c = lineOf σ c) (cutoff : Option Instant) :
    lineClaims config τ c.agentId c.fact.subject c.fact.predicate cutoff =
      lineClaims config σ c.agentId c.fact.subject c.fact.predicate cutoff := by
  have hfilter : ∀ ρ : Store, (ρ.claims.filter fun d =>
      onLine c.agentId c.fact.subject c.fact.predicate d &&
        withinCutoff cutoff d.transactionTime) =
      (lineOf ρ c).filter fun d => withinCutoff cutoff d.transactionTime := by
    intro ρ
    rw [lineOf, List.filter_filter]
    exact List.filter_congr fun d _ => Bool.and_comm _ _
  rw [lineClaims, lineClaims, loadSubjectLine, loadSubjectLine, hfilter, hfilter, h]

theorem effectiveWindow_of_alike {cutoff : Option Instant} {d : Claim}
    (h : Alike σ τ c.agentId cutoff q d) :
    effectiveWindow (rowOf τ c.agentId cutoff q d) =
      effectiveWindow (rowOf σ c.agentId cutoff q d) := by
  rw [effectiveWindow, effectiveWindow, h.boundAt]
  rfl

theorem claimWithEffectiveWindow_of_alike {cutoff : Option Instant} {d : Claim}
    (h : Alike σ τ c.agentId cutoff q d) :
    claimWithEffectiveWindow (rowOf τ c.agentId cutoff q d) =
      claimWithEffectiveWindow (rowOf σ c.agentId cutoff q d) := by
  rw [claimWithEffectiveWindow, claimWithEffectiveWindow, h.boundAt, h.granularity]
  rfl

theorem ownCandidates_eq_map (cutoff : Option Instant) (q : Instant) :
    ownCandidates config σ c cutoff q =
      ((lineClaims config σ c.agentId c.fact.subject c.fact.predicate cutoff).filter fun d =>
        isCandidate (deniedOf σ c.agentId cutoff) (rowOf σ c.agentId cutoff q d)).map
          (rowOf σ c.agentId cutoff q) := by
  rw [ownCandidates, candidateRows, lineRows, List.filter_map]
  rfl

variable (hline : lineOf τ c = lineOf σ c) {cutoff : Option Instant}
variable (halike : ∀ d ∈ lineOf σ c, Alike σ τ c.agentId cutoff q d)

include hline halike

theorem map_ownCandidates_eq {β : Type} {f : ClaimWithStatus → β}
    (hf : ∀ d, Alike σ τ c.agentId cutoff q d →
      f (rowOf τ c.agentId cutoff q d) = f (rowOf σ c.agentId cutoff q d)) :
    (ownCandidates config τ c cutoff q).map f = (ownCandidates config σ c cutoff q).map f := by
  have hmem : ∀ d ∈ lineClaims config σ c.agentId c.fact.subject c.fact.predicate cutoff,
      Alike σ τ c.agentId cutoff q d := fun d hd =>
    halike d (List.mem_filter.mpr ⟨(mem_lineClaims.mp hd).1, (mem_lineClaims.mp hd).2.1⟩)
  rw [ownCandidates_eq_map, ownCandidates_eq_map, lineClaims_of_lineOf hline, List.map_map,
    List.map_map, List.filter_congr fun d hd => (hmem d hd).candidate]
  exact List.map_congr_left fun d hd => hf d (hmem d (List.mem_of_mem_filter hd))

theorem restoredView_of_alike (hlive : (ownRow τ c cutoff q).isLive = true) :
    RestoredView config c σ τ q cutoff := by
  have hmem : ∀ d ∈ lineClaims config σ c.agentId c.fact.subject c.fact.predicate cutoff,
      Alike σ τ c.agentId cutoff q d := fun d hd =>
    halike d (List.mem_filter.mpr ⟨(mem_lineClaims.mp hd).1, (mem_lineClaims.mp hd).2.1⟩)
  refine ⟨hlive, ?_, ?_, map_ownCandidates_eq hline halike fun d hd =>
    claimWithEffectiveWindow_of_alike hd⟩
  · simp only [liveRows, ownLine, lineRows, lineClaims_of_lineOf hline, List.filter_map,
      List.map_map]
    have hfilter := List.filter_congr (fun d hd => (hmem d hd).isLive)
    simp only [Function.comp_def, rowOf_claim] at hfilter ⊢
    rw [hfilter]
  · simp only [ownLine, lineRows, lineClaims_of_lineOf hline, List.map_map]
    refine List.map_congr_left fun d hd => ?_
    simp only [Function.comp_apply, rowOf_claim, effectiveWindow_of_alike (hmem d hd)]

end Views

section Restore

variable {config : EngineConfig} {c : Claim} {σ τ υ : Store} {q : Instant}

theorem restored_of_alike (hline : lineOf τ c = lineOf σ c)
    (halike : ∀ cutoff, cutoff = none ∨ cutoff = some q → ∀ d ∈ lineOf σ c,
      Alike σ τ c.agentId cutoff q d)
    (hlive : ∀ cutoff, cutoff = none ∨ cutoff = some q → (ownRow τ c cutoff q).isLive = true) :
    Restored config c σ τ q := by
  refine ⟨restoredView_of_alike hline (halike _ (.inr rfl)) (hlive _ (.inr rfl)),
    restoredView_of_alike hline (halike _ (.inl rfl)) (hlive _ (.inl rfl)), ?_⟩
  rw [conflictCandidates_eq, conflictCandidates_eq]
  refine map_ownCandidates_eq hline (halike _ (.inl rfl)) fun d hd => ?_
  rw [hd.isLive, claimWithEffectiveWindow_of_alike hd]
  rfl

theorem Restored.trans (h : Restored config c σ τ q) (h' : Restored config c τ υ q) :
    Restored config c σ υ q := by
  have view : ∀ {cutoff}, RestoredView config c σ τ q cutoff →
      RestoredView config c τ υ q cutoff → RestoredView config c σ υ q cutoff := fun v v' =>
    ⟨v'.live, v'.liveClaims.trans v.liveClaims, v'.windows.trans v.windows,
      v'.validAt.trans v.validAt⟩
  exact ⟨view h.recalled h'.recalled, view h.write h'.write, h'.conflict.trans h.conflict⟩

theorem entriesOf_some (σ : Store) (agentId : AgentId) (q : Instant) (r : ClaimRef) :
    entriesOf σ agentId (some q) r =
      (entriesOf σ agentId none r).filter fun x => decide (x.recordedAt ≤ q) := by
  rw [entriesOf, entriesOf, List.filter_filter]
  refine List.filter_congr fun x _ => ?_
  simp [withinCutoff, Bool.and_comm]

theorem alike_of_same_log (hties : τ.ties = σ.ties) {agentId : AgentId} {d : Claim}
    {cutoff : Option Instant}
    (ha : assertionsOf τ agentId d.claimRef = assertionsOf σ agentId d.claimRef)
    (he : entriesOf τ agentId none d.claimRef = entriesOf σ agentId none d.claimRef) :
    Alike σ τ agentId cutoff q d := by
  have he' : entriesOf τ agentId cutoff d.claimRef = entriesOf σ agentId cutoff d.claimRef := by
    cases cutoff with
    | none => exact he
    | some t => rw [entriesOf_some, entriesOf_some, he]
  have hrow : rowOf τ agentId cutoff q d = rowOf σ agentId cutoff q d :=
    rowOf_congr hties ha he'
  have hdenied : deniedOf τ agentId cutoff d.claimRef = deniedOf σ agentId cutoff d.claimRef := by
    rw [deniedOf, deniedOf, he', hties]
  refine ⟨by rw [hrow], by rw [hrow], by rw [hrow], ?_⟩
  rw [hrow]
  simp only [isCandidate, rowOf_claim, hdenied]

theorem alike_of_live {cutoff : Option Instant} (hc : c ∈ σ.claims) (hc' : c ∈ τ.claims)
    (hcut : withinCutoff cutoff c.transactionTime = true)
    (h : (ownRow σ c cutoff q).isLive = true) (h' : (ownRow τ c cutoff q).isLive = true) :
    Alike σ τ c.agentId cutoff q c := by
  have hb := ((rowOf_isLive ..).mp h).1
  have hb' := ((rowOf_isLive ..).mp h').1
  refine ⟨h'.trans h.symm, ?_, ?_, ?_⟩
  · rw [rowOf_boundAt, rowOf_boundAt, hb, hb']
  · simp only [rowOf, claimStatus, hb, hb']
  · rw [isCandidate_of_live (mem_ownLine EngineConfig.default hc hcut) h,
      isCandidate_of_live (mem_ownLine EngineConfig.default hc' hcut) h']

end Restore

section Effect

variable {eng : Engine} {c : Claim} {σ τ : Store} {e s t q : Instant}

theorem stated_of_reopen (hσ : Reachable eng σ) :
    ∀ a ∈ σ.assertions, toBoundState a = none → statedInstant a = a.assertedAt := by
  refine Reachable.invariant_of_outcome
    (P := fun σ => ∀ a ∈ σ.assertions, toBoundState a = none → statedInstant a = a.assertedAt)
    hσ (fun _ => List.forall_mem_nil _) fun σ σ' op w _ hP _ ho happ a ha hnone => ?_
  rw [happ.assertions] at ha
  rcases List.mem_append.mp ha with hold | hnew
  · exact hP a hold hnone
  · cases assertionWritten_of_mem ho hnew with
    | host _ _ => cases hnone
    | reopen _ _ => rfl
    | verdict _ => cases hnone

theorem gates_of_ok {req : AssertValidityRequest} {now : Instant} {assertionRef : Uuid}
    {resp : AssertValidityResponse}
    (h : (AssertValidity.execute σ req now assertionRef).1 = .ok resp) :
    req.provenance.isCheapPathEligible = true ∧
      ∃ target, loadClaim σ req.agentId req.target = some target := by
  by_cases hprov : req.provenance.isCheapPathEligible = true
  · refine ⟨hprov, ?_⟩
    cases hload : loadClaim σ req.agentId req.target with
    | none => simp [AssertValidity.execute, hprov, hload] at h
    | some target => exact ⟨target, rfl⟩
  · simp [AssertValidity.execute, hprov] at h

/-- One assertion and one entry on `c`, and nothing else. -/
structure AppendsOn (c : Claim) (a : ValidityAssertion) (x : LedgerEntry) (σ τ : Store) :
    Prop where
  line : lineOf τ c = lineOf σ c
  others : ∀ d : Claim, d.claimRef ≠ c.claimRef →
    assertionsOf τ c.agentId d.claimRef = assertionsOf σ c.agentId d.claimRef ∧
      entriesOf τ c.agentId none d.claimRef = entriesOf σ c.agentId none d.claimRef
  assertions : assertionsOf τ c.agentId c.claimRef = assertionsOf σ c.agentId c.claimRef ++ [a]
  entries : entriesOf τ c.agentId none c.claimRef = entriesOf σ c.agentId none c.claimRef ++ [x]

theorem appendsOn_of_appends {a : ValidityAssertion} {x : LedgerEntry}
    (h : Appends σ τ { assertions := [a], ledger := [x] })
    (ha : a.agentId = c.agentId ∧ a.targetClaim = c.claimRef)
    (hx : x.agentId = c.agentId ∧ x.claimRef = c.claimRef) : AppendsOn c a x σ τ := by
  refine ⟨by rw [lineOf, lineOf, h.claims, List.append_nil], fun d hd => ?_, ?_, ?_⟩
  · have hun : Untouched { assertions := [a], ledger := [x] } c.agentId d.claimRef := by
      refine ⟨fun b hb _ heq => ?_, fun b hb _ heq => ?_⟩
      · rw [List.mem_singleton.mp hb, ha.2] at heq
        exact hd heq.symm
      · rw [List.mem_singleton.mp hb, hx.2] at heq
        exact hd heq.symm
    exact ⟨assertionsOf_of_untouched h hun, entriesOf_of_untouched h hun none⟩
  · rw [assertionsOf_append h]
    simp [ha.1, ha.2]
  · rw [entriesOf_append h]
    simp [hx.1, hx.2, withinCutoff]

/-- What a round leaves on the log of `c`: its bound, and the reopen exactly when a
    bound was active at the reopen's stamp. -/
structure RoundEffect (c : Claim) (e s t : Instant) (σ τ : Store) : Prop where
  line : lineOf τ c = lineOf σ c
  others : ∀ d ∈ lineOf σ c, d.claimRef ≠ c.claimRef →
    assertionsOf τ c.agentId d.claimRef = assertionsOf σ c.agentId d.claimRef ∧
      entriesOf τ c.agentId none d.claimRef = entriesOf σ c.agentId none d.claimRef
  own : ∃ (a : ValidityAssertion) (x : LedgerEntry), a.assertedAt = s ∧ statedInstant a = e ∧
    toBoundState a ≠ none ∧ x.recordedAt = s ∧ x.disposition = .superseded ∧
    ((activeBoundAt (assertionsOf σ c.agentId c.claimRef ++ [a]) t = none ∧
        entriesOf τ c.agentId none c.claimRef = entriesOf σ c.agentId none c.claimRef ++ [x]) ∨
      (activeBoundAt (assertionsOf σ c.agentId c.claimRef ++ [a]) t ≠ none ∧
        ∃ (b : ValidityAssertion) (y : LedgerEntry), b.assertedAt = t ∧ statedInstant b = t ∧
          toBoundState b = none ∧ y.recordedAt = t ∧ y.disposition = .reinstated ∧
          assertionsOf τ c.agentId c.claimRef =
            assertionsOf σ c.agentId c.claimRef ++ [a] ++ [b] ∧
          entriesOf τ c.agentId none c.claimRef =
            entriesOf σ c.agentId none c.claimRef ++ [x] ++ [y]))

theorem roundEffect_of_round (h : Round eng c e s t σ τ) (hc : c ∈ lineOf σ c) :
    RoundEffect c e s t σ τ := by
  obtain ⟨breq, rreq, bref, rref, granularity, σ₁, σ₂, ops, ⟨hba, hbt, hbound, bresp, hbok, hbno⟩,
    ⟨hra, hrt, hreopen, rresp, hrok⟩, ⟨_, hσ₁⟩, _, hline, ⟨_, hτ⟩⟩ := h.steps
  have hone : AppendsOn c (hostAssertion breq (.bound e granularity) s bref)
      (hostEntry breq .superseded (hostBoundRationale e) s) σ σ₁ := by
    rcases execute_bound_cases σ s bref hbound with
      ⟨target, _, hexec⟩ | ⟨_, hnoop⟩
    · rw [hσ₁, Engine.apply, hexec]
      exact appendsOn_of_appends (writeValidityAndLedger_appends σ _ _) ⟨hba, hbt⟩ ⟨hba, hbt⟩
    · rw [hnoop bresp hbok] at hbno
      cases hbno
  have hc₁ : c ∈ lineOf σ₁ c := hone.line.symm ▸ hc
  have hlog : assertionsOf σ₂ c.agentId c.claimRef = assertionsOf σ c.agentId c.claimRef ++
      [hostAssertion breq (.bound e granularity) s bref] :=
    (hline.assertions c hc₁).trans hone.assertions
  have hothers : ∀ d ∈ lineOf σ c, d.claimRef ≠ c.claimRef →
      assertionsOf σ₂ c.agentId d.claimRef = assertionsOf σ c.agentId d.claimRef ∧
        entriesOf σ₂ c.agentId none d.claimRef = entriesOf σ c.agentId none d.claimRef := by
    intro d hd hne
    have hd₁ : d ∈ lineOf σ₁ c := hone.line.symm ▸ hd
    obtain ⟨ha, he⟩ := hone.others d hne
    exact ⟨(hline.assertions d hd₁).trans ha, (hline.entries d hd₁).trans he⟩
  have hboundState : toBoundState (hostAssertion breq (.bound e granularity) s bref) ≠ none := by
    simp [toBoundState, hostAssertion]
  rcases execute_reopen_cases σ₂ t rref hreopen with
    ⟨haccepted, hexec⟩ | ⟨hrefused, hexec⟩
  · rw [Engine.apply, hexec] at hτ
    have htwo : AppendsOn c (hostAssertion rreq (.reopen t) t rref)
        (hostEntry rreq .reinstated (reopenRationale t) t) σ₂ τ := by
      rw [hτ]
      exact appendsOn_of_appends (writeValidityAndLedger_appends σ₂ _ _) ⟨hra, hrt⟩ ⟨hra, hrt⟩
    refine ⟨htwo.line.trans (hline.claims.trans hone.line), fun d hd hne => ?_,
      hostAssertion breq (.bound e granularity) s bref,
      hostEntry breq .superseded (hostBoundRationale e) s, rfl, rfl, hboundState, rfl, rfl,
      .inr ⟨?_, hostAssertion rreq (.reopen t) t rref,
        hostEntry rreq .reinstated (reopenRationale t) t, rfl, rfl, rfl, rfl, rfl, ?_, ?_⟩⟩
    · obtain ⟨ha, he⟩ := htwo.others d hne
      exact ⟨ha.trans (hothers d hd hne).1, he.trans (hothers d hd hne).2⟩
    · obtain ⟨b, hb⟩ := haccepted.isBound
      rw [hra, hrt, hlog] at hb
      simp [hb]
    · rw [htwo.assertions, hlog]
    · rw [htwo.entries, hline.entries c hc₁, hone.entries]
  · rw [Engine.apply, hexec] at hτ
    subst hτ
    refine ⟨hline.claims.trans hone.line, hothers,
      hostAssertion breq (.bound e granularity) s bref,
      hostEntry breq .superseded (hostBoundRationale e) s, rfl, rfl, hboundState, rfl, rfl,
      .inl ⟨?_, (hline.entries c hc₁).trans hone.entries⟩⟩
    obtain ⟨hprov, hload⟩ := gates_of_ok hrok
    by_contra hactive
    obtain ⟨b, hb⟩ := Option.ne_none_iff_exists'.mp hactive
    exact hrefused ⟨hprov, hload, b, by rw [hra, hrt, hlog]; exact hb⟩

end Effect

section Main

variable {eng : Engine} {c : Claim} {σ τ υ : Store} {e s t q : Instant}

theorem ties_of_round (h : Round eng c e s t σ τ) : τ.ties = σ.ties := by
  obtain ⟨_, _, _, _, _, _, _, _, _, _, hbound, hrun, _, hreopen⟩ := h.steps
  exact (ties_of_step hreopen).trans ((ties_of_run hrun).trans (ties_of_step hbound))

theorem mem_lineOf (hc : c ∈ σ.claims) : c ∈ lineOf σ c :=
  List.mem_filter.mpr ⟨hc, by simp [onLine]⟩

theorem live_of_reached (h : RoundEffect c e s t σ τ) (hst : s < t) (he : e ≤ t) (hq : t ≤ q)
    (ha : ∀ a ∈ assertionsOf σ c.agentId c.claimRef, a.assertedAt < s)
    (hx : ∀ x ∈ entriesOf σ c.agentId none c.claimRef, x.recordedAt < s) {cutoff : Option Instant}
    (hcut : cutoff = none ∨ cutoff = some q) : (ownRow τ c cutoff q).isLive = true := by
  obtain ⟨a, x, has, hae, habound, hxs, _, hcase⟩ := h.own
  have hactive : activeBoundAt (assertionsOf σ c.agentId c.claimRef ++ [a]) t = toBoundState a := by
    rw [activeBoundAt_concat_of_lt fun b hb => has.symm ▸ ha b hb,
      if_pos ⟨has ▸ le_of_lt hst, hae ▸ he⟩]
  rcases hcase with ⟨hnone, _⟩ | ⟨_, b, y, hbt, hbstated, hbnone, hyt, hyd, has', hes'⟩
  · exact absurd (hactive.symm.trans hnone) habound
  have hentries : ∀ z ∈ entriesOf σ c.agentId none c.claimRef ++ [x], z.recordedAt < t := by
    intro z hz
    rcases List.mem_append.mp hz with hz | hz
    · exact lt_trans (hx z hz) hst
    · rw [List.mem_singleton.mp hz, hxs]
      exact hst
  have hassertions : ∀ z ∈ assertionsOf σ c.agentId c.claimRef ++ [a], z.assertedAt < t := by
    intro z hz
    rcases List.mem_append.mp hz with hz | hz
    · exact lt_trans (ha z hz) hst
    · rw [List.mem_singleton.mp hz, has]
      exact hst
  have hrow : (ownRow τ c none q).isLive = true := by
    rw [rowOf_isLive, has', activeBoundAt_concat_of_lt fun z hz => hbt.symm ▸ hassertions z hz,
      if_pos ⟨hbt ▸ hq, hbstated ▸ hq⟩]
    refine ⟨hbnone, fun d hd => ?_⟩
    rw [latestOf, hes', τ.ties.first_concat_of_lt _ fun z hz => hyt.symm ▸ hentries z hz,
      Option.map_some, hyd] at hd
    cases hd
    rfl
  rcases hcut with rfl | rfl
  · exact hrow
  · have hle : ∀ z ∈ entriesOf τ c.agentId none c.claimRef, z.recordedAt ≤ q := by
      intro z hz
      rw [hes'] at hz
      rcases List.mem_append.mp hz with hz | hz
      · exact le_trans (le_of_lt (hentries z hz)) hq
      · rw [List.mem_singleton.mp hz, hyt]
        exact hq
    rwa [ownRow, rowOf_of_le hle]

theorem not_live_of_unreached (hσ : Reachable eng σ) (h : RoundEffect c e s t σ τ) (hst : s < t)
    (he : t < e) (hq : t ≤ q)
    (ha : ∀ a ∈ assertionsOf σ c.agentId c.claimRef, a.assertedAt < s)
    (hx : ∀ x ∈ entriesOf σ c.agentId none c.claimRef, x.recordedAt < s)
    (hlive : (ownRow σ c none q).isLive = true) : (ownRow τ c none q).isLive ≠ true := by
  obtain ⟨a, x, has, hae, _, hxs, hxd, hcase⟩ := h.own
  have hopen : activeBoundAt (assertionsOf σ c.agentId c.claimRef) t = none := by
    refine activeBoundAt_eq_none_of_le hq (fun b hb hnone => ?_) ((rowOf_isLive ..).mp hlive).1
    have hbt : b.assertedAt ≤ t := le_of_lt (lt_trans (ha b hb) hst)
    exact ⟨hbt, (stated_of_reopen hσ b (mem_assertionsOf.mp hb).1 hnone).symm ▸ hbt⟩
  have hactive : activeBoundAt (assertionsOf σ c.agentId c.claimRef ++ [a]) t = none := by
    rw [activeBoundAt_concat_of_lt fun b hb => has.symm ▸ ha b hb,
      if_neg fun heff => absurd (hae ▸ heff.2) (not_le_of_gt he), hopen]
  rcases hcase with ⟨_, hes'⟩ | ⟨hsome, _⟩
  · intro hl
    have hdisp := ((rowOf_isLive ..).mp hl).2 .superseded (by
      rw [latestOf, hes', τ.ties.first_concat_of_lt _ fun z hz => hxs.symm ▸ hx z hz,
        Option.map_some, hxd])
    cases hdisp
  · exact absurd hactive hsome

theorem restored_of_reached {config : EngineConfig} (hσ : Reachable eng σ) (hc : c ∈ σ.claims)
    (htx : c.transactionTime ≤ q) (hround : Round eng c e s t σ τ) (he : e ≤ t) (hq : t ≤ q)
    (hlive : ∀ cutoff, cutoff = none ∨ cutoff = some q → (ownRow σ c cutoff q).isLive = true) :
    Restored config c σ τ q := by
  have heff := roundEffect_of_round hround (mem_lineOf hc)
  have hlive' : ∀ cutoff, cutoff = none ∨ cutoff = some q →
      (ownRow τ c cutoff q).isLive = true := fun _ hcut =>
    live_of_reached heff hround.later he hq hround.assertions hround.entries hcut
  refine restored_of_alike heff.line (fun cutoff hcut d hd => ?_) hlive'
  by_cases hdc : d.claimRef = c.claimRef
  · have heq : d = c := eq_of_claimRef hσ
      (List.mem_of_mem_filter hd) hc hdc
    subst heq
    have hd' : d ∈ τ.claims := List.mem_of_mem_filter (heff.line.symm ▸ mem_lineOf hc)
    refine alike_of_live hc hd' ?_ (hlive cutoff hcut) (hlive' cutoff hcut)
    rcases hcut with rfl | rfl
    · rfl
    · simpa [withinCutoff] using htx
  · obtain ⟨ha, he⟩ := heff.others d hd hdc
    exact alike_of_same_log (ties_of_round hround) ha he

theorem reachable_of_round (hσ : Reachable eng σ) (h : Round eng c e s t σ τ) :
    Reachable eng τ := by
  obtain ⟨_, _, _, _, _, _, _, _, _, _, hbound, hrun, _, hreopen⟩ := h.steps
  exact (hrun.reach (hσ.step hbound)).step hreopen

/-- Any number of rounds past their bounds restores the line. -/
theorem restored_of_rounds (hσ : Reachable eng σ) (hlive : StillLive eng.config σ c q)
    (h : Rounds eng c q σ τ) :
    Reachable eng τ ∧ c ∈ τ.claims ∧ Restored eng.config c σ τ q := by
  obtain ⟨hmem, hrow⟩ := mem_liveRows.mp hlive.recalled
  obtain ⟨hc, hcut⟩ := mem_claims_of_ownLine hmem
  have htx : c.transactionTime ≤ q := by simpa [withinCutoff] using hcut
  have hrows : ∀ cutoff, cutoff = none ∨ cutoff = some q →
      (ownRow σ c cutoff q).isLive = true := by
    rintro cutoff (rfl | rfl)
    · exact (mem_liveRows.mp hlive.write).2
    · exact hrow
  induction h with
  | nil =>
    exact ⟨hσ, hc, restored_of_alike rfl (fun _ _ _ _ => alike_of_same_log rfl rfl rfl) hrows⟩
  | @idle τ υ ops _ hrun hline ih =>
    obtain ⟨hτ, hcτ, hrest⟩ := ih
    refine ⟨hrun.reach hτ, claims_subset_of_run hrun hcτ, hrest.trans ?_⟩
    have hties := ties_of_run hrun
    refine restored_of_alike hline.claims
      (fun _ _ d hd => alike_of_same_log hties (hline.assertions d hd) (hline.entries d hd)) ?_
    intro cutoff hcut
    have hself : c ∈ lineOf τ c := mem_lineOf hcτ
    have halike : Alike τ υ c.agentId cutoff q c :=
      alike_of_same_log hties (hline.assertions c hself) (hline.entries c hself)
    rw [halike.isLive]
    rcases hcut with rfl | rfl
    · exact hrest.write.live
    · exact hrest.recalled.live
  | @round τ υ e s t _ hround he hq ih =>
    obtain ⟨hτ, hcτ, hrest⟩ := ih
    have heff := roundEffect_of_round hround (mem_lineOf hcτ)
    refine ⟨reachable_of_round hτ hround,
      List.mem_of_mem_filter (heff.line.symm ▸ mem_lineOf hcτ), hrest.trans ?_⟩
    refine restored_of_reached hτ hcτ htx hround he hq ?_
    rintro cutoff (rfl | rfl)
    · exact hrest.write.live
    · exact hrest.recalled.live

/-- After any number of rounds that reopen past their bounds, one more round in stamp
    order restores the line of a live claim exactly when it does too. -/
theorem reopen_undoes_bound_iff (hσ : Reachable eng σ) (hlive : StillLive eng.config σ c q)
    (hrounds : Rounds eng c q σ τ) (hround : Round eng c e s t τ υ) (hq : t ≤ q) :
    Restored eng.config c σ υ q ↔ e ≤ t := by
  obtain ⟨hτ, hc, hrest⟩ := restored_of_rounds hσ hlive hrounds
  constructor
  · intro h
    by_contra he
    have heff := roundEffect_of_round hround (mem_lineOf hc)
    exact not_live_of_unreached hτ heff hround.later (not_le.mp he) hq hround.assertions
      hround.entries hrest.write.live h.write.live
  · intro he
    exact (restored_of_rounds hσ hlive (.round hrounds hround he hq)).2.2

def boundedOnce (σ : Store) (e s t : Instant) (assertionRef : Uuid) : Store :=
  run (defaultEngine false) σ
    [.assertValidity (assertOn 1 (.bound e none)) s assertionRef,
      .assertValidity (assertOn 1 .reopen) t (assertionRef + 1)]

theorem undisturbed_refl (c : Claim) (σ : Store) : Undisturbed c σ σ :=
  ⟨rfl, fun _ _ => rfl, fun _ _ => rfl⟩

theorem two_rounds_restore :
    Restored EngineConfig.default parisClaim justParis
      (boundedOnce (boundedOnce justParis 15 20 30 50) 35 40 50 60) 60 :=
  (reopen_undoes_bound_iff (e := 35) (s := 40) (t := 50)
    (run_reachable (by decide) : Reachable (defaultEngine false) _)
    ⟨by decide, by decide, by decide, by decide⟩
    (.round .nil (e := 15) (s := 20) (t := 30)
      ⟨by decide, by decide, by decide, assertOn 1 (.bound 15 none), assertOn 1 .reopen, 50, 51,
        none, _, _, [], ⟨rfl, rfl, rfl, _, rfl, rfl⟩, ⟨rfl, rfl, rfl, _, rfl⟩,
        ⟨by decide, rfl⟩, .nil _, undisturbed_refl _ _, ⟨by decide, rfl⟩⟩ (by decide) (by decide))
    ⟨by decide, by decide, by decide, assertOn 1 (.bound 35 none), assertOn 1 .reopen, 60, 61,
      none, _, _, [], ⟨rfl, rfl, rfl, _, rfl, rfl⟩, ⟨rfl, rfl, rfl, _, rfl⟩,
      ⟨by decide, rfl⟩, .nil _, undisturbed_refl _ _, ⟨by decide, rfl⟩⟩ (by decide)).mpr (by decide)

theorem reopen_before_bound_restores_nothing :
    let bounded := AssertValidity.execute justParis (assertOn 1 (.bound 100 none)) 20 50
    let reopened := AssertValidity.execute bounded.2 (assertOn 1 .reopen) 30 51
    Reachable (defaultEngine false) justParis ∧
      StillLive EngineConfig.default justParis parisClaim 40 ∧
      (bounded.1.toOption.map (·.noOp)) = some false ∧
      (reopened.1.toOption.map (·.noOp)) = some true ∧
      (ownRow reopened.2 parisClaim (some 40) 40).isLive = false ∧
      ¬ Restored EngineConfig.default parisClaim justParis reopened.2 40 := by
  refine ⟨run_reachable (by decide), ⟨by decide, by decide, by decide, by decide⟩, rfl, rfl,
    by decide, fun h => ?_⟩
  have hlive := h.write.live
  revert hlive
  decide

end Main

end Mempill.BoundRounds
