import Mempill.Answers
import Mempill.CheapPath
import Mempill.WriteGate

set_option autoImplicit false

/-!
# Set-valued lines

When the members of a line that are all ingested as set-valued co-exist.
-/
namespace Mempill.SetValuedLine
open Mempill.Types Mempill.Persistence Mempill.TruthEngine Mempill.ValidTimeHelpers Mempill.Gate
open Mempill.Rows Mempill.IngestClaim Mempill.QueryMemory Mempill.Engine Mempill.Steps
open Mempill.Invariants Mempill.RowEffects Mempill.CheapPath Mempill.WriteGate HalfOpen StampedLog

section Statement

def inLine (line : SubjectLineRef) (claim : Claim) : Bool :=
  onLine line.agentId line.subject line.predicate claim

/-- An external set-valued write to the line whose window is coherent. -/
structure MemberWrite (config : EngineConfig) (line : SubjectLineRef) (req : IngestClaimRequest)
    (now : Instant) (claimRef : ClaimRef) : Prop where
  onLine : (⟨req.agentId, req.subject, req.predicate⟩ : SubjectLineRef) = line
  provenance : req.provenance.isCheapPathEligible = true
  cardinality : req.cardinality = .setValued
  coherent : isTemporallyIncoherent (stamp req claimRef now) config = false

def MemberOp (config : EngineConfig) (line : SubjectLineRef) (_ : Store) : Op → Prop
  | .ingestClaim req now claimRef _ => MemberWrite config line req now claimRef
  | _ => False

/-- The write finds no incumbent, or restates its value without overlapping another
    one, or joins all claims of the line in a trusted succession. -/
def Fits (config : EngineConfig) (σ : Store) (req : IngestClaimRequest) (now : Instant)
    (claimRef : ClaimRef) : Prop :=
  ∀ cs, incumbentRow config σ req now = some cs →
    (req.value = cs.claim.fact.value ∧ ¬ ∃ other ∈ writeCandidates config σ req now,
      Clashes req other) ∨
    isTrustedSuccession (writeGroup config σ req claimRef now)
      config.validTimeConfidenceThreshold = true

/-- The write is not contested: an oracle takes it up, or it fits, or the burst gate
    parks every write. -/
def Joins (eng : Engine) (σ : Store) : Op → Prop
  | .ingestClaim req now claimRef _ =>
    eng.config.quarantineBurstThreshold = 0 ∨ eng.oraclePresent = true ∨
      Fits eng.config σ req now claimRef
  | _ => True

/-- The line is not contested, and every member that is live at the instant of the
    query and not closed by it is offered. -/
structure Coexist (config : EngineConfig) (σ : Store) (line : SubjectLineRef) (now : Instant) :
    Prop where
  uncontested : (recallNow config σ line.agentId line.subject line.predicate now).status ≠
    .contested
  offered : ∀ cs ∈ liveRows (visibleRows config σ line.agentId line.subject line.predicate now),
    (∀ stop, cs.claim.validTime.stop = some stop → now < stop) →
    let answer := recallNow config σ line.agentId line.subject line.predicate now
    cs.claim.claimRef ∈ (answer.primary.toList ++ answer.alternatives).map (·.claimRef)

end Statement

section Invariant

variable (config : EngineConfig) (line : SubjectLineRef) (σ : Store)

def members : List Claim :=
  lineClaims config σ line.agentId line.subject line.predicate none

def contestedMember (claim : Claim) : Prop :=
  latestOf σ line.agentId none claim.claimRef = some .contested

/-- A claim of the line with nothing but the entry of its ingest. -/
structure Member (claim : Claim) : Prop where
  cardinality : claim.cardinality = .setValued
  coherent : isTemporallyIncoherent claim config = false
  assertions : assertionsOf σ line.agentId claim.claimRef = []
  disposition : ∃ d, latestOf σ line.agentId none claim.claimRef = some d ∧
    isNonLiveDisposition d = false

structure MembersLine : Prop where
  member : ∀ claim ∈ members config line σ, Member config line σ claim
  rivals : ∀ claim ∈ members config line σ, contestedMember line σ claim →
    isTrustedSuccession (members config line σ) config.validTimeConfidenceThreshold = false

def NoneContested : Prop := ∀ claim ∈ members config line σ, ¬ contestedMember line σ claim

end Invariant

section Step

variable {eng : Engine} {σ : Store} {line : SubjectLineRef} {req : IngestClaimRequest}
variable {now : Instant} {claimRef : ClaimRef}

theorem rowOf_member {config : EngineConfig} {claim : Claim} (h : Member config line σ claim)
    (asOf : Instant) :
    (rowOf σ line.agentId none asOf claim).isLive = true := by
  obtain ⟨d, hd, hlive⟩ := h.disposition
  have hnone : activeBoundAt [] asOf = none := rfl
  refine (rowOf_isLive σ line.agentId none asOf claim).mpr ⟨by rw [h.assertions, hnone], ?_⟩
  intro d' hd'
  rw [hd] at hd'
  exact Option.some.inj hd' ▸ hlive

theorem liveRows_members {config : EngineConfig} (h : MembersLine config line σ)
    (asOf : Instant) :
    liveRows (lineRows config σ line.agentId line.subject line.predicate none asOf) =
      lineRows config σ line.agentId line.subject line.predicate none asOf := by
  refine List.filter_eq_self.mpr fun cs hcs => ?_
  obtain ⟨c, hc, rfl⟩ := mem_lineRows.mp hcs
  exact rowOf_member (h.member c hc) asOf

/-- On a line of members the writer sees every claim with its own window. -/
theorem writeCandidates_members (h : MembersLine eng.config line σ)
    (hline : (⟨req.agentId, req.subject, req.predicate⟩ : SubjectLineRef) = line) :
    (writeCandidates eng.config σ req now).map candidateClaim = members eng.config line σ := by
  subst hline
  have hall : writeCandidates eng.config σ req now = writeRows eng.config σ req now := by
    refine List.filter_eq_self.mpr fun cs hcs => isCandidate_of_live hcs ?_ _
    have hlive := liveRows_members h now
    exact (mem_liveRows.mp (hlive.symm ▸ hcs)).2
  rw [hall, writeRows, lineRows, List.map_map]
  refine (List.map_congr_left fun c hc => ?_).trans (List.map_id _)
  have hlive := rowOf_member (h.member c hc) now
  simp only [Function.comp_apply, candidateClaim, rowOf_claim, id_eq]
  exact if_pos hlive

theorem contested_iff_not_fits (hσ : Reachable eng σ) (hfresh : Fresh claimRef.uuid σ)
    (hw : MemberWrite eng.config line req now claimRef) :
    (gateDecision eng σ req (stamp req claimRef now) now).disposition = .contested ↔
      ¬ (eng.oraclePresent = true ∨ Fits eng.config σ req now claimRef) := by
  rw [gate_disposition hσ hfresh hw.provenance, hw.coherent, if_neg Bool.false_ne_true]
  have hover := @overlapsDifferentValue_iff σ req claimRef eng now hfresh
  unfold Fits
  cases hrow : incumbentRow eng.config σ req now with
  | none => simp
  | some cs =>
    rw [← hover]
    simp only [Option.some.injEq, forall_eq', Bool.not_eq_true]
    cases eng.oraclePresent <;> split_ifs <;> simp_all

theorem gate_live (hσ : Reachable eng σ) (hfresh : Fresh claimRef.uuid σ)
    (hw : MemberWrite eng.config line req now claimRef) :
    isNonLiveDisposition (gateDecision eng σ req (stamp req claimRef now) now).disposition =
      false := by
  rw [gate_disposition hσ hfresh hw.provenance, hw.coherent, if_neg Bool.false_ne_true]
  cases incumbentRow eng.config σ req now with
  | none => rfl
  | some cs =>
    dsimp only
    split_ifs <;> rfl

section Written

variable {σ' : Store} (hσ : Reachable eng σ) (hfresh : Fresh claimRef.uuid σ)
variable (hw : MemberWrite eng.config line req now claimRef)
variable (happ : Appends σ σ' (ingestWritten (stamp req claimRef now)
  (gateDecision eng σ req (stamp req claimRef now) now) now))

include hw happ in
theorem members_written :
    (members eng.config line σ').Perm (stamp req claimRef now :: members eng.config line σ) := by
  have hline := hw.onLine
  subst hline
  have hin : onLine req.agentId req.subject req.predicate (stamp req claimRef now) = true := by
    simp [onLine, stamp]
  have hload := loadSubjectLine_ingested happ hin (rfl : withinCutoff none _ = true)
  exact (inOrder_perm _ _).trans (hload.trans ((inOrder_perm _ _).symm.cons _))

include hfresh happ in
theorem latestOf_written {claim : Claim} (hc : claim ∈ members eng.config line σ) :
    latestOf σ' line.agentId none claim.claimRef = latestOf σ line.agentId none claim.claimRef ∧
      assertionsOf σ' line.agentId claim.claimRef =
        assertionsOf σ line.agentId claim.claimRef := by
  have hne : claim.claimRef ≠ claimRef := fun heq =>
    Fresh.claim hfresh (mem_lineClaims.mp hc).1 (congrArg ClaimRef.uuid heq)
  have hun : Untouched (ingestWritten (stamp req claimRef now)
      (gateDecision eng σ req (stamp req claimRef now) now) now) line.agentId claim.claimRef :=
    untouched_of_ingested hne
  exact ⟨by rw [latestOf, latestOf, entriesOf_of_untouched happ hun, happ.ties],
    assertionsOf_of_untouched happ hun⟩

include hfresh hw happ in
theorem latestOf_new :
    latestOf σ' line.agentId none claimRef =
      some (gateDecision eng σ req (stamp req claimRef now) now).disposition := by
  have hagent : (stamp req claimRef now).agentId = line.agentId :=
    congrArg SubjectLineRef.agentId hw.onLine
  have hentries := entriesOf_ingested happ hfresh hagent (rfl : withinCutoff none now = true)
  have hentries : entriesOf σ' line.agentId none claimRef = _ := hentries
  rw [latestOf, hentries, TieOrder.first_singleton]
  rfl

include hσ hfresh hw happ in
theorem membersLine_written (h : MembersLine eng.config line σ) :
    MembersLine eng.config line σ' := by
  have hperm := members_written hw happ
  have hsucc := isTrustedSuccession_perm hperm eng.config.validTimeConfidenceThreshold
  constructor
  · intro claim hclaim
    rcases List.mem_cons.mp (hperm.mem_iff.mp hclaim) with rfl | hold
    · exact ⟨hw.cardinality, hw.coherent, assertionsOf_ingested happ hfresh, _,
        latestOf_new hfresh hw happ, gate_live hσ hfresh hw⟩
    · obtain ⟨hlatest, hassertions⟩ := latestOf_written hfresh happ hold
      obtain ⟨hcard, hco, has, hdisp⟩ := h.member claim hold
      exact ⟨hcard, hco, by rw [hassertions, has], by rwa [hlatest]⟩
  · intro claim hclaim hcontested
    rw [hsucc, Bool.eq_false_iff]
    intro hs
    rcases List.mem_cons.mp (hperm.mem_iff.mp hclaim) with rfl | hold
    · -- a contested write did not join the line in a succession
      have hdisp := (latestOf_new hfresh hw happ).symm.trans hcontested
      refine (contested_iff_not_fits hσ hfresh hw).mp (Option.some.inj hdisp) (.inr fun _ _ => ?_)
      right
      rwa [writeGroup, writeCandidates_members h hw.onLine]
    · have hbefore : contestedMember line σ claim := by
        rwa [contestedMember, ← (latestOf_written hfresh happ hold).1]
      have hfalse := h.rivals claim hold hbefore
      rw [isTrustedSuccession_of_cons hs] at hfalse
      cases hfalse

include hσ hfresh hw happ in
theorem noneContested_written :
    NoneContested eng.config line σ' ↔
      NoneContested eng.config line σ ∧
        (eng.oraclePresent = true ∨ Fits eng.config σ req now claimRef) := by
  have hperm := members_written hw happ
  have hnew : contestedMember line σ' (stamp req claimRef now) ↔
      (gateDecision eng σ req (stamp req claimRef now) now).disposition = .contested := by
    have hlatest := latestOf_new hfresh hw happ
    exact ⟨fun h => Option.some.inj (hlatest.symm.trans h), fun h => hlatest.trans (h ▸ rfl)⟩
  unfold NoneContested
  simp only [hperm.mem_iff, List.forall_mem_cons]
  rw [hnew, contested_iff_not_fits hσ hfresh hw, not_not, and_comm]
  refine and_congr_left fun _ => forall₂_congr fun claim hclaim => ?_
  rw [contestedMember, contestedMember, (latestOf_written hfresh happ hclaim).1]

end Written

end Step

section Run

variable {eng : Engine} {σ : Store} {line : SubjectLineRef}

theorem step_members (hσ : Reachable eng σ) {op : Op} (hsup : Supplied σ op)
    (hop : MemberOp eng.config line σ op) (h : MembersLine eng.config line σ) :
    MembersLine eng.config line (apply eng σ op) ∧
      (NoneContested eng.config line (apply eng σ op) ↔
        NoneContested eng.config line σ ∧ Joins eng σ op) := by
  cases op with
  | ingestClaim req now claimRef reply =>
    have hw : MemberWrite eng.config line req now claimRef := hop
    by_cases hburst : eng.config.quarantineBurstThreshold = 0
    · have hsame : apply eng σ (.ingestClaim req now claimRef reply) = σ :=
        execute_of_not_admitted (not_admitted_of_burst hburst)
      rw [hsame]
      exact ⟨h, ⟨fun hn => ⟨hn, .inl hburst⟩, fun hn => hn.1⟩⟩
    · have hadmitted : Admitted eng.config σ req claimRef now :=
        admitted_of_external hw.provenance (Nat.pos_of_ne_zero hburst)
      have happ := ingest_appends hadmitted reply
      refine ⟨membersLine_written hσ hsup hw happ h, ?_⟩
      have hiff : NoneContested eng.config line
          (apply eng σ (.ingestClaim req now claimRef reply)) ↔ _ :=
        noneContested_written hσ hsup hw happ
      rw [hiff, Joins]
      simp only [hburst, false_or]
  | _ => exact hop.elim

/-- Along a run of member writes no member is left contested exactly when every
    write joins. -/
theorem run_members {ops : List Op} (hσ : Reachable eng σ) (h : MembersLine eng.config line σ)
    (hrun : RunnableUnder (MemberOp eng.config line) eng σ ops) :
    MembersLine eng.config line (run eng σ ops) ∧
      (NoneContested eng.config line (run eng σ ops) ↔
        NoneContested eng.config line σ ∧ RunnableUnder (Joins eng) eng σ ops) := by
  induction ops generalizing σ with
  | nil => exact ⟨h, ⟨fun hn => ⟨hn, trivial⟩, fun hn => hn.1⟩⟩
  | cons op ops ih =>
    obtain ⟨⟨hop, hsup⟩, hrest⟩ := hrun
    obtain ⟨hline, hstep⟩ := step_members hσ hsup hop h
    obtain ⟨hfinal, htail⟩ := ih (hσ.step ⟨hsup, rfl⟩) hline hrest
    refine ⟨hfinal, ?_⟩
    have hcons : NoneContested eng.config line (run eng σ (op :: ops)) ↔
        NoneContested eng.config line (run eng (apply eng σ op) ops) := Iff.rfl
    rw [hcons, htail, hstep]
    simp only [RunnableUnder, hsup, and_true, and_assoc]

end Run

section Recall

variable {eng : Engine} {σ : Store} {line : SubjectLineRef} {now : Instant}

theorem not_lt_of_ge {a b : F32} (h : a.ge b = true) : a.lt b = false := by
  cases a <;> cases b <;> simp_all [F32.ge, F32.lt]

theorem start_le_of_coherent {config : EngineConfig} {claim : Claim}
    (hco : isTemporallyIncoherent claim config = false)
    (htrust : claimIsTrusted claim config.validTimeConfidenceThreshold = true) :
    (window claim.validTime).start ≤ claim.transactionTime := by
  obtain ⟨hge, start, hstart⟩ := (claimIsTrusted_iff _ _).mp htrust
  rw [isTemporallyIncoherent, not_lt_of_ge hge, if_neg Bool.false_ne_true, Bool.or_eq_false_iff,
    hstart] at hco
  rw [window_eq hstart]
  simpa using hco.2

theorem offered_of_selected {fold : FoldResult} (ledgerEntries : List LedgerEntry)
    (config : EngineConfig) (contested : Bool) {cs : ClaimWithStatus}
    (h : cs ∈ fold.liveClaims) :
    let answer := project fold ledgerEntries now config contested
    cs.claim.claimRef ∈ (answer.primary.toList ++ answer.alternatives).map (·.claimRef) := by
  match hl : fold.liveClaims with
  | [] => simp [hl] at h
  | [x] =>
    rw [hl, List.mem_singleton] at h
    subst h
    cases hc : fold.hasConflict <;> simp [project, hl, hc]
  | x :: y :: rest =>
    have hmany := project_of_many ledgerEntries now config contested
      (by simp [hl] : 1 < fold.liveClaims.length)
    dsimp only
    rw [hmany.2.1, hmany.2.2]
    simp only [Option.toList_none, List.nil_append, List.map_map]
    exact List.mem_map_of_mem (f := fun cs => (liveBelief now config cs).claimRef) h

theorem visibleRows_members (hnow : StampsBy σ now) (config : EngineConfig) :
    visibleRows config σ line.agentId line.subject line.predicate now =
      (members config line σ).map (rowOf σ line.agentId none now) :=
  lineRows_of_stampsBy hnow config line.agentId line.subject line.predicate now

theorem liveRows_visible {config : EngineConfig} (h : MembersLine config line σ)
    (hnow : StampsBy σ now) :
    liveRows (visibleRows config σ line.agentId line.subject line.predicate now) =
      visibleRows config σ line.agentId line.subject line.predicate now := by
  rw [visibleRows, lineRows_of_stampsBy hnow]
  exact liveRows_members h now

theorem chain_visible_iff {config : EngineConfig} (h : MembersLine config line σ)
    (hnow : StampsBy σ now) :
    Chain config (visibleRows config σ line.agentId line.subject line.predicate now) ↔
      1 < (members config line σ).length ∧
        isTrustedSuccession (members config line σ) config.validTimeConfidenceThreshold =
          true := by
  have hclaims : (visibleRows config σ line.agentId line.subject line.predicate now).map
      (·.claim) = members config line σ := by
    rw [visibleRows_members hnow, List.map_map]
    exact List.map_id _
  rw [Chain, liveRows_visible h hnow, hclaims, ← hclaims, List.length_map]

theorem not_structuralConflict_of_members {config : EngineConfig}
    (h : MembersLine config line σ) (hnow : StampsBy σ now) {live : List ClaimWithStatus}
    (hsub : ∀ cs ∈ live,
      cs ∈ visibleRows config σ line.agentId line.subject line.predicate now) :
    structuralConflict live = false := by
  rw [Bool.eq_false_iff]
  intro hc
  obtain ⟨_, cs, hcs, hcard⟩ := (structuralConflict_iff live).mp hc
  have hrow := hsub cs hcs
  rw [visibleRows_members hnow] at hrow
  obtain ⟨c, hmem, rfl⟩ := List.mem_map.mp hrow
  exact hcard (h.member c hmem).cardinality

/-- On a line of members the recall is contested exactly when some member is. -/
theorem recall_contested_iff (hσ : Reachable eng σ) (h : MembersLine eng.config line σ)
    (hnow : StampsBy σ now) :
    (recallNow eng.config σ line.agentId line.subject line.predicate now).status = .contested ↔
      ¬ NoneContested eng.config line σ := by
  have hnodup := visibleRows_nodup hσ eng.config line.agentId line.subject line.predicate now
  obtain ⟨ledgerEntries, hrecall⟩ :=
    recall_eq_report eng.config σ line.agentId line.subject line.predicate now
  have hconflict : structuralConflict (foldStatuses (visibleRows eng.config σ line.agentId
      line.subject line.predicate now) now eng.config).liveClaims = false :=
    not_structuralConflict_of_members h hnow fun _ hcs => (foldStatuses_subset hnodup now hcs).1
  rw [hrecall, report_contested_iff, hconflict, anyContested_iff]
  simp only [Bool.false_eq_true, or_false, NoneContested, not_forall, not_not, exists_prop]
  by_cases hc : Chain eng.config
      (visibleRows eng.config σ line.agentId line.subject line.predicate now)
  · -- the members are a succession, so none was left contested
    have hsucc := ((chain_visible_iff h hnow).mp hc).2
    refine iff_of_false (fun hlone => ?_) fun hlone => ?_
    · obtain ⟨_, cs, hcs, hd⟩ := hlone
      have hrow := (foldStatuses_subset hnodup now hcs).1
      rw [visibleRows_members hnow] at hrow
      obtain ⟨c, hmem, rfl⟩ := List.mem_map.mp hrow
      have hfalse := h.rivals c hmem hd
      rw [hsucc] at hfalse
      cases hfalse
    · obtain ⟨c, hmem, hd⟩ := hlone
      have hfalse := h.rivals c hmem hd
      rw [hsucc] at hfalse
      cases hfalse
  · rw [foldStatuses_of_not_chain hc, liveRows_visible h hnow, visibleRows_members hnow]
    constructor
    · rintro ⟨_, cs, hcs, hd⟩
      obtain ⟨c, hmem, rfl⟩ := List.mem_map.mp hcs
      exact ⟨c, hmem, hd⟩
    · rintro ⟨c, hmem, hd⟩
      have hin := List.mem_map_of_mem (f := rowOf σ line.agentId none now) hmem
      exact ⟨List.ne_nil_of_mem hin, _, hin, hd⟩

/-- Every live member that is not closed by the query is selected by the fold. -/
theorem open_member_selected (hσ : Reachable eng σ) (h : MembersLine eng.config line σ)
    (hnow : StampsBy σ now) {cs : ClaimWithStatus}
    (hcs : cs ∈ liveRows
      (visibleRows eng.config σ line.agentId line.subject line.predicate now))
    (hopen : ∀ stop, cs.claim.validTime.stop = some stop → now < stop) :
    cs ∈ (foldStatuses (visibleRows eng.config σ line.agentId line.subject line.predicate now)
      now eng.config).liveClaims := by
  have hnodup := visibleRows_nodup hσ eng.config line.agentId line.subject line.predicate now
  by_cases hc : Chain eng.config
      (visibleRows eng.config σ line.agentId line.subject line.predicate now)
  · rw [foldStatuses_of_chain hnodup hc, List.mem_filter, decide_eq_true_iff]
    refine ⟨hcs, ?_⟩
    have hrow := (mem_liveRows.mp hcs).1
    rw [visibleRows_members hnow] at hrow
    obtain ⟨c, hmem, rfl⟩ := List.mem_map.mp hrow
    have htrust := ((isTrustedSuccession_iff _ _).mp ((chain_visible_iff h hnow).mp hc).2).1
    have hstart := start_le_of_coherent (h.member c hmem).coherent (htrust c hmem)
    have htime := hnow.claims c (mem_lineClaims.mp hmem).1
    refine ⟨le_trans hstart htime, ?_⟩
    cases hstop : c.validTime.stop with
    | none => simp [window, hstop, EndsAfter]
    | some stop => simpa [window, hstop, EndsAfter] using hopen stop hstop
  · rwa [foldStatuses_of_not_chain hc]

theorem coexist_iff_noneContested (hσ : Reachable eng σ) (h : MembersLine eng.config line σ)
    (hnow : StampsBy σ now) :
    Coexist eng.config σ line now ↔ NoneContested eng.config line σ := by
  have hiff := recall_contested_iff hσ h hnow
  constructor
  · intro hco
    by_contra hnone
    exact hco.uncontested (hiff.mpr hnone)
  · intro hnone
    refine ⟨fun hstatus => hiff.mp hstatus hnone, fun cs hcs hopen => ?_⟩
    obtain ⟨ledgerEntries, hrecall⟩ :=
      recall_eq_report eng.config σ line.agentId line.subject line.predicate now
    rw [hrecall]
    exact offered_of_selected _ _ _ (open_member_selected hσ h hnow hcs hopen)

end Recall

section Main

variable {eng : Engine} {σ : Store} {line : SubjectLineRef}

theorem membersLine_of_empty (config : EngineConfig)
    (hempty : ∀ claim ∈ σ.claims, inLine line claim = false) :
    MembersLine config line σ ∧ NoneContested config line σ := by
  have hnone : members config line σ = [] := by
    rw [List.eq_nil_iff_forall_not_mem]
    intro claim hclaim
    obtain ⟨hmem, hline, _⟩ := mem_lineClaims.mp hclaim
    have hfalse := hempty claim hmem
    rw [inLine, hline] at hfalse
    cases hfalse
  refine ⟨⟨?_, ?_⟩, ?_⟩ <;> simp [hnone, NoneContested]

/-- From any reachable store without claims on the line, a run of member writes
    leaves members that co-exist exactly when every write joins the line as it
    finds it. -/
theorem set_valued_members_coexist_iff (hσ : Reachable eng σ)
    (hempty : ∀ claim ∈ σ.claims, inLine line claim = false) {ops : List Op}
    (hrun : RunnableUnder (MemberOp eng.config line) eng σ ops) {now : Instant}
    (hnow : StampsBy (run eng σ ops) now) :
    Coexist eng.config (run eng σ ops) line now ↔ RunnableUnder (Joins eng) eng σ ops := by
  obtain ⟨hline, hnone⟩ := membersLine_of_empty eng.config hempty
  obtain ⟨hfinal, hiff⟩ := run_members hσ hline hrun
  have hreach : Reachable eng (run eng σ ops) := (run_run hrun.runnable).reach hσ
  rw [coexist_iff_noneContested hreach hfinal hnow, hiff]
  exact ⟨fun h => h.2, fun h => ⟨hnone, h⟩⟩

def userLine : SubjectLineRef := ⟨agent, "user", "location"⟩

def memberOf (value : String) (validTime : Option ValidTime) : IngestClaimRequest :=
  { remember value validTime with cardinality := .setValued }

def succeedingMembers : List Op :=
  [.ingestClaim (memberOf "Paris" (some (dated 1 (some 5)))) 10 ⟨1⟩ (.ok 0),
    .ingestClaim (memberOf "Berlin" (some (dated 5 none))) 20 ⟨2⟩ (.ok 0)]

theorem succeeding_members_coexist :
    Coexist EngineConfig.default (run (defaultEngine false) Store.sqlite succeedingMembers)
      userLine 30 := by
  have hrun : RunnableUnder (MemberOp (defaultEngine false).config userLine)
      (defaultEngine false) Store.sqlite succeedingMembers :=
    ⟨⟨⟨rfl, rfl, rfl, by decide⟩, by decide⟩, ⟨⟨rfl, rfl, rfl, by decide⟩, by decide⟩, trivial⟩
  have hnow : StampsBy (run (defaultEngine false) Store.sqlite succeedingMembers) 30 :=
    ⟨by decide, by decide, by decide⟩
  refine (set_valued_members_coexist_iff (.init Store.new_sqlite) (by simp [Store.empty]) hrun
    hnow).mpr ⟨⟨.inr (.inr fun _ h => nomatch h), by decide⟩, ?_⟩
  exact ⟨⟨.inr (.inr fun _ _ => .inr (by decide)), by decide⟩, trivial⟩

theorem overlapping_members_contested :
    let ops : List Op := [.ingestClaim (memberOf "Paris" (some (dated 1 none))) 10 ⟨1⟩ (.ok 0),
      .ingestClaim (memberOf "Berlin" (some (dated 5 none))) 20 ⟨2⟩ (.ok 0)]
    RunnableUnder (MemberOp EngineConfig.default userLine) (defaultEngine false) Store.sqlite
        ops ∧
      (recallNow EngineConfig.default (run (defaultEngine false) Store.sqlite ops) agent "user"
        "location" 30).status = .contested ∧
      ¬ Coexist EngineConfig.default (run (defaultEngine false) Store.sqlite ops) userLine 30 :=
  ⟨⟨⟨⟨rfl, rfl, rfl, by decide⟩, by decide⟩, ⟨⟨rfl, rfl, rfl, by decide⟩, by decide⟩, trivial⟩,
    by decide, fun h => h.uncontested (by decide)⟩

end Main

end Mempill.SetValuedLine
