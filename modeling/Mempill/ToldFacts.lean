import Mempill.CallNotes
import Mempill.WriteGate

set_option autoImplicit false

/-!
# Told facts

That recall shows what it was told to remember: nothing else, nothing altered, and
under the plain calls nothing hidden.
-/
namespace Mempill.ToldFacts
open Mempill.Types Mempill.Persistence Mempill.TruthEngine Mempill.Rows Mempill.IngestClaim
open Mempill.Gate Mempill.Engine Mempill.Steps Mempill.RowEffects Mempill.WriteGate
open Mempill.ShownFacts Mempill.CallNotes
open Mempill.Ergonomic hiding MempillDxError
open StampedLog Transition

section Statement

variable (dates : DateTexts)

/-- The detail is what the builder was given, with its dates as they parse. -/
structure Tells (b : IngestClaimRequestBuilder) (d : BeliefDetail) : Prop where
  value : d.value = b.value
  validFrom : parseEndpoint dates b.validFrom = .ok (d.validFrom, d.validFromGranularity)
  validUntil : parseEndpoint dates b.validUntil = .ok (d.validUntil, d.validUntilGranularity)
  coherent : ∀ s ∈ d.validFrom, ∀ e ∈ d.validUntil, s < e
  confidence : d.valueConfidence = b.confidence.getD certain
  provenance : d.provenance = provenanceLabelStr (b.provenance.getD (.external .userAsserted))

/-- What a call answers that stored a fact: a receipt of it, or a failure of the oracle or
    of the pending store, which come after the write. -/
def Acknowledges (r : ClaimRef) : Reply → Prop
  | .receipt (.ok receipt) => receipt.claimRef = r
  | .receipt (.error e) => e = .dx (.engine .pendingStore) ∨
    ∃ reason, e = .dx (.engine (.oracleError reason))
  | _ => False

/-- A call of the log told of the fact, on its line. -/
def Told (log : List (Call × Reply)) (agentId : AgentId) (subject predicate : String)
    (d : BeliefDetail) : Prop :=
  ∃ b now oracleReply reply, (Call.remember b now d.claimRef oracleReply, reply) ∈ log ∧
    Acknowledges d.claimRef reply ∧ b.agentId = agentId ∧ b.subject = subject ∧
    b.predicate = predicate ∧ Tells dates b d

/-- A remembered fact goes through `remember`, not through a builder of the caller's. -/
def Plain : Call → Prop
  | .remember b _ _ _ =>
    ∃ agentId subject predicate value opts,
      b = rememberBuilder agentId subject predicate value opts
  | _ => True

end Statement

section Build

variable {dates : DateTexts} {b : IngestClaimRequestBuilder} {req : IngestClaimRequest}

theorem checkCoherent_ok {start stop : Option Instant}
    (h : checkCoherent dates start stop = .ok ()) : ∀ s ∈ start, ∀ e ∈ stop, s < e := by
  rintro s rfl e rfl
  by_contra hle
  rw [checkCoherent, if_pos (not_lt.mp hle)] at h
  cases h

/-- What a built request carries of its builder. -/
theorem build_ok (h : build dates b = .ok req) :
    ∃ start startGranularity stop stopGranularity,
      parseEndpoint dates b.validFrom = .ok (start, startGranularity) ∧
      parseEndpoint dates b.validUntil = .ok (stop, stopGranularity) ∧
      (∀ s ∈ start, ∀ e ∈ stop, s < e) ∧
      req =
        { agentId := b.agentId
          subject := b.subject
          predicate := b.predicate
          value := b.value
          provenance := b.provenance.getD (.external .userAsserted)
          cardinality := b.cardinality.getD .functional
          validTime :=
            if b.validFrom.isSome || b.validUntil.isSome then
              some ⟨start, stop, b.confidence.getD certain, startGranularity, stopGranularity⟩
            else none
          confidence := ⟨b.confidence.getD certain,
            if b.validFrom.isSome || b.validUntil.isSome then b.confidence.getD certain
            else .ofScaled 0⟩
          criticality := b.criticality.getD .medium
          derivedFrom := b.derivedFrom } := by
  unfold build at h
  cases hstart : parseEndpoint dates b.validFrom with
  | error e =>
    rw [hstart] at h
    cases h
  | ok start =>
    cases hstop : parseEndpoint dates b.validUntil with
    | error e =>
      rw [hstart, hstop] at h
      cases h
    | ok stop =>
      cases hcheck : checkCoherent dates start.1 stop.1 with
      | error e =>
        simp only [hstart, hstop, bind, Except.bind, hcheck] at h
        cases h
      | ok _ =>
        simp only [hstart, hstop, bind, Except.bind, hcheck] at h
        refine ⟨start.1, start.2, stop.1, stop.2, rfl, rfl, checkCoherent_ok hcheck, ?_⟩
        rw [← Except.ok.inj h]
        split <;> rfl

theorem tells_of_build (h : build dates b = .ok req) (claimRef : ClaimRef) (now : Instant) :
    Tells dates b (detailOf (stamp req claimRef now)) := by
  obtain ⟨start, startGranularity, stop, stopGranularity, hstart, hstop, hcoherent, rfl⟩ :=
    build_ok h
  by_cases hdates : (b.validFrom.isSome || b.validUntil.isSome) = true
  · simp only [detailOf, stamp, if_pos hdates, Option.getD_some]
    exact ⟨rfl, hstart, hstop, hcoherent, rfl, rfl⟩
  · -- without dates the window is the unknown one
    simp only [Bool.or_eq_true, not_or, Bool.not_eq_true, Option.isSome_eq_false_iff,
      Option.isNone_iff_eq_none] at hdates
    obtain ⟨hfrom, huntil⟩ := hdates
    simp only [detailOf, stamp, hfrom, huntil, Option.isSome_none, Bool.or_self,
      Bool.false_eq_true, if_false, Option.getD_none, unknownValidTime]
    refine ⟨rfl, by rw [hfrom]; rfl, by rw [huntil]; rfl, fun s hs => ?_, rfl, rfl⟩
    cases hs

end Build

section Origin

variable {dates : DateTexts} {config : EngineConfig} {notes : List Note}
variable {log : List (Call × Reply)}

/-- The call remembers the claim, and its reply tells so. -/
def Remembers (dates : DateTexts) (config : EngineConfig) (exchange : Call × Reply)
    (claim : Claim) : Prop :=
  ∃ b now claimRef oracleReply req result,
    exchange = (.remember b now claimRef oracleReply, .receipt result) ∧
      build dates b = .ok req ∧ storedAs config req result ≠ none ∧
      claim = stamp req claimRef now

theorem claims_amend (agentId : AgentId) (r : ClaimRef) (entry : Instant × Disposition)
    (assertion : ValidityAssertion) :
    (amend notes agentId r entry assertion).map (·.claim) = notes.map (·.claim) := by
  rw [amend, List.map_map]
  refine List.map_congr_left fun n _ => ?_
  simp only [Function.comp_apply]
  split <;> rfl

theorem remembers_of_noted (notes : List Note) (exchange : Call × Reply) (claim : Claim)
    (h : claim ∈ (noted dates config notes exchange).map (·.claim)) :
    Remembers dates config exchange claim ∨ claim ∈ notes.map (·.claim) := by
  unfold noted at h
  split at h
  case h_1 b now claimRef oracleReply result =>
    cases hbuild : build dates b with
    | error e =>
      simp only [hbuild] at h
      exact .inr h
    | ok req =>
      simp only [hbuild] at h
      cases hstored : storedAs config req result with
      | none =>
        rw [hstored] at h
        exact .inr h
      | some disposition =>
        rw [hstored, List.map_append] at h
        rcases List.mem_append.mp h with h | h
        · exact .inr h
        · have hstored : storedAs config req result ≠ none := by simp [hstored]
          exact .inl ⟨b, now, claimRef, oracleReply, req, result, rfl, hbuild, hstored,
            List.mem_singleton.mp h⟩
  case h_2 =>
    split at h
    · exact .inr h
    · exact .inr (claims_amend .. ▸ h)
  case h_3 =>
    split at h
    · exact .inr h
    · split at h
      · exact .inr h
      · exact .inr (claims_amend .. ▸ h)
  case h_4 => exact .inr h

theorem remembers_of_mem {n : Note} (h : n ∈ notesOf dates config log) :
    ∃ exchange ∈ log, Remembers dates config exchange n.claim :=
  exists_of_foldl (P := fun (claim : Claim) (notes : List Note) => claim ∈ notes.map (·.claim))
    (fun _ => List.not_mem_nil) remembers_of_noted log (List.mem_map_of_mem h)

theorem error_of_executeAdmitted {eng : Engine} {σ : Store} {req : IngestClaimRequest}
    {claim : Claim} {now : Instant} {oracleReply : Except String Uuid} {e : MemError}
    (h : (executeAdmitted eng σ req claim now oracleReply).1 = .error e) :
    e = .pendingStore ∨ ∃ reason, e = .oracleError reason := by
  unfold executeAdmitted at h
  dsimp only at h
  split at h
  · split at h
    · cases h
    · split at h
      · exact .inr ⟨_, (Except.error.inj h).symm⟩
      · split at h
        · exact .inl (Except.error.inj h).symm
        · cases h
  · cases h

/-- An admitted request that is answered with an error has failed after its write. -/
theorem acknowledged_of_admitted {eng : Engine} {σ : Store} {b : IngestClaimRequestBuilder}
    {req : IngestClaimRequest} {now : Instant} {claimRef : ClaimRef}
    (hbuild : build dates b = .ok req) (hadmitted : Admitted eng.config σ req claimRef now)
    (oracleReply : Except String Uuid) :
    Acknowledges claimRef (.receipt (ingestBuilt dates eng σ b now claimRef oracleReply).1) := by
  have hexec : IngestClaim.execute eng σ req now claimRef oracleReply =
      executeAdmitted eng σ req (stamp req claimRef now) now oracleReply :=
    execute_of_admitted hadmitted
  simp only [ingestBuilt, hbuild, hexec]
  rcases hanswer : executeAdmitted eng σ req (stamp req claimRef now) now oracleReply with
    ⟨e | resp, _⟩
  · rcases error_of_executeAdmitted (congrArg Prod.fst hanswer) with rfl | ⟨reason, rfl⟩
    · exact .inl rfl
    · exact .inr ⟨reason, rfl⟩
  · rw [executeAdmitted_ok (congrArg Prod.fst hanswer)]
    rfl

end Origin

section Main

variable {dates : DateTexts} {eng : Engine} {σ : Store} {log : List (Call × Reply)}
variable {ties : TieOrder LedgerEntry} {agentId : AgentId} {subject predicate : String}
variable {now : Instant}

/-- Every stored claim was remembered by a call, which acknowledged it. -/
theorem remembered_of_stored (h : Run (Serves dates eng) (Store.empty ties) log σ)
    {claim : Claim} (hclaim : claim ∈ σ.claims) :
    ∃ b at_ claimRef oracleReply req reply,
      (Call.remember b at_ claimRef oracleReply, reply) ∈ log ∧ Acknowledges claimRef reply ∧
        build dates b = .ok req ∧ claim = stamp req claimRef at_ := by
  rw [(recorded_of_run h).claims] at hclaim
  obtain ⟨n, hn, rfl⟩ := List.mem_map.mp hclaim
  obtain ⟨_, hlog, b, at_, claimRef, oracleReply, req, result, rfl, hbuild, hstored, hstamp⟩ :=
    remembers_of_mem hn
  refine ⟨b, at_, claimRef, oracleReply, req, _, hlog, ?_, hbuild, hstamp⟩
  obtain ⟨before, u, v, hbefore, _, hperform⟩ := h.exists_of_mem hlog
  have hadmitted : Admitted eng.config u req claimRef at_ := by
    rw [(recorded_of_run hbefore).admitted_iff]
    unfold storedAs at hstored
    split_ifs at hstored with hburst hreentry
    · exact absurd rfl hstored
    · exact absurd rfl hstored
    · exact ⟨hburst, Bool.eq_false_iff.mpr hreentry⟩
  obtain rfl := Reply.receipt.inj (Prod.mk.inj hperform).1
  exact acknowledged_of_admitted hbuild hadmitted oracleReply

theorem mem_rows_of_inForce {config : EngineConfig} {rows : List ClaimWithStatus}
    {cs : ClaimWithStatus} (h : cs ∈ inForce config rows now) : cs ∈ rows := by
  unfold inForce at h
  split at h
  · exact (mem_liveRows.mp (List.mem_of_mem_filter h)).1
  · exact (mem_liveRows.mp h).1

/-- Every fact that is in force on a line was told there. -/
theorem told_of_inForce (h : Run (Serves dates eng) (Store.empty ties) log σ)
    {cs : ClaimWithStatus}
    (hcs : cs ∈ inForce eng.config (visibleRows eng.config σ agentId subject predicate now) now) :
    Told dates log agentId subject predicate (detailOf cs.claim) ∧
      ((∀ exchange ∈ log, Plain exchange.1) → cs.claim.cardinality = .functional) := by
  obtain ⟨claim, hclaim, rfl⟩ := mem_lineRows.mp (mem_rows_of_inForce hcs)
  obtain ⟨hstored, hline, _⟩ := mem_lineClaims.mp hclaim
  obtain ⟨b, at_, claimRef, oracleReply, req, reply, hlog, hack, hbuild, rfl⟩ :=
    remembered_of_stored h hstored
  simp only [onLine, stamp, Bool.and_eq_true, beq_iff_eq] at hline
  obtain ⟨⟨hagent, hsubject⟩, hpredicate⟩ := hline
  obtain ⟨_, _, _, _, _, _, _, hreq⟩ := build_ok hbuild
  refine ⟨⟨b, at_, oracleReply, reply, hlog, hack, ?_, ?_, ?_,
    tells_of_build hbuild claimRef at_⟩, fun hplain => ?_⟩
  · rw [← hagent, hreq]
  · rw [← hsubject, hreq]
  · rw [← hpredicate, hreq]
  · obtain ⟨_, _, _, _, _, hb⟩ := hplain _ hlog
    change req.cardinality = .functional
    rw [hreq, hb, rememberBuilder_eq]
    rfl

/-- Whatever calls were made, each fact that a recall shows was told on its line, with the
    value, dates, confidence and provenance shown, and acknowledged; and where facts go
    through `remember` alone, all that is in force is shown. -/
theorem shown_facts_were_told (h : Run (Serves dates eng) (Store.empty ties) log σ)
    (agentId : AgentId) (subject predicate : String) (now : Instant) :
    let recalled := recallLine eng.config σ agentId subject predicate now
    let rows := visibleRows eng.config σ agentId subject predicate now
    (∀ d ∈ recalled.shown, Told dates log agentId subject predicate d) ∧
      ((∀ exchange ∈ log, Plain exchange.1) →
        recalled.shown = (inForce eng.config rows now).map (fun cs => detailOf cs.claim) ∧
          (recalled.isEmpty = true ↔ recalled.shown = [])) := by
  intro recalled rows
  have hshows : ShowsInForce eng.config rows now recalled :=
    recall_shows_live_claims (recorded_of_run h).reachable _ _ _ _ _
  refine ⟨fun d hd => ?_, fun hplain => ?_⟩
  · rw [hshows.shown] at hd
    split at hd
    · cases hd
    · obtain ⟨cs, hcs, rfl⟩ := List.mem_map.mp hd
      exact (told_of_inForce h hcs).1
  · have hnot : ¬ Coexisting eng.config rows now := by
      intro hco
      obtain ⟨cs, hcs⟩ := List.exists_mem_of_length_pos (lt_trans Nat.zero_lt_one hco.many)
      have hfunctional := (told_of_inForce h hcs).2 hplain
      rw [hco.members cs hcs] at hfunctional
      cases hfunctional
    have hshown := hshows.shown
    rw [if_neg hnot] at hshown
    refine ⟨hshown, ?_⟩
    rw [hshows.empty, hshown, List.map_eq_nil_iff]

/-- The calls of a stay that was ended and of the next one. -/
theorem stays_were_told :
    let told := converse calendar (defaultEngine false) Store.sqlite
      [parisCall, stayEnds, berlinCall]
    let recalled := recallLine EngineConfig.default told.2 agent "user" "location" (newYear + 40)
    (∀ d ∈ recalled.shown, Told calendar told.1 agent "user" "location" d) ∧
      recalled.shown.map (·.claimRef.uuid) = [2] := by
  intro told recalled
  have hrun : Run (Serves calendar (defaultEngine false)) Store.sqlite told.1 told.2 :=
    run_converse (by decide +kernel)
  exact ⟨(shown_facts_were_told hrun agent "user" "location" (newYear + 40)).1,
    by decide +kernel⟩

end Main

section Fresh

variable {dates : DateTexts} {eng : Engine} {σ : Store} {b : IngestClaimRequestBuilder}
variable {req : IngestClaimRequest} {now later : Instant} {claimRef : ClaimRef}
variable {oracleReply : Except String Uuid}

/-- The result is the fact that was remembered. -/
structure Recalled (dates : DateTexts) (b : IngestClaimRequestBuilder) (claimRef : ClaimRef)
    (r : RecallResult) : Prop where
  primary : ∃ d, r.primary = some d ∧ d.claimRef = claimRef ∧ Tells dates b d
  value : r.value = some b.value
  candidates : r.candidates = []

/-- The start is trusted, and lies after the clock. -/
def Foretold (config : EngineConfig) (req : IngestClaimRequest) (now : Instant) : Prop :=
  ∃ vt ∈ req.validTime, vt.validTimeConfidence.lt config.validTimeConfidenceThreshold = false ∧
    ∃ s ∈ vt.start, now < s

/-- A built request is in order, so only its start can make it incoherent. -/
theorem incoherent_iff_foretold (hbuild : build dates b = .ok req) :
    isTemporallyIncoherent (stamp req claimRef now) eng.config = true ↔
      Foretold eng.config req now := by
  obtain ⟨start, startGranularity, stop, stopGranularity, _, _, hcoherent, rfl⟩ :=
    build_ok hbuild
  by_cases hdates : (b.validFrom.isSome || b.validUntil.isSome) = true
  case neg => simp [isTemporallyIncoherent, Foretold, stamp, hdates, unknownValidTime]
  simp only [isTemporallyIncoherent, Foretold, stamp, if_pos hdates, Option.getD_some,
    Option.mem_def, Option.some.injEq, exists_eq_left']
  cases (b.confidence.getD certain).lt eng.config.validTimeConfidenceThreshold with
  | true => simp
  | false =>
    cases start with
    | none => cases stop <;> simp
    | some s =>
      cases stop with
      | none => simp
      | some e =>
        have hlt : s < e := hcoherent s rfl e rfl
        simp [not_lt_of_gt hlt]

/-- The row that an accepted fact has alone on its line. -/
def firstRow (claim : Claim) (disposition : Disposition) : ClaimWithStatus where
  claim := claim
  isLive := !isNonLiveDisposition disposition
  lastDisposition := some disposition
  boundAt := none
  boundAtGranularity := none

theorem lineRows_of_empty {config : EngineConfig} {agentId : AgentId} {subject predicate : String}
    (hline : ∀ c ∈ σ.claims, onLine agentId subject predicate c = false)
    (cutoff : Option Instant) (asOf : Instant) :
    lineRows config σ agentId subject predicate cutoff asOf = [] := by
  rw [List.eq_nil_iff_forall_not_mem]
  intro cs hcs
  obtain ⟨c, hc, _⟩ := mem_lineRows.mp hcs
  obtain ⟨hmem, hon, _⟩ := mem_lineClaims.mp hc
  rw [hline c hmem] at hon
  cases hon

theorem visibleRows_first (hfresh : Fresh claimRef.uuid σ)
    (hadmitted : Admitted eng.config σ req claimRef now)
    (hline : ∀ c ∈ σ.claims, onLine req.agentId req.subject req.predicate c = false)
    (hlater : now ≤ later) (oracleReply : Except String Uuid) :
    visibleRows eng.config (IngestClaim.execute eng σ req now claimRef oracleReply).2 req.agentId
        req.subject req.predicate later =
      [firstRow (stamp req claimRef now)
        (gateDecision eng σ req (stamp req claimRef now) now).disposition] := by
  have happ := ingest_appends hadmitted oracleReply
  have hon : onLine req.agentId req.subject req.predicate (stamp req claimRef now) = true := by
    simp [onLine, stamp]
  have hcut : withinCutoff (some later) now = true := decide_eq_true hlater
  have hperm := lineRows_ingested eng.config later happ hfresh hon hcut
  have hagent : (stamp req claimRef now).agentId = req.agentId := rfl
  have hrow := rowOf_ingested happ hfresh hagent hcut later
  rw [lineRows_of_empty hline, hrow] at hperm
  exact List.perm_singleton.mp hperm

/-- The first fact of a line is accepted, or quarantined. -/
theorem gate_first (hσ : Reachable eng σ) (hfresh : Fresh claimRef.uuid σ)
    (hprov : req.provenance.isCheapPathEligible = true)
    (hline : ∀ c ∈ σ.claims, onLine req.agentId req.subject req.predicate c = false) :
    (gateDecision eng σ req (stamp req claimRef now) now).disposition =
      if isTemporallyIncoherent (stamp req claimRef now) eng.config then .quarantined
      else .committedCheap := by
  have hrows : writeRows eng.config σ req now = [] := lineRows_of_empty hline none now
  have hincumbent : incumbentRow eng.config σ req now = none := by
    have hcandidates : writeCandidates eng.config σ req now = [] := by
      rw [writeCandidates, candidateRows, lineRows_of_empty hline]
      rfl
    rw [incumbentRow, hrows, hcandidates]
    rfl
  rw [gate_disposition hσ hfresh hprov, hincumbent]

/-- The call above as a request. -/
def parisRequest : IngestClaimRequest where
  agentId := agent
  subject := "user"
  predicate := "location"
  value := .str "Paris"
  provenance := .external .userAsserted
  cardinality := .functional
  validTime := some ⟨some (1104537600 * 10 ^ 9), none, certain, some .year, none⟩
  confidence := ⟨certain, certain⟩
  criticality := .medium
  derivedFrom := []

end Fresh

end Mempill.ToldFacts
