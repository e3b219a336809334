import Mempill.HistoryAgreement
import Mempill.LenientDates
import Mempill.Lib.RowTable
import Mempill.RowEffects
import Mempill.ShownFacts

set_option autoImplicit false

/-!
# Call notes

What the surroundings of the engine can note of each ergonomic call, of the identifier
and the clock that it is given and of its reply, and that recall and history answer
from these notes.
-/
namespace Mempill.CallNotes
open Mempill.Types Mempill.Persistence Mempill.TruthEngine Mempill.Rows Mempill.IngestClaim
open Mempill.QueryHistory Mempill.AssertValidity Mempill.EndFact Mempill.Engine Mempill.Steps
open Mempill.Invariants Mempill.RowEffects Mempill.HistoryAgreement Mempill.ShownFacts
open Mempill.Ergonomic hiding MempillDxError
open StampedLog Transition

section Calls

/-- A write of the facade with what its surroundings supply. An ending resolves its line on
    an earlier store, which is left open. -/
inductive Call where
  | remember (b : IngestClaimRequestBuilder) (now : Instant) (claimRef : ClaimRef)
      (oracleReply : Except String Uuid)
  | assertValidity (req : AssertValidityRequest) (now : Instant) (assertionRef : Uuid)
  | endFact (seen : Store) (resolvedAt : Instant) (req : EndFactRequest) (now : Instant)
      (assertionRef : Uuid)

inductive Reply where
  | receipt (result : Except Ergonomic.MempillDxError RememberReceipt)
  | response (result : Except MemError AssertValidityResponse)
  | ended (result : Except EndFact.MempillDxError EndFactReceipt)

variable (dates : DateTexts) (eng : Engine)

def perform (σ : Store) : Call → Reply × Store
  | .remember b now claimRef oracleReply =>
    let (result, σ') := ingestBuilt dates eng σ b now claimRef oracleReply
    (.receipt result, σ')
  | .assertValidity req now assertionRef =>
    let (result, σ') := AssertValidity.execute σ req now assertionRef
    (.response result, σ')
  | .endFact seen resolvedAt req now assertionRef =>
    let (result, σ') := endFact dates.parseValidTimeDate eng.config seen resolvedAt σ req now
      assertionRef
    (.ended result, σ')

def FreshFor (σ : Store) : Call → Prop
  | .remember _ _ claimRef _ => Fresh claimRef.uuid σ
  | .assertValidity _ _ assertionRef => Fresh assertionRef σ
  | .endFact _ _ _ _ assertionRef => Fresh assertionRef σ

/-- One call, answered. -/
def Serves (σ : Store) (exchange : Call × Reply) (σ' : Store) : Prop :=
  FreshFor σ exchange.1 ∧ perform dates eng σ exchange.1 = (exchange.2, σ')

end Calls

section Notes

/-- A fact that was accepted, with the dispositions and the assertions it was told of. -/
structure Note where
  claim : Claim
  entries : List (Instant × Disposition)
  assertions : List ValidityAssertion

def toldOf (e : LedgerEntry) : Instant × Disposition := (e.recordedAt, e.disposition)

/-- Ledger entries that are told so are listed in this order. -/
def Lists (ties : TieOrder LedgerEntry) (told listed : List (Instant × Disposition)) : Prop :=
  ∃ es, es.map toldOf = told ∧ (ties.arrange es).map toldOf = listed

/-- For each note its entries, in the order in which the store lists them. -/
def Listing : Type := Note → List (Instant × Disposition)

namespace Note

variable (listing : Listing)

def latest (n : Note) (cutoff : Option Instant) : Option Disposition :=
  (firstMax Prod.fst ((listing n).filter fun e => withinCutoff cutoff e.1)).map Prod.snd

/-- The status of the fact, from its own note. -/
def row (cutoff : Option Instant) (asOf : Instant) (n : Note) : ClaimWithStatus :=
  claimStatus (fun _ => n.assertions) asOf (fun _ => n.latest listing cutoff) n.claim

def tell (n : Note) (entry : Instant × Disposition) (assertion : ValidityAssertion) : Note :=
  { n with entries := n.entries ++ [entry], assertions := n.assertions ++ [assertion] }

end Note

/-- An assertion that took effect is noted with its fact, and with no other. -/
def amend (notes : List Note) (agentId : AgentId) (r : ClaimRef) (entry : Instant × Disposition)
    (assertion : ValidityAssertion) : List Note :=
  notes.map fun n =>
    if agentId == n.claim.agentId && r == n.claim.claimRef then n.tell entry assertion else n

/-- The disposition of a request that was stored. The burst gate stores nothing, and a
    re-entry that names a parent restates it. A request is stored too where the oracle, or
    the pending store behind it, fails. -/
def storedAs (config : EngineConfig) (req : IngestClaimRequest)
    (result : Except Ergonomic.MempillDxError RememberReceipt) : Option Disposition :=
  if config.quarantineBurstThreshold = 0 then none
  else if req.provenance.isRecallReentry && !req.derivedFrom.isEmpty then none
  else match result with
    | .ok receipt => some receipt.disposition
    | .error _ => some .queuedForAdjudication

variable (dates : DateTexts) (config : EngineConfig)

/-- The notes after a call. No table is read for them. -/
def noted (notes : List Note) : Call × Reply → List Note
  | (.remember b now claimRef _, .receipt result) =>
    match build dates b with
    | .error _ => notes
    | .ok req =>
      match storedAs config req result with
      | none => notes
      | some disposition => notes ++ [⟨stamp req claimRef now, [(now, disposition)], []⟩]
  | (.assertValidity req now assertionRef, .response (.ok resp)) =>
    if resp.noOp then notes
    else amend notes req.agentId resp.claimRef (now, resp.disposition)
      (hostAssertion req resp.kind now assertionRef)
  | (.endFact _ _ req now assertionRef, .ended (.ok receipt)) =>
    match dates.parseValidTimeDate req.at_ with
    | none => notes
    | some (_, atGran) =>
      if receipt.noOp then notes
      else amend notes req.agentId receipt.claimRef (now, receipt.disposition)
        (hostAssertion (boundRequest req receipt.claimRef receipt.effectiveAt atGran)
          (.bound receipt.effectiveAt (some atGran)) now assertionRef)
  | _ => notes

def notesOf (log : List (Call × Reply)) : List Note := log.foldl (noted dates config) []

variable (listing : Listing) (notes : List Note)
variable (agentId : AgentId) (subject predicate : String)

/-- The rows of a line in key order. -/
def noteRows (cutoff : Option Instant) (asOf : Instant) : List ClaimWithStatus :=
  (inOrder (fun n : Note => orderingKey n.claim config) (notes.filter fun n =>
    onLine agentId subject predicate n.claim &&
      withinCutoff cutoff n.claim.transactionTime)).map (Note.row listing cutoff asOf)

def recallFrom (now : Instant) : RecallResult :=
  flatten (report config
    (noteRows config listing notes agentId subject predicate (some now) now) now [])

def historyFrom (now : Instant) : List HistoryEntry :=
  entriesFor config (noteRows config listing notes agentId subject predicate none now) now

variable {ties : TieOrder LedgerEntry} {told listed : List (Instant × Disposition)}

theorem lists_newestFirst : Lists .newestFirst told listed ↔ listed = told.reverse := by
  constructor
  · rintro ⟨es, rfl, rfl⟩
    exact List.map_reverse
  · rintro rfl
    refine ⟨told.map fun x => ⟨⟨""⟩, ⟨0⟩, .claimCommitted, x.2, none, x.1⟩, ?_, ?_⟩
    · rw [List.map_map]
      exact List.map_id _
    · exact List.map_reverse.trans (congrArg List.reverse (by
        rw [List.map_map]
        exact List.map_id _))

theorem Lists.perm (h : Lists ties told listed) : listed.Perm told := by
  obtain ⟨es, rfl, rfl⟩ := h
  exact (ties.perm es).map _

/-- Where all that is told of a fact has clocks of its own, the listing does not matter. -/
theorem Note.latest_of_distinct {n : Note} (h : Lists ties n.entries (listing n))
    (hdistinct : (n.entries.map Prod.fst).Nodup) (cutoff : Option Instant) :
    n.latest listing cutoff = n.latest Note.entries cutoff := by
  have hperm := h.perm.filter fun e => withinCutoff cutoff e.1
  unfold Note.latest
  congr 1
  rcases firstMax_spec Prod.fst ((listing n).filter fun e => withinCutoff cutoff e.1) with
    ⟨hnone, hnil⟩ | ⟨a, ha, hmem, hmax⟩
  · rw [hnil] at hperm
    rw [hnone, List.nil_perm.mp hperm]
    rfl
  · rw [ha]
    symm
    rcases firstMax_spec Prod.fst (n.entries.filter fun e => withinCutoff cutoff e.1) with
      ⟨_, hnil⟩ | ⟨b, hb, hmem', hmax'⟩
    · rw [hperm.mem_iff, hnil] at hmem
      cases hmem
    · rw [hperm.mem_iff] at hmem
      have hstamps := le_antisymm (hmax b (hperm.mem_iff.mpr hmem')) (hmax' a hmem)
      rw [hb, List.inj_on_of_nodup_map hdistinct (List.mem_of_mem_filter hmem')
        (List.mem_of_mem_filter hmem) hstamps]

theorem noteRows_congr {listing' : Listing} (h : ∀ n ∈ notes, listing n = listing' n)
    (cutoff : Option Instant) (asOf : Instant) :
    noteRows config listing notes agentId subject predicate cutoff asOf =
      noteRows config listing' notes agentId subject predicate cutoff asOf := by
  refine List.map_congr_left fun n hn => ?_
  have hmem := List.mem_of_mem_filter ((mem_inOrder _).mp hn)
  simp only [Note.row, claimStatus, Note.latest, h n hmem]

end Notes

section Recorded

/-- The store holds the noted facts and nothing else about them. -/
structure Recorded (eng : Engine) (σ : Store) (notes : List Note) : Prop where
  reachable : Reachable eng σ
  claims : σ.claims = notes.map (·.claim)
  entries : ∀ n ∈ notes,
    (entriesOf σ n.claim.agentId none n.claim.claimRef).map toldOf = n.entries
  assertions : ∀ n ∈ notes, assertionsOf σ n.claim.agentId n.claim.claimRef = n.assertions
  uninjected : ∀ e ∈ σ.ledger, e.eventKind ≠ .servedAsInjected

variable {eng : Engine} {σ : Store} {notes : List Note}

theorem recorded_empty (eng : Engine) (ties : TieOrder LedgerEntry) :
    Recorded eng (Store.empty ties) [] :=
  ⟨.init ⟨ties, rfl⟩, rfl, List.forall_mem_nil _, List.forall_mem_nil _, List.forall_mem_nil _⟩

/-- The order in which this store lists the entries of a noted fact. -/
def storeListing (σ : Store) : Listing := fun n =>
  (σ.ties.arrange (entriesOf σ n.claim.agentId none n.claim.claimRef)).map toldOf

theorem Recorded.lists (h : Recorded eng σ notes) {n : Note} (hn : n ∈ notes) :
    Lists σ.ties n.entries (storeListing σ n) := ⟨_, h.entries n hn, rfl⟩

theorem Recorded.loadInjectedClaims (h : Recorded eng σ notes) (agentId : AgentId) :
    Persistence.loadInjectedClaims σ agentId = [] := by
  have hnone : (σ.ledger.filter fun e =>
      e.agentId == agentId && e.eventKind == .servedAsInjected) = [] := by
    rw [List.filter_eq_nil_iff]
    intro e he hkind
    simp only [Bool.and_eq_true, beq_iff_eq] at hkind
    exact h.uninjected e he hkind.2
  rw [Persistence.loadInjectedClaims, hnone, TieOrder.arrange_nil]
  rfl

theorem Recorded.mem (h : Recorded eng σ notes) {n : Note} (hn : n ∈ notes) :
    n.claim ∈ σ.claims := by
  rw [h.claims]
  exact List.mem_map_of_mem hn

theorem latest_of_store (σ : Store) (n : Note) (cutoff : Option Instant) :
    latestOf σ n.claim.agentId cutoff n.claim.claimRef = n.latest (storeListing σ) cutoff := by
  have hfilter : entriesOf σ n.claim.agentId cutoff n.claim.claimRef =
      (entriesOf σ n.claim.agentId none n.claim.claimRef).filter
        fun e => withinCutoff cutoff e.recordedAt := by
    rw [entriesOf, entriesOf, List.filter_filter]
    refine List.filter_congr fun e _ => ?_
    simp [withinCutoff, Bool.and_comm]
  rw [latestOf, hfilter, TieOrder.first, ← σ.ties.filter_arrange, Note.latest, storeListing,
    List.filter_map, firstMax_map, Option.map_map]
  rfl

theorem Recorded.row (h : Recorded eng σ notes) {n : Note} (hn : n ∈ notes)
    (cutoff : Option Instant) (asOf : Instant) :
    rowOf σ n.claim.agentId cutoff asOf n.claim = n.row (storeListing σ) cutoff asOf := by
  simp only [rowOf, Note.row, claimStatus, h.assertions n hn, latest_of_store]

/-- The store shows the rows of the notes. -/
theorem Recorded.lineRows (h : Recorded eng σ notes) (config : EngineConfig)
    (agentId : AgentId) (subject predicate : String) (cutoff : Option Instant)
    (asOf : Instant) :
    Rows.lineRows config σ agentId subject predicate cutoff asOf =
      noteRows config (storeListing σ) notes agentId subject predicate cutoff asOf := by
  have hclaims : lineClaims config σ agentId subject predicate cutoff =
      (inOrder (fun n : Note => orderingKey n.claim config) (notes.filter fun n =>
        onLine agentId subject predicate n.claim &&
          withinCutoff cutoff n.claim.transactionTime)).map (·.claim) := by
    have hperm : (loadSubjectLine σ agentId subject predicate cutoff).Perm
        ((notes.filter fun n => onLine agentId subject predicate n.claim &&
          withinCutoff cutoff n.claim.transactionTime).map (·.claim)) := by
      refine (inOrder_perm _ _).trans ?_
      rw [h.claims, List.filter_map]
      exact List.Perm.refl _
    have hnodup : ((loadSubjectLine σ agentId subject predicate cutoff).map
        (·.claimRef)).Nodup :=
      ((inOrder_perm _ _).map _).nodup_iff.mp
        (lineClaims_nodup h.reachable config agentId subject predicate cutoff)
    rw [lineClaims, inOrder_claims_eq_of_perm hperm hnodup, RowTable.inOrder_map]
    rfl
  rw [Rows.lineRows, hclaims, noteRows, List.map_map]
  refine List.map_congr_left fun n hn => ?_
  obtain ⟨hmem, hline⟩ := List.mem_filter.mp ((mem_inOrder _).mp hn)
  simp only [onLine, Bool.and_eq_true, beq_iff_eq] at hline
  rw [Function.comp_apply, ← hline.1.1.1]
  exact h.row hmem cutoff asOf

end Recorded

section Ingest

variable {eng : Engine} {σ : Store} {notes : List Note} {req : IngestClaimRequest}
variable {now : Instant} {claimRef : ClaimRef} {oracleReply : Except String Uuid}

/-- With nothing injected, the guard decides by the request. -/
theorem Recorded.admitted_iff (h : Recorded eng σ notes) :
    Admitted eng.config σ req claimRef now ↔
      eng.config.quarantineBurstThreshold ≠ 0 ∧
        (req.provenance.isRecallReentry && !req.derivedFrom.isEmpty) = false := by
  by_cases hburst : eng.config.quarantineBurstThreshold = 0
  · simp [hburst, not_admitted_of_burst]
  have hnot : ¬ eng.config.quarantineBurstThreshold ≤ 0 := by omega
  simp only [Admitted, check, stamp, h.loadInjectedClaims, ge_iff_le, if_neg hnot]
  cases hprov : req.provenance.isRecallReentry with
  | false => simp [hburst]
  | true => cases hderived : req.derivedFrom <;> simp [hburst]

/-- A request is answered with an error after it was stored as queued. -/
theorem queued_of_error {claim : Claim} {e : MemError}
    (h : (executeAdmitted eng σ req claim now oracleReply).1 = .error e) :
    (gateDecision eng σ req claim now).disposition = .queuedForAdjudication := by
  by_contra hnot
  rw [executeAdmitted, if_neg fun hqueued => hnot hqueued.1] at h
  cases h

theorem recorded_ingested (h : Recorded eng σ notes) (hfresh : Fresh claimRef.uuid σ)
    (hadmitted : Admitted eng.config σ req claimRef now) (oracleReply : Except String Uuid) :
    Recorded eng (IngestClaim.execute eng σ req now claimRef oracleReply).2
      (notes ++ [⟨stamp req claimRef now,
        [(now, (gateDecision eng σ req (stamp req claimRef now) now).disposition)], []⟩]) := by
  have happ := ingest_appends hadmitted oracleReply
  have hstep : Step eng σ (.ingestClaim req now claimRef oracleReply)
      (IngestClaim.execute eng σ req now claimRef oracleReply).2 := ⟨hfresh, rfl⟩
  have huntouched : ∀ n ∈ notes, Untouched (ingestWritten (stamp req claimRef now)
      (gateDecision eng σ req (stamp req claimRef now) now) now) n.claim.agentId
      n.claim.claimRef := fun n hn => untouched_of_ingested fun heq =>
    Fresh.claim hfresh (h.mem hn) (congrArg ClaimRef.uuid heq)
  refine ⟨h.reachable.step hstep, ?_, ?_, ?_, ?_⟩
  · rw [happ.claims, h.claims, List.map_append]
    rfl
  · intro n hn
    rcases List.mem_append.mp hn with hn | hn
    · rw [entriesOf_of_untouched happ (huntouched n hn), h.entries n hn]
    · rw [List.mem_singleton.mp hn]
      have hcut : withinCutoff none now = true := rfl
      have hentries := entriesOf_ingested happ hfresh rfl hcut
      exact congrArg (List.map toldOf) hentries
  · intro n hn
    rcases List.mem_append.mp hn with hn | hn
    · rw [assertionsOf_of_untouched happ (huntouched n hn), h.assertions n hn]
    · rw [List.mem_singleton.mp hn]
      exact assertionsOf_ingested happ hfresh
  · intro e he
    rw [happ.ledger] at he
    rcases List.mem_append.mp he with he | he
    · exact h.uninjected e he
    · rw [List.mem_singleton.mp he]
      exact fun hkind => by cases hkind

theorem ingestBuilt_store {dates : DateTexts} {b : IngestClaimRequestBuilder}
    (hbuild : build dates b = .ok req) :
    (ingestBuilt dates eng σ b now claimRef oracleReply).2 =
      (IngestClaim.execute eng σ req now claimRef oracleReply).2 := by
  simp only [ingestBuilt, hbuild]
  rcases IngestClaim.execute eng σ req now claimRef oracleReply with ⟨_ | _, _⟩ <;> rfl

theorem recorded_remembered {dates : DateTexts} {b : IngestClaimRequestBuilder}
    (h : Recorded eng σ notes) (hfresh : Fresh claimRef.uuid σ) :
    Recorded eng (ingestBuilt dates eng σ b now claimRef oracleReply).2
      (noted dates eng.config notes (.remember b now claimRef oracleReply,
        .receipt (ingestBuilt dates eng σ b now claimRef oracleReply).1)) := by
  cases hbuild : build dates b with
  | error e => simpa only [ingestBuilt, noted, hbuild] using h
  | ok req =>
    have hstore : (ingestBuilt dates eng σ b now claimRef oracleReply).2 =
        (IngestClaim.execute eng σ req now claimRef oracleReply).2 := ingestBuilt_store hbuild
    by_cases hadmitted : Admitted eng.config σ req claimRef now
    case neg =>
      have hnone : ∀ result, storedAs eng.config req result = none := by
        intro result
        rw [h.admitted_iff, not_and_or, not_not, Bool.not_eq_false] at hadmitted
        unfold storedAs
        split_ifs with hburst hreentry
        · rfl
        · rfl
        · exact (hadmitted.elim hburst hreentry).elim
      rw [hstore, execute_of_not_admitted hadmitted]
      simpa only [noted, hbuild, hnone] using h
    have hstored : storedAs eng.config req
        (ingestBuilt dates eng σ b now claimRef oracleReply).1 =
          some (gateDecision eng σ req (stamp req claimRef now) now).disposition := by
      obtain ⟨hburst, hreentry⟩ := h.admitted_iff.mp hadmitted
      unfold storedAs
      rw [if_neg hburst, if_neg (by simp [hreentry])]
      simp only [ingestBuilt, hbuild]
      have hexec : IngestClaim.execute eng σ req now claimRef oracleReply =
          executeAdmitted eng σ req (stamp req claimRef now) now oracleReply :=
        execute_of_admitted hadmitted
      rw [hexec]
      rcases hanswer : executeAdmitted eng σ req (stamp req claimRef now) now oracleReply with
        ⟨e | resp, _⟩
      · exact congrArg some (queued_of_error (congrArg Prod.fst hanswer)).symm
      · rw [executeAdmitted_ok (congrArg Prod.fst hanswer)]
    rw [hstore]
    simp only [noted, hbuild, hstored]
    exact recorded_ingested h hfresh hadmitted oracleReply

end Ingest

section Assert

variable {eng : Engine} {σ σ' : Store} {notes : List Note} {req : AssertValidityRequest}
variable {now : Instant} {assertionRef : Uuid}

/-- A request writes what it answers with, or writes nothing. -/
theorem execute_assert_cases (σ : Store) (req : AssertValidityRequest) (now : Instant)
    (assertionRef : Uuid) :
    (∃ kind effectiveAt disposition rationale,
      AssertValidity.execute σ req now assertionRef =
        (.ok ⟨req.target, some assertionRef, kind, effectiveAt, disposition, false⟩,
          writeValidityAndLedger σ (hostAssertion req kind now assertionRef)
            (hostEntry req disposition rationale now)) ∧
      ∀ at_ granularity, req.assertion = .bound at_ granularity →
        kind = .bound at_ granularity ∧ effectiveAt = some at_) ∨
      ((AssertValidity.execute σ req now assertionRef).2 = σ ∧
        ∀ resp, (AssertValidity.execute σ req now assertionRef).1 = .ok resp →
          resp.noOp = true) := by
  cases hassert : req.assertion with
  | bound at_ granularity =>
    refine (execute_bound_cases σ now assertionRef hassert).imp_left ?_
    rintro ⟨_, _, hexec⟩
    refine ⟨_, _, _, _, hexec, fun at_' granularity' heq => ?_⟩
    cases heq
    exact ⟨rfl, rfl⟩
  | reopen =>
    by_cases hprov : req.provenance.isCheapPathEligible = true
    case neg => right; simp [AssertValidity.execute, hprov]
    cases hload : loadClaim σ req.agentId req.target with
    | none => right; simp [AssertValidity.execute, hprov, hload]
    | some target =>
      have hexec : AssertValidity.execute σ req now assertionRef =
          executeReopen σ req (activeBoundAt (assertionsOf σ req.agentId req.target) now) now
            assertionRef := by
        simp [AssertValidity.execute, hprov, hload, hassert, activeBoundAt_load]
      rw [hexec]
      cases activeBoundAt (assertionsOf σ req.agentId req.target) now with
      | none => right; simp [executeReopen]
      | some _ => exact .inl ⟨_, _, _, _, rfl, fun _ _ heq => by cases heq⟩

/-- An assertion changes the rows of the fact that it is noted with. -/
theorem recorded_asserted (h : Recorded eng σ notes) (hreach : Reachable eng σ')
    {kind : AssertionKind} {disposition : Disposition} {rationale : Json}
    (hwrite : σ' = writeValidityAndLedger σ (hostAssertion req kind now assertionRef)
      (hostEntry req disposition rationale now)) :
    Recorded eng σ' (amend notes req.agentId req.target (now, disposition)
      (hostAssertion req kind now assertionRef)) := by
  have happ := writeValidityAndLedger_appends σ (hostAssertion req kind now assertionRef)
    (hostEntry req disposition rationale now)
  rw [← hwrite] at happ
  refine ⟨hreach, ?_, ?_, ?_, ?_⟩
  · rw [happ.claims, List.append_nil, h.claims, amend, List.map_map]
    refine List.map_congr_left fun n _ => ?_
    simp only [Function.comp_apply]
    split <;> rfl
  · intro _ hamended
    obtain ⟨n, hn, rfl⟩ := List.mem_map.mp hamended
    by_cases hof : (req.agentId == n.claim.agentId && req.target == n.claim.claimRef) = true
    · rw [if_pos hof]
      simp only [Note.tell, entriesOf_append happ, List.map_append, h.entries n hn]
      simp [hostEntry, hof, withinCutoff, toldOf]
    · rw [if_neg hof, entriesOf_append happ, List.map_append, h.entries n hn]
      simp [hostEntry, hof, withinCutoff]
  · intro _ hamended
    obtain ⟨n, hn, rfl⟩ := List.mem_map.mp hamended
    by_cases hof : (req.agentId == n.claim.agentId && req.target == n.claim.claimRef) = true
    · rw [if_pos hof]
      simp only [Note.tell, assertionsOf_append happ, h.assertions n hn]
      simp [hostAssertion, hof]
    · rw [if_neg hof, assertionsOf_append happ, h.assertions n hn]
      simp [hostAssertion, hof]
  · intro e he
    rw [happ.ledger] at he
    rcases List.mem_append.mp he with he | he
    · exact h.uninjected e he
    · rw [List.mem_singleton.mp he]
      exact fun hkind => by cases hkind

end Assert

section Main

variable {dates : DateTexts} {eng : Engine} {σ σ' : Store} {notes : List Note}
variable {exchange : Call × Reply} {log : List (Call × Reply)}

theorem recorded_answered {req : AssertValidityRequest} {now : Instant} {assertionRef : Uuid}
    (h : Recorded eng σ notes) (hfresh : Fresh assertionRef σ) :
    Recorded eng (AssertValidity.execute σ req now assertionRef).2
      (noted dates eng.config notes (.assertValidity req now assertionRef,
        .response (AssertValidity.execute σ req now assertionRef).1)) := by
  have hstep : Step eng σ (.assertValidity req now assertionRef)
      (AssertValidity.execute σ req now assertionRef).2 := ⟨hfresh, rfl⟩
  rcases execute_assert_cases σ req now assertionRef with
    ⟨kind, effectiveAt, disposition, rationale, hexec, _⟩ | ⟨hsame, hnoOp⟩
  · rw [hexec] at hstep ⊢
    exact recorded_asserted h (h.reachable.step hstep) rfl
  · rw [hsame]
    rcases hanswer : (AssertValidity.execute σ req now assertionRef).1 with e | resp
    · exact h
    · simp only [noted, hnoOp resp hanswer, if_true]
      exact h

theorem recorded_ended {seen : Store} {resolvedAt : Instant} {req : EndFactRequest}
    {now : Instant} {assertionRef : Uuid} (h : Recorded eng σ notes)
    (hfresh : Fresh assertionRef σ) :
    let ended := endFact dates.parseValidTimeDate eng.config seen resolvedAt σ req now assertionRef
    Recorded eng ended.2 (noted dates eng.config notes
      (.endFact seen resolvedAt req now assertionRef, .ended ended.1)) := by
  unfold endFact
  cases hparse : dates.parseValidTimeDate req.at_ with
  | none => exact h
  | some parsed =>
    obtain ⟨atDt, atGran⟩ := parsed
    cases resolveLiveClaimForLine eng.config seen req.agentId req.subject req.predicate
        resolvedAt with
    | empty => exact h
    | ambiguous _ => exact h
    | single target =>
      have hstep : Step eng σ (.assertValidity (boundRequest req target atDt atGran) now
          assertionRef) (AssertValidity.execute σ (boundRequest req target atDt atGran) now
            assertionRef).2 := ⟨hfresh, rfl⟩
      rcases execute_assert_cases σ (boundRequest req target atDt atGran) now assertionRef with
        ⟨kind, effectiveAt, disposition, rationale, hexec, hbound⟩ | ⟨hsame, hnoOp⟩
      · obtain ⟨rfl, rfl⟩ := hbound atDt (some atGran) rfl
        rw [hexec] at hstep
        simp only [hexec, noted, hparse, Option.getD_some, Bool.false_eq_true, if_false]
        exact recorded_asserted h (h.reachable.step hstep) rfl
      · rcases hanswer : AssertValidity.execute σ (boundRequest req target atDt atGran) now
          assertionRef with ⟨e | resp, τ⟩
        · obtain rfl : τ = σ := (congrArg Prod.snd hanswer).symm.trans hsame
          simp only [hanswer]
          exact h
        · obtain rfl : τ = σ := (congrArg Prod.snd hanswer).symm.trans hsame
          rw [hanswer] at hnoOp
          simp only [hanswer, noted, hparse, hnoOp resp rfl, if_true]
          exact h

/-- The notes follow the store through a call. -/
theorem recorded_served (h : Recorded eng σ notes) (hserves : Serves dates eng σ exchange σ') :
    Recorded eng σ' (noted dates eng.config notes exchange) := by
  obtain ⟨call, reply⟩ := exchange
  obtain ⟨hfresh, hperform⟩ := hserves
  cases call with
  | remember b now claimRef oracleReply =>
    obtain ⟨rfl, rfl⟩ := Prod.mk.inj hperform
    exact recorded_remembered h hfresh
  | assertValidity req now assertionRef =>
    obtain ⟨rfl, rfl⟩ := Prod.mk.inj hperform
    exact recorded_answered h hfresh
  | endFact seen resolvedAt req now assertionRef =>
    obtain ⟨rfl, rfl⟩ := Prod.mk.inj hperform
    exact recorded_ended h hfresh

theorem ties_of_served (hserves : Serves dates eng σ exchange σ') : σ'.ties = σ.ties := by
  obtain ⟨call, reply⟩ := exchange
  obtain ⟨_, hperform⟩ := hserves
  have hassert : ∀ req now assertionRef,
      (AssertValidity.execute σ req now assertionRef).2.ties = σ.ties := by
    intro req now assertionRef
    obtain ⟨_, _, happ⟩ := apply_outcome eng σ (.assertValidity req now assertionRef)
    exact happ.ties
  obtain rfl := congrArg Prod.snd hperform
  cases call with
  | remember b now claimRef oracleReply =>
    change (ingestBuilt dates eng σ b now claimRef oracleReply).2.ties = σ.ties
    cases hbuild : build dates b with
    | error _ => rw [ingestBuilt, hbuild]
    | ok req =>
      obtain ⟨_, _, happ⟩ := apply_outcome eng σ (.ingestClaim req now claimRef oracleReply)
      rw [ingestBuilt_store hbuild]
      exact happ.ties
  | assertValidity req now assertionRef => exact hassert req now assertionRef
  | endFact seen resolvedAt req now assertionRef =>
    simp only [perform, endFact]
    cases dates.parseValidTimeDate req.at_ with
    | none => rfl
    | some parsed =>
      dsimp only
      cases resolveLiveClaimForLine eng.config seen req.agentId req.subject req.predicate
          resolvedAt with
      | empty => rfl
      | ambiguous _ => rfl
      | single target =>
        have hties := hassert (boundRequest req target parsed.1 parsed.2) now assertionRef
        dsimp only
        rcases hexec : AssertValidity.execute σ (boundRequest req target parsed.1 parsed.2) now
          assertionRef with ⟨_ | _, _⟩ <;> rwa [hexec] at hties

variable {ties : TieOrder LedgerEntry}

theorem recorded_of_run (h : Run (Serves dates eng) (Store.empty ties) log σ) :
    Recorded eng σ (notesOf dates eng.config log) :=
  h.simulates (recorded_empty eng ties) fun _ _ _ _ hrecorded hserves =>
    recorded_served hrecorded hserves

theorem ties_of_run (h : Run (Serves dates eng) (Store.empty ties) log σ) : σ.ties = ties :=
  h.preserves (P := fun σ => σ.ties = ties) rfl fun _ _ _ hties hserves =>
    (ties_of_served hserves).trans hties

section Sample

variable (dates : DateTexts) (eng : Engine)

/-- Calls one after another, with their replies. -/
def converse : Store → List Call → List (Call × Reply) × Store
  | σ, [] => ([], σ)
  | σ, call :: calls =>
    let answered := perform dates eng σ call
    let rest := converse answered.2 calls
    ((call, answered.1) :: rest.1, rest.2)

def FreshForAll : Store → List Call → Prop
  | _, [] => True
  | σ, call :: calls => FreshFor σ call ∧ FreshForAll (perform dates eng σ call).2 calls

instance (σ : Store) : (call : Call) → Decidable (FreshFor σ call)
  | .remember _ _ claimRef _ => inferInstanceAs (Decidable (Fresh claimRef.uuid σ))
  | .assertValidity _ _ assertionRef => inferInstanceAs (Decidable (Fresh assertionRef σ))
  | .endFact _ _ _ _ assertionRef => inferInstanceAs (Decidable (Fresh assertionRef σ))

instance decidableFreshForAll :
    (σ : Store) → (calls : List Call) → Decidable (FreshForAll dates eng σ calls)
  | _, [] => .isTrue trivial
  | σ, call :: calls =>
    @instDecidableAnd _ _ inferInstance (decidableFreshForAll (perform dates eng σ call).2 calls)

variable {dates eng} in
theorem run_converse {calls : List Call} (h : FreshForAll dates eng σ calls) :
    Run (Serves dates eng) σ (converse dates eng σ calls).1 (converse dates eng σ calls).2 := by
  induction calls generalizing σ with
  | nil => exact .nil σ
  | cons call calls ih => exact .cons ⟨h.1, rfl⟩ (ih h.2)

def calendar : DateTexts where
  parseValidTimeDate := LenientDates.parseValidTimeDate LenientDates.sample
  toRfc3339 := fun t => String.ofList (Timestamp.rfc3339 t)

/-- The first of January of 2024. -/
def newYear : Instant := 1704067200 * 10 ^ 9

def movedTo (city year : String) : IngestClaimRequestBuilder :=
  rememberBuilder agent "user" "location" (.str city) { validFrom := some year }

def parisCall : Call := .remember (movedTo "Paris" "2005") newYear ⟨1⟩ (.ok 0)

def stayEnds : Call :=
  .endFact (converse calendar (defaultEngine false) Store.sqlite [parisCall]).2 (newYear + 10)
    ⟨agent, "user", "location", "2010", none, none⟩ (newYear + 20) 50

def berlinCall : Call := .remember (movedTo "Berlin" "2010") (newYear + 30) ⟨2⟩ (.ok 0)

end Sample

end Main

end Mempill.CallNotes
