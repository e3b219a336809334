import Mempill.FixedHistory
import Mempill.Invariants
import Mempill.PortReads

set_option autoImplicit false

/-!
# Overlapping query

A query whose reads fall between the commits of writers, and when it still answers
for one committed store.
-/
namespace Mempill.OverlappingQuery
open Mempill.Types Mempill.Persistence Mempill.TruthEngine Mempill.Ledger Mempill.Rows
open Mempill.IngestClaim Mempill.AssertValidity Mempill.Engine Mempill.Steps Mempill.PortReads
open Transition StampedLog

section Condition

variable (config : EngineConfig) (q : Query) (now : Instant)

/-- What the fold takes from the stored assertions of a claim. -/
def boundOf (σ : Store) (r : ClaimRef) : Option BoundState :=
  activeBoundAt (assertionsOf σ q.agentId r) (q.asOf now)

def foldOrder (claims : List Claim) : List Claim := inOrder (orderingKey · config) claims

/-- The reads made so far would return the same on this store. -/
def Rereads (σ : Store) : Phase → Prop
  | .line => True
  | .ledger claims => claims = readClaims q now σ
  | .assertions claims ledger got => claims = readClaims q now σ ∧
    ledger = readLedger q now σ claims ∧
    ∀ read ∈ got, activeBoundAt read.2 (q.asOf now) = boundOf q now σ read.1
  | .done _ => True

/-- The reads still to come return the same on both stores. -/
def SameAhead (σ σ' : Store) : Phase → Prop
  | .line => σ = σ'
  | .ledger claims => readLedger q now σ claims = readLedger q now σ' claims ∧
    ∀ c ∈ claims, boundOf q now σ c.claimRef = boundOf q now σ' c.claimRef
  | .assertions claims _ got => ∀ c ∈ (foldOrder config claims).drop got.length,
    boundOf q now σ c.claimRef = boundOf q now σ' c.claimRef
  | .done _ => True

/-- A commit is told by no read made so far, or by no read still to come; and no read
    of assertions is lost on a claim that is bound. -/
def Steady (adapter : Adapter) (s : State) : Action → Prop
  | .commit w => Rereads q now (appendRows s.committed w) s.phase ∨
    SameAhead config q now s.committed (appendRows s.committed w) s.phase
  | .read => match s.phase with
    | .assertions claims _ got => s.blocked adapter = true →
      ∀ c, nextClaim config claims got = some c → boundOf q now s.committed c.claimRef = none
    | _ => True
  | _ => True

end Condition

section Reads

variable {config : EngineConfig} {q : Query} {now : Instant} {claims : List Claim}
variable {ledger : List LedgerEntry}

theorem status_congr {f g : ClaimRef → List ValidityAssertion} {asOf : Instant}
    {latest : ClaimRef → Option Disposition} {c : Claim}
    (h : activeBoundAt (f c.claimRef) asOf = activeBoundAt (g c.claimRef) asOf) :
    claimStatus f asOf latest c = claimStatus g asOf latest c := by
  simp only [claimStatus, h]

theorem fold_congr {f g : ClaimRef → List ValidityAssertion} {asOf : Instant}
    {validAt : Option Instant} {latest : ClaimRef → Option Disposition}
    (h : ∀ c ∈ claims, activeBoundAt (f c.claimRef) asOf = activeBoundAt (g c.claimRef) asOf) :
    fold claims f asOf validAt config latest = fold claims g asOf validAt config latest := by
  have hstatus : (inOrder (orderingKey · config) claims).map (claimStatus f asOf latest) =
      (inOrder (orderingKey · config) claims).map (claimStatus g asOf latest) := by
    refine List.map_congr_left fun c hc => status_congr (h c ?_)
    exact (mem_inOrder (orderingKey · config)).mp hc
  simp only [fold, hstatus]

/-- An answer takes no more from the assertions it read than the active bounds. -/
theorem answerFrom_congr {f g : ClaimRef → List ValidityAssertion}
    (h : ∀ c ∈ claims, activeBoundAt (f c.claimRef) (q.asOf now) =
      activeBoundAt (g c.claimRef) (q.asOf now)) :
    answerFrom config q now ⟨claims, ledger, f⟩ = answerFrom config q now ⟨claims, ledger, g⟩ := by
  cases q with
  | memory req =>
    have hfold : fold claims f (req.asOfTxTime.getD now) req.validAt config
        (buildLatestDispositionMap ledger) =
      fold claims g (req.asOfTxTime.getD now) req.validAt config
        (buildLatestDispositionMap ledger) := fold_congr h
    simp only [answerFrom, memoryFrom, hfold]
  | history req =>
    have hfold : fold claims f now none config (buildLatestDispositionMap ledger) =
      fold claims g now none config (buildLatestDispositionMap ledger) := fold_congr h
    simp only [answerFrom, historyFrom, hfold]

theorem boundOf_load {σ : Store} (r : ClaimRef) :
    activeBoundAt (loadValidityAssertionsFor σ q.agentId r) (q.asOf now) = boundOf q now σ r :=
  activeBoundAt_load r _

end Reads

section Invariant

variable {config : EngineConfig} {q : Query} {now : Instant} {adapter : Adapter}

/-- The reads made so far, and those to come on the committed store, are those of one
    store. -/
def Agrees (config : EngineConfig) (q : Query) (now : Instant) (τ : Store) (s : State) : Prop :=
  match s.phase with
  | .line => τ = s.committed
  | .ledger claims => Rereads q now τ (.ledger claims) ∧
    SameAhead config q now τ s.committed (.ledger claims)
  | .assertions claims ledger got => Rereads q now τ (.assertions claims ledger got) ∧
    SameAhead config q now τ s.committed (.assertions claims ledger got) ∧
    got.map (·.1) = ((foldOrder config claims).take got.length).map (·.claimRef)
  | .done (.ok answer) => answer = answerOn config q now τ
  | .done (.error _) => True

/-- The store that the query answers for is one that it overlapped. -/
def Anchored (config : EngineConfig) (q : Query) (now : Instant) (s : State) : Prop :=
  ∃ τ ∈ s.overlapped, Agrees config q now τ s

theorem anchored_of_commit {s : State} {w : Written} {txns : List Written}
    (h : Anchored config q now s) (hsteady : Steady config q now adapter s (.commit w)) :
    Anchored config q now
      { committed := appendRows s.committed w
        txns := txns
        phase := s.phase
        overlapped := if s.phase.isDone then s.overlapped
          else s.overlapped ++ [appendRows s.committed w] } := by
  obtain ⟨τ, hmem, hagrees⟩ := h
  obtain ⟨committed, _, phase, overlapped⟩ := s
  cases phase with
  | done result =>
    refine ⟨τ, hmem, ?_⟩
    cases result with
    | ok _ => exact hagrees
    | error _ => trivial
  | line => exact ⟨appendRows committed w, by simp [Phase.isDone], rfl⟩
  | ledger claims =>
    rcases hsteady with hreread | hahead
    · exact ⟨_, by simp [Phase.isDone], hreread, rfl, fun _ _ => rfl⟩
    · refine ⟨τ, by simpa [Phase.isDone] using .inl hmem, hagrees.1, ?_, fun c hc => ?_⟩
      · exact hagrees.2.1.trans hahead.1
      · exact (hagrees.2.2 c hc).trans (hahead.2 c hc)
  | assertions claims ledger got =>
    obtain ⟨hread, hsame, hgot⟩ := hagrees
    rcases hsteady with hreread | hahead
    · exact ⟨_, by simp [Phase.isDone], hreread, fun _ _ => rfl, hgot⟩
    · refine ⟨τ, by simpa [Phase.isDone] using .inl hmem, hread, fun c hc => ?_, hgot⟩
      exact (hsame c hc).trans (hahead c hc)

/-- The reads collected claim by claim are those of one store. -/
theorem answerFrom_collected {τ : Store} {claims : List Claim} {ledger : List LedgerEntry}
    {got : List (ClaimRef × List ValidityAssertion)}
    (hread : Rereads q now τ (.assertions claims ledger got))
    (hgot : got.map (·.1) = (foldOrder config claims).map (·.claimRef)) :
    answerFrom config q now (collected claims ledger got) = answerOn config q now τ := by
  obtain ⟨hclaims, hledger, hbounds⟩ := hread
  rw [← answerFrom_eq config τ, ← hclaims, ← hledger]
  refine answerFrom_congr fun c hc => ?_
  rw [boundOf_load]
  have hmem : c.claimRef ∈ got.map (·.1) := by
    rw [hgot]
    exact List.mem_map_of_mem ((mem_inOrder (orderingKey · config)).mpr hc)
  obtain ⟨read, hread, href⟩ := List.mem_map.mp hmem
  have hsome : (got.lookup c.claimRef).isSome :=
    List.lookup_isSome_iff.mpr ⟨read, hread, by simp [href]⟩
  obtain ⟨as, has⟩ := Option.isSome_iff_exists.mp hsome
  obtain ⟨pre, post, rfl, _⟩ := List.lookup_eq_some_iff.mp has
  rw [has, Option.getD_some]
  exact hbounds ⟨c.claimRef, as⟩ (by simp)

/-- The first read is the answer of an empty history, or fixes the store to agree with. -/
theorem agrees_of_line {s : State} (hphase : s.phase = .line) :
    Agrees config q now s.committed
      { s with phase := nextRead q now config s.committed (s.blocked adapter) s.phase } := by
  rw [hphase]
  cases hblocked : s.blocked adapter with
  | true => simp [Agrees, nextRead]
  | false =>
    cases q with
    | memory req =>
      simp only [nextRead, Bool.false_eq_true, if_false, Agrees]
      exact ⟨rfl, rfl, fun _ _ => rfl⟩
    | history req =>
      cases hempty : (readClaims (.history req) now s.committed).isEmpty with
      | false =>
        simp only [nextRead, hempty, Bool.false_eq_true, if_false, Agrees]
        exact ⟨rfl, rfl, fun _ _ => rfl⟩
      | true =>
        simp only [nextRead, hempty, Bool.false_eq_true, if_false, if_true, Agrees]
        rw [← answerFrom_eq config s.committed, List.isEmpty_iff.mp hempty]
        rfl

theorem agrees_of_ledger {s : State} {τ : Store} {claims : List Claim}
    (hphase : s.phase = .ledger claims) (hread : Rereads q now τ (.ledger claims))
    (hahead : SameAhead config q now τ s.committed (.ledger claims)) :
    Agrees config q now τ
      { s with phase := nextRead q now config s.committed (s.blocked adapter) s.phase } := by
  obtain ⟨hledger, hbounds⟩ := hahead
  rw [hphase]
  cases hblocked : s.blocked adapter && !claims.isEmpty with
  | true => simp [Agrees, nextRead, hblocked]
  | false =>
    simp only [Agrees, nextRead, hblocked, Bool.false_eq_true, if_false]
    refine ⟨⟨hread, hledger.symm, by simp⟩, fun c hc => hbounds c ?_, by simp⟩
    rw [List.length_nil, List.drop_zero] at hc
    exact (mem_inOrder (orderingKey · config)).mp hc

/-- Lost or made, the read of a claim's assertions has the bound of the store. -/
theorem bound_of_read {s : State} {claims : List Claim} {ledger : List LedgerEntry}
    {got : List (ClaimRef × List ValidityAssertion)} {c : Claim}
    (hphase : s.phase = .assertions claims ledger got)
    (hsteady : Steady config q now adapter s .read) (hnext : nextClaim config claims got = some c) :
    activeBoundAt (if s.blocked adapter = true then []
      else loadValidityAssertionsFor s.committed q.agentId c.claimRef) (q.asOf now) =
        boundOf q now s.committed c.claimRef := by
  cases hblocked : s.blocked adapter with
  | false => simpa using boundOf_load c.claimRef
  | true =>
    simp only [Steady, hphase] at hsteady
    rw [hsteady hblocked c hnext]
    rfl

theorem agrees_of_assertions {s : State} {τ : Store} {claims : List Claim}
    {ledger : List LedgerEntry} {got : List (ClaimRef × List ValidityAssertion)}
    (hphase : s.phase = .assertions claims ledger got)
    (hsteady : Steady config q now adapter s .read)
    (hread : Rereads q now τ (.assertions claims ledger got))
    (hahead : SameAhead config q now τ s.committed (.assertions claims ledger got))
    (hgot : got.map (·.1) = ((foldOrder config claims).take got.length).map (·.claimRef)) :
    Agrees config q now τ
      { s with phase := nextRead q now config s.committed (s.blocked adapter) s.phase } := by
  cases hnext : nextClaim config claims got with
  | none =>
    simp only [Agrees, hphase, nextRead, hnext]
    refine answerFrom_collected hread ?_
    have hlength : (foldOrder config claims).length ≤ got.length :=
      List.getElem?_eq_none_iff.mp hnext
    rw [hgot, List.take_of_length_le hlength]
  | some c =>
    have hbound := bound_of_read hphase hsteady hnext
    simp only [Agrees, hphase, nextRead, hnext]
    obtain ⟨hlt, hc⟩ := List.getElem?_eq_some_iff.mp hnext
    have hdrop : (foldOrder config claims).drop got.length =
        c :: (foldOrder config claims).drop (got.length + 1) := by
      rw [← hc]
      exact List.drop_eq_getElem_cons hlt
    have hsame : boundOf q now τ c.claimRef = boundOf q now s.committed c.claimRef :=
      hahead c (by rw [hdrop]; exact List.mem_cons_self)
    refine ⟨⟨hread.1, hread.2.1, fun read hmem => ?_⟩, fun c' hc' => hahead c' ?_, ?_⟩
    · rcases List.mem_append.mp hmem with hmem | hmem
      · exact hread.2.2 read hmem
      · rw [List.mem_singleton.mp hmem, hsame]
        exact hbound
    · rw [hdrop]
      rw [List.length_append, List.length_singleton] at hc'
      exact List.mem_cons_of_mem _ hc'
    · rw [List.length_append, List.length_singleton, List.map_append, hgot,
        List.take_add_one, List.map_append]
      congr 1
      exact congrArg (fun o : Option Claim => o.toList.map (·.claimRef)) hnext.symm

theorem anchored_of_read {s : State} (h : Anchored config q now s)
    (hsteady : Steady config q now adapter s .read) :
    Anchored config q now
      { s with phase := nextRead q now config s.committed (s.blocked adapter) s.phase } := by
  obtain ⟨τ, hmem, hagrees⟩ := h
  refine ⟨τ, hmem, ?_⟩
  cases hphase : s.phase with
  | done result =>
    simp only [Agrees, hphase, nextRead] at hagrees ⊢
    exact hagrees
  | line =>
    simp only [Agrees, hphase] at hagrees
    subst hagrees
    exact hphase ▸ agrees_of_line hphase
  | ledger claims =>
    simp only [Agrees, hphase] at hagrees
    exact hphase ▸ agrees_of_ledger hphase hagrees.1 hagrees.2
  | assertions claims ledger got =>
    simp only [Agrees, hphase] at hagrees
    obtain ⟨hread, hahead, hgot⟩ := hagrees
    exact hphase ▸ agrees_of_assertions hphase hsteady hread hahead hgot

end Invariant

section Main

variable {config : EngineConfig} {q : Query} {now : Instant} {adapter : Adapter}

theorem anchored_of_move {s s' : State} {a : Action}
    (hmove : Restrict (Moves adapter config q now) (Steady config q now adapter) s a s')
    (h : Anchored config q now s) : Anchored config q now s' := by
  obtain ⟨hsteady, hmove⟩ := hmove
  cases hmove with
  | beginAtomic _ => exact h
  | append _ => exact h
  | commit _ => exact anchored_of_commit h hsteady
  | rollback _ => exact h
  | read => exact anchored_of_read h hsteady

/-- In a run of steady commits and reads, a query that answers does so for a committed
    store that it overlapped. -/
theorem overlapping_query_consistent {s s' : State} {actions : List Action} (hcalled : Called s)
    (hrun : Run (Restrict (Moves adapter config q now) (Steady config q now adapter)) s actions
      s') {answer : Answer} (hdone : s'.phase = .done (.ok answer)) :
    ∃ τ ∈ s'.overlapped, answer = answerOn config q now τ := by
  have hstart : Anchored config q now s :=
    ⟨s.committed, by simp [hcalled.2], by simp [Agrees, hcalled.1]⟩
  obtain ⟨τ, hmem, hagrees⟩ := hrun.preserves hstart fun _ _ _ h hmove => anchored_of_move hmove h
  simp only [Agrees, hdone] at hagrees
  exact ⟨τ, hmem, hagrees⟩

/-- The history of the one line of the examples. -/
def timeline : Query := .history ⟨agent, "user", "location"⟩

def ended : List Op :=
  [.ingestClaim (remember "Paris" (some (dated 1 none))) 10 ⟨1⟩ (.ok 0),
    .assertValidity (assertOn 1 (.bound 5 none)) 20 50]

/-- The query is called on a store where Paris ended at 5. -/
def asked : State :=
  let σ := run (defaultEngine false) Store.sqlite ended
  ⟨σ, [], .line, [σ]⟩

/-- The rows of a new fact of the line. -/
def berlin : Written where
  claims := [stamp (remember "Berlin" (some (dated 5 none))) ⟨2⟩ 25]

def reopened : Written where
  assertions := [hostAssertion (assertOn 1 .reopen) (.reopen 25) 25 51]
  ledger := [hostEntry (assertOn 1 .reopen) .reinstated (reopenRationale 25) 25]

/-- A fact committed once the line is read is left out of the answer. -/
theorem late_fact_is_left_out :
    ∃ s' answer, Run (Moves .sqlite EngineConfig.default timeline 30) asked
        [.read, .beginAtomic, .append {} berlin, .commit berlin, .read, .read, .read] s' ∧
      s'.phase = .done (.ok answer) ∧
      ∃ τ ∈ s'.overlapped, answer = answerOn EngineConfig.default timeline 30 τ := by
  have hsteady : SameAhead EngineConfig.default timeline 30 asked.committed
      (appendRows asked.committed berlin)
      (.ledger (readClaims timeline 30 asked.committed)) :=
    ⟨by decide, by decide⟩
  have hrun : Run (Restrict (Moves .sqlite EngineConfig.default timeline 30)
      (Steady EngineConfig.default timeline 30 .sqlite)) asked
      [.read, .beginAtomic, .append {} berlin, .commit berlin, .read, .read, .read] _ :=
    .cons ⟨trivial, .read⟩ (.cons ⟨trivial, .beginAtomic rfl⟩
      (.cons ⟨trivial, .append (show _ = [] ++ _ :: [] from rfl)⟩
        (.cons ⟨.inr hsteady, .commit (show _ = [] ++ _ :: [] from rfl)⟩
          (.cons ⟨trivial, .read⟩ (.cons ⟨nofun, .read⟩ (.cons ⟨nofun, .read⟩ (.nil _)))))))
  exact ⟨_, _, hrun.unrestrict, rfl, overlapping_query_consistent ⟨rfl, rfl⟩ hrun rfl⟩

/-- On one connection, a transaction open at the read of the assertions hides the end of
    Paris; on several, a reopen committed before that read is told by half of its rows. -/
theorem torn_reads_answer :
    (∃ s' answer, Run (Moves .sqlite EngineConfig.default timeline 30) asked
        [.read, .read, .beginAtomic, .read, .read] s' ∧
      s'.phase = .done (.ok answer) ∧
      ∀ τ ∈ s'.overlapped, answer ≠ answerOn EngineConfig.default timeline 30 τ) ∧
    ∃ s' answer, Run (Moves .postgres EngineConfig.default timeline 30) asked
        [.read, .read, .beginAtomic, .append {} reopened, .commit reopened, .read, .read] s' ∧
      s'.phase = .done (.ok answer) ∧
      ∀ τ ∈ s'.overlapped, answer ≠ answerOn EngineConfig.default timeline 30 τ := by
  constructor
  · refine ⟨_, _, .cons .read (.cons .read (.cons (.beginAtomic rfl) (.cons .read
      (.cons .read (.nil _))))), rfl, ?_⟩
    decide
  · refine ⟨_, _, .cons .read (.cons .read (.cons (.beginAtomic rfl)
      (.cons (.append (show _ = [] ++ _ :: [] from rfl))
        (.cons (.commit (show _ = [] ++ _ :: [] from rfl)) (.cons .read
          (.cons .read (.nil _))))))), rfl, ?_⟩
    decide

end Main

end Mempill.OverlappingQuery
