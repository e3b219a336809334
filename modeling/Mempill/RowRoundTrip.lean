import Mempill.Invariants
import Mempill.PlannedWrites
import Mempill.SqliteRows
import Mempill.WrittenClaims

set_option autoImplicit false

/-!
# Row round trip

What the SQLite adapter reads back of the rows it committed.
-/
namespace Mempill.RowRoundTrip
open Mempill.Types Mempill.Persistence Mempill.IngestClaim Mempill.Engine Mempill.WritePhases
open Mempill.PlannedWrites Mempill.SqliteRows RowTable StampedLog

section Codec

variable {f : Formats}

theorem bind_eq_ok_iff {ε α β : Type} {x : Except ε α} {g : α → Except ε β} {b : β} :
    x >>= g = .ok b ↔ ∃ a, x = .ok a ∧ g a = .ok b := by
  cases x <;> simp [bind, Except.bind]

theorem parsed_eq_ok_iff {α : Type} {context : String} {x : Except String α} {a : α} :
    parsed context x = .ok a ↔ x = .ok a := by
  cases x <;> simp [parsed]

theorem mapped_eq_ok_iff {α : Type} {x : Except SqliteStoreError α} {a : α} :
    mapped x = .ok a ↔ x = .ok a := by
  cases x <;> simp [mapped]

@[simp] theorem strToProvenance_toStr (p : ProvenanceLabel) :
    strToProvenance (provenanceToStr p) = .ok p := by
  rcases p with (_ | _) | _ | _ <;> rfl

@[simp] theorem strToCardinality_toStr (c : Cardinality) :
    strToCardinality (cardinalityToStr c) = .ok c := by
  cases c <;> rfl

@[simp] theorem strToCriticality_toStr (c : Criticality) :
    strToCriticality (criticalityToStr c) = .ok c := by
  cases c <;> rfl

@[simp] theorem strToDateGranularity_toStr (g : Option DateGranularity) :
    (g.map dateGranularityToStr).bind strToDateGranularity = g := by
  rcases g with _ | (_ | _ | _ | _) <;> rfl

theorem nullable_map_eq_ok_iff {α : Type} {decode : String → Except SqliteStoreError α}
    {encode : α → String} {o : Option α} :
    nullable decode (o.map encode) = .ok o ↔ ∀ a ∈ o, decode (encode a) = .ok a := by
  cases o with
  | none => simp [nullable]
  | some a => cases h : decode (encode a) <;> simp [nullable, h, Except.map]

theorem nullable_map_ok {α : Type} {decode : String → Except SqliteStoreError α}
    {encode : α → String} {o o' : Option α} (h : nullable decode (o.map encode) = .ok o') :
    ∀ a ∈ o, ∃ b, decode (encode a) = .ok b := by
  rintro a rfl
  cases hdecode : decode (encode a) with
  | error e => simp [nullable, hdecode, Except.map] at h
  | ok b => exact ⟨b, rfl⟩

theorem parse_instant_iff (hf : Documented f) {s t : Instant} :
    f.parseFromRfc3339 (f.toRfc3339 t) = .ok s ↔ FourDigitYear t ∧ t = s := by
  by_cases ht : FourDigitYear t
  · simp [hf.fourDigits t ht, ht]
  · obtain ⟨e, he⟩ := hf.signed t ht
    simp [he, ht]

theorem parse_uuids (hf : Documented f) {context : String} (refs : List ClaimRef) :
    ((refs.map fun r => f.uuidText r.uuid).mapM fun s => parsed context (f.parseUuid s)) =
      .ok (refs.map ClaimRef.uuid) := by
  have huuids := (decodeAll_eq_ok_iff f.uuidText (fun s => parsed context (f.parseUuid s))
    (refs.map ClaimRef.uuid)).mpr fun u _ => parsed_eq_ok_iff.mpr (hf.uuid u)
  rwa [List.map_map] at huuids

/-- The fields of a claim whose column reads back. The one column of the valid-time
    confidence holds that of the window. -/
structure StorableClaim (f : Formats) (c : Claim) : Prop where
  txTime : FourDigitYear c.transactionTime
  start : ∀ t ∈ c.validTime.start, FourDigitYear t
  stop : ∀ t ∈ c.validTime.stop, FourDigitYear t
  confidence : c.confidence.validTimeConfidence = c.validTime.validTimeConfidence
  value : f.parseJson (f.jsonText c.fact.value) = .ok c.fact.value
  metadata : ∀ v ∈ c.metadata, f.parseJson (f.jsonText v) = .ok v

/-- No claim at all is decoded from a row with an instant of a signed year. -/
theorem fourDigits_of_rowToClaim (hf : Documented f) {c d : Claim}
    (h : rowToClaim f (claimRow f c) = .ok d) :
    FourDigitYear c.transactionTime ∧ (∀ t ∈ c.validTime.start, FourDigitYear t) ∧
      ∀ t ∈ c.validTime.stop, FourDigitYear t := by
  simp only [rowToClaim, claimRow, bind_eq_ok_iff, parsed_eq_ok_iff] at h
  obtain ⟨_, _, _, _, _, _, _, _, _, _, _, htxTime, _, hstart, _, hstop, _⟩ := h
  have hinstants : ∀ {context : String} {o o' : Option Instant},
      nullable (fun s => parsed context (f.parseFromRfc3339 s)) (o.map f.toRfc3339) = .ok o' →
        ∀ t ∈ o, FourDigitYear t := by
    intro context o o' ho t ht
    obtain ⟨_, hread⟩ := nullable_map_ok ho t ht
    exact ((parse_instant_iff hf).mp (parsed_eq_ok_iff.mp hread)).1
  exact ⟨((parse_instant_iff hf).mp htxTime).1, hinstants hstart, hinstants hstop⟩

theorem rowToClaim_claimRow_iff (hf : Documented f) (c : Claim) :
    rowToClaim f (claimRow f c) = .ok c ↔ StorableClaim f c := by
  constructor
  · intro h
    obtain ⟨htxTime, hstart, hstop⟩ := fourDigits_of_rowToClaim hf h
    simp only [rowToClaim, claimRow, bind_eq_ok_iff, parsed_eq_ok_iff] at h
    obtain ⟨_, _, value, hvalue, _, _, _, _, _, _, _, _, _, _, _, _, _, _, _, _, _, _, metadata,
      hmetadata, hc⟩ := h
    have hc := Except.ok.inj hc
    have hvalueEq : value = c.fact.value := congrArg (fun c => c.fact.value) hc
    have hmetadataEq : metadata = c.metadata := congrArg Claim.metadata hc
    subst hvalueEq hmetadataEq
    rw [nullable_map_eq_ok_iff] at hmetadata
    exact
      { txTime := htxTime
        start := hstart
        stop := hstop
        confidence := (congrArg (fun c => c.confidence.validTimeConfidence) hc).symm
        value := hvalue
        metadata := fun v hv => parsed_eq_ok_iff.mp (hmetadata v hv) }
  · intro h
    have htimes : ∀ (context : String) (o : Option Instant), (∀ t ∈ o, FourDigitYear t) →
        nullable (fun s => parsed context (f.parseFromRfc3339 s)) (o.map f.toRfc3339) = .ok o :=
      fun context o ho => nullable_map_eq_ok_iff.mpr fun t ht =>
        parsed_eq_ok_iff.mpr (hf.fourDigits t (ho t ht))
    have hanchor : ∀ (context : String) (o : Option ClaimRef),
        nullable (fun s => parsed context (f.parseUuid s)) (o.map fun r => f.uuidText r.uuid) =
          .ok (o.map ClaimRef.uuid) := by
      rintro context (_ | r)
      · rfl
      · simp [nullable, parsed, hf.uuid, Except.map]
    have hmetadata : nullable (fun s => parsed "metadata JSON parse: " (f.parseJson s))
        (c.metadata.map f.jsonText) = .ok c.metadata :=
      nullable_map_eq_ok_iff.mpr fun v hv => parsed_eq_ok_iff.mpr (h.metadata v hv)
    simp only [rowToClaim, claimRow, bind_eq_ok_iff]
    refine ⟨_, parsed_eq_ok_iff.mpr (hf.uuid _), _, parsed_eq_ok_iff.mpr h.value,
      _, mapped_eq_ok_iff.mpr (strToCardinality_toStr _),
      _, mapped_eq_ok_iff.mpr (strToProvenance_toStr _), _, hanchor _ _,
      _, parsed_eq_ok_iff.mpr (hf.fourDigits _ h.txTime), _, htimes _ _ h.start,
      _, htimes _ _ h.stop, _, mapped_eq_ok_iff.mpr (strToCriticality_toStr _),
      _, parsed_eq_ok_iff.mpr (hf.strings _), _, parse_uuids hf _, _, hmetadata, ?_⟩
    refine congrArg Except.ok ?_
    have hanchorBack : (c.externalAnchor.nearestExternalAnchor.map ClaimRef.uuid).map
        ClaimRef.mk = c.externalAnchor.nearestExternalAnchor := by
      rw [Option.map_map]
      exact Option.map_id'
    have hderived : (c.derivedFrom.map ClaimRef.uuid).map ClaimRef.mk = c.derivedFrom := by
      rw [List.map_map]
      exact List.map_id' _
    have hconfidence : (⟨c.confidence.valueConfidence, c.validTime.validTimeConfidence⟩ :
        Confidence) = c.confidence := by
      rw [← h.confidence]
    simp only [hanchorBack, hderived, hconfidence, strToDateGranularity_toStr]

def instantOf : AssertionKind → Instant
  | .bound boundAt _ => boundAt
  | .reopen reopenAt => reopenAt

structure StorableAssertion (a : ValidityAssertion) : Prop where
  assertedAt : FourDigitYear a.assertedAt
  instant : FourDigitYear (instantOf a.kind)

theorem rowToKind_assertionRow_iff (hf : Documented f) (a : ValidityAssertion)
    (kind : AssertionKind) :
    rowToKind f (assertionRow f a) = .ok kind ↔
      FourDigitYear (instantOf a.kind) ∧ a.kind = kind := by
  cases hkind : a.kind with
  | bound boundAt granularity =>
    simp only [rowToKind, assertionRow, hkind, kindInstant, bind_eq_ok_iff, parsed_eq_ok_iff,
      parse_instant_iff hf, strToDateGranularity_toStr, instantOf]
    constructor
    · rintro ⟨_, ⟨hyear, rfl⟩, hret⟩
      exact ⟨hyear, Except.ok.inj hret⟩
    · rintro ⟨hyear, rfl⟩
      exact ⟨boundAt, ⟨hyear, rfl⟩, rfl⟩
  | reopen reopenAt =>
    simp only [rowToKind, assertionRow, hkind, kindInstant, bind_eq_ok_iff, parsed_eq_ok_iff,
      parse_instant_iff hf, instantOf]
    constructor
    · rintro ⟨_, ⟨hyear, rfl⟩, hret⟩
      exact ⟨hyear, Except.ok.inj hret⟩
    · rintro ⟨hyear, rfl⟩
      exact ⟨reopenAt, ⟨hyear, rfl⟩, rfl⟩

theorem rowToAssertion_assertionRow_iff (hf : Documented f) (a : ValidityAssertion) :
    rowToAssertion f (assertionRow f a) = .ok a ↔ StorableAssertion a := by
  simp only [rowToAssertion, bind_eq_ok_iff, parsed_eq_ok_iff, mapped_eq_ok_iff,
    rowToKind_assertionRow_iff hf]
  constructor
  · rintro ⟨_, _, _, _, _, _, assertedAt, hassertedAt, _, ⟨hyear, _⟩, _⟩
    exact ⟨((parse_instant_iff hf).mp hassertedAt).1, hyear⟩
  · intro h
    exact ⟨_, hf.uuid _, _, hf.uuid _, _, strToProvenance_toStr _, _,
      hf.fourDigits _ h.assertedAt, _, ⟨h.instant, rfl⟩, rfl⟩

end Codec

section Database

/-- What was committed, and the tables that hold it. -/
structure Database where
  store : Store
  tables : Tables

variable (f : Formats) (eng : Engine)

-- The read phase may see any store: what the adapter answers it is left open. A refused
-- insert is rolled back and changes neither side.
/-- An operation commits the appends that its read phase planned. -/
def Saves (db : Database) (op : Op) (db' : Database) : Prop :=
  Supplied db.store op ∧ ∃ seen,
    insertAll f db.tables (appendsOf (planOf eng seen op)) = .ok db'.tables ∧
    db'.store = { writeAll db.store (appendsOf (planOf eng seen op)) with
      pending := db'.store.pending }

abbrev Saved : Database → Prop :=
  Transition.Reach (fun db => db.store.New ∧ db.tables = Tables.empty) (Saves f eng)

variable {f eng}

/-- The engine on the store itself commits so, wherever its rows can be inserted. -/
theorem saves_of_step {σ σ' : Store} {op : Op} {T T' : Tables} (h : Step eng σ op σ')
    (hT : insertAll f T (appendsOf (planOf eng σ op)) = .ok T') :
    Saves f eng ⟨σ, T⟩ op ⟨σ', T'⟩ := by
  refine ⟨h.1, σ, hT, ?_⟩
  have happends := run_appends σ (planOf eng σ op)
  rw [planOf_run, ← h.2] at happends
  have hwritten := writeAll_appends σ (appendsOf (planOf eng σ op))
  cases σ'
  simp only [Store.mk.injEq, true_and]
  exact ⟨happends.claims.trans hwritten.claims.symm,
    happends.assertions.trans hwritten.assertions.symm,
    happends.ledger.trans hwritten.ledger.symm, happends.edges.trans hwritten.edges.symm,
    happends.ties.trans hwritten.ties.symm⟩

variable (f eng) in
/-- One operation on the store and on the tables at once. -/
def save (db : Database) (op : Op) : Except SqliteStoreError Database :=
  (insertAll f db.tables (appendsOf (planOf eng db.store op))).map fun tables =>
    ⟨apply eng db.store op, tables⟩

theorem saved_of_foldlM {db db' : Database} {ops : List Op} (h : Saved f eng db)
    (hrun : Runnable eng db.store ops) (hsave : ops.foldlM (save f eng) db = .ok db') :
    Saved f eng db' := by
  induction ops generalizing db with
  | nil => exact Except.ok.inj hsave ▸ h
  | cons op ops ih =>
    rw [List.foldlM_cons, bind_eq_ok_iff] at hsave
    obtain ⟨next, hnext, hrest⟩ := hsave
    cases hinsert : insertAll f db.tables (appendsOf (planOf eng db.store op)) with
    | error e =>
      rw [save, hinsert] at hnext
      cases hnext
    | ok tables =>
      rw [save, hinsert] at hnext
      cases hnext
      exact ih (.step h (saves_of_step ⟨hrun.1, rfl⟩ hinsert)) hrun.2 hrest

theorem insertAll_rows {T T' : Tables} {appends : List Append}
    (h : insertAll f T appends = .ok T') :
    T'.claims = T.claims ++ (appendedClaims appends).map (claimRow f) ∧
      T'.validityAssertions =
        T.validityAssertions ++ (appendedAssertions appends).map (assertionRow f) := by
  induction appends generalizing T with
  | nil =>
    cases Except.ok.inj h
    simp [appendedClaims, appendedAssertions]
  | cons a appends ih =>
    rw [insertAll, List.foldlM_cons, bind_eq_ok_iff] at h
    obtain ⟨U, hU, hrest⟩ := h
    obtain ⟨hclaims, hassertions⟩ := ih hrest
    rw [hclaims, hassertions]
    cases a with
    | claim c =>
      simp only [SqliteRows.insert, SqliteRows.appendClaim] at hU
      split_ifs at hU
      cases Except.ok.inj hU
      simp [appendedClaims, appendedAssertions]
    | assertion a =>
      simp only [SqliteRows.insert, SqliteRows.appendValidityAssertion] at hU
      split_ifs at hU
      cases Except.ok.inj hU
      simp [appendedClaims, appendedAssertions]
    | entry e | edge e =>
      cases Except.ok.inj hU
      simp [appendedClaims, appendedAssertions]

/-- The tables hold the rows of the store, whose claims are stamped requests under
    references of their own. -/
structure Holds (f : Formats) (db : Database) : Prop where
  claims : db.tables.claims = db.store.claims.map (claimRow f)
  assertions : db.tables.validityAssertions = db.store.assertions.map (assertionRow f)
  stamped : ∀ c ∈ db.store.claims, ∃ req claimRef now, c = stamp req claimRef now
  claimRefs : (db.store.claims.map Claim.claimRef).Nodup

theorem Holds.saves {db db' : Database} {op : Op} (h : Holds f db) (hst : Saves f eng db op db') :
    Holds f db' := by
  obtain ⟨hsup, seen, hinsert, hstore⟩ := hst
  have happends := writeAll_appends db.store (appendsOf (planOf eng seen op))
  have houtcome := plan_outcome eng seen op
  have hclaims : db'.store.claims =
      db.store.claims ++ appendedClaims (appendsOf (planOf eng seen op)) := by
    rw [hstore]
    exact happends.claims
  have hassertions : db'.store.assertions =
      db.store.assertions ++ appendedAssertions (appendsOf (planOf eng seen op)) := by
    rw [hstore]
    exact happends.assertions
  obtain ⟨hclaimRows, hassertionRows⟩ := insertAll_rows hinsert
  refine ⟨?_, ?_, ?_, ?_⟩
  · rw [hclaimRows, hclaims, h.claims, List.map_append]
  · rw [hassertionRows, hassertions, h.assertions, List.map_append]
  · intro c hc
    rw [hclaims] at hc
    rcases List.mem_append.mp hc with hc | hc
    · exact h.stamped c hc
    · obtain ⟨req, now, claimRef, _, _, hstamp, _⟩ := WrittenClaims.claims_of_outcome houtcome hc
      exact ⟨req, claimRef, now, hstamp⟩
  · rw [hclaims]
    exact Invariants.claimRefs_nodup_of_outcome h.claimRefs hsup houtcome

theorem holds_of_saved {db : Database} (h : Saved f eng db) : Holds f db := by
  refine Transition.Reach.invariant h (fun db hinit => ?_) fun _ _ _ _ hholds hst =>
    hholds.saves hst
  obtain ⟨σ, T⟩ := db
  obtain ⟨⟨ties, rfl⟩, rfl⟩ := hinit
  exact ⟨rfl, rfl, fun _ hc => absurd hc List.not_mem_nil, List.nodup_nil⟩

end Database

section Reads

variable (f : Formats)

/-- The ingested claims of a line, by the text of their stamp and up to that of the
    cutoff. -/
def storedLine (σ : Store) (agentId : AgentId) (subject predicate : String)
    (asOfTxTime : Option Instant) : List Claim :=
  inOrder (fun c => f.toRfc3339 c.transactionTime) (σ.claims.filter fun c =>
    onLine agentId subject predicate c &&
      asOfTxTime.all fun t => decide (f.toRfc3339 c.transactionTime ≤ f.toRfc3339 t))

def storedAssertions (σ : Store) (agentId : AgentId) (claimRef : ClaimRef) :
    List ValidityAssertion :=
  inOrder (fun a => f.toRfc3339 a.assertedAt) (σ.assertions.filter fun a =>
    a.agentId == agentId && a.targetClaim == claimRef)

/-- Each load succeeds, with the claims as ingested and the assertions as stored. -/
structure ReadBack (db : Database) : Prop where
  claim : ∀ req claimRef now, stamp req claimRef now ∈ db.store.claims →
    SqliteRows.loadClaim f db.tables req.agentId claimRef = .ok (some (stamp req claimRef now))
  line : ∀ agentId subject predicate asOfTxTime,
    SqliteRows.loadSubjectLine f db.tables agentId subject predicate asOfTxTime =
      .ok (storedLine f db.store agentId subject predicate asOfTxTime)
  assertions : ∀ agentId claimRef,
    SqliteRows.loadValidityAssertionsFor f db.tables agentId claimRef =
      .ok (storedAssertions f db.store agentId claimRef)

/-- The clock and both ends of the window print four-digit years, one number serves as
    valid-time confidence of the request and of its window, and the JSON text of the value
    reads back. -/
structure StorableRequest (req : IngestClaimRequest) (now : Instant) : Prop where
  clock : FourDigitYear now
  start : ∀ t ∈ (req.validTime.getD unknownValidTime).start, FourDigitYear t
  stop : ∀ t ∈ (req.validTime.getD unknownValidTime).stop, FourDigitYear t
  confidence : req.confidence.validTimeConfidence =
    (req.validTime.getD unknownValidTime).validTimeConfidence
  value : f.parseJson (f.jsonText req.value) = .ok req.value

/-- Every request and every assertion committed is storable. -/
structure Storable (db : Database) : Prop where
  requests : ∀ req claimRef now, stamp req claimRef now ∈ db.store.claims →
    StorableRequest f req now
  assertions : ∀ a ∈ db.store.assertions, StorableAssertion a

variable {f} {eng : Engine} {db : Database}

theorem storableClaim_stamp_iff {req : IngestClaimRequest} {claimRef : ClaimRef}
    {now : Instant} : StorableClaim f (stamp req claimRef now) ↔ StorableRequest f req now := by
  constructor
  · intro h
    exact ⟨h.txTime, h.start, h.stop, h.confidence, h.value⟩
  · intro h
    exact ⟨h.clock, h.start, h.stop, h.confidence, h.value, fun _ hv => nomatch hv⟩

theorem name_beq (a b : AgentId) : (a.name == b.name) = (a == b) := by
  cases a
  cases b
  rw [Bool.eq_iff_iff]
  simp

theorem uuidText_beq (hf : Documented f) (r s : ClaimRef) :
    (f.uuidText r.uuid == f.uuidText s.uuid) = (r == s) := by
  rw [Bool.eq_iff_iff, beq_iff_eq, beq_iff_eq]
  constructor
  · intro h
    have hread : Except.ok r.uuid = (Except.ok s.uuid : Except String Uuid) := by
      rw [← hf.uuid, ← hf.uuid, h]
    exact congrArg ClaimRef.mk (Except.ok.inj hread)
  · rintro rfl
    rfl

theorem loadClaim_iff (hf : Documented f) (h : Holds f db) {c : Claim}
    (hc : c ∈ db.store.claims) :
    SqliteRows.loadClaim f db.tables c.agentId c.claimRef = .ok (some c) ↔ StorableClaim f c := by
  have hload : SqliteRows.loadClaim f db.tables c.agentId c.claimRef =
      (rowToClaim f (claimRow f c)).map some := by
    rw [SqliteRows.loadClaim, h.claims]
    refine selectFirst_map_of_unique _ _ _ hc (by simp [claimRow]) fun d hd hkey => ?_
    simp only [claimRow, uuidText_beq hf, Bool.and_eq_true, beq_iff_eq] at hkey
    exact List.inj_on_of_nodup_map h.claimRefs hd hc hkey.2
  rw [hload, ← rowToClaim_claimRow_iff hf]
  cases rowToClaim f (claimRow f c) <;> simp [Except.map]

theorem onLine_row (agentId : AgentId) (subject predicate : String) (c : Claim) :
    ((claimRow f c).agentId == agentId.name && (claimRow f c).subject == subject &&
      (claimRow f c).predicate == predicate) = onLine agentId subject predicate c := by
  rw [onLine, ← name_beq]
  rfl

theorem loadSubjectLine_iff (hf : Documented f) (h : Holds f db) (agentId : AgentId)
    (subject predicate : String) (asOfTxTime : Option Instant) :
    SqliteRows.loadSubjectLine f db.tables agentId subject predicate asOfTxTime =
        .ok (storedLine f db.store agentId subject predicate asOfTxTime) ↔
      ∀ c ∈ storedLine f db.store agentId subject predicate asOfTxTime, StorableClaim f c := by
  have hselect := select_map_eq_ok_iff (claimRow f) (rowToClaim f) ClaimRow.txTime
    (fun row => row.agentId == agentId.name && row.subject == subject &&
      row.predicate == predicate &&
      asOfTxTime.all (fun cutoff => decide (row.txTime ≤ f.toRfc3339 cutoff)))
    db.store.claims
  simp only [Function.comp_def, onLine_row] at hselect
  refine (h.claims ▸ hselect).trans ?_
  simp only [storedLine, mem_inOrder, rowToClaim_claimRow_iff hf]
  rfl

/-- One claim with an instant of a signed year spoils every full load of its line. -/
theorem loadSubjectLine_spoiled (hf : Documented f) (h : Holds f db) {c : Claim}
    (hc : c ∈ db.store.claims) {t : Instant} (ht : t ∈ c.validTime.start ∨ t ∈ c.validTime.stop)
    (hyear : ¬ FourDigitYear t) :
    ∃ e, SqliteRows.loadSubjectLine f db.tables c.agentId c.fact.subject c.fact.predicate none =
      .error e := by
  cases hdecode : rowToClaim f (claimRow f c) with
  | ok d =>
    obtain ⟨_, hstart, hstop⟩ := fourDigits_of_rowToClaim hf hdecode
    exact absurd (ht.elim (hstart t) (hstop t)) hyear
  | error e =>
    have hrow : claimRow f c ∈ db.tables.claims := by
      rw [h.claims]
      exact List.mem_map_of_mem hc
    exact select_error_of_mem (rowToClaim f) _ _ hrow (by simp [claimRow]) hdecode

theorem loadValidityAssertionsFor_iff (hf : Documented f) (h : Holds f db) (agentId : AgentId)
    (claimRef : ClaimRef) :
    SqliteRows.loadValidityAssertionsFor f db.tables agentId claimRef =
        .ok (storedAssertions f db.store agentId claimRef) ↔
      ∀ a ∈ storedAssertions f db.store agentId claimRef, StorableAssertion a := by
  have hselect := select_map_eq_ok_iff (assertionRow f) (rowToAssertion f)
    AssertionRow.assertedAt
    (fun row => row.agentId == agentId.name && row.targetClaimId == f.uuidText claimRef.uuid)
    db.store.assertions
  have htarget : ∀ a : ValidityAssertion, ((assertionRow f a).agentId == agentId.name &&
      (assertionRow f a).targetClaimId == f.uuidText claimRef.uuid) =
        (a.agentId == agentId && a.targetClaim == claimRef) := by
    intro a
    rw [← name_beq, ← uuidText_beq hf]
    rfl
  simp only [Function.comp_def, htarget] at hselect
  refine (h.assertions ▸ hselect).trans ?_
  simp only [storedAssertions, mem_inOrder, rowToAssertion_assertionRow_iff hf]

theorem Storable.claims (hstorable : Storable f db) (h : Holds f db) {c : Claim}
    (hc : c ∈ db.store.claims) : StorableClaim f c := by
  obtain ⟨req, claimRef, now, rfl⟩ := h.stamped c hc
  exact storableClaim_stamp_iff.mpr (hstorable.requests req claimRef now hc)

/-- Everything committed is read back unchanged exactly where every request and every
    assertion is storable. -/
theorem committed_reads_back_iff (hf : Documented f) (h : Saved f eng db) :
    ReadBack f db ↔ Storable f db := by
  have hholds := holds_of_saved h
  constructor
  · intro hback
    refine ⟨fun req claimRef now hc => ?_, fun a ha => ?_⟩
    · exact storableClaim_stamp_iff.mp
        ((loadClaim_iff hf hholds hc).mp (hback.claim req claimRef now hc))
    · refine (loadValidityAssertionsFor_iff hf hholds a.agentId a.targetClaim).mp
        (hback.assertions _ _) a ?_
      rw [storedAssertions, mem_inOrder, List.mem_filter]
      exact ⟨ha, by simp⟩
  · intro hstorable
    have hclaims : ∀ c ∈ db.store.claims, StorableClaim f c :=
      fun c hc => hstorable.claims hholds hc
    refine ⟨fun req claimRef now hc => ?_, fun agentId subject predicate asOfTxTime => ?_,
      fun agentId claimRef => ?_⟩
    · exact (loadClaim_iff hf hholds hc).mpr (hclaims _ hc)
    · refine (loadSubjectLine_iff hf hholds agentId subject predicate asOfTxTime).mpr
        fun c hc => hclaims c ?_
      exact List.mem_of_mem_filter ((mem_inOrder _).mp hc)
    · refine (loadValidityAssertionsFor_iff hf hholds agentId claimRef).mpr
        fun a ha => hstorable.assertions a ?_
      exact List.mem_of_mem_filter ((mem_inOrder _).mp ha)

end Reads

section Refinement

/-- The texts of two four-digit years sort as the instants. -/
def Ordered (f : Formats) : Prop :=
  ∀ s t, FourDigitYear s → FourDigitYear t → (f.toRfc3339 s ≤ f.toRfc3339 t ↔ s ≤ t)

variable {f : Formats} {eng : Engine} {db : Database}

theorem storedLine_eq (hordered : Ordered f) (hstorable : Storable f db) (h : Holds f db)
    (agentId : AgentId) (subject predicate : String) {asOfTxTime : Option Instant}
    (hcutoff : ∀ t ∈ asOfTxTime, FourDigitYear t) :
    storedLine f db.store agentId subject predicate asOfTxTime =
      Persistence.loadSubjectLine db.store agentId subject predicate asOfTxTime := by
  have hyear : ∀ c ∈ db.store.claims, FourDigitYear c.transactionTime :=
    fun c hc => (hstorable.claims h hc).txTime
  have hfilter : db.store.claims.filter (fun c => onLine agentId subject predicate c &&
        asOfTxTime.all fun t => decide (f.toRfc3339 c.transactionTime ≤ f.toRfc3339 t)) =
      db.store.claims.filter (fun c => onLine agentId subject predicate c &&
        withinCutoff asOfTxTime c.transactionTime) := by
    refine List.filter_congr fun c hc => congrArg (onLine agentId subject predicate c && ·) ?_
    cases asOfTxTime with
    | none => rfl
    | some t => simp [withinCutoff, hordered _ t (hyear c hc) (hcutoff t rfl)]
  rw [storedLine, hfilter]
  exact inOrder_congr _ fun c hc d hd =>
    hordered _ _ (hyear c (List.mem_of_mem_filter hc)) (hyear d (List.mem_of_mem_filter hd))

theorem storedAssertions_eq (hordered : Ordered f) (hstorable : Storable f db)
    (agentId : AgentId) (claimRef : ClaimRef) :
    storedAssertions f db.store agentId claimRef =
      Persistence.loadValidityAssertionsFor db.store agentId claimRef :=
  inOrder_congr _ fun a ha b hb =>
    hordered _ _ (hstorable.assertions a (List.mem_of_mem_filter ha)).assertedAt
      (hstorable.assertions b (List.mem_of_mem_filter hb)).assertedAt

/-- Where all that was committed is storable, the adapter answers as the store does. -/
theorem loads_refine (hf : Documented f) (hordered : Ordered f) (h : Saved f eng db)
    (hstorable : Storable f db) :
    (∀ agentId claimRef, SqliteRows.loadClaim f db.tables agentId claimRef =
      .ok (Persistence.loadClaim db.store agentId claimRef)) ∧
    (∀ agentId subject predicate asOfTxTime, (∀ t ∈ asOfTxTime, FourDigitYear t) →
      SqliteRows.loadSubjectLine f db.tables agentId subject predicate asOfTxTime =
        .ok (Persistence.loadSubjectLine db.store agentId subject predicate asOfTxTime)) ∧
    ∀ agentId claimRef, SqliteRows.loadValidityAssertionsFor f db.tables agentId claimRef =
      .ok (Persistence.loadValidityAssertionsFor db.store agentId claimRef) := by
  have hholds := holds_of_saved h
  have hback := (committed_reads_back_iff hf h).mpr hstorable
  refine ⟨fun agentId claimRef => ?_, fun agentId subject predicate asOf hcutoff => ?_,
    fun agentId claimRef => ?_⟩
  · have hfirst := selectFirst_map_eq_ok (claimRow f) (rowToClaim f)
      (fun row => row.agentId == agentId.name && row.claimId == f.uuidText claimRef.uuid)
      (fun c hc _ => (rowToClaim_claimRow_iff hf c).mpr (hstorable.claims hholds hc))
    have hkey : (fun c => (claimRow f c).agentId == agentId.name &&
        (claimRow f c).claimId == f.uuidText claimRef.uuid) =
          fun c => c.agentId == agentId && c.claimRef == claimRef := by
      funext c
      rw [← name_beq, ← uuidText_beq hf]
      rfl
    simp only [Function.comp_def, hkey] at hfirst
    rw [SqliteRows.loadClaim, hholds.claims]
    exact hfirst
  · rw [hback.line, storedLine_eq hordered hstorable hholds agentId subject predicate hcutoff]
  · rw [hback.assertions, storedAssertions_eq hordered hstorable]

end Refinement

section Sample

/-- The given texts for some numbers, and for the others as many strokes. -/
def spell (known : List (ℕ × String)) (n : ℕ) : String :=
  (known.find? (·.1 == n)).elim (String.ofList (List.replicate n '1')) (·.2)

def unspell (known : List (ℕ × String)) (s : String) : Option ℕ :=
  if s.toList.all (· == '1') then some s.length else (known.find? (·.2 == s)).map (·.1)

theorem unspell_spell {known : List (ℕ × String)}
    (h : ∀ p ∈ known, unspell known p.2 = some p.1) (n : ℕ) :
    unspell known (spell known n) = some n := by
  rw [spell]
  cases hn : known.find? (·.1 == n) with
  | none => simp [unspell]
  | some p =>
    have hkey := List.find?_some hn
    have hread := h p (List.mem_of_find?_eq_some hn)
    rw [beq_iff_eq] at hkey
    rwa [hkey] at hread

def quoted (xs : List String) : List Char :=
  xs.flatMap fun s => ',' :: s.toList.flatMap fun c => ['.', c]

def unquoted : List Char → List Char × List String
  | ',' :: cs => ([], String.ofList (unquoted cs).1 :: (unquoted cs).2)
  | '.' :: c :: cs => (c :: (unquoted cs).1, (unquoted cs).2)
  | _ => ([], [])

theorem unquoted_chars (s cs : List Char) :
    unquoted ((s.flatMap fun c => ['.', c]) ++ cs) = (s ++ (unquoted cs).1, (unquoted cs).2) := by
  induction s with
  | nil => rfl
  | cons c s ih => simp [unquoted, ih]

theorem unquoted_quoted (xs : List String) : unquoted (quoted xs ++ [']']) = ([], xs) := by
  induction xs with
  | nil => rfl
  | cons s xs ih =>
    have hsplit : quoted (s :: xs) ++ [']'] =
        ',' :: ((s.toList.flatMap fun c => ['.', c]) ++ (quoted xs ++ [']'])) := by
      simp [quoted]
    rw [hsplit, unquoted, unquoted_chars, ih]
    simp

def uuidTexts : List (ℕ × String) :=
  [(1, "00000000-0000-0000-0000-000000000001"), (2, "00000000-0000-0000-0000-000000000002")]

/-- Counted from the first instant of the year 0. -/
def instantTexts : List (ℕ × String) :=
  [(62167219200 * 10 ^ 9 + 10, "1970-01-01T00:00:00.000000010+00:00"),
    (62167219200 * 10 ^ 9 + 20, "1970-01-01T00:00:00.000000020+00:00")]

/-- The texts of the libraries for what the stores below hold. -/
def sample : Formats where
  uuidText := spell uuidTexts
  parseUuid s := (unspell uuidTexts s).elim (.error "invalid length") .ok
  toRfc3339 t :=
    if FourDigitYear t then spell instantTexts (t + 62167219200 * 10 ^ 9).toNat
    else "+10000-01-01T00:00:00+00:00"
  parseFromRfc3339 s :=
    (unspell instantTexts s).elim (.error "input contains invalid characters") fun n =>
      .ok (n - 62167219200 * 10 ^ 9)
  jsonText
    | .str s => "\"" ++ s ++ "\""
    | _ => "null"
  parseJson s := if s = "\"Paris\"" then .ok (.str "Paris") else .ok .null
  stringsText xs := String.ofList ('[' :: quoted xs ++ [']'])
  parseStrings s := .ok (unquoted s.toList.tail).2

/-- The texts with other numbers known. -/
def spelled (uuids instants : List (ℕ × String)) : Formats :=
  { sample with
    uuidText := spell uuids
    parseUuid := fun s => (unspell uuids s).elim (.error "invalid length") .ok
    toRfc3339 := fun t =>
      if FourDigitYear t then spell instants (t + 62167219200 * 10 ^ 9).toNat
      else "+10000-01-01T00:00:00+00:00"
    parseFromRfc3339 := fun s =>
      (unspell instants s).elim (.error "input contains invalid characters") fun n =>
        .ok (n - 62167219200 * 10 ^ 9) }

theorem spelled_documented {uuids instants : List (ℕ × String)}
    (huuids : ∀ p ∈ uuids, unspell uuids p.2 = some p.1)
    (hinstants : ∀ p ∈ instants, unspell instants p.2 = some p.1)
    (hsigned : unspell instants "+10000-01-01T00:00:00+00:00" = none) :
    Documented (spelled uuids instants) where
  uuid u := by
    simp only [spelled, unspell_spell huuids u]
    rfl
  strings xs := by simp [spelled, sample, unquoted_quoted]
  fourDigits t ht := by
    simp only [spelled, if_pos ht, unspell_spell hinstants _]
    have hlow : (0 : ℤ) ≤ t + 62167219200 * 10 ^ 9 := by
      have hyear : (-62167219200 * 10 ^ 9 : ℤ) ≤ t := ht.1
      omega
    refine congrArg Except.ok ?_
    rw [Int.toNat_of_nonneg hlow]
    exact Int.add_sub_cancel t _
  signed t ht := by
    simp only [spelled, if_neg ht, hsigned]
    exact ⟨"input contains invalid characters", rfl⟩

theorem sample_documented : Documented sample :=
  (spelled_documented (by decide) (by decide) (by decide) :
    Documented (spelled uuidTexts instantTexts))

/-- The database after operations that all commit. -/
def dbOf (ops : List Op) : Database where
  store := run (defaultEngine false) Store.sqlite ops
  tables := ⟨(run (defaultEngine false) Store.sqlite ops).claims.map (claimRow sample),
    (run (defaultEngine false) Store.sqlite ops).assertions.map (assertionRow sample)⟩

theorem dbOf_saved {ops : List Op} (hrun : Runnable (defaultEngine false) Store.sqlite ops)
    (hsave : ops.foldlM (save sample (defaultEngine false)) ⟨Store.sqlite, Tables.empty⟩ =
      .ok (dbOf ops)) : Saved sample (defaultEngine false) (dbOf ops) :=
  saved_of_foldlM (.init ⟨Store.new_sqlite, rfl⟩) hrun hsave

def kept : List Op :=
  [.ingestClaim (remember "Paris" (some (dated 10 none))) 10 ⟨1⟩ (.ok 100),
    .assertValidity (assertOn 1 (.bound 20 none)) 20 2]

theorem paris_reads_back : ReadBack sample (dbOf kept) := by
  have hsaved : Saved sample (defaultEngine false) (dbOf kept) := dbOf_saved (by decide) rfl
  refine (committed_reads_back_iff sample_documented hsaved).mpr ⟨?_, ?_⟩
  · intro req claimRef now hc
    refine storableClaim_stamp_iff.mp (?_ : StorableClaim sample (stamp req claimRef now))
    have hparis : stamp req claimRef now =
        stamp (remember "Paris" (some (dated 10 none))) ⟨1⟩ 10 := List.mem_singleton.mp hc
    rw [hparis]
    refine storableClaim_stamp_iff.mpr ⟨by decide, ?_, ?_, rfl, by decide⟩
    · rintro t ⟨⟩
      decide
    · rintro t ⟨⟩
  · intro a ha
    have hbound : a =
        AssertValidity.hostAssertion (assertOn 1 (.bound 20 none)) (.bound 20 none) 20 2 :=
      List.mem_singleton.mp ha
    rw [hbound]
    exact ⟨by decide, by decide⟩

/-- The end of the second window is the first instant of the year 10000. -/
def late : List Op :=
  [.ingestClaim (remember "Paris" (some (dated 10 none))) 10 ⟨1⟩ (.ok 100),
    .ingestClaim (remember "Paris" (some (dated 10 (some (253402300800 * 10 ^ 9))))) 20 ⟨2⟩
      (.ok 101)]

/-- The request is certain of a window that it does not give. -/
def undated : List Op := [.ingestClaim (remember "Paris" none) 10 ⟨1⟩ (.ok 100)]

theorem late_end_is_unreadable :
    (Saved sample (defaultEngine false) (dbOf late) ∧ ¬ ReadBack sample (dbOf late) ∧
      SqliteRows.loadClaim sample (dbOf late).tables agent ⟨2⟩ = .error
        (.invalidColumnType "valid_time_end parse: input contains invalid characters") ∧
      SqliteRows.loadSubjectLine sample (dbOf late).tables agent "user" "location" none = .error
        (.invalidColumnType "valid_time_end parse: input contains invalid characters")) ∧
    Saved sample (defaultEngine false) (dbOf undated) ∧ ¬ ReadBack sample (dbOf undated) ∧
      SqliteRows.loadClaim sample (dbOf undated).tables agent ⟨1⟩ =
        .ok (some { stamp (remember "Paris" none) ⟨1⟩ 10 with
          confidence := ⟨certain, .ofScaled 0⟩ }) := by
  have hlate : SqliteRows.loadSubjectLine sample (dbOf late).tables agent "user" "location" none =
      .error (.invalidColumnType "valid_time_end parse: input contains invalid characters") := by
    decide
  have hundated : SqliteRows.loadClaim sample (dbOf undated).tables agent ⟨1⟩ =
      .ok (some { stamp (remember "Paris" none) ⟨1⟩ 10 with
        confidence := ⟨certain, .ofScaled 0⟩ }) := by
    decide
  refine ⟨⟨dbOf_saved (by decide) rfl, fun hback => ?_, by decide, hlate⟩,
    dbOf_saved (by decide) rfl, fun hback => ?_, hundated⟩
  · rw [hback.line] at hlate
    cases hlate
  · have hline := hback.claim (remember "Paris" none) ⟨1⟩ 10 (by decide)
    exact absurd (hline.symm.trans hundated) (by decide)

end Sample

end Mempill.RowRoundTrip
