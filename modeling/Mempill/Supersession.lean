import Mempill.Lib.FirstOccurrence
import Mempill.WritePhases

set_option autoImplicit false

/-!
# The two supersession writers

`supersession::execute` and the verdict's own copy of it, each with its cascade loop:
both append a bound and a superseded entry for the target, and one flag for each
dependent of it.
-/
namespace Mempill.Supersession
open Mempill.Types Mempill.Persistence Mempill.WritePhases FirstOccurrence
open Mempill.SubmitAdjudication hiding boundClaim execute

section Writers

structure SupersessionRequest where
  agentId : AgentId
  supersededRef : ClaimRef
  overturningRef : ClaimRef
  boundAt : Instant
  recordedAt : Instant

/-- What the loop of `execute` carries from edge to edge. -/
structure Cascade where
  seenDependents : Finset ClaimRef
  appends : List Append
  cascadeCount : ℕ

def cascadeStep (req : SupersessionRequest) (s : Cascade) (edge : ClaimEdge) : Cascade :=
  if edge.kind == .dependsOn && edge.toClaim == req.supersededRef then
    if edge.fromClaim ∈ s.seenDependents then s
    else
      { seenDependents := insert edge.fromClaim s.seenDependents
        appends := s.appends ++
          [.entry
            { agentId := req.agentId
              claimRef := edge.fromClaim
              eventKind := .dependentFlaggedPendingReview
              disposition := .pendingReview
              rationale := some (.obj [("event", .str "depends_on_cascade"),
                ("superseded_parent", .uuid req.supersededRef.uuid),
                ("overturning_claim", .uuid req.overturningRef.uuid)])
              recordedAt := req.recordedAt }]
        cascadeCount := s.cascadeCount + 1 }
  else s

/-- The appends in order, and the number of dependents flagged. -/
def execute (req : SupersessionRequest) (preloadedEdges : List ClaimEdge) (assertionRef : Uuid) :
    List Append × ℕ :=
  let assertion : ValidityAssertion :=
    { assertionRef := assertionRef
      agentId := req.agentId
      targetClaim := req.supersededRef
      kind := .bound req.boundAt none
      provenance := .external .externalFirstHand
      -- 1.0 in binary32
      confidence := ⟨.ofScaled (2 ^ 149), .ofScaled (2 ^ 149)⟩
      assertedAt := req.recordedAt }
  let ledgerSupersession : LedgerEntry :=
    { agentId := req.agentId
      claimRef := req.supersededRef
      eventKind := .validityAsserted
      disposition := .superseded
      rationale := some (.obj [("event", .str "supersession"),
        ("overturning_claim", .uuid req.overturningRef.uuid), ("bound_at", .time req.boundAt)])
      recordedAt := req.recordedAt }
  let s := preloadedEdges.foldl (cascadeStep req)
    ⟨∅, [.assertion assertion, .entry ledgerSupersession], 0⟩
  (s.appends, s.cascadeCount)

/-- The loop of `bound_claim`, over what it has seen and appended. -/
def flagStep (agentId : AgentId) (target overturning : ClaimRef) (now : Instant)
    (s : Finset ClaimRef × List Append) (edge : ClaimEdge) : Finset ClaimRef × List Append :=
  if edge.kind == .dependsOn && edge.toClaim == target then
    if edge.fromClaim ∈ s.1 then s
    else
      (insert edge.fromClaim s.1,
        s.2 ++
          [.entry
            { agentId := agentId
              claimRef := edge.fromClaim
              eventKind := .dependentFlaggedPendingReview
              disposition := .pendingReview
              rationale := some (cascadeRationale target overturning)
              recordedAt := now }])
  else s

def boundClaim (agentId : AgentId) (target overturning : ClaimRef) (boundAt : Instant)
    (boundAtGranularity : Option DateGranularity) (now : Instant)
    (preloadedEdges : List ClaimEdge) (verdict : String) (assertionRef : Uuid) : List Append :=
  (preloadedEdges.foldl (flagStep agentId target overturning now)
    (∅, [.assertion (oracleAssertion agentId target boundAt boundAtGranularity now assertionRef),
      .entry (supersededEntry agentId target overturning boundAt now verdict)])).2

end Writers

section Written

def flagEntry (agentId : AgentId) (target overturning : ClaimRef) (now : Instant)
    (dependent : ClaimRef) : LedgerEntry where
  agentId := agentId
  claimRef := dependent
  eventKind := .dependentFlaggedPendingReview
  disposition := .pendingReview
  rationale := some (cascadeRationale target overturning)
  recordedAt := now

/-- One bound and one superseded entry for the target, then one flag for each
    dependent. -/
def written (agentId : AgentId) (target overturning : ClaimRef) (boundAt : Instant)
    (boundAtGranularity : Option DateGranularity) (now : Instant) (assertionRef : Uuid)
    (rationale : Json) (dependents : List ClaimRef) : List Append :=
  [.assertion
      { assertionRef := assertionRef
        agentId := agentId
        targetClaim := target
        kind := .bound boundAt boundAtGranularity
        provenance := .external .externalFirstHand
        confidence := ⟨.ofScaled (2 ^ 149), .ofScaled (2 ^ 149)⟩
        assertedAt := now },
    .entry
      { agentId := agentId
        claimRef := target
        eventKind := .validityAsserted
        disposition := .superseded
        rationale := some rationale
        recordedAt := now }] ++
    dependents.map fun dependent => .entry (flagEntry agentId target overturning now dependent)

/-- The claims with a dependency on the target, an edge at a time. -/
def dependencies (target : ClaimRef) (edges : List ClaimEdge) : List ClaimRef :=
  (edges.filter fun e => e.kind == .dependsOn && e.toClaim == target).map (·.fromClaim)

theorem mem_dependencies (target c : ClaimRef) (edges : List ClaimEdge) :
    c ∈ dependencies target edges ↔
      ∃ e ∈ edges, e.kind = .dependsOn ∧ e.toClaim = target ∧ e.fromClaim = c := by
  simp only [dependencies, List.mem_map, List.mem_filter, Bool.and_eq_true, beq_iff_eq,
    and_assoc]

end Written

section Loops

/-- A loop that skips all edges but the dependencies on the target is the loop over
    those. -/
theorem foldl_dependencies {γ : Type} (target : ClaimRef) (visit : γ → ClaimRef → γ) (start : γ)
    (edges : List ClaimEdge) :
    edges.foldl (fun s e =>
        if e.kind == .dependsOn && e.toClaim == target then visit s e.fromClaim else s) start =
      (dependencies target edges).foldl visit start := by
  rw [dependencies, List.foldl_map, List.foldl_filter]

/-- A loop that a loop over new claims carries along ends with one item for each
    dependent. -/
theorem foldl_of_visitNew {γ : Type} (target : ClaimRef) (visit : γ → ClaimRef → γ)
    (emit : ClaimRef → Append) (state : Finset ClaimRef × List Append → γ)
    (edges : List ClaimEdge) (hseen : ∀ s, ∀ c ∈ s.1, visit (state s) c = state s)
    (hnew : ∀ s, ∀ c ∉ s.1, visit (state s) c = state (insert c s.1, s.2 ++ [emit c])) :
    edges.foldl (fun s e =>
        if e.kind == .dependsOn && e.toClaim == target then visit s e.fromClaim else s)
        (state (∅, [])) =
      state ((dependencies target edges).toFinset, (dependentsOf target edges).map emit) := by
  have hvisit : ∀ s c, visit (state s) c = state (visitNew emit s c) := by
    intro s c
    by_cases hc : c ∈ s.1
    · rw [visitNew, if_pos hc, hseen s c hc]
    · rw [visitNew, if_neg hc, hnew s c hc]
  rw [foldl_dependencies, List.foldl_hom state hvisit, foldl_visitNew, List.nil_append]
  rfl

theorem execute_eq (req : SupersessionRequest) (preloadedEdges : List ClaimEdge)
    (assertionRef : Uuid) :
    execute req preloadedEdges assertionRef =
      (written req.agentId req.supersededRef req.overturningRef req.boundAt none req.recordedAt
        assertionRef (.obj [("event", .str "supersession"),
          ("overturning_claim", .uuid req.overturningRef.uuid), ("bound_at", .time req.boundAt)])
        (dependentsOf req.supersededRef preloadedEdges),
      (dependentsOf req.supersededRef preloadedEdges).length) := by
  let emit : ClaimRef → Append := fun dependent =>
    .entry (flagEntry req.agentId req.supersededRef req.overturningRef req.recordedAt dependent)
  let head := (execute req [] assertionRef).1
  let visit : Cascade → ClaimRef → Cascade := fun s c =>
    if c ∈ s.seenDependents then s
    else ⟨insert c s.seenDependents, s.appends ++ [emit c], s.cascadeCount + 1⟩
  let state : Finset ClaimRef × List Append → Cascade := fun s =>
    ⟨s.1, head ++ s.2, s.2.length⟩
  have hnew : ∀ s, ∀ c ∉ s.1, visit (state s) c = state (insert c s.1, s.2 ++ [emit c]) := by
    intro s c hc
    refine (if_neg hc).trans ?_
    simp only [state, List.append_assoc, List.length_append, List.length_singleton]
  have hloop := foldl_of_visitNew req.supersededRef visit emit state preloadedEdges
    (fun _ _ hc => if_pos hc) hnew
  have hend : execute req preloadedEdges assertionRef =
      ((preloadedEdges.foldl (fun s e =>
          if e.kind == .dependsOn && e.toClaim == req.supersededRef then visit s e.fromClaim
          else s) (state (∅, []))).appends,
        (preloadedEdges.foldl (fun s e =>
          if e.kind == .dependsOn && e.toClaim == req.supersededRef then visit s e.fromClaim
          else s) (state (∅, []))).cascadeCount) := rfl
  rw [hend, hloop]
  exact congrArg _ (List.length_map _)

theorem boundClaim_eq (agentId : AgentId) (target overturning : ClaimRef) (boundAt : Instant)
    (boundAtGranularity : Option DateGranularity) (now : Instant)
    (preloadedEdges : List ClaimEdge) (verdict : String) (assertionRef : Uuid) :
    boundClaim agentId target overturning boundAt boundAtGranularity now preloadedEdges verdict
        assertionRef =
      written agentId target overturning boundAt boundAtGranularity now assertionRef
        (supersessionRationale overturning boundAt verdict)
        (dependentsOf target preloadedEdges) := by
  let emit : ClaimRef → Append := fun dependent =>
    .entry (flagEntry agentId target overturning now dependent)
  let head := boundClaim agentId target overturning boundAt boundAtGranularity now [] verdict
    assertionRef
  let visit : Finset ClaimRef × List Append → ClaimRef → Finset ClaimRef × List Append :=
    fun s c => if c ∈ s.1 then s else (insert c s.1, s.2 ++ [emit c])
  let state : Finset ClaimRef × List Append → Finset ClaimRef × List Append := fun s =>
    (s.1, head ++ s.2)
  have hnew : ∀ s, ∀ c ∉ s.1, visit (state s) c = state (insert c s.1, s.2 ++ [emit c]) := by
    intro s c hc
    refine (if_neg hc).trans ?_
    simp only [state, List.append_assoc]
  have hloop := foldl_of_visitNew target visit emit state preloadedEdges
    (fun _ _ hc => if_pos hc) hnew
  exact congrArg Prod.snd hloop

/-- The loop appends what the verdict's transaction is planned to. -/
theorem boundClaim_eq_boundAppends (agentId : AgentId) (target overturning : ClaimRef)
    (boundAt : Instant) (boundAtGranularity : Option DateGranularity) (now : Instant)
    (preloadedEdges : List ClaimEdge) (verdict : String) (assertionRef : Uuid) :
    boundClaim agentId target overturning boundAt boundAtGranularity now preloadedEdges verdict
        assertionRef =
      boundAppends agentId target overturning boundAt boundAtGranularity now preloadedEdges
        verdict assertionRef := by
  rw [boundClaim_eq, written, boundAppends, cascadeEntries, List.map_map]
  rfl

end Loops

section Main

/-- The claims with a dependency on the target, each once, in the order in which the
    edges first name them. -/
structure Dependents (target : ClaimRef) (edges : List ClaimEdge)
    (dependents : List ClaimRef) : Prop where
  mem_iff : ∀ c, c ∈ dependents ↔
    ∃ e ∈ edges, e.kind = .dependsOn ∧ e.toClaim = target ∧ e.fromClaim = c
  nodup : dependents.Nodup
  firstOccurrence : dependents.Pairwise fun a b =>
    (dependencies target edges).idxOf a < (dependencies target edges).idxOf b

theorem dependents_dependentsOf (target : ClaimRef) (edges : List ClaimEdge) :
    Dependents target edges (dependentsOf target edges) := by
  have hfirst := firstOccurrences_eraseDups (dependencies target edges)
  exact ⟨fun c => (hfirst.mem_iff c).trans (mem_dependencies target c edges), hfirst.nodup,
    hfirst.ordered⟩

/-- Both writers append the same records in the same order, but for the generated
    id, the precision of the bound and the rationale of the target's entry; and
    `execute` answers with the number of dependents. -/
theorem writers_agree (agentId : AgentId) (target overturning : ClaimRef)
    (boundAt now : Instant) (preloadedEdges : List ClaimEdge)
    (boundAtGranularity : Option DateGranularity) (verdict : String)
    (executeRef boundRef : Uuid) :
    ∃ dependents, Dependents target preloadedEdges dependents ∧
      execute ⟨agentId, target, overturning, boundAt, now⟩ preloadedEdges executeRef =
        (written agentId target overturning boundAt none now executeRef
          (.obj [("event", .str "supersession"), ("overturning_claim", .uuid overturning.uuid),
            ("bound_at", .time boundAt)]) dependents,
        dependents.length) ∧
      boundClaim agentId target overturning boundAt boundAtGranularity now preloadedEdges verdict
          boundRef =
        written agentId target overturning boundAt boundAtGranularity now boundRef
          (.obj [("event", .str "oracle_supersession"),
            ("overturning_claim", .uuid overturning.uuid), ("bound_at", .time boundAt),
            ("verdict", .str verdict)]) dependents ∧
      ∀ σ : Store, writeAll σ (boundClaim agentId target overturning boundAt boundAtGranularity
          now preloadedEdges verdict boundRef) =
        SubmitAdjudication.boundClaim σ agentId target overturning boundAt boundAtGranularity now
          preloadedEdges verdict boundRef := by
  refine ⟨dependentsOf target preloadedEdges, dependents_dependentsOf target preloadedEdges,
    execute_eq _ _ _, boundClaim_eq _ _ _ _ _ _ _ _ _, fun σ => ?_⟩
  rw [boundClaim_eq_boundAppends, writeAll_boundAppends σ now]

/-- A duplicate edge, another kind and another target flag no one twice, and a claim
    that depends on itself is flagged. -/
example :
    let edge (from_ to_ : ℕ) (kind : EdgeKind) : ClaimEdge :=
      ⟨Engine.agent, ⟨from_⟩, ⟨to_⟩, kind, 1⟩
    dependentsOf ⟨1⟩ [edge 3 1 .dependsOn, edge 2 1 .derivedFrom, edge 1 1 .dependsOn,
      edge 3 1 .dependsOn, edge 4 2 .dependsOn] = [⟨3⟩, ⟨1⟩] := by decide

end Main

end Mempill.Supersession
