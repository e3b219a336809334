import Mathlib.Data.Prod.Lex
import Mempill.Engine
import Mempill.Lib.Walks
import Mempill.Rows

set_option autoImplicit false

/-!
# Lineage

The recursive query behind an audit's lineage, row by row through its queue, and when
it answers with the ancestor edges of a claim.
-/
namespace Mempill.Lineage
open Mempill.Types Mempill.Persistence Mempill.Engine StampedLog Walks

section Query

/-- A row of `claim_edges`. -/
structure EdgeRow where
  edgeId : Uuid
  edge : ClaimEdge
  deriving DecidableEq

/-- The table, with `edge_id` as its primary key. -/
structure EdgeTable where
  rows : List EdgeRow
  ids_nodup : (rows.map (·.edgeId)).Nodup

variable (table : EdgeTable) (agentId : AgentId)

def isParentEdge (row : EdgeRow) : Bool :=
  row.edge.agentId == agentId && row.edge.kind == .derivedFrom

/-- The rows of `lineage(edge_id, depth)` that the query starts from. -/
def lineageBase (claimRef : ClaimRef) : List (Uuid × ℕ) :=
  (table.rows.filter fun ce => isParentEdge agentId ce && ce.edge.fromClaim == claimRef).map
    fun ce => (ce.edgeId, 1)

def toClaimOf (edgeId : Uuid) : Option ClaimRef :=
  (table.rows.find? fun ce => ce.edgeId == edgeId).map (·.edge.toClaim)

/-- The rows that one row of `lineage` leads to. -/
def lineageStep (l : Uuid × ℕ) : List (Uuid × ℕ) :=
  (table.rows.filter fun ce2 => isParentEdge agentId ce2 &&
      some ce2.edge.fromClaim == toClaimOf table l.1 && decide (l.2 < 64)).map
    fun ce2 => (ce2.edgeId, l.2 + 1)

/-- The recursion keeps all rows it produces, so it lists an edge once for each way to
    it. -/
def lineage (claimRef : ClaimRef) (fuel : ℕ) : Option (List (Uuid × ℕ)) :=
  drain (lineageStep table agentId) fuel (lineageBase table agentId claimRef)

/-- `claim_edges` joined with `lineage`. -/
def joined (lines : List (Uuid × ℕ)) : List (EdgeRow × ℕ) :=
  lines.flatMap fun l => (table.rows.filter fun ce => ce.edgeId == l.1).map fun ce => (ce, l.2)

def loadLineage (claimRef : ClaimRef) (fuel : ℕ) : Option (List EdgeRow) :=
  (lineage table agentId claimRef fuel).map fun lines =>
    (inOrder (fun r : EdgeRow × ℕ => toLex (r.2, r.1.edge.createdAt)) (joined table lines)).map
      Prod.fst

/-- The edges of a store, with their positions for ids. -/
def edgeTable (σ : Store) : EdgeTable where
  rows := σ.edges.zipIdx.map fun e => ⟨e.2, e.1⟩
  ids_nodup := by
    rw [List.map_map]
    change (σ.edges.zipIdx.map Prod.snd).Nodup
    rw [List.zipIdx_map_snd]
    exact List.nodup_range'

end Query

section Ancestors

variable (table : EdgeTable) (agentId : AgentId) (claimRef : ClaimRef)

def parentEdges : List EdgeRow := table.rows.filter (isParentEdge agentId)

abbrev AncestorWalk : List EdgeRow → Prop :=
  IsWalk (parentEdges table agentId) (·.edge.fromClaim) (·.edge.toClaim) claimRef

/-- The edge is the last of `n` hops along the agent's `DerivedFrom` edges. -/
def ReachedIn (row : EdgeRow) (n : ℕ) : Prop :=
  ∃ w, AncestorWalk table agentId claimRef (row :: w) ∧ w.length + 1 = n

/-- Each `DerivedFrom` edge of the agent within 64 hops of the claim once, no other, by
    shortest distance. -/
structure AncestorEdges (result : List EdgeRow) : Prop where
  nodup : result.Nodup
  mem_iff : ∀ row, row ∈ result ↔ ∃ n ≤ 64, ReachedIn table agentId claimRef row n
  ordered : result.Pairwise fun a b =>
    ∀ n, ReachedIn table agentId claimRef b n → ∃ m ≤ n, ReachedIn table agentId claimRef a m

/-- No claim with a `DerivedFrom` edge of the agent leaving it is reached in two ways of
    at most 63 hops. -/
def SingleWays : Prop :=
  ∀ w w', AncestorWalk table agentId claimRef w → AncestorWalk table agentId claimRef w' →
    w.length < 64 → w'.length < 64 →
    endOf (·.edge.toClaim) claimRef w = endOf (·.edge.toClaim) claimRef w' →
    (∃ row ∈ parentEdges table agentId,
      row.edge.fromClaim = endOf (·.edge.toClaim) claimRef w) → w = w'

end Ancestors

section Levels

variable (table : EdgeTable) (agentId : AgentId) (claimRef : ClaimRef)

theorem rows_nodup : table.rows.Nodup := List.Nodup.of_map _ table.ids_nodup

theorem filter_edgeId {row : EdgeRow} (h : row ∈ table.rows) :
    (table.rows.filter fun ce => ce.edgeId == row.edgeId) = [row] := by
  refine Rows.filter_eq_singleton (rows_nodup table) h (beq_self_eq_true _) fun ce hce hid => ?_
  exact List.inj_on_of_nodup_map table.ids_nodup hce h (eq_of_beq hid)

theorem toClaimOf_eq {row : EdgeRow} (h : row ∈ table.rows) :
    toClaimOf table row.edgeId = some row.edge.toClaim := by
  rw [toClaimOf, ← List.head?_filter, filter_edgeId table h]
  rfl

/-- The last edges of the walks of one hop more. -/
def lastEdges (d : ℕ) : List EdgeRow :=
  (hops (parentEdges table agentId) (·.edge.fromClaim) (·.edge.toClaim) claimRef d).map Prod.fst

theorem mem_lastEdges {d : ℕ} {row : EdgeRow} :
    row ∈ lastEdges table agentId claimRef d ↔
      ReachedIn table agentId claimRef row (d + 1) := by
  constructor
  · intro h
    obtain ⟨⟨row, w⟩, hh, rfl⟩ := List.mem_map.mp h
    obtain ⟨hwalk, hlength⟩ := (mem_hops _ _ _ _).mp hh
    exact ⟨w, hwalk, congrArg (· + 1) hlength⟩
  · rintro ⟨w, hwalk, hlength⟩
    exact List.mem_map.mpr ⟨(row, w), (mem_hops _ _ _ _).mpr ⟨hwalk, Nat.succ.inj hlength⟩, rfl⟩

theorem mem_rows_of_mem_lastEdges {d : ℕ} {row : EdgeRow}
    (h : row ∈ lastEdges table agentId claimRef d) : row ∈ table.rows := by
  obtain ⟨w, hwalk, _⟩ := (mem_lastEdges table agentId claimRef).mp h
  exact List.mem_of_mem_filter hwalk.1

theorem lastEdges_succ (d : ℕ) :
    lastEdges table agentId claimRef (d + 1) =
      (lastEdges table agentId claimRef d).flatMap fun row =>
        outOf (parentEdges table agentId) (·.edge.fromClaim) row.edge.toClaim := by
  rw [lastEdges, lastEdges, map_hops_eq_level, map_hops_eq_level]
  rfl

/-- A row of `lineage` leads to the parent edges of the claim its edge points to. -/
theorem lineageStep_eq {row : EdgeRow} (h : row ∈ table.rows) {depth : ℕ} (hdepth : depth < 64) :
    lineageStep table agentId (row.edgeId, depth) =
      (outOf (parentEdges table agentId) (·.edge.fromClaim) row.edge.toClaim).map
        fun ce => (ce.edgeId, depth + 1) := by
  rw [lineageStep, outOf, parentEdges, List.filter_filter, toClaimOf_eq table h]
  congr 1
  refine List.filter_congr fun ce _ => ?_
  rw [decide_eq_true hdepth, Bool.and_true, Bool.and_comm]
  exact congrArg (· && _) (Bool.eq_iff_iff.mpr (by simp))

theorem lineageStep_nil (edgeId : Uuid) : lineageStep table agentId (edgeId, 64) = [] := by
  simp [lineageStep]

theorem level_lineage {d : ℕ} (hd : d < 64) :
    level (lineageStep table agentId) (lineageBase table agentId claimRef) d =
      (lastEdges table agentId claimRef d).map fun row => (row.edgeId, d + 1) := by
  induction d with
  | zero =>
    rw [level, lineageBase, lastEdges, map_hops_eq_level, level, outOf, parentEdges,
      List.filter_filter]
    congr 1
    refine List.filter_congr fun ce _ => ?_
    rw [Bool.and_comm]
    rfl
  | succ d ih =>
    rw [level, ih (by omega), lastEdges_succ, List.flatMap_map, List.map_flatMap]
    refine List.flatMap_congr fun row hrow => ?_
    exact lineageStep_eq table agentId (mem_rows_of_mem_lastEdges table agentId claimRef hrow) hd

theorem level_lineage_nil :
    level (lineageStep table agentId) (lineageBase table agentId claimRef) 64 = [] := by
  rw [level, level_lineage table agentId claimRef (by omega), List.flatMap_map]
  exact List.flatMap_eq_nil_iff.mpr fun row _ => lineageStep_nil table agentId row.edgeId

theorem joined_map {edges : List EdgeRow} (h : ∀ row ∈ edges, row ∈ table.rows) (depth : ℕ) :
    joined table (edges.map fun row => (row.edgeId, depth)) =
      edges.map fun row => (row, depth) := by
  rw [joined, List.flatMap_map, List.map_eq_flatMap]
  refine List.flatMap_congr fun row hrow => ?_
  rw [filter_edgeId table (h row hrow)]
  rfl

end Levels

section Main

variable (table : EdgeTable) (agentId : AgentId) (claimRef : ClaimRef)

/-- The last edge of every walk of at most 64 hops, with the number of its hops. -/
def lastHops : List (EdgeRow × ℕ) :=
  (List.range 64).flatMap fun d =>
    (lastEdges table agentId claimRef d).map fun row => (row, d + 1)

theorem mem_lastHops {r : EdgeRow × ℕ} :
    r ∈ lastHops table agentId claimRef ↔
      r.2 ≤ 64 ∧ ReachedIn table agentId claimRef r.1 r.2 := by
  simp only [lastHops, List.mem_flatMap, List.mem_range, List.mem_map, mem_lastEdges]
  constructor
  · rintro ⟨d, hd, row, hrow, rfl⟩
    exact ⟨hd, hrow⟩
  · rintro ⟨hle, w, hwalk, hlength⟩
    exact ⟨w.length, by omega, r.1, ⟨w, hwalk, rfl⟩, by rw [hlength]⟩

theorem map_lastHops :
    (lastHops table agentId claimRef).map Prod.fst =
      ((List.range 64).flatMap (hops (parentEdges table agentId) (·.edge.fromClaim)
        (·.edge.toClaim) claimRef)).map Prod.fst := by
  rw [lastHops, List.map_flatMap, List.map_flatMap]
  refine List.flatMap_congr fun d _ => ?_
  rw [List.map_map]
  exact List.map_id _

/-- The query ends, with these in the order of their hops. -/
theorem loadLineage_terminates :
    ∃ fuel, loadLineage table agentId claimRef fuel =
      some ((inOrder (fun r : EdgeRow × ℕ => toLex (r.2, r.1.edge.createdAt))
        (lastHops table agentId claimRef)).map Prod.fst) := by
  obtain ⟨fuel, hfuel⟩ := drain_of_level_nil _ (level_lineage_nil table agentId claimRef)
  refine ⟨fuel, ?_⟩
  have hjoined : joined table ((List.range 64).flatMap
      (level (lineageStep table agentId) (lineageBase table agentId claimRef))) =
      lastHops table agentId claimRef := by
    rw [joined, List.flatMap_assoc, lastHops]
    refine List.flatMap_congr fun d hd => ?_
    rw [level_lineage table agentId claimRef (List.mem_range.mp hd)]
    exact joined_map table
      (fun row hrow => mem_rows_of_mem_lastEdges table agentId claimRef hrow) (d + 1)
  rw [loadLineage, lineage, hfuel, Option.map_some, hjoined]

/-- The query ends with the ancestor edges. -/
def LineageExact : Prop :=
  ∃ fuel result, loadLineage table agentId claimRef fuel = some result ∧
    AncestorEdges table agentId claimRef result

theorem nodup_lastHops_iff :
    ((lastHops table agentId claimRef).map Prod.fst).Nodup ↔
      SingleWays table agentId claimRef := by
  rw [map_lastHops]
  exact nodup_lastEdges_iff _ _ _ _ ((rows_nodup table).filter _) 64

/-- Listed once each, the edges come by their shortest distance. -/
theorem ancestorEdges_inOrder
    (h : ((lastHops table agentId claimRef).map Prod.fst).Nodup) :
    AncestorEdges table agentId claimRef
      ((inOrder (fun r : EdgeRow × ℕ => toLex (r.2, r.1.edge.createdAt))
        (lastHops table agentId claimRef)).map Prod.fst) := by
  let stamp : EdgeRow × ℕ → ℕ ×ₗ Instant := fun r => toLex (r.2, r.1.edge.createdAt)
  have hperm := inOrder_perm stamp (lastHops table agentId claimRef)
  refine ⟨(hperm.map Prod.fst).nodup_iff.mpr h, fun row => ?_, ?_⟩
  · rw [(hperm.map Prod.fst).mem_iff]
    constructor
    · intro hrow
      obtain ⟨r, hr, rfl⟩ := List.mem_map.mp hrow
      exact ⟨r.2, (mem_lastHops table agentId claimRef).mp hr⟩
    · rintro ⟨n, hn, hreached⟩
      exact List.mem_map.mpr ⟨(row, n), (mem_lastHops table agentId claimRef).mpr ⟨hn, hreached⟩,
        rfl⟩
  · rw [List.pairwise_map]
    refine (inOrder_pairwise stamp _).imp_of_mem fun {r r'} hr hr' hle n hreached => ?_
    have hmem := (mem_lastHops table agentId claimRef).mp (hperm.mem_iff.mp hr)
    have hmem' := (mem_lastHops table agentId claimRef).mp (hperm.mem_iff.mp hr')
    have hdepth : r.2 ≤ r'.2 := Prod.Lex.monotone_fst _ _ hle
    refine ⟨r.2, hdepth.trans ?_, hmem.2⟩
    rcases Nat.lt_or_ge 64 n with hfar | hnear
    · exact hmem'.1.trans hfar.le
    · -- the edge is listed at one distance only
      have hlisted := (mem_lastHops table agentId claimRef).mpr
        (show (r'.1, n).2 ≤ 64 ∧ ReachedIn table agentId claimRef r'.1 n from ⟨hnear, hreached⟩)
      have hsame := List.inj_on_of_nodup_map h (hperm.mem_iff.mp hr') hlisted rfl
      exact (congrArg Prod.snd hsame).le

/-- The query answers with the ancestor edges exactly if no claim that such an edge
    leaves is reached in two ways. -/
theorem lineage_exact_iff :
    LineageExact table agentId claimRef ↔ SingleWays table agentId claimRef := by
  obtain ⟨enough, hlineage⟩ := loadLineage_terminates table agentId claimRef
  constructor
  · rintro ⟨fuel, result, hresult, hexact⟩
    obtain ⟨lines, hlines, rfl⟩ := Option.map_eq_some_iff.mp hresult
    obtain ⟨lines', hlines', heq⟩ := Option.map_eq_some_iff.mp hlineage
    rw [drain_det _ hlines hlines', heq] at hexact
    have hperm := inOrder_perm (fun r : EdgeRow × ℕ => toLex (r.2, r.1.edge.createdAt))
      (lastHops table agentId claimRef)
    exact (nodup_lastHops_iff table agentId claimRef).mp
      ((hperm.map Prod.fst).nodup_iff.mp hexact.nodup)
  · intro hsingle
    exact ⟨enough, _, hlineage, ancestorEdges_inOrder table agentId claimRef
      ((nodup_lastHops_iff table agentId claimRef).mpr hsingle)⟩

/-- A summary of two claims, both of which are derived from one that is derived itself. -/
def diamond : List Op :=
  [.ingestClaim (remember "Paris" none) 10 ⟨1⟩ (.ok 100),
    .ingestClaim { remember "in France" none with derivedFrom := [⟨1⟩] } 20 ⟨2⟩ (.ok 100),
    .ingestClaim { remember "in Europe" none with derivedFrom := [⟨2⟩] } 30 ⟨3⟩ (.ok 100),
    .ingestClaim { remember "pays in euro" none with derivedFrom := [⟨2⟩] } 40 ⟨4⟩ (.ok 100),
    .ingestClaim { remember "in the euro zone" none with derivedFrom := [⟨3⟩, ⟨4⟩] } 50 ⟨5⟩
      (.ok 100)]

/-- The edge from claim 2 to claim 1 is answered once for each of the two ways to it. -/
theorem diamond_lists_an_edge_twice :
    let σ := run (defaultEngine false) Store.sqlite diamond
    Reachable (defaultEngine false) σ ∧
      (loadLineage (edgeTable σ) agent ⟨5⟩ 7).map
        (fun edges => edges.map fun row => (row.edge.fromClaim.uuid, row.edge.toClaim.uuid)) =
        some [(5, 3), (5, 4), (3, 2), (4, 2), (2, 1), (2, 1)] ∧
      ¬ LineageExact (edgeTable σ) agent ⟨5⟩ := by
  intro σ
  have hpairs : (loadLineage (edgeTable σ) agent ⟨5⟩ 7).map
      (fun edges => edges.map fun row => (row.edge.fromClaim.uuid, row.edge.toClaim.uuid)) =
      some [(5, 3), (5, 4), (3, 2), (4, 2), (2, 1), (2, 1)] := by decide +kernel
  have hlisted : (loadLineage (edgeTable σ) agent ⟨5⟩ 7).any
      (fun edges => decide (¬ edges.Nodup)) = true := by decide +kernel
  have hrun : Runnable (defaultEngine false) Store.sqlite diamond := by decide
  have hreach : Reachable (defaultEngine false) σ := run_reachable hrun
  refine ⟨hreach, hpairs, ?_⟩
  rintro ⟨fuel, result, hresult, hexact⟩
  obtain ⟨edges, hedges, hdup⟩ := Option.any_eq_true _ _ |>.mp hlisted
  obtain ⟨lines, hlines, rfl⟩ := Option.map_eq_some_iff.mp hresult
  obtain ⟨lines', hlines', rfl⟩ := Option.map_eq_some_iff.mp hedges
  rw [drain_det _ hlines hlines'] at hexact
  exact of_decide_eq_true hdup hexact.nodup

end Main

end Mempill.Lineage
