import Mathlib.Data.List.Nodup
import Mathlib.Data.List.Range
import Mathlib.Data.List.TakeWhile

set_option autoImplicit false

/-!
# Walks

The walks of a directed graph with named edges, listed hop by hop, and the queue that
lists them when each item taken from it is replaced by what it leads to.
-/
namespace Walks

section Queue

variable {β : Type*} (expand : β → List β)

/-- Takes items from the front of a queue and puts what they lead to at its end. -/
def drain : ℕ → List β → Option (List β)
  | _, [] => some []
  | 0, _ :: _ => none
  | fuel + 1, b :: queue => (drain fuel (queue ++ expand b)).map (b :: ·)

theorem drain_nil (fuel : ℕ) : drain expand fuel [] = some [] := by
  cases fuel <;> rfl

/-- The items in front are taken before all that they lead to. -/
theorem drain_append (fuel : ℕ) (xs ys : List β) :
    drain expand (fuel + xs.length) (xs ++ ys) =
      (drain expand fuel (ys ++ xs.flatMap expand)).map (xs ++ ·) := by
  induction xs generalizing ys with
  | nil =>
    rw [List.flatMap_nil, List.append_nil, List.nil_append]
    exact Option.map_id'.symm
  | cons x xs ih =>
    have hstep : drain expand (fuel + (x :: xs).length) (x :: xs ++ ys) =
        (drain expand (fuel + xs.length) (xs ++ (ys ++ expand x))).map (x :: ·) := by
      rw [← List.append_assoc]
      rfl
    rw [hstep, ih, Option.map_map, List.flatMap_cons, List.append_assoc]
    rfl

/-- Level by level: each level is what the one before leads to. -/
def level (queue : List β) : ℕ → List β
  | 0 => queue
  | d + 1 => (level queue d).flatMap expand

theorem level_flatMap (queue : List β) (d : ℕ) :
    level expand (queue.flatMap expand) d = level expand queue (d + 1) := by
  induction d with
  | zero => rfl
  | succ d ih => exact congrArg (List.flatMap expand) ih

/-- Where some level is empty, the queue runs dry and gives the levels before it. -/
theorem drain_of_level_nil {queue : List β} {d : ℕ} (h : level expand queue d = []) :
    ∃ fuel, drain expand fuel queue = some ((List.range d).flatMap (level expand queue)) := by
  induction d generalizing queue with
  | zero => exact ⟨0, by rw [show queue = [] from h]; rfl⟩
  | succ d ih =>
    obtain ⟨fuel, hfuel⟩ := ih (level_flatMap expand queue d ▸ h)
    refine ⟨fuel + queue.length, ?_⟩
    have hfirst := drain_append expand fuel queue []
    rw [List.append_nil, List.nil_append, hfuel] at hfirst
    have hlevels : level expand (queue.flatMap expand) = fun k => level expand queue (k + 1) :=
      funext (level_flatMap expand queue)
    rw [hfirst, List.range_succ_eq_map, List.flatMap_cons, List.flatMap_map, hlevels]
    rfl

/-- What the queue gives does not depend on the fuel that suffices. -/
theorem drain_det {fuel fuel' : ℕ} {queue out out' : List β}
    (h : drain expand fuel queue = some out) (h' : drain expand fuel' queue = some out') :
    out = out' := by
  induction fuel generalizing fuel' queue out out' with
  | zero =>
    cases queue with
    | nil =>
      rw [drain_nil] at h h'
      exact Option.some.inj (h.symm.trans h')
    | cons b queue => cases h
  | succ fuel ih =>
    cases queue with
    | nil =>
      rw [drain_nil] at h h'
      exact Option.some.inj (h.symm.trans h')
    | cons b queue =>
      cases fuel' with
      | zero => cases h'
      | succ fuel' =>
        obtain ⟨rest, hrest, rfl⟩ := Option.map_eq_some_iff.mp h
        obtain ⟨rest', hrest', rfl⟩ := Option.map_eq_some_iff.mp h'
        rw [ih hrest hrest']

end Queue

section Graph

variable {ν ε : Type*} [DecidableEq ν] (edges : List ε) (source target : ε → ν) (start : ν)

def outOf (v : ν) : List ε := edges.filter fun e => decide (source e = v)

/-- Where a walk, given with its last edge first, ends. -/
def endOf : List ε → ν
  | [] => start
  | e :: _ => target e

def IsWalk : List ε → Prop
  | [] => True
  | e :: w => e ∈ edges ∧ source e = endOf target start w ∧ IsWalk w

/-- The walks of so many hops. -/
def walks : ℕ → List (List ε)
  | 0 => [[]]
  | d + 1 => (walks d).flatMap fun w =>
      (outOf edges source (endOf target start w)).map (· :: w)

theorem mem_walks {d : ℕ} {w : List ε} :
    w ∈ walks edges source target start d ↔ IsWalk edges source target start w ∧ w.length = d := by
  induction d generalizing w with
  | zero =>
    rw [walks, List.mem_singleton, List.length_eq_zero_iff]
    exact ⟨fun h => ⟨h ▸ trivial, h⟩, fun h => h.2⟩
  | succ d ih =>
    simp only [walks, List.mem_flatMap, List.mem_map, outOf, List.mem_filter, decide_eq_true_eq]
    constructor
    · rintro ⟨w, hw, e, ⟨he, hsource⟩, rfl⟩
      obtain ⟨hwalk, hlength⟩ := ih.mp hw
      exact ⟨⟨he, hsource, hwalk⟩, congrArg (· + 1) hlength⟩
    · rintro ⟨hwalk, hlength⟩
      cases w with
      | nil => cases hlength
      | cons e w =>
        obtain ⟨he, hsource, hwalk⟩ := hwalk
        exact ⟨w, ih.mpr ⟨hwalk, Nat.succ.inj hlength⟩, e, ⟨he, hsource⟩, rfl⟩

theorem nodup_walks (hedges : edges.Nodup) (d : ℕ) :
    (walks edges source target start d).Nodup := by
  induction d with
  | zero => exact List.nodup_singleton _
  | succ d ih =>
    refine List.nodup_flatMap.mpr ⟨fun w _ => ?_, ih.imp fun {w w'} hne => ?_⟩
    · exact (hedges.filter _).map fun e e' h => (List.cons.inj h).1
    · intro p hp hp'
      obtain ⟨e, _, rfl⟩ := List.mem_map.mp hp
      obtain ⟨e', _, heq⟩ := List.mem_map.mp hp'
      exact hne (List.cons.inj heq).2.symm

/-- The last edge of each walk of one hop more, with the walk before it. -/
def hops (d : ℕ) : List (ε × List ε) :=
  (walks edges source target start d).flatMap fun w =>
    (outOf edges source (endOf target start w)).map fun e => (e, w)

theorem walks_succ (d : ℕ) :
    walks edges source target start (d + 1) =
      (hops edges source target start d).map fun h => h.1 :: h.2 := by
  rw [hops, List.map_flatMap]
  simp only [List.map_map]
  rfl

theorem mem_hops {d : ℕ} {h : ε × List ε} :
    h ∈ hops edges source target start d ↔
      IsWalk edges source target start (h.1 :: h.2) ∧ h.2.length = d := by
  simp only [hops, List.mem_flatMap, List.mem_map, outOf, List.mem_filter, decide_eq_true_eq]
  constructor
  · rintro ⟨w, hw, e, ⟨he, hsource⟩, rfl⟩
    obtain ⟨hwalk, hlength⟩ := (mem_walks edges source target start).mp hw
    exact ⟨⟨he, hsource, hwalk⟩, hlength⟩
  · rintro ⟨⟨he, hsource, hwalk⟩, hlength⟩
    exact ⟨h.2, (mem_walks edges source target start).mpr ⟨hwalk, hlength⟩, h.1, ⟨he, hsource⟩,
      rfl⟩

/-- Edge by edge, the last edges of the walks are the levels from the edges that leave
    the start. -/
theorem map_hops_eq_level (d : ℕ) :
    (hops edges source target start d).map Prod.fst =
      level (fun e => outOf edges source (target e)) (outOf edges source start) d := by
  induction d with
  | zero =>
    rw [hops, walks, List.flatMap_singleton, List.map_map]
    exact List.map_id _
  | succ d ih =>
    rw [level, ← ih, hops, walks_succ, List.flatMap_map, List.map_flatMap, List.flatMap_map]
    refine congrArg (fun f => List.flatMap f _) (funext fun h => ?_)
    rw [List.map_map]
    exact List.map_id _

theorem nodup_flatMap_hops (hedges : edges.Nodup) (bound : ℕ) :
    ((List.range bound).flatMap (hops edges source target start)).Nodup := by
  refine List.nodup_flatMap.mpr ⟨fun d _ => ?_, List.nodup_range.imp fun {d d'} hne => ?_⟩
  · refine List.Nodup.of_map (fun h => h.1 :: h.2) ?_
    rw [← walks_succ]
    exact nodup_walks edges source target start hedges (d + 1)
  · intro h hh hh'
    have hlength := (mem_hops edges source target start).mp hh
    have hlength' := (mem_hops edges source target start).mp hh'
    exact hne (hlength.2.symm.trans hlength'.2)

/-- No vertex with an edge leaving it is reached by two walks of fewer hops than the
    bound. -/
def WalksUnique (bound : ℕ) : Prop :=
  ∀ w w', IsWalk edges source target start w → IsWalk edges source target start w' →
    w.length < bound → w'.length < bound → endOf target start w = endOf target start w' →
    (∃ e ∈ edges, source e = endOf target start w) → w = w'

theorem nodup_lastEdges_iff (hedges : edges.Nodup) (bound : ℕ) :
    (((List.range bound).flatMap (hops edges source target start)).map Prod.fst).Nodup ↔
      WalksUnique edges source target start bound := by
  have hmem : ∀ h, h ∈ (List.range bound).flatMap (hops edges source target start) ↔
      IsWalk edges source target start (h.1 :: h.2) ∧ h.2.length < bound := by
    intro h
    simp only [List.mem_flatMap, List.mem_range, mem_hops]
    exact ⟨fun ⟨d, hd, hwalk, hlength⟩ => ⟨hwalk, hlength ▸ hd⟩,
      fun ⟨hwalk, hlength⟩ => ⟨_, hlength, hwalk, rfl⟩⟩
  rw [List.nodup_map_iff_inj_on (nodup_flatMap_hops edges source target start hedges bound)]
  constructor
  · rintro hinj w w' hwalk hwalk' hlength hlength' hend ⟨e, he, hsource⟩
    have hlast := hinj (e, w) ((hmem _).mpr ⟨⟨he, hsource, hwalk⟩, hlength⟩) (e, w')
      ((hmem _).mpr ⟨⟨he, hsource.trans hend, hwalk'⟩, hlength'⟩) rfl
    exact congrArg Prod.snd hlast
  · rintro hunique ⟨e, w⟩ hh ⟨e', w'⟩ hh' (rfl : e = e')
    obtain ⟨⟨he, hsource, hwalk⟩, hlength⟩ := (hmem _).mp hh
    obtain ⟨⟨_, hsource', hwalk'⟩, hlength'⟩ := (hmem _).mp hh'
    exact congrArg (Prod.mk e) (hunique w w' hwalk hwalk' hlength hlength'
      (hsource.symm.trans hsource') ⟨e, he, hsource⟩)

end Graph

end Walks
