import Mempill.Lib.HalfOpen

set_option autoImplicit false

/-!
# Timelines

Labelled spans that are pairwise apart, so that at every instant at most one of
them is in force. Spans are inserted in any order and closed at any end.
-/
namespace HalfOpen

structure Timeline (κ α : Type*) [LinearOrder α] where
  members : List (κ × Span α)
  apart : members.Pairwise fun x y => x.2.Apart y.2

namespace Timeline

variable {κ α : Type*} [LinearOrder α]

def empty : Timeline κ α := ⟨[], .nil⟩

def insert (T : Timeline κ α) (k : κ) (s : Span α) (hs : ∀ x ∈ T.members, x.2.Apart s) :
    Timeline κ α where
  members := T.members ++ [(k, s)]
  apart := List.pairwise_append.mpr ⟨T.apart, List.pairwise_singleton _ _,
    fun x hx _ hy => List.mem_singleton.mp hy ▸ hs x hx⟩

@[simp] theorem members_insert (T : Timeline κ α) (k : κ) (s : Span α)
    (hs : ∀ x ∈ T.members, x.2.Apart s) : (T.insert k s hs).members = T.members ++ [(k, s)] := rfl

def closeMember [DecidableEq κ] (k : κ) (e : α) (x : κ × Span α) : κ × Span α :=
  if x.1 = k then (x.1, x.2.cut (some e)) else x

theorem Apart.closeMember [DecidableEq κ] {x y : κ × Span α} (h : x.2.Apart y.2) (k : κ)
    (e : α) : (closeMember k e x).2.Apart (closeMember k e y).2 := by
  have hcut : ∀ {s u : Span α}, s.Apart u → s.Apart (u.cut (some e)) :=
    fun h => (h.symm.cut _).symm
  unfold Timeline.closeMember
  split <;> split
  · exact hcut (h.cut _)
  · exact h.cut _
  · exact hcut h
  · exact h

def close [DecidableEq κ] (T : Timeline κ α) (k : κ) (e : α) : Timeline κ α where
  members := T.members.map (closeMember k e)
  apart := List.pairwise_map.mpr (T.apart.imp fun h => Apart.closeMember h k e)

@[simp] theorem members_close [DecidableEq κ] (T : Timeline κ α) (k : κ) (e : α) :
    (T.close k e).members = T.members.map (closeMember k e) := rfl

/-- The label whose span contains the instant. -/
def inForce (T : Timeline κ α) (t : α) : Option κ :=
  (T.members.find? fun x => decide (x.2.Mem t)).map Prod.fst

theorem inForce_eq_some_iff (T : Timeline κ α) (t : α) (k : κ) :
    T.inForce t = some k ↔ ∃ s, (k, s) ∈ T.members ∧ s.Mem t := by
  have hfind := find?_eq_some_iff_of_apart Prod.snd T.apart t
  rw [inForce, Option.map_eq_some_iff]
  constructor
  · rintro ⟨x, hx, rfl⟩
    exact ⟨x.2, (hfind x).mp hx⟩
  · rintro ⟨s, hs⟩
    exact ⟨(k, s), (hfind (k, s)).mpr hs, rfl⟩

theorem inForce_eq_none_iff (T : Timeline κ α) (t : α) :
    T.inForce t = none ↔ ∀ x ∈ T.members, ¬ x.2.Mem t := by
  rw [inForce, Option.map_eq_none_iff, List.find?_eq_none]
  simp

end Timeline

end HalfOpen
