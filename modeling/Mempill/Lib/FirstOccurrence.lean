import Mathlib.Data.Finset.Dedup
import Mathlib.Data.Finset.Insert
import Mathlib.Data.List.Induction
import Mathlib.Data.List.Pairwise

set_option autoImplicit false

/-!
# First occurrences

The distinct members of a list in the order in which they first occur, and the loop
with a set of what it has seen that emits one item for each.
-/
namespace FirstOccurrence

variable {α β : Type*} [DecidableEq α]

/-- `ys` lists the members of `xs`, each before those that occur later for the first
    time. -/
structure FirstOccurrences (xs ys : List α) : Prop where
  mem_iff : ∀ a, a ∈ ys ↔ a ∈ xs
  ordered : ys.Pairwise fun a b => xs.idxOf a < xs.idxOf b

theorem FirstOccurrences.nodup {xs ys : List α} (h : FirstOccurrences xs ys) : ys.Nodup := by
  refine h.ordered.imp fun hlt heq => ?_
  rw [heq] at hlt
  exact absurd hlt (lt_irrefl _)

theorem eraseDups_concat (xs : List α) (x : α) :
    (xs ++ [x]).eraseDups = if x ∈ xs then xs.eraseDups else xs.eraseDups ++ [x] := by
  rw [List.eraseDups_append]
  split
  · next hmem => simp [List.removeAll, hmem]
  · next hnew => simp [List.removeAll, hnew, List.eraseDups_cons]

theorem firstOccurrences_eraseDups (xs : List α) : FirstOccurrences xs xs.eraseDups := by
  refine ⟨fun a => List.mem_eraseDups, ?_⟩
  induction xs using List.reverseRecOn with
  | nil => exact List.Pairwise.nil
  | append_singleton xs x ih =>
    have hkeep : xs.eraseDups.Pairwise
        fun a b => (xs ++ [x]).idxOf a < (xs ++ [x]).idxOf b := by
      refine ih.imp_of_mem fun ha hb hlt => ?_
      rwa [List.idxOf_append_of_mem (List.mem_eraseDups.mp ha),
        List.idxOf_append_of_mem (List.mem_eraseDups.mp hb)]
    rw [eraseDups_concat]
    split
    · exact hkeep
    · next hnew =>
      refine List.pairwise_append.mpr ⟨hkeep, List.pairwise_singleton _ _, fun a ha b hb => ?_⟩
      have hmem : a ∈ xs := List.mem_eraseDups.mp ha
      rw [List.mem_singleton.mp hb, List.idxOf_append_of_mem hmem,
        List.idxOf_append_of_notMem hnew]
      have := List.idxOf_lt_length_of_mem hmem
      omega

/-- One round of the loop: nothing for what is already in the set. -/
def visitNew (emit : α → β) (state : Finset α × List β) (a : α) : Finset α × List β :=
  if a ∈ state.1 then state else (insert a state.1, state.2 ++ [emit a])

/-- The set holds what has been visited, and the output one item for each first
    occurrence. -/
theorem foldl_visitNew (emit : α → β) (out : List β) (xs : List α) :
    xs.foldl (visitNew emit) (∅, out) = (xs.toFinset, out ++ xs.eraseDups.map emit) := by
  induction xs using List.reverseRecOn with
  | nil => exact congrArg _ (List.append_nil out).symm
  | append_singleton xs x ih =>
    rw [List.foldl_append, ih, List.foldl_cons, List.foldl_nil, visitNew, eraseDups_concat]
    by_cases hmem : x ∈ xs
    · rw [if_pos (List.mem_toFinset.mpr hmem), if_pos hmem]
      congr 1
      ext a
      have hlast : a = x → a ∈ xs := fun h => h ▸ hmem
      simpa using hlast
    · rw [if_neg (fun h => hmem (List.mem_toFinset.mp h)), if_neg hmem, List.map_append,
        List.append_assoc]
      congr 1
      ext a
      simp only [Finset.mem_insert, List.mem_toFinset, List.mem_append, List.mem_singleton]
      exact or_comm

end FirstOccurrence
