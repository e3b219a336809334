import Mathlib.Data.List.Basic

set_option autoImplicit false

/-!
# Unwinding

Noninterference of a deterministic machine. An observer sees a view of the state and
the replies to its own labels; a run is compared with the run that leaves out the
purged labels.
-/
namespace Unwinding

variable {S I O V : Type*}

section Runs

variable (step : S → I → O × S)

/-- Each label of a run with the reply to it. -/
def replies (s : S) : List I → List (I × O)
  | [] => []
  | i :: is => (i, (step s i).1) :: replies (step s i).2 is

/-- The kept labels meet alike states in a run and in the run of the kept labels. -/
def Along (alike : I → S → S → Prop) (kept : I → Bool) : S → S → List I → Prop
  | _, _, [] => True
  | s, t, i :: is =>
    if kept i then alike i s t ∧ Along alike kept (step s i).2 (step t i).2 is
    else Along alike kept (step s i).2 t is

instance (alike : I → S → S → Prop) [∀ i s t, Decidable (alike i s t)] (kept : I → Bool)
    (s t : S) (is : List I) : Decidable (Along step alike kept s t is) := by
  induction is generalizing s t with
  | nil => exact .isTrue trivial
  | cons i is ih =>
    unfold Along
    split
    · exact @instDecidableAnd _ _ inferInstance (ih _ _)
    · exact ih _ _

end Runs

/-- What one step does to the view. `labels` are those of the run. -/
structure Unwinds (step : S → I → O × S) (view : S → V) (Inv : S → Prop)
    (alike : I → S → S → Prop) (observed kept : I → Bool) (labels : I → Prop) : Prop where
  invariant : ∀ {s i}, labels i → Inv s → Inv (step s i).2
  purged : ∀ {s i}, labels i → Inv s → kept i = false → view (step s i).2 = view s
  kept : ∀ {s t i}, labels i → Inv s → Inv t → kept i = true → alike i s t → view s = view t →
    view (step s i).2 = view (step t i).2
  reply : ∀ {s t i}, labels i → Inv s → Inv t → observed i = true → view s = view t →
    (step s i).1 = (step t i).1

/-- Purging a run leaves the replies to the observed labels as they are. -/
theorem Unwinds.replies_eq {step : S → I → O × S} {view : S → V} {Inv : S → Prop}
    {alike : I → S → S → Prop} {observed kept : I → Bool} {labels : I → Prop}
    (h : Unwinds step view Inv alike observed kept labels)
    (hobserved : ∀ i, observed i = true → kept i = true) {is : List I} (his : ∀ i ∈ is, labels i)
    {s t : S} (hs : Inv s) (ht : Inv t) (hview : view s = view t)
    (halike : Along step alike kept s t is) :
    (replies step s is).filter (fun r => observed r.1) =
      (replies step t (is.filter kept)).filter (fun r => observed r.1) := by
  induction is generalizing s t with
  | nil => rfl
  | cons i is ih =>
    have hi := his i List.mem_cons_self
    have hrest : ∀ j ∈ is, labels j := fun j hj => his j (List.mem_cons_of_mem i hj)
    unfold Along at halike
    by_cases hkept : kept i = true
    · rw [if_pos hkept] at halike
      have hnext := ih hrest (h.invariant hi hs) (h.invariant hi ht)
        (h.kept hi hs ht hkept halike.1 hview) halike.2
      rw [List.filter_cons_of_pos hkept, replies, replies, List.filter_cons, List.filter_cons,
        hnext]
      by_cases hobs : observed i = true
      · simp only [hobs, if_true, h.reply hi hs ht hobs hview]
      · simp only [hobs, if_false, Bool.false_eq_true]
    · rw [if_neg hkept] at halike
      have hobs : ¬ observed i = true := fun hobs => hkept (hobserved i hobs)
      rw [List.filter_cons_of_neg hkept, replies, List.filter_cons, if_neg hobs]
      exact ih hrest (h.invariant hi hs) ht
        ((h.purged hi hs (by simpa using hkept)).trans hview) halike

end Unwinding
