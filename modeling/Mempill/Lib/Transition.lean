import Mathlib.Logic.Basic

set_option autoImplicit false

/-!
# Transition systems

Reachability and runs of a labelled step relation, with the rules that carry a
property of one step to every state reached.
-/
namespace Transition

variable {σ ι : Type*}

inductive Reach (init : σ → Prop) (step : σ → ι → σ → Prop) : σ → Prop where
  | init {s : σ} : init s → Reach init step s
  | step {s t : σ} {i : ι} : Reach init step s → step s i t → Reach init step t

inductive Run (step : σ → ι → σ → Prop) : σ → List ι → σ → Prop where
  | nil (s : σ) : Run step s [] s
  | cons {s t u : σ} {i : ι} {is : List ι} :
      step s i t → Run step t is u → Run step s (i :: is) u

/-- The steps whose source state and label meet a condition. -/
def Restrict (step : σ → ι → σ → Prop) (C : σ → ι → Prop) : σ → ι → σ → Prop :=
  fun s i t => C s i ∧ step s i t

variable {init : σ → Prop} {step step' : σ → ι → σ → Prop}

/-- A property that holds at the start and survives every step holds of every
    reachable state. The step may assume that its source is reachable. -/
theorem Reach.invariant {P : σ → Prop} {s : σ} (h : Reach init step s)
    (hinit : ∀ s, init s → P s)
    (hstep : ∀ s i t, Reach init step s → P s → step s i t → P t) : P s := by
  induction h with
  | init h => exact hinit _ h
  | step hs hst ih => exact hstep _ _ _ hs ih hst

theorem Reach.mono {s : σ} (himp : ∀ s i t, step s i t → step' s i t)
    (h : Reach init step s) : Reach init step' s := by
  induction h with
  | init h => exact .init h
  | step _ hst ih => exact .step ih (himp _ _ _ hst)

theorem Reach.unrestrict {C : σ → ι → Prop} {s : σ} (h : Reach init (Restrict step C) s) :
    Reach init step s :=
  h.mono fun _ _ _ hst => hst.2

theorem Run.preserves {P : σ → Prop} {s t : σ} {is : List ι} (h : Run step s is t)
    (hs : P s) (hstep : ∀ s i t, P s → step s i t → P t) : P t := by
  induction h with
  | nil _ => exact hs
  | cons hst _ ih => exact ih (hstep _ _ _ hs hst)

/-- A second system that follows each step by a function of its label follows a run by
    the fold of that function. -/
theorem Run.simulates {τ : Type*} {R : σ → τ → Prop} {follow : τ → ι → τ} {s t : σ} {a : τ}
    {is : List ι} (h : Run step s is t) (hs : R s a)
    (hstep : ∀ s i t a, R s a → step s i t → R t (follow a i)) : R t (is.foldl follow a) := by
  induction h generalizing a with
  | nil _ => exact hs
  | cons hst _ ih => exact ih (hstep _ _ _ _ hs hst)

/-- What a fold has at its end and not at its start came with one of the labels. -/
theorem exists_of_foldl {τ κ : Type*} {P : κ → τ → Prop} {born : ι → κ → Prop}
    {follow : τ → ι → τ} {a : τ} (hinit : ∀ k, ¬ P k a)
    (hstep : ∀ a i k, P k (follow a i) → born i k ∨ P k a) {k : κ} (is : List ι)
    (h : P k (is.foldl follow a)) : ∃ i ∈ is, born i k := by
  have hcases : ∀ (is : List ι) (a : τ), P k (is.foldl follow a) →
      (∃ i ∈ is, born i k) ∨ P k a := by
    intro is
    induction is with
    | nil => exact fun _ h => .inr h
    | cons i is ih =>
      intro a h
      rcases ih _ h with ⟨j, hj, hborn⟩ | hnext
      · exact .inl ⟨j, List.mem_cons_of_mem _ hj, hborn⟩
      · exact (hstep _ _ _ hnext).imp_left fun hborn => ⟨i, List.mem_cons_self, hborn⟩
  exact (hcases is a h).resolve_right (hinit k)

/-- Every step of a run starts where a part of the run ends. -/
theorem Run.exists_of_mem {s t : σ} {is : List ι} {i : ι} (h : Run step s is t) (hi : i ∈ is) :
    ∃ before u v, Run step s before u ∧ step u i v := by
  induction h with
  | nil _ => cases hi
  | cons hst _ ih =>
    rcases List.mem_cons.mp hi with rfl | hi
    · exact ⟨[], _, _, .nil _, hst⟩
    · obtain ⟨before, u, v, hbefore, hlater⟩ := ih hi
      exact ⟨_ :: before, u, v, .cons hst hbefore, hlater⟩

theorem Run.unrestrict {C : σ → ι → Prop} {s t : σ} {is : List ι}
    (h : Run (Restrict step C) s is t) : Run step s is t := by
  induction h with
  | nil _ => exact .nil _
  | cons hst _ ih => exact .cons hst.2 ih

theorem Run.reach {s t : σ} {is : List ι} (h : Run step s is t) (hs : Reach init step s) :
    Reach init step t :=
  h.preserves hs fun _ _ _ hr hst => hr.step hst

end Transition
