import Mathlib.Data.Finset.Card
import Mathlib.Data.Finset.Range
import Mathlib.Data.List.Nodup
import Mathlib.Order.BooleanAlgebra.Set
import Mathlib.Order.WellFounded
import Mathlib.Logic.Function.Basic
import Mempill.Lib.Transition

set_option autoImplicit false

/-!
# Locked tasks

Tasks that share a state and take turns on locks. A lock has one holder, and lets those
that wait for it in by their order of arrival. A discipline says what a task may do
while it holds which locks, and what a lock guards while it is free.
-/
namespace LockedTasks
open Transition

universe u v w

/-- What is left of a task. -/
inductive Task (L : Type u) (S : Type v) (R : Type w) : Type (max u v w) where
  | done (result : R)
  /-- One atomic access, and what follows on the state that it found. -/
  | access (update : S → S) (next : S → Task L S R)
  | lock (l : L) (next : Task L S R)
  | unlock (l : L) (next : Task L S R)
  /-- Given up by its caller. -/
  | dropped

structure Mutex where
  holder : Option ℕ
  waiting : List ℕ
  deriving DecidableEq

def Mutex.join (m : Mutex) (t : ℕ) : Mutex := { m with waiting := m.waiting ++ [t] }

def Mutex.release (m : Mutex) : Mutex := { m with holder := none }

/-- Neither holds nor waits. -/
def Mutex.without (m : Mutex) (t : ℕ) : Mutex where
  holder := m.holder.filter (· ≠ t)
  waiting := m.waiting.erase t

structure State (L : Type u) (S : Type v) (R : Type w) where
  shared : S
  mutex : L → Mutex
  /-- A task goes by its index. -/
  tasks : List (Task L S R)

variable {L : Type u} {S : Type v} {R : Type w}

section Semantics

variable [DecidableEq L]

def State.start (shared : S) : State L S R := ⟨shared, fun _ => ⟨none, []⟩, []⟩

def State.setMutex (s : State L S R) (l : L) (m : Mutex) : State L S R :=
  { s with mutex := Function.update s.mutex l m }

def State.setTask (s : State L S R) (t : ℕ) (task : Task L S R) : State L S R :=
  { s with tasks := s.tasks.set t task }

/-- The moves of a task that is there. -/
inductive Move (s : State L S R) (t : ℕ) : State L S R → Prop where
  | access {update : S → S} {next : S → Task L S R}
      (htask : s.tasks[t]? = some (.access update next)) :
      Move s t { s.setTask t (next s.shared) with shared := update s.shared }
  | request {l : L} {next : Task L S R} (htask : s.tasks[t]? = some (.lock l next))
      (hnew : t ∉ (s.mutex l).waiting) :
      Move s t (s.setMutex l ((s.mutex l).join t))
  | enter {l : L} {next : Task L S R} {behind : List ℕ}
      (htask : s.tasks[t]? = some (.lock l next)) (hfree : (s.mutex l).holder = none)
      (hfirst : (s.mutex l).waiting = t :: behind) :
      Move s t ((s.setMutex l ⟨some t, behind⟩).setTask t next)
  | unlock {l : L} {next : Task L S R} (htask : s.tasks[t]? = some (.unlock l next))
      (hheld : (s.mutex l).holder = some t) :
      Move s t ((s.setMutex l (s.mutex l).release).setTask t next)

/-- The move of a task, if it has one. -/
def State.advance (s : State L S R) (t : ℕ) : Option (State L S R) :=
  match s.tasks[t]? with
  | some (.access update next) =>
    some { s.setTask t (next s.shared) with shared := update s.shared }
  | some (.lock l next) =>
    if t ∈ (s.mutex l).waiting then
      match (s.mutex l).holder, (s.mutex l).waiting with
      | none, first :: behind =>
        if first = t then some ((s.setMutex l ⟨some t, behind⟩).setTask t next) else none
      | _, _ => none
    else some (s.setMutex l ((s.mutex l).join t))
  | some (.unlock l next) =>
    if (s.mutex l).holder = some t then
      some ((s.setMutex l (s.mutex l).release).setTask t next)
    else none
  | _ => none

theorem move_of_advance {s s' : State L S R} {t : ℕ} (h : s.advance t = some s') :
    Move s t s' := by
  unfold State.advance at h
  cases htask : s.tasks[t]? with
  | none =>
    rw [htask] at h
    cases h
  | some task =>
    rw [htask] at h
    cases task with
    | done _ | dropped => cases h
    | access update next =>
      cases h
      exact .access htask
    | unlock l next =>
      dsimp only at h
      split_ifs at h with hheld
      cases h
      exact .unlock htask hheld
    | lock l next =>
      dsimp only at h
      split_ifs at h with hmem
      · split at h
        · split_ifs at h with hfirst
          cases h
          subst hfirst
          exact .enter htask ‹_› ‹_›
        · cases h
      · cases h
        exact .request htask hmem

inductive Label where
  | call
  | move (t : ℕ)
  | drop (t : ℕ)

/-- A task can be dropped where it waits for a lock. -/
inductive Step (callable : ℕ → Task L S R → Prop) :
    State L S R → Label → State L S R → Prop where
  | call {s : State L S R} {task : Task L S R} (htask : callable s.tasks.length task) :
      Step callable s .call { s with tasks := s.tasks ++ [task] }
  | move {s s' : State L S R} {t : ℕ} (hmove : Move s t s') : Step callable s (.move t) s'
  | drop {s : State L S R} {t : ℕ} {l : L} {next : Task L S R}
      (htask : s.tasks[t]? = some (.lock l next)) :
      Step callable s (.drop t)
        { s.setTask t .dropped with mutex := fun l => (s.mutex l).without t }

end Semantics

section Discipline

/-- What holds of the shared state at all times, what the t-th task may do to it while it
    holds certain locks, and what each lock guards while nobody holds it. -/
structure Discipline (L : Type u) (S : Type v) (R : Type w) where
  rank : L → ℕ
  inv : S → Prop
  may : ℕ → Set L → S → S → Prop
  resource : L → S → Prop
  /-- Of a task that has not been called. -/
  fresh : ℕ → S → Prop
  post : ℕ → R → S → Prop

variable (D : Discipline L S R)

/-- An assertion that no other task can break while this one holds its locks. -/
def Stable (t : ℕ) (held : Set L) (P : S → Prop) : Prop :=
  ∀ (u : ℕ) (other : Set L) (s s' : S), u ≠ t → (∀ l ∈ other, l ∉ held) → D.inv s → D.inv s' →
    D.may u other s s' → P s → P s'

structure Discipline.Lawful : Prop where
  resource_stable : ∀ {t : ℕ} {held : Set L} {l : L} {s s' : S}, l ∉ held → D.inv s → D.inv s' →
    D.may t held s s' → D.resource l s → D.resource l s'
  fresh_stable : ∀ t, Stable D t ∅ (D.fresh t)

/-- The rest of a task keeps the discipline, from states that meet an assertion. -/
def Valid (t : ℕ) : Set L → (S → Prop) → Task L S R → Prop
  | held, P, .done result => held = ∅ ∧ ∀ s, D.inv s → P s → D.post t result s
  | held, P, .access update next => ∀ s, D.inv s → P s →
      D.inv (update s) ∧ D.may t held s (update s) ∧
        ∃ Q, Stable D t held Q ∧ Q (update s) ∧ Valid t held Q (next s)
  | held, P, .lock l next =>
      (∀ h ∈ held, D.rank h < D.rank l) ∧ (∀ h ∈ held, ∀ s, D.inv s → P s → D.resource h s) ∧
        Valid t (insert l held) (fun s => P s ∧ D.resource l s) next
  | held, P, .unlock l next =>
      l ∈ held ∧ (∀ s, D.inv s → P s → D.resource l s) ∧
        ∃ Q, (∀ s, D.inv s → P s → Q s) ∧ Stable D t (held \ {l}) Q ∧
          Valid t (held \ {l}) Q next
  | held, _, .dropped => held = ∅

variable {D} {t : ℕ} {held : Set L} {P Q : S → Prop} {task : Task L S R}

theorem Valid.weaken (h : Valid D t held Q task) (himp : ∀ s, D.inv s → P s → Q s) :
    Valid D t held P task := by
  induction task generalizing held P Q with
  | done result => exact ⟨h.1, fun s hs hP => h.2 s hs (himp s hs hP)⟩
  | access update next _ => exact fun s hs hP => h s hs (himp s hs hP)
  | lock l next ih =>
    refine ⟨h.1, fun h' hh s hs hP => h.2.1 h' hh s hs (himp s hs hP), ih h.2.2 ?_⟩
    exact fun s hs hP => ⟨himp s hs hP.1, hP.2⟩
  | unlock l next _ =>
    obtain ⟨hmem, hres, Q', himp', hstable, hnext⟩ := h
    exact ⟨hmem, fun s hs hP => hres s hs (himp s hs hP), Q',
      fun s hs hP => himp' s hs (himp s hs hP), hstable, hnext⟩
  | dropped => exact h

theorem Stable.mono {held' : Set L} (h : Stable D t held P) (hsub : held ⊆ held') :
    Stable D t held' P :=
  fun u other s s' hu hother => h u other s s' hu fun l hl hmem => hother l hl (hsub hmem)

theorem Stable.and (h : Stable D t held P) (h' : Stable D t held Q) :
    Stable D t held fun s => P s ∧ Q s :=
  fun u other s s' hu hother hs hs' hmay hPQ =>
    ⟨h u other s s' hu hother hs hs' hmay hPQ.1, h' u other s s' hu hother hs hs' hmay hPQ.2⟩

end Discipline

section Soundness

def State.heldBy (s : State L S R) (t : ℕ) : Set L := {l | (s.mutex l).holder = some t}

/-- Those that wait for a lock are about to take it. -/
structure InLine (tasks : List (Task L S R)) (l : L) (m : Mutex) : Prop where
  once : m.waiting.Nodup
  waits : ∀ t ∈ m.waiting, ∃ next, tasks[t]? = some (.lock l next)
  called : ∀ t, m.holder = some t → t < tasks.length

/-- What a lock guards is in order while nobody holds it. -/
def Guards (D : Discipline L S R) (shared : S) (l : L) (m : Mutex) : Prop :=
  m.holder = none → D.resource l shared

/-- Every task keeps the discipline from here on. -/
structure Sound (D : Discipline L S R) (s : State L S R) : Prop where
  inv : D.inv s.shared
  free : ∀ l, Guards D s.shared l (s.mutex l)
  fresh : ∀ t, s.tasks.length ≤ t → D.fresh t s.shared
  valid : ∀ t task, s.tasks[t]? = some task →
    ∃ P, Stable D t (s.heldBy t) P ∧ P s.shared ∧ Valid D t (s.heldBy t) P task
  line : ∀ l, InLine s.tasks l (s.mutex l)

variable {D : Discipline L S R} {s s' : State L S R} {t u : ℕ} {l : L} {m : Mutex}
  {tasks : List (Task L S R)} {task new next : Task L S R}

theorem lt_of_getElem? (h : tasks[t]? = some task) : t < tasks.length :=
  (List.getElem?_eq_some_iff.mp h).1

theorem getElem?_set_other (h : (tasks.set t new)[u]? = some task) (hu : u ≠ t) :
    tasks[u]? = some task := by
  rwa [List.getElem?_set_ne (Ne.symm hu)] at h

theorem getElem?_set_own (h : (tasks.set t new)[t]? = some task) : task = new := by
  rw [List.getElem?_set_self'] at h
  cases htask : tasks[t]? with
  | none => simp [htask] at h
  | some _ => simpa [htask] using h.symm

theorem heldBy_disjoint (hu : u ≠ t) : ∀ l ∈ s.heldBy u, l ∉ s.heldBy t :=
  fun _ hl hl' => hu (Option.some.inj (hl.symm.trans hl'))

theorem InLine.not_waiting (h : InLine tasks l m) (htask : tasks[t]? = some task)
    (hlock : ∀ next, task ≠ .lock l next) : t ∉ m.waiting := by
  intro ht
  obtain ⟨next, hnext⟩ := h.waits t ht
  exact hlock next (Option.some.inj (htask.symm.trans hnext))

theorem InLine.set (h : InLine tasks l m) (ht : t ∉ m.waiting) :
    InLine (tasks.set t new) l m where
  once := h.once
  waits u hu := by
    have hut : t ≠ u := fun heq => ht (heq ▸ hu)
    rw [List.getElem?_set_ne hut]
    exact h.waits u hu
  called u hu := by
    rw [List.length_set]
    exact h.called u hu

/-- The task that moves has its new part, and every other task its assertion. -/
theorem Sound.valid_set (hs : Sound D s) (htask : s.tasks[t]? = some task)
    (hheld : ∀ u, u ≠ t → s'.heldBy u = s.heldBy u)
    (hothers : ∀ u P, u ≠ t → Stable D u (s.heldBy u) P → P s.shared → P s'.shared)
    (hown : ∃ P, Stable D t (s'.heldBy t) P ∧ P s'.shared ∧ Valid D t (s'.heldBy t) P new) :
    ∀ u task, (s.tasks.set t new)[u]? = some task →
      ∃ P, Stable D u (s'.heldBy u) P ∧ P s'.shared ∧ Valid D u (s'.heldBy u) P task := by
  intro u task hu
  by_cases hut : u = t
  · subst hut
    rw [getElem?_set_own hu]
    exact hown
  · obtain ⟨P, hstable, hP, hvalid⟩ := hs.valid u task (getElem?_set_other hu hut)
    rw [hheld u hut]
    exact ⟨P, hstable, hothers u P hut hstable hP, hvalid⟩

theorem Sound.access (hlawful : D.Lawful) (hs : Sound D s) {update : S → S}
    {next : S → Task L S R} (htask : s.tasks[t]? = some (.access update next)) :
    Sound D { s.setTask t (next s.shared) with shared := update s.shared } := by
  obtain ⟨P, _, hP, hvalid⟩ := hs.valid t _ htask
  obtain ⟨hinv, hmay, Q, hQ, hQs, hnext⟩ := hvalid s.shared hs.inv hP
  refine ⟨hinv, ?_, ?_, ?_, ?_⟩
  · intro l hl
    refine hlawful.resource_stable (fun hheld => ?_) hs.inv hinv hmay (hs.free l hl)
    cases hl.symm.trans hheld
  · intro u hu
    have hut : t ≠ u := by
      have := lt_of_getElem? htask
      rw [State.setTask, List.length_set] at hu
      omega
    rw [State.setTask, List.length_set] at hu
    exact hlawful.fresh_stable u t _ _ _ hut (fun _ _ => Set.notMem_empty _) hs.inv hinv hmay
      (hs.fresh u hu)
  · refine hs.valid_set htask (fun u _ => rfl) ?_ ⟨Q, hQ, hQs, hnext⟩
    intro u P' hut hstable hP'
    exact hstable t _ _ _ (Ne.symm hut) (heldBy_disjoint (Ne.symm hut)) hs.inv hinv hmay hP'
  · intro l
    exact (hs.line l).set ((hs.line l).not_waiting htask fun _ h => by cases h)

/-- What a waiting task holds is in order, so that it can be dropped. -/
theorem Sound.drop (hs : Sound D s) (htask : s.tasks[t]? = some (.lock l next)) :
    Sound D { s.setTask t .dropped with mutex := fun l => (s.mutex l).without t } := by
  obtain ⟨P, _, hP, _, hres, _⟩ := hs.valid t _ htask
  refine ⟨hs.inv, ?_, ?_, ?_, ?_⟩
  · intro l' hl'
    cases hholder : (s.mutex l').holder with
    | none => exact hs.free l' hholder
    | some u =>
      have hut : u = t := by
        by_contra hut
        simp [Mutex.without, hholder, hut] at hl'
      subst hut
      exact hres l' hholder s.shared hs.inv hP
  · intro u hu
    rw [State.setTask, List.length_set] at hu
    exact hs.fresh u hu
  · refine hs.valid_set htask (fun u hu => ?_) (fun _ _ _ _ hP => hP) ?_
    · ext l'
      simp only [State.heldBy, Mutex.without, Set.mem_ofPred_eq, Option.filter_eq_some_iff]
      simp [hu]
    · refine ⟨fun _ => True, fun _ _ _ _ _ _ _ _ _ _ => trivial, trivial, ?_⟩
      refine Set.eq_empty_iff_forall_notMem.mpr fun l' hl' => ?_
      simp [State.heldBy, Mutex.without] at hl'
  · intro l'
    have hline := hs.line l'
    refine InLine.set ⟨hline.once.erase t, fun u hu => ?_, fun u hu => ?_⟩ ?_
    · exact hline.waits u (List.mem_of_mem_erase hu)
    · exact hline.called u (Option.filter_eq_some_iff.mp hu).1
    · exact hline.once.not_mem_erase

theorem Sound.call (hs : Sound D s) (hheld : ∀ t, Stable D t ∅ (D.fresh t))
    (hvalid : Valid D s.tasks.length ∅ (D.fresh s.tasks.length) task) :
    Sound D { s with tasks := s.tasks ++ [task] } where
  inv := hs.inv
  free := hs.free
  fresh u hu := by
    rw [List.length_append] at hu
    exact hs.fresh u (by omega)
  valid u task' hu := by
    rcases Nat.lt_trichotomy u s.tasks.length with hlt | rfl | hgt
    · rw [List.getElem?_append_left hlt] at hu
      exact hs.valid u task' hu
    · rw [List.getElem?_concat_length] at hu
      cases hu
      have hempty : s.heldBy s.tasks.length = ∅ := by
        refine Set.eq_empty_iff_forall_notMem.mpr fun l hl => ?_
        exact absurd ((hs.line l).called _ hl) (lt_irrefl _)
      refine ⟨D.fresh s.tasks.length, ?_, hs.fresh _ le_rfl, ?_⟩
      · rw [show State.heldBy { s with tasks := s.tasks ++ [task] } s.tasks.length = ∅ from hempty]
        exact hheld _
      · rw [show State.heldBy { s with tasks := s.tasks ++ [task] } s.tasks.length = ∅ from hempty]
        exact hvalid
    · rw [List.getElem?_eq_none (by rw [List.length_append, List.length_singleton]; omega)] at hu
      cases hu
  line l :=
    { once := (hs.line l).once
      waits := fun u hu => by
        obtain ⟨next, hnext⟩ := (hs.line l).waits u hu
        exact ⟨next, by rw [List.getElem?_append_left (lt_of_getElem? hnext)]; exact hnext⟩
      called := fun u hu => by
        have := (hs.line l).called u hu
        rw [List.length_append]
        omega }

theorem sound_start {shared : S} (hinv : D.inv shared) (hresource : ∀ l, D.resource l shared)
    (hfresh : ∀ t, D.fresh t shared) : Sound D (State.start shared) where
  inv := hinv
  free l _ := hresource l
  fresh t _ := hfresh t
  valid t task ht := by simp [State.start] at ht
  line l :=
    { once := List.nodup_nil
      waits := fun t ht => absurd ht List.not_mem_nil
      called := fun t ht => by cases ht }

theorem Sound.post {result : R} (hs : Sound D s) (htask : s.tasks[t]? = some (.done result)) :
    D.post t result s.shared := by
  obtain ⟨P, _, hP, _, hpost⟩ := hs.valid t _ htask
  exact hpost s.shared hs.inv hP

variable [DecidableEq L]

@[simp] theorem setMutex_self : (s.setMutex l m).mutex l = m := Function.update_self ..

theorem setMutex_other {l' : L} (h : l' ≠ l) : (s.setMutex l m).mutex l' = s.mutex l' :=
  Function.update_of_ne h ..

theorem forall_setMutex {p : L → Mutex → Prop} (hself : p l m)
    (hother : ∀ l', l' ≠ l → p l' (s.mutex l')) (l' : L) : p l' ((s.setMutex l m).mutex l') := by
  by_cases hl : l' = l
  · subst hl
    rwa [setMutex_self]
  · rw [setMutex_other hl]
    exact hother l' hl

theorem mem_heldBy_setMutex {l' : L} : l' ∈ ((s.setMutex l m).setTask t new).heldBy u ↔
    if l' = l then m.holder = some u else l' ∈ s.heldBy u := by
  refine forall_setMutex (p := fun l' m' => m'.holder = some u ↔
    if l' = l then m.holder = some u else l' ∈ s.heldBy u) ?_ (fun l' hl => ?_) l'
  · rw [if_pos rfl]
  · rw [if_neg hl]
    exact Iff.rfl

theorem Sound.request (hs : Sound D s) (htask : s.tasks[t]? = some (.lock l next))
    (hnew : t ∉ (s.mutex l).waiting) : Sound D (s.setMutex l ((s.mutex l).join t)) where
  inv := hs.inv
  free := forall_setMutex (p := Guards D s.shared) (hs.free l) fun l' _ => hs.free l'
  fresh := hs.fresh
  valid u task hu := by
    have hheld : (s.setMutex l ((s.mutex l).join t)).heldBy u = s.heldBy u := by
      ext l'
      have hown : ((s.mutex l).join t).holder = some u ↔ l ∈ s.heldBy u := Iff.rfl
      exact forall_setMutex (p := fun l' m' => m'.holder = some u ↔ l' ∈ s.heldBy u) hown
        (fun _ _ => Iff.rfl) l'
    rw [hheld]
    exact hs.valid u task hu
  line := by
    refine forall_setMutex ⟨?_, ?_, (hs.line l).called⟩ fun l' _ => hs.line l'
    · rw [Mutex.join, ← List.concat_eq_append]
      exact List.Nodup.concat hnew (hs.line l).once
    · intro u hu
      rcases List.mem_append.mp hu with hu | hu
      · exact (hs.line l).waits u hu
      · rw [List.mem_singleton.mp hu]
        exact ⟨next, htask⟩

/-- The new holder gets what the lock guards. -/
theorem Sound.enter (hlawful : D.Lawful) (hs : Sound D s) {behind : List ℕ}
    (htask : s.tasks[t]? = some (.lock l next)) (hfree : (s.mutex l).holder = none)
    (hfirst : (s.mutex l).waiting = t :: behind) :
    Sound D ((s.setMutex l ⟨some t, behind⟩).setTask t next) := by
  have hline := hs.line l
  have hnodup := List.nodup_cons.mp (hfirst ▸ hline.once)
  refine ⟨hs.inv, ?_, ?_, ?_, ?_⟩
  · refine forall_setMutex (p := Guards D s.shared) (fun h => ?_) fun l' _ => hs.free l'
    cases h
  · intro u hu
    rw [State.setTask, List.length_set] at hu
    exact hs.fresh u hu
  · refine hs.valid_set htask (fun u hu => ?_) (fun _ _ _ _ hP => hP) ?_
    · ext l'
      rw [mem_heldBy_setMutex]
      split_ifs with hl
      · subst hl
        simp [State.heldBy, hfree, Ne.symm hu]
      · exact Iff.rfl
    · have hheld : ((s.setMutex l ⟨some t, behind⟩).setTask t next).heldBy t =
          insert l (s.heldBy t) := by
        ext l'
        rw [mem_heldBy_setMutex]
        split_ifs with hl <;> simp [hl]
      obtain ⟨P, hstable, hP, _, _, hnext⟩ := hs.valid t _ htask
      rw [hheld]
      refine ⟨fun s => P s ∧ D.resource l s, ?_, ⟨hP, hs.free l hfree⟩, hnext⟩
      refine (hstable.mono (Set.subset_insert l _)).and ?_
      intro v other s s' _ hother hinv hinv' hmay hres
      exact hlawful.resource_stable (fun hl => hother l hl (Set.mem_insert l _)) hinv hinv' hmay
        hres
  · refine forall_setMutex ?_ fun l' hl => (hs.line l').set fun ht => ?_
    · refine InLine.set ⟨hnodup.2, fun u hu => hline.waits u ?_, fun u hu => ?_⟩ hnodup.1
      · rw [hfirst]
        exact List.mem_cons_of_mem t hu
      · rw [← Option.some.inj hu]
        exact lt_of_getElem? htask
    · obtain ⟨next', hnext'⟩ := (hs.line l').waits t ht
      rw [htask] at hnext'
      exact hl (Task.lock.inj (Option.some.inj hnext')).1.symm

/-- The holder has to leave in order what the lock guards. -/
theorem Sound.unlock (hs : Sound D s) (htask : s.tasks[t]? = some (.unlock l next))
    (hholder : (s.mutex l).holder = some t) :
    Sound D ((s.setMutex l (s.mutex l).release).setTask t next) := by
  obtain ⟨P, _, hP, _, hres, Q, himp, hQ, hnext⟩ := hs.valid t _ htask
  have hheld : ∀ u, ((s.setMutex l (s.mutex l).release).setTask t next).heldBy u =
      s.heldBy u \ {l} := by
    intro u
    ext l'
    rw [mem_heldBy_setMutex]
    split_ifs with hl <;> simp [hl, Mutex.release]
  refine ⟨hs.inv, ?_, ?_, ?_, ?_⟩
  · exact forall_setMutex (p := Guards D s.shared) (fun _ => hres s.shared hs.inv hP)
      fun l' _ => hs.free l'
  · intro u hu
    rw [State.setTask, List.length_set] at hu
    exact hs.fresh u hu
  · refine hs.valid_set htask (fun u hu => ?_) (fun _ _ _ _ hP => hP) ?_
    · rw [hheld]
      refine Set.sdiff_singleton_eq_self fun hl => hu ?_
      exact Option.some.inj (hl.symm.trans hholder)
    · rw [hheld]
      exact ⟨Q, hQ, himp s.shared hs.inv hP, hnext⟩
  · have hline : ∀ l', InLine (s.tasks.set t next) l' (s.mutex l') := fun l' =>
      (hs.line l').set ((hs.line l').not_waiting htask fun _ h => by cases h)
    exact forall_setMutex ⟨(hline l).once, (hline l).waits, fun _ h => by cases h⟩
      fun l' _ => hline l'

theorem Sound.move (hlawful : D.Lawful) (hs : Sound D s) (hmove : Move s t s') : Sound D s' := by
  cases hmove with
  | access htask => exact hs.access hlawful htask
  | request htask hnew => exact hs.request htask hnew
  | enter htask hfree hfirst => exact hs.enter hlawful htask hfree hfirst
  | unlock htask hheld => exact hs.unlock htask hheld

variable {callable : ℕ → Task L S R → Prop} {shared : S}

theorem Sound.step {label : Label} (hlawful : D.Lawful)
    (hcall : ∀ t task, callable t task → Valid D t ∅ (D.fresh t) task) (hs : Sound D s)
    (hstep : Step callable s label s') : Sound D s' := by
  cases hstep with
  | call htask => exact hs.call hlawful.fresh_stable (hcall _ _ htask)
  | move hmove => exact hs.move hlawful hmove
  | drop htask => exact hs.drop htask

/-- Whatever the interleaving, all tasks keep the discipline if each does by itself. -/
theorem sound_of_reach (hlawful : D.Lawful)
    (hcall : ∀ t task, callable t task → Valid D t ∅ (D.fresh t) task) (hinv : D.inv shared)
    (hresource : ∀ l, D.resource l shared) (hfresh : ∀ t, D.fresh t shared)
    (h : Reach (· = State.start shared) (Step callable) s) : Sound D s :=
  h.invariant (fun _ hs => hs ▸ sound_start hinv hresource hfresh)
    fun _ _ _ _ hs hstep => hs.step hlawful hcall hstep

end Soundness

section Progress

variable [DecidableEq L] {D : Discipline L S R} {s s' : State L S R} {t : ℕ}

def Task.finished : Task L S R → Bool
  | .done _ | .dropped => true
  | _ => false

omit D in
theorem step_finished {callable : ℕ → Task L S R → Prop} {label : Label} {task : Task L S R}
    (htask : s.tasks[t]? = some task) (hfinished : task.finished = true)
    (hstep : Step callable s label s') : s'.tasks[t]? = some task := by
  have hset : ∀ {u : ℕ} {moving new : Task L S R}, s.tasks[u]? = some moving →
      moving.finished = false → (s.tasks.set u new)[t]? = some task := by
    intro u moving new hmoving hrest
    have hut : u ≠ t := by
      rintro rfl
      rw [htask] at hmoving
      cases hmoving
      rw [hfinished] at hrest
      cases hrest
    rw [List.getElem?_set_ne hut]
    exact htask
  cases hstep with
  | call _ =>
    rw [List.getElem?_append_left (lt_of_getElem? htask)]
    exact htask
  | drop hmoving => exact hset hmoving rfl
  | move hmove =>
    cases hmove with
    | request _ _ => exact htask
    | access hmoving => exact hset hmoving rfl
    | enter hmoving _ _ => exact hset hmoving rfl
    | unlock hmoving _ => exact hset hmoving rfl

/-- A task that waits for a lock leads, along the holders, to one that can move. -/
theorem Sound.exists_move_of_lock {bound : ℕ} (hbound : ∀ l, D.rank l < bound) (hs : Sound D s) :
    ∀ (n : ℕ) (t : ℕ) (l : L) (next : Task L S R), bound ≤ D.rank l + n →
      s.tasks[t]? = some (.lock l next) → ∃ u s', Move s u s' := by
  intro n
  induction n with
  | zero =>
    intro t l next hn _
    have := hbound l
    omega
  | succ n ih =>
    intro t l next hn htask
    by_cases hnew : t ∈ (s.mutex l).waiting
    · cases hholder : (s.mutex l).holder with
      | none =>
        cases hwaiting : (s.mutex l).waiting with
        | nil =>
          rw [hwaiting] at hnew
          cases hnew
        | cons first behind =>
          obtain ⟨next', hnext'⟩ := (hs.line l).waits first (by rw [hwaiting]; exact .head _)
          exact ⟨first, _, .enter hnext' hholder hwaiting⟩
      | some u =>
        -- the holder does not wait for a lock of the same rank or a lower one
        have hu : l ∈ s.heldBy u := hholder
        have hlt := (hs.line l).called u hholder
        obtain ⟨task, hget⟩ : ∃ task, s.tasks[u]? = some task :=
          ⟨_, List.getElem?_eq_getElem hlt⟩
        obtain ⟨P, _, _, hvalid⟩ := hs.valid u task hget
        cases task with
        | done result => exact absurd hu (by rw [hvalid.1]; exact Set.notMem_empty l)
        | dropped => exact absurd hu (by rw [hvalid]; exact Set.notMem_empty l)
        | access update next' => exact ⟨u, _, .access hget⟩
        | unlock l' next' => exact ⟨u, _, .unlock hget hvalid.1⟩
        | lock l' next' =>
          have hrank := hvalid.1 l hu
          exact ih u l' next' (by omega) hget
    · exact ⟨t, _, .request htask hnew⟩

/-- No deadlock: while a task is not finished, some task can move. -/
theorem Sound.exists_move {bound : ℕ} (hbound : ∀ l, D.rank l < bound) (hs : Sound D s)
    {task : Task L S R} (htask : s.tasks[t]? = some task) (hrest : task.finished = false) :
    ∃ u s', Move s u s' := by
  cases task with
  | done _ | dropped => cases hrest
  | access update next => exact ⟨t, _, .access htask⟩
  | unlock l next =>
    obtain ⟨P, _, _, hvalid⟩ := hs.valid t _ htask
    exact ⟨t, _, .unlock htask hvalid.1⟩
  | lock l next => exact hs.exists_move_of_lock hbound bound t l next (by omega) htask

end Progress

section Termination

/-- What a task goes on with. -/
inductive Next : Task L S R → Task L S R → Prop where
  | access (update : S → S) (next : S → Task L S R) (shared : S) :
      Next (next shared) (.access update next)
  | lock (l : L) (next : Task L S R) : Next next (.lock l next)
  | unlock (l : L) (next : Task L S R) : Next next (.unlock l next)

theorem next_wellFounded : WellFounded (Next (L := L) (S := S) (R := R)) := by
  refine ⟨fun task => ?_⟩
  induction task with
  | done _ | dropped => exact ⟨_, fun _ h => by cases h⟩
  | access update next ih => exact ⟨_, fun _ h => by cases h; exact ih _⟩
  | lock l next ih => exact ⟨_, fun _ h => by cases h; exact ih⟩
  | unlock l next ih => exact ⟨_, fun _ h => by cases h; exact ih⟩

/-- One item of a list goes down. -/
def OneDown {α : Type u} (r : α → α → Prop) (xs' xs : List α) : Prop :=
  ∃ (t : ℕ) (x x' : α), xs[t]? = some x ∧ r x' x ∧ xs' = xs.set t x'

theorem acc_cons {α : Type u} {r : α → α → Prop} {x : α} {xs : List α} (hx : Acc r x)
    (hxs : Acc (OneDown r) xs) : Acc (OneDown r) (x :: xs) := by
  induction hx generalizing xs with
  | intro x _ ih =>
    induction hxs with
    | intro xs hxs ihxs =>
      refine ⟨_, ?_⟩
      rintro _ ⟨t, y, y', hget, hr, rfl⟩
      cases t with
      | zero =>
        cases hget
        exact ih y' hr ⟨_, hxs⟩
      | succ t => exact ihxs _ ⟨t, y, y', hget, hr, rfl⟩

theorem oneDown_wellFounded {α : Type u} {r : α → α → Prop} (h : WellFounded r) :
    WellFounded (OneDown r) := by
  refine ⟨fun xs => ?_⟩
  induction xs with
  | nil =>
    refine ⟨_, ?_⟩
    rintro _ ⟨t, y, y', hget, _⟩
    simp at hget
  | cons x xs ih => exact acc_cons (h.apply x) ih

variable {s s' : State L S R} {t : ℕ}

open Classical in
/-- The tasks that have still to get in line. -/
noncomputable def outside (s : State L S R) : Finset ℕ :=
  (Finset.range s.tasks.length).filter fun t =>
    ∃ l next, s.tasks[t]? = some (.lock l next) ∧ t ∉ (s.mutex l).waiting

theorem mem_outside : t ∈ outside s ↔
    ∃ l next, s.tasks[t]? = some (.lock l next) ∧ t ∉ (s.mutex l).waiting := by
  simp only [outside, Finset.mem_filter, Finset.mem_range, and_iff_right_iff_imp]
  rintro ⟨l, next, hget, _⟩
  exact lt_of_getElem? hget

variable [DecidableEq L]

theorem outside_request {l : L} {next : Task L S R} (htask : s.tasks[t]? = some (.lock l next))
    (hnew : t ∉ (s.mutex l).waiting) :
    (outside (s.setMutex l ((s.mutex l).join t))).card < (outside s).card := by
  refine Finset.card_lt_card ⟨?_, fun hsub => ?_⟩
  · intro u hu
    obtain ⟨l', next', hget, hout⟩ := mem_outside.mp hu
    refine mem_outside.mpr ⟨l', next', hget, fun hmem => hout ?_⟩
    exact forall_setMutex (p := fun l' m => u ∈ (s.mutex l').waiting → u ∈ m.waiting)
      (List.mem_append_left _) (fun _ _ => id) l' hmem
  · have ht : t ∈ outside s := mem_outside.mpr ⟨l, next, htask, hnew⟩
    obtain ⟨l', next', hget, hout⟩ := mem_outside.mp (hsub ht)
    obtain ⟨rfl, rfl⟩ := Task.lock.inj (Option.some.inj (htask.symm.trans hget))
    refine hout ?_
    rw [setMutex_self]
    exact List.mem_append_right _ (List.mem_singleton_self t)

/-- No endless run: every move brings a task forward or gets it in line. -/
theorem move_wellFounded :
    WellFounded fun s' s : State L S R => ∃ t, Move s t s' := by
  have hlex := (oneDown_wellFounded (next_wellFounded (L := L) (S := S) (R := R))).prod_lex
    Nat.lt_wfRel.wf
  refine Subrelation.wf ?_ (InvImage.wf (fun s => (s.tasks, (outside s).card)) hlex)
  rintro s' s ⟨t, hmove⟩
  cases hmove with
  | access htask => exact .left _ _ ⟨t, _, _, htask, .access _ _ _, rfl⟩
  | request htask hnew => exact .right _ (outside_request htask hnew)
  | enter htask _ _ => exact .left _ _ ⟨t, _, _, htask, .lock _ _, rfl⟩
  | unlock htask _ => exact .left _ _ ⟨t, _, _, htask, .unlock _ _, rfl⟩

theorem exists_last_move (path : ℕ → State L S R) : ∃ n, ∀ t, ¬ Move (path n) t (path (n + 1)) := by
  by_contra! hpath
  obtain ⟨_, ⟨n, rfl⟩, hleast⟩ := move_wellFounded.has_min (Set.range path) ⟨_, 0, rfl⟩
  exact hleast _ ⟨n + 1, rfl⟩ (hpath n)

/-- Where no task can move any more, all of them are through. -/
theorem Sound.finished_of_stuck {D : Discipline L S R} (hs : Sound D s) {bound : ℕ}
    (hbound : ∀ l, D.rank l < bound) (hstuck : ∀ t s', ¬ Move s t s') :
    ∀ task ∈ s.tasks, task.finished = true := by
  intro task htask
  by_contra hrest
  obtain ⟨t, hlt, hget⟩ := List.getElem_of_mem htask
  obtain ⟨u, s', hmove⟩ := hs.exists_move hbound
    (List.getElem?_eq_some_iff.mpr ⟨hlt, hget⟩) (Bool.eq_false_iff.mpr hrest)
  exact hstuck u s' hmove

end Termination

end LockedTasks
