import Mathlib.Data.List.Sort
import Mathlib.Data.List.Induction
import Mathlib.Data.Prod.Lex
import Mathlib.Data.Int.Order.Basic

set_option autoImplicit false

/-!
# Stamped logs

Selection by stamp from an append-only log: the stable order by stamp, the first
and the last entry among those of greatest stamp, and what an append does to
each.
-/
namespace StampedLog

variable {α τ κ : Type*} [LinearOrder τ] (stamp : α → τ)

def inOrder (log : List α) : List α := log.insertionSort (fun a b => stamp a ≤ stamp b)

theorem inOrder_perm (log : List α) : (inOrder stamp log).Perm log :=
  List.perm_insertionSort _ log

@[simp] theorem mem_inOrder {log : List α} {a : α} : a ∈ inOrder stamp log ↔ a ∈ log :=
  (inOrder_perm stamp log).mem_iff

instance instTotalStamp : Std.Total (fun a b : α => stamp a ≤ stamp b) := ⟨fun _ _ => le_total _ _⟩

instance instIsTransStamp : IsTrans α (fun a b => stamp a ≤ stamp b) := ⟨fun _ _ _ => le_trans⟩

theorem inOrder_pairwise (log : List α) :
    (inOrder stamp log).Pairwise (fun a b => stamp a ≤ stamp b) :=
  List.pairwise_insertionSort _ log

theorem inOrder_eq_self {log : List α} (h : log.Pairwise (fun a b => stamp a ≤ stamp b)) :
    inOrder stamp log = log :=
  List.Pairwise.insertionSort_eq h

theorem inOrder_congr {υ : Type*} [LinearOrder υ] {coarse : α → υ} {log : List α}
    (h : ∀ a ∈ log, ∀ b ∈ log, stamp a ≤ stamp b ↔ coarse a ≤ coarse b) :
    inOrder stamp log = inOrder coarse log := by
  have hsort := List.map_insertionSort (fun a b => stamp a ≤ stamp b)
    (fun a b => coarse a ≤ coarse b) id log h
  rwa [List.map_id, List.map_id] at hsort

/-- Where no two records share a stamp, the order in which they were appended is
    immaterial. -/
theorem inOrder_eq_of_perm {log log' : List α} (h : log.Perm log')
    (hinj : ∀ a ∈ log, ∀ b ∈ log, stamp a = stamp b → a = b) :
    inOrder stamp log = inOrder stamp log' := by
  have hperm := ((inOrder_perm stamp log).trans h).trans (inOrder_perm stamp log').symm
  refine hperm.eq_of_pairwise (fun a b ha hb hab hba => ?_) (inOrder_pairwise stamp log)
    (inOrder_pairwise stamp log')
  exact hinj a ((mem_inOrder stamp).mp ha) b (h.mem_iff.mpr ((mem_inOrder stamp).mp hb))
    (le_antisymm hab hba)

section Filter

variable (p : α → Bool)

theorem filter_orderedInsert {log : List α} (a : α)
    (h : log.Pairwise (fun a b => stamp a ≤ stamp b)) :
    (log.orderedInsert (fun a b => stamp a ≤ stamp b) a).filter p =
      if p a then (log.filter p).orderedInsert (fun a b => stamp a ≤ stamp b) a
      else log.filter p := by
  induction log with
  | nil => by_cases hp : p a <;> simp [hp]
  | cons b log ih =>
    obtain ⟨hb, hlog⟩ := List.pairwise_cons.mp h
    by_cases hab : stamp a ≤ stamp b
    · rw [List.orderedInsert_cons_of_le _ log hab]
      by_cases hp : p a
      · rw [List.filter_cons_of_pos hp, if_pos hp]
        have hall : ∀ c ∈ (b :: log).filter p, stamp a ≤ stamp c := by
          intro c hc
          rcases List.mem_cons.mp (List.mem_of_mem_filter hc) with rfl | hc
          · exact hab
          · exact le_trans hab (hb c hc)
        cases hf : (b :: log).filter p with
        | nil => rfl
        | cons c cs =>
          rw [List.orderedInsert_cons_of_le _ cs (hall c (hf ▸ List.mem_cons_self))]
      · rw [List.filter_cons_of_neg hp, if_neg hp]
    · rw [List.orderedInsert_cons, if_neg hab]
      by_cases hpb : p b
      · rw [List.filter_cons_of_pos hpb, List.filter_cons_of_pos hpb, ih hlog]
        by_cases hp : p a
        · rw [if_pos hp, if_pos hp, List.orderedInsert_cons, if_neg hab]
        · rw [if_neg hp, if_neg hp]
      · rw [List.filter_cons_of_neg hpb, List.filter_cons_of_neg hpb]
        exact ih hlog

theorem filter_inOrder (log : List α) :
    (inOrder stamp log).filter p = inOrder stamp (log.filter p) := by
  induction log with
  | nil => rfl
  | cons a log ih =>
    have hsorted := inOrder_pairwise stamp log
    unfold inOrder at ih hsorted ⊢
    rw [List.insertionSort_cons, filter_orderedInsert stamp p a hsorted, ih]
    by_cases hp : p a
    · rw [if_pos hp, List.filter_cons_of_pos hp, List.insertionSort_cons]
    · rw [if_neg hp, List.filter_cons_of_neg hp]

end Filter

/-- Keep the held entry unless the next one is strictly later. -/
def keepFirst (held : Option α) (a : α) : Option α :=
  match held with
  | none => some a
  | some b => if stamp b < stamp a then some a else some b

def firstMax (log : List α) : Option α := log.foldl (keepFirst stamp) none

/-- Take the next entry unless it is strictly earlier than the held one. -/
def keepLast (held : Option α) (a : α) : Option α :=
  match held with
  | none => some a
  | some b => if stamp b ≤ stamp a then some a else some b

def lastMax (log : List α) : Option α := log.foldl (keepLast stamp) none

theorem firstMax_concat (log : List α) (a : α) :
    firstMax stamp (log ++ [a]) = keepFirst stamp (firstMax stamp log) a := by
  simp [firstMax, List.foldl_append]

theorem lastMax_concat (log : List α) (a : α) :
    lastMax stamp (log ++ [a]) = keepLast stamp (lastMax stamp log) a := by
  simp [lastMax, List.foldl_append]

theorem firstMax_spec (log : List α) :
    (firstMax stamp log = none ∧ log = []) ∨
      ∃ a, firstMax stamp log = some a ∧ a ∈ log ∧ ∀ b ∈ log, stamp b ≤ stamp a := by
  induction log using List.reverseRecOn with
  | nil => exact .inl ⟨rfl, rfl⟩
  | append_singleton log a ih =>
    right
    rw [firstMax_concat]
    rcases ih with ⟨hn, rfl⟩ | ⟨b, hb, hmem, hmax⟩
    · exact ⟨a, by simp [hn, keepFirst], by simp, by simp⟩
    · rw [hb]
      by_cases hlt : stamp b < stamp a
      · refine ⟨a, by simp [keepFirst, hlt], by simp, fun c hc => ?_⟩
        rcases List.mem_append.mp hc with hc | hc
        · exact le_of_lt (lt_of_le_of_lt (hmax c hc) hlt)
        · rw [List.mem_singleton.mp hc]
      · refine ⟨b, by simp [keepFirst, hlt], List.mem_append_left _ hmem, fun c hc => ?_⟩
        rcases List.mem_append.mp hc with hc | hc
        · exact hmax c hc
        · rw [List.mem_singleton.mp hc]; exact le_of_not_gt hlt

theorem mem_of_firstMax {log : List α} {a : α} (h : firstMax stamp log = some a) : a ∈ log := by
  rcases firstMax_spec stamp log with ⟨hn, _⟩ | ⟨b, hb, hmem, _⟩
  · rw [hn] at h; cases h
  · rw [hb] at h; cases h; exact hmem

theorem firstMax_congr {υ : Type*} [LinearOrder υ] {coarse : α → υ} {log : List α}
    (h : ∀ a ∈ log, ∀ b ∈ log, stamp a ≤ stamp b ↔ coarse a ≤ coarse b) :
    firstMax stamp log = firstMax coarse log := by
  induction log using List.reverseRecOn with
  | nil => rfl
  | append_singleton log a ih =>
    have hlog := ih fun b hb c hc => h b (List.mem_append_left _ hb) c (List.mem_append_left _ hc)
    rw [firstMax_concat, firstMax_concat, hlog]
    cases hheld : firstMax coarse log with
    | none => rfl
    | some b =>
      have hb := List.mem_append_left [a] (mem_of_firstMax coarse hheld)
      have hle := h a (List.mem_append_right _ (List.mem_singleton_self a)) b hb
      simp only [keepFirst, ← not_le, hle]

theorem firstMax_map {β : Type*} (f : β → α) (log : List β) :
    firstMax stamp (log.map f) = (firstMax (stamp ∘ f) log).map f := by
  induction log using List.reverseRecOn with
  | nil => rfl
  | append_singleton log b ih =>
    rw [List.map_append, List.map_singleton, firstMax_concat, firstMax_concat, ih]
    cases firstMax (stamp ∘ f) log with
    | none => rfl
    | some held =>
      simp only [Option.map_some, keepFirst, Function.comp_apply]
      split_ifs <;> rfl

theorem lastMax_spec (log : List α) :
    (lastMax stamp log = none ∧ log = []) ∨
      ∃ a, lastMax stamp log = some a ∧ a ∈ log ∧ ∀ b ∈ log, stamp b ≤ stamp a := by
  induction log using List.reverseRecOn with
  | nil => exact .inl ⟨rfl, rfl⟩
  | append_singleton log a ih =>
    right
    rw [lastMax_concat]
    rcases ih with ⟨hn, rfl⟩ | ⟨b, hb, hmem, hmax⟩
    · exact ⟨a, by simp [hn, keepLast], by simp, by simp⟩
    · rw [hb]
      by_cases hle : stamp b ≤ stamp a
      · refine ⟨a, by simp [keepLast, hle], by simp, fun c hc => ?_⟩
        rcases List.mem_append.mp hc with hc | hc
        · exact le_trans (hmax c hc) hle
        · rw [List.mem_singleton.mp hc]
      · refine ⟨b, by simp [keepLast, hle], List.mem_append_left _ hmem, fun c hc => ?_⟩
        rcases List.mem_append.mp hc with hc | hc
        · exact hmax c hc
        · rw [List.mem_singleton.mp hc]; exact le_of_lt (lt_of_not_ge hle)

theorem mem_of_lastMax {log : List α} {a : α} (h : lastMax stamp log = some a) : a ∈ log := by
  rcases lastMax_spec stamp log with ⟨hn, _⟩ | ⟨b, hb, hmem, _⟩
  · rw [hn] at h; cases h
  · rw [hb] at h; cases h; exact hmem

theorem le_of_lastMax {log : List α} {a b : α} (h : lastMax stamp log = some a) (hb : b ∈ log) :
    stamp b ≤ stamp a := by
  rcases lastMax_spec stamp log with ⟨hn, _⟩ | ⟨c, hc, _, hmax⟩
  · rw [hn] at h; cases h
  · rw [hc] at h; cases h; exact hmax b hb

theorem lastMax_concat_of_le {log : List α} {a : α} (h : ∀ b ∈ log, stamp b ≤ stamp a) :
    lastMax stamp (log ++ [a]) = some a := by
  rw [lastMax_concat]
  rcases lastMax_spec stamp log with ⟨hn, _⟩ | ⟨b, hb, hmem, _⟩
  · simp [hn, keepLast]
  · simp [hb, keepLast, h b hmem]

theorem lastMax_eq_getLast? {log : List α} (h : log.Pairwise (fun a b => stamp a ≤ stamp b)) :
    lastMax stamp log = log.getLast? := by
  induction log using List.reverseRecOn with
  | nil => rfl
  | append_singleton log a ih =>
    rw [List.getLast?_concat]
    exact lastMax_concat_of_le stamp fun b hb =>
      (List.pairwise_append.mp h).2.2 b hb a (List.mem_singleton_self a)

section Append

variable {log news : List α}

end Append

section Tops

variable {log news : List α} {p : α → Prop}

/-- Every entry of greatest stamp has the property. -/
def Tops (p : α → Prop) (log : List α) : Prop :=
  ∀ a ∈ log, (∀ b ∈ log, stamp b ≤ stamp a) → p a

theorem tops_append (h : Tops stamp p log) (hnews : ∀ a ∈ news, p a) :
    Tops stamp p (log ++ news) := by
  intro a ha hmax
  rcases List.mem_append.mp ha with ha | ha
  · exact h a ha fun b hb => hmax b (List.mem_append_left _ hb)
  · exact hnews a ha

/-- Entries that follow all older ones decide alone. -/
theorem tops_append_of_lt (hnews : ∀ a ∈ news, p a)
    (hlt : ∀ a ∈ log, ∃ b ∈ news, stamp a < stamp b) : Tops stamp p (log ++ news) := by
  intro a ha hmax
  rcases List.mem_append.mp ha with ha | ha
  · obtain ⟨b, hb, hab⟩ := hlt a ha
    exact absurd (hmax b (List.mem_append_right _ hb)) (not_le_of_gt hab)
  · exact hnews a ha

theorem tops_append_of_stale (h : Tops stamp p log)
    (hstale : ∀ a ∈ news, ∃ b ∈ log, stamp a < stamp b) : Tops stamp p (log ++ news) := by
  intro a ha hmax
  rcases List.mem_append.mp ha with ha | ha
  · exact h a ha fun b hb => hmax b (List.mem_append_left _ hb)
  · obtain ⟨b, hb, hab⟩ := hstale a ha
    exact absurd (hmax b (List.mem_append_left _ hb)) (not_le_of_gt hab)

theorem Tops.firstMax {a : α} (h : Tops stamp p log) (ha : firstMax stamp log = some a) :
    p a := by
  rcases firstMax_spec stamp log with ⟨hnone, _⟩ | ⟨b, hb, hmem, hmax⟩
  · rw [hnone] at ha
    cases ha
  · rw [hb] at ha
    exact Option.some.inj ha ▸ h b hmem hmax

theorem Tops.lastMax {a : α} (h : Tops stamp p log) (ha : lastMax stamp log = some a) : p a := by
  rcases lastMax_spec stamp log with ⟨hnone, _⟩ | ⟨b, hb, hmem, hmax⟩
  · rw [hnone] at ha
    cases ha
  · rw [hb] at ha
    exact Option.some.inj ha ▸ h b hmem hmax

theorem Tops.perm {log' : List α} (h : Tops stamp p log) (hperm : log.Perm log') :
    Tops stamp p log' := fun a ha hmax =>
  h a (hperm.mem_iff.mpr ha) fun b hb => hmax b (hperm.mem_iff.mp hb)

end Tops

section Ties

def tied (t : τ) (log : List α) : List α := log.filter (fun a => decide (stamp a = t))

theorem firstMax_eq_head? {log : List α} {a : α} (ha : a ∈ log)
    (h : ∀ b ∈ log, stamp b ≤ stamp a) :
    firstMax stamp log = (tied stamp (stamp a) log).head? := by
  induction log using List.reverseRecOn generalizing a with
  | nil => cases ha
  | append_singleton log c ih =>
    rw [firstMax_concat, tied, List.filter_append]
    rcases firstMax_spec stamp log with ⟨hn, rfl⟩ | ⟨b, hb, hmem, hmax⟩
    · have hac : a = c := by simpa using ha
      subst hac
      simp [hn, keepFirst]
    · rw [hb]
      have hbc : stamp b ≤ stamp a := h b (List.mem_append_left _ hmem)
      have hca : stamp c ≤ stamp a := h c (by simp)
      by_cases hlt : stamp b < stamp c
      · have hcc : stamp c = stamp a := by
          rcases List.mem_append.mp ha with ha | ha
          · exact le_antisymm hca (le_trans (hmax a ha) (le_of_lt hlt))
          · rw [List.mem_singleton.mp ha]
        have hnil : log.filter (fun x => decide (stamp x = stamp a)) = [] := by
          rw [List.filter_eq_nil_iff]
          intro x hx hxa
          have := hmax x hx
          rw [of_decide_eq_true hxa, ← hcc] at this
          exact absurd hlt (not_lt_of_ge this)
        rw [hnil, keepFirst, if_pos hlt]
        simp [hcc]
      · have hab : stamp b = stamp a := by
          rcases List.mem_append.mp ha with ha | ha
          · exact le_antisymm hbc (hmax a ha)
          · rw [List.mem_singleton.mp ha] at hbc ⊢
            exact le_antisymm hbc (le_of_not_gt hlt)
        have htied := ih hmem hmax
        rw [hb, tied, hab] at htied
        simp [keepFirst, hlt, List.head?_append, ← htied]

theorem firstMax_cons_of_le {log : List α} {a : α} (h : ∀ b ∈ log, stamp b ≤ stamp a) :
    firstMax stamp (a :: log) = some a := by
  rw [firstMax_eq_head? stamp List.mem_cons_self (List.forall_mem_cons.mpr ⟨le_rfl, h⟩), tied,
    List.filter_cons, decide_eq_true rfl, if_pos rfl, List.head?_cons]

theorem lastMax_eq_getLast?_tied {log : List α} {a : α} (ha : a ∈ log)
    (h : ∀ b ∈ log, stamp b ≤ stamp a) :
    lastMax stamp log = (tied stamp (stamp a) log).getLast? := by
  induction log using List.reverseRecOn generalizing a with
  | nil => cases ha
  | append_singleton log c ih =>
    rw [lastMax_concat, tied, List.filter_append]
    rcases lastMax_spec stamp log with ⟨hn, rfl⟩ | ⟨b, hb, hmem, hmax⟩
    · have hac : a = c := by simpa using ha
      subst hac
      simp [hn, keepLast]
    · rw [hb]
      have hbc : stamp b ≤ stamp a := h b (List.mem_append_left _ hmem)
      have hca : stamp c ≤ stamp a := h c (by simp)
      by_cases hle : stamp b ≤ stamp c
      · have hcc : stamp c = stamp a := by
          rcases List.mem_append.mp ha with ha | ha
          · exact le_antisymm hca (le_trans (hmax a ha) hle)
          · rw [List.mem_singleton.mp ha]
        rw [keepLast, if_pos hle]
        simp [hcc]
      · have hab : stamp b = stamp a := by
          rcases List.mem_append.mp ha with ha | ha
          · exact le_antisymm hbc (hmax a ha)
          · rw [List.mem_singleton.mp ha] at hbc ⊢
            exact absurd hbc hle
        have hne : ¬ stamp c = stamp a := fun hc => hle (by rw [hab, hc])
        have htied := ih hmem hmax
        rw [hb, tied, hab] at htied
        simp [keepLast, hle, hne, ← htied]

theorem lastMax_eq_firstMax_reverse (log : List α) :
    lastMax stamp log = firstMax stamp log.reverse := by
  rcases lastMax_spec stamp log with ⟨_, rfl⟩ | ⟨a, _, hmem, hmax⟩
  · rfl
  · rw [lastMax_eq_getLast?_tied stamp hmem hmax,
      firstMax_eq_head? stamp (List.mem_reverse.mpr hmem)
        fun b hb => hmax b (List.mem_reverse.mp hb),
      tied, tied, List.filter_reverse, List.head?_reverse]

theorem tied_inOrder (t : τ) (log : List α) :
    tied stamp t (inOrder stamp log) = tied stamp t log := by
  rw [tied, filter_inOrder]
  refine inOrder_eq_self stamp (List.pairwise_of_forall_mem_list fun a ha b hb => ?_)
  have hat := List.of_mem_filter ha
  have hbt := List.of_mem_filter hb
  rw [of_decide_eq_true hat, of_decide_eq_true hbt]

/-- Reading a log in stamp order selects the same first entry of greatest stamp. -/
theorem firstMax_inOrder (log : List α) :
    firstMax stamp (inOrder stamp log) = firstMax stamp log := by
  rcases firstMax_spec stamp log with ⟨_, rfl⟩ | ⟨a, ha, hmem, hmax⟩
  · rfl
  · have hmem' : a ∈ inOrder stamp log := (mem_inOrder stamp).mpr hmem
    have hmax' : ∀ b ∈ inOrder stamp log, stamp b ≤ stamp a :=
      fun b hb => hmax b ((mem_inOrder stamp).mp hb)
    rw [firstMax_eq_head? stamp hmem' hmax', firstMax_eq_head? stamp hmem hmax, tied_inOrder]

/-- Reading a log in an order that its stamps refine selects the same last entry
    of greatest stamp. -/
theorem lastMax_inOrder {υ : Type*} [LinearOrder υ] (coarse : α → υ)
    (href : ∀ a b, stamp a = stamp b → coarse a = coarse b) (log : List α) :
    lastMax stamp (inOrder coarse log) = lastMax stamp log := by
  rcases lastMax_spec stamp log with ⟨_, rfl⟩ | ⟨a, ha, hmem, hmax⟩
  · rfl
  · have hmem' : a ∈ inOrder coarse log := (mem_inOrder coarse).mpr hmem
    have hmax' : ∀ b ∈ inOrder coarse log, stamp b ≤ stamp a :=
      fun b hb => hmax b ((mem_inOrder coarse).mp hb)
    have htied : tied stamp (stamp a) (inOrder coarse log) = tied stamp (stamp a) log := by
      rw [tied, filter_inOrder]
      refine inOrder_eq_self coarse (List.pairwise_of_forall_mem_list fun b hb c hc => ?_)
      have hbt := List.of_mem_filter hb
      have hct := List.of_mem_filter hc
      rw [href b c (by rw [of_decide_eq_true hbt, of_decide_eq_true hct])]
    rw [lastMax_eq_getLast?_tied stamp hmem' hmax', lastMax_eq_getLast?_tied stamp hmem hmax,
      htied]

theorem getLast?_inOrder (log : List α) : (inOrder stamp log).getLast? = lastMax stamp log := by
  rw [← lastMax_eq_getLast? stamp (inOrder_pairwise stamp log),
    lastMax_inOrder stamp stamp fun _ _ h => h]

end Ties

section Append

end Append

section Keyed

variable [DecidableEq κ] (key : α → κ)

/-- One pass that keeps, for each key, the first entry of greatest stamp. -/
def latestBy (log : List α) : κ → Option α :=
  log.foldl
    (fun held a => fun k => if k = key a then keepFirst stamp (held k) a else held k)
    (fun _ => none)

theorem latestBy_eq (log : List α) (k : κ) :
    latestBy stamp key log k = firstMax stamp (log.filter (fun a => decide (key a = k))) := by
  induction log using List.reverseRecOn with
  | nil => rfl
  | append_singleton log a ih =>
    have hstep : latestBy stamp key (log ++ [a]) k =
        if k = key a then keepFirst stamp (latestBy stamp key log k) a
        else latestBy stamp key log k := by
      simp [latestBy, List.foldl_append]
    rw [hstep, ih, List.filter_append]
    by_cases hk : k = key a
    · rw [if_pos hk]
      simp [hk, firstMax_concat]
    · have hk' : ¬ key a = k := fun h => hk h.symm
      rw [if_neg hk]
      simp [hk']

end Keyed

end StampedLog
