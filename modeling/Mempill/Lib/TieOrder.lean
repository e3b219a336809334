import Mempill.Lib.StampedLog

set_option autoImplicit false

/-!
# Orders of ties

A read that sorts by stamp alone leaves the order of equal stamps open. An order of
ties is what a store happens to do there: it returns the records of a log in some
order, whatever else is read with them, and a new record leaves the others as they were.
-/
namespace StampedLog

structure TieOrder (α : Type*) where
  arrange : List α → List α
  perm : ∀ log, (arrange log).Perm log
  filter_arrange : ∀ (p : α → Bool) (log : List α),
    (arrange log).filter p = arrange (log.filter p)
  sublist : ∀ log news : List α, (arrange log).Sublist (arrange (log ++ news))

namespace TieOrder

variable {α τ : Type*} [LinearOrder τ] (stamp : α → τ)

/-- As a backward scan returns them. -/
def newestFirst : TieOrder α where
  arrange := List.reverse
  perm := List.reverse_perm
  filter_arrange p log := List.filter_reverse ..
  sublist log news := by
    rw [List.reverse_append]
    exact List.sublist_append_right _ _

def reverse (ties : TieOrder α) : TieOrder α where
  arrange log := (ties.arrange log).reverse
  perm log := (List.reverse_perm _).trans (ties.perm log)
  filter_arrange p log := by rw [List.filter_reverse, ties.filter_arrange]
  sublist log news := (ties.sublist log news).reverse

variable (ties : TieOrder α) {log news : List α} {a : α}

@[simp] theorem mem_arrange : a ∈ ties.arrange log ↔ a ∈ log := (ties.perm log).mem_iff

@[simp] theorem arrange_nil : ties.arrange [] = [] := List.perm_nil.mp (ties.perm [])

@[simp] theorem arrange_singleton (a : α) : ties.arrange [a] = [a] :=
  List.perm_singleton.mp (ties.perm [a])

/-- The first record of greatest stamp that a read returns. -/
def first (log : List α) : Option α := firstMax stamp (ties.arrange log)

/-- The last one. -/
def last (log : List α) : Option α := lastMax stamp (ties.arrange log)

theorem tied_arrange (t : τ) (log : List α) :
    tied stamp t (ties.arrange log) = ties.arrange (tied stamp t log) :=
  ties.filter_arrange _ log

theorem first_spec (log : List α) :
    (ties.first stamp log = none ∧ log = []) ∨
      ∃ a, ties.first stamp log = some a ∧ a ∈ log ∧ ∀ b ∈ log, stamp b ≤ stamp a := by
  rcases firstMax_spec stamp (ties.arrange log) with ⟨hn, hnil⟩ | ⟨a, ha, hmem, hmax⟩
  · exact .inl ⟨hn, List.perm_nil.mp (hnil ▸ (ties.perm log).symm)⟩
  · exact .inr ⟨a, ha, ties.mem_arrange.mp hmem, fun b hb => hmax b (ties.mem_arrange.mpr hb)⟩

theorem mem_of_first (h : ties.first stamp log = some a) : a ∈ log :=
  ties.mem_arrange.mp (mem_of_firstMax stamp h)

theorem first_nil : ties.first stamp [] = none := by rw [first, arrange_nil]; rfl

theorem first_singleton (a : α) : ties.first stamp [a] = some a := by
  rw [first, arrange_singleton]
  rfl

theorem le_of_first {b : α} (h : ties.first stamp log = some a) (hb : b ∈ log) :
    stamp b ≤ stamp a := by
  rcases ties.first_spec stamp log with ⟨_, rfl⟩ | ⟨c, hc, _, hmax⟩
  · cases hb
  · rw [hc] at h
    cases h
    exact hmax b hb

/-- The selection lies among the records of greatest stamp. -/
theorem first_eq_head? (ha : a ∈ log) (h : ∀ b ∈ log, stamp b ≤ stamp a) :
    ties.first stamp log = (ties.arrange (tied stamp (stamp a) log)).head? := by
  rw [first, firstMax_eq_head? stamp (ties.mem_arrange.mpr ha)
    fun b hb => h b (ties.mem_arrange.mp hb), tied_arrange]

theorem first_unique (ha : a ∈ log) (h : ∀ b ∈ log, b = a ∨ stamp b < stamp a) :
    ties.first stamp log = some a := by
  rcases ties.first_spec stamp log with ⟨_, rfl⟩ | ⟨b, hb, hmem, hmax⟩
  · cases ha
  · rcases h b hmem with rfl | hlt
    · exact hb
    · exact absurd (hmax a ha) (not_le_of_gt hlt)

theorem first_inOrder (log : List α) :
    firstMax stamp (inOrder stamp (ties.arrange log)) = ties.first stamp log :=
  firstMax_inOrder stamp _

theorem last_eq_first_reverse (log : List α) :
    ties.last stamp log = ties.reverse.first stamp log :=
  lastMax_eq_firstMax_reverse stamp _

section Last

theorem getLast?_inOrder (log : List α) :
    (inOrder stamp (ties.arrange log)).getLast? = ties.last stamp log :=
  StampedLog.getLast?_inOrder stamp _

theorem last_spec (log : List α) :
    (ties.last stamp log = none ∧ log = []) ∨
      ∃ a, ties.last stamp log = some a ∧ a ∈ log ∧ ∀ b ∈ log, stamp b ≤ stamp a := by
  rw [last_eq_first_reverse]
  exact ties.reverse.first_spec stamp log

theorem mem_of_last (h : ties.last stamp log = some a) : a ∈ log :=
  ties.mem_arrange.mp (mem_of_lastMax stamp h)

theorem le_of_last {b : α} (h : ties.last stamp log = some a) (hb : b ∈ log) :
    stamp b ≤ stamp a :=
  le_of_lastMax stamp h (ties.mem_arrange.mpr hb)

theorem last_unique (ha : a ∈ log) (h : ∀ b ∈ log, b = a ∨ stamp b < stamp a) :
    ties.last stamp log = some a := by
  rw [last_eq_first_reverse]
  exact ties.reverse.first_unique stamp ha h

theorem last_nil : ties.last stamp [] = none := by rw [last, arrange_nil]; rfl

theorem last_singleton (a : α) : ties.last stamp [a] = some a := by
  rw [last, arrange_singleton]
  rfl

end Last

section Append

theorem head?_sublist {s s' : List α} (h : s.Sublist s') (ha : s'.head? = some a) :
    s.head? = some a ∨ ∃ rest, s'.Perm (s ++ rest) ∧ a ∈ rest := by
  cases h with
  | slnil => exact .inl ha
  | cons b hs =>
    cases ha
    obtain ⟨rest, hrest⟩ := hs.exists_perm_append
    exact .inr ⟨a :: rest, (hrest.cons a).trans List.perm_middle.symm, List.mem_cons_self⟩
  | cons_cons => exact .inl ha

/-- What an append selects is what was selected or one of the new records. -/
theorem first_append_cases (h : ties.first stamp (log ++ news) = some a) :
    ties.first stamp log = some a ∨ a ∈ news := by
  have hmem := ties.mem_of_first stamp h
  have hmax := fun b (hb : b ∈ log ++ news) => ties.le_of_first stamp h hb
  rcases List.mem_append.mp hmem with hold | hnew
  · rw [ties.first_eq_head? stamp hmem hmax, tied, List.filter_append] at h
    rw [ties.first_eq_head? stamp hold fun b hb => hmax b (List.mem_append_left _ hb)]
    refine (head?_sublist (ties.sublist _ _) h).imp_right ?_
    rintro ⟨rest, hrest, ha⟩
    have hperm := (ties.perm _).symm.trans (hrest.trans ((ties.perm _).append_right rest))
    exact List.mem_of_mem_filter
      (((List.perm_append_left_iff _).mp hperm).mem_iff.mpr ha)
  · exact .inr hnew

/-- Records that follow all older ones are selected among themselves. -/
theorem first_append_of_lt (hne : news ≠ [])
    (h : ∀ a ∈ log, ∃ b ∈ news, stamp a < stamp b) :
    ties.first stamp (log ++ news) = ties.first stamp news := by
  rcases ties.first_spec stamp (log ++ news) with ⟨_, hnil⟩ | ⟨a, ha, hmem, hmax⟩
  · exact absurd (List.append_eq_nil_iff.mp hnil).2 hne
  · have hnew : a ∈ news := by
      refine (List.mem_append.mp hmem).resolve_left fun hold => ?_
      obtain ⟨b, hb, hlt⟩ := h a hold
      exact absurd (hmax b (List.mem_append_right _ hb)) (not_le_of_gt hlt)
    have hnil : tied stamp (stamp a) log = [] := by
      refine List.filter_eq_nil_iff.mpr fun b hb htie => ?_
      obtain ⟨c, hc, hlt⟩ := h b hb
      rw [of_decide_eq_true htie] at hlt
      exact absurd (hmax c (List.mem_append_right _ hc)) (not_le_of_gt hlt)
    have htied : tied stamp (stamp a) (log ++ news) = tied stamp (stamp a) news := by
      rw [tied, List.filter_append]
      exact (congrArg (· ++ _) hnil).trans (List.nil_append _)
    rw [ties.first_eq_head? stamp hmem hmax, htied,
      ties.first_eq_head? stamp hnew fun b hb => hmax b (List.mem_append_right _ hb)]

theorem first_concat_of_lt (h : ∀ b ∈ log, stamp b < stamp a) :
    ties.first stamp (log ++ [a]) = some a :=
  ties.first_unique stamp (by simp) fun b hb => by
    rcases List.mem_append.mp hb with hb | hb
    · exact .inr (h b hb)
    · exact .inl (List.mem_singleton.mp hb)

theorem last_append_cases (h : ties.last stamp (log ++ news) = some a) :
    ties.last stamp log = some a ∨ a ∈ news := by
  rw [last_eq_first_reverse] at h ⊢
  exact ties.reverse.first_append_cases stamp h

theorem last_append_of_lt (hne : news ≠ []) (h : ∀ a ∈ log, ∃ b ∈ news, stamp a < stamp b) :
    ties.last stamp (log ++ news) = ties.last stamp news := by
  rw [last_eq_first_reverse, last_eq_first_reverse]
  exact ties.reverse.first_append_of_lt stamp hne h

/-- Records that follow all older ones are read last. -/
theorem mem_of_last_append (hne : news ≠ []) (h : ∀ a ∈ log, ∀ b ∈ news, stamp a < stamp b)
    (ha : ties.last stamp (log ++ news) = some a) : a ∈ news := by
  obtain ⟨b, hb⟩ := List.exists_mem_of_ne_nil news hne
  rw [ties.last_append_of_lt stamp hne fun c hc => ⟨b, hb, h c hc b hb⟩] at ha
  exact ties.mem_of_last stamp ha

end Append

section Overtaking

/-- One of the new records is selected: it is later than the old ones, or ahead of those
    it ties with. -/
def Overtakes (log news : List α) : Prop :=
  ∃ a ∈ news, ties.first stamp (log ++ news) = some a

instance [DecidableEq α] : Decidable (ties.Overtakes stamp log news) :=
  inferInstanceAs (Decidable (∃ a ∈ news, _))

theorem first_append_of_not_overtakes (h : ¬ ties.Overtakes stamp log news) :
    ties.first stamp (log ++ news) = ties.first stamp log := by
  rcases ties.first_spec stamp (log ++ news) with ⟨_, hnil⟩ | ⟨a, ha, _, _⟩
  · rw [hnil, (List.append_eq_nil_iff.mp hnil).1]
  · rcases ties.first_append_cases stamp ha with hold | hnew
    · rw [ha, hold]
    · exact absurd ⟨a, hnew, ha⟩ h

theorem overtakes_append {more : List α} :
    ties.Overtakes stamp log (news ++ more) ↔
      ties.Overtakes stamp log news ∨ ties.Overtakes stamp (log ++ news) more := by
  constructor
  · rintro ⟨a, ha, hfirst⟩
    rw [← List.append_assoc] at hfirst
    by_cases hmore : ties.Overtakes stamp (log ++ news) more
    · exact .inr hmore
    · have hold := (ties.first_append_of_not_overtakes stamp hmore) ▸ hfirst
      rcases List.mem_append.mp ha with ha | ha
      · exact .inl ⟨a, ha, hold⟩
      · exact .inr ⟨a, ha, hfirst⟩
  · rintro (⟨a, ha, hfirst⟩ | ⟨a, ha, hfirst⟩)
    · by_cases hmore : ties.Overtakes stamp (log ++ news) more
      · obtain ⟨b, hb, hlater⟩ := hmore
        exact ⟨b, List.mem_append_right _ hb, by rw [← List.append_assoc, hlater]⟩
      · refine ⟨a, List.mem_append_left _ ha, ?_⟩
        rw [← List.append_assoc, ties.first_append_of_not_overtakes stamp hmore, hfirst]
    · exact ⟨a, List.mem_append_right _ ha, by rw [← List.append_assoc, hfirst]⟩

theorem overtakes_of_lt (hne : news ≠ []) (h : ∀ a ∈ log, ∃ b ∈ news, stamp a < stamp b) :
    ties.Overtakes stamp log news := by
  rcases ties.first_spec stamp news with ⟨_, hnil⟩ | ⟨a, ha, hmem, _⟩
  · exact absurd hnil hne
  · exact ⟨a, hmem, (ties.first_append_of_lt stamp hne h).trans ha⟩

variable {more : List α}

theorem not_overtakes_nil : ¬ ties.Overtakes stamp log [] := fun ⟨_, h, _⟩ => by cases h

theorem overtakes_cons : ties.Overtakes stamp log (a :: news) ↔
    ties.Overtakes stamp log [a] ∨ ties.Overtakes stamp (log ++ [a]) news :=
  @overtakes_append _ _ _ stamp ties log [a] news

variable [DecidableEq α]

/-- New records, up to the first one that is selected. -/
def untilTaken (log : List α) : List α → List α
  | [] => []
  | a :: news =>
    a :: if ties.Overtakes stamp log [a] then [] else untilTaken (log ++ [a]) news

theorem mem_of_untilTaken (h : a ∈ ties.untilTaken stamp log news) : a ∈ news := by
  induction news generalizing log with
  | nil => cases h
  | cons b news ih =>
    rcases List.mem_cons.mp h with rfl | h
    · exact List.mem_cons_self
    · split at h
      · cases h
      · exact List.mem_cons_of_mem _ (ih h)

theorem overtakes_untilTaken_iff :
    ties.Overtakes stamp log (ties.untilTaken stamp log news) ↔
      ties.Overtakes stamp log news := by
  induction news generalizing log with
  | nil => rfl
  | cons b news ih =>
    by_cases htaken : ties.Overtakes stamp log [b]
    · rw [untilTaken, if_pos htaken]
      exact iff_of_true htaken ((ties.overtakes_cons stamp).mpr (.inl htaken))
    · rw [untilTaken, if_neg htaken, overtakes_cons, ih, ← overtakes_cons]

theorem untilTaken_of_not_overtakes (h : ¬ ties.Overtakes stamp log news) :
    ties.untilTaken stamp log news = news := by
  induction news generalizing log with
  | nil => rfl
  | cons b news ih =>
    rw [overtakes_cons, not_or] at h
    rw [untilTaken, if_neg h.1, ih h.2]

theorem untilTaken_append :
    ties.untilTaken stamp log (news ++ more) =
      ties.untilTaken stamp log news ++
        if ties.Overtakes stamp log news then [] else ties.untilTaken stamp (log ++ news) more := by
  induction news generalizing log with
  | nil =>
    rw [if_neg (ties.not_overtakes_nil stamp), List.append_nil]
    rfl
  | cons b news ih =>
    rw [List.cons_append, untilTaken, untilTaken]
    by_cases htaken : ties.Overtakes stamp log [b]
    · rw [if_pos htaken, if_pos htaken, if_pos ((ties.overtakes_cons stamp).mpr (.inl htaken))]
      rfl
    · have hnews : ties.Overtakes stamp log (b :: news) ↔
          ties.Overtakes stamp (log ++ [b]) news := by
        rw [overtakes_cons, or_iff_right htaken]
      rw [if_neg htaken, if_neg htaken, ih, List.append_assoc, List.singleton_append,
        List.cons_append]
      simp only [hnews]

end Overtaking

section Tops

variable {p : α → Prop}

theorem tops_first (h : Tops stamp p log) (ha : ties.first stamp log = some a) : p a :=
  (h.perm stamp (ties.perm log).symm).firstMax stamp ha

theorem tops_last (h : Tops stamp p log) (ha : ties.last stamp log = some a) : p a :=
  (h.perm stamp (ties.perm log).symm).lastMax stamp ha

end Tops

end TieOrder

end StampedLog
