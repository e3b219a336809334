import Mempill.Lib.StampedLog

set_option autoImplicit false

/-!
# Pages

The first page of a stamped log, what becomes of it when a filter comes after the
limit and the order is reversed, and the walk that asks for page after page from the
largest stamp it has seen.
-/
namespace Pages
open StampedLog

variable {α τ : Type*} [LinearOrder τ] {stamp : α → τ}

/-- The first `n` entries of a listing in stamp order. -/
def FirstPage (stamp : α → τ) (n : ℕ) (entries page : List α) : Prop :=
  ∃ listing : List α, listing.Perm entries ∧
    listing.Pairwise (fun a b => stamp a ≤ stamp b) ∧ page = listing.take n

theorem FirstPage.perm {n : ℕ} {entries entries' page : List α}
    (h : FirstPage stamp n entries page) (hperm : entries.Perm entries') :
    FirstPage stamp n entries' page := by
  obtain ⟨listing, hlisting, hsorted, hpage⟩ := h
  exact ⟨listing, hlisting.trans hperm, hsorted, hpage⟩

theorem FirstPage.sorted {n : ℕ} {entries page : List α} (h : FirstPage stamp n entries page) :
    page.Pairwise fun a b => stamp a ≤ stamp b := by
  obtain ⟨listing, _, hsorted, rfl⟩ := h
  exact hsorted.sublist (List.take_sublist n listing)

theorem FirstPage.length {n : ℕ} {entries page : List α} (h : FirstPage stamp n entries page) :
    page.length = min n entries.length := by
  obtain ⟨listing, hperm, _, rfl⟩ := h
  rw [List.length_take, hperm.length_eq]

section Reversed

variable {log : List α} {p : α → Bool} {n : ℕ}

/-- Only entries of one stamp are in order both ways. -/
theorem stamps_eq_of_reverse {page : List α}
    (h : page.Pairwise fun a b => stamp a ≤ stamp b)
    (hrev : page.reverse.Pairwise fun a b => stamp a ≤ stamp b) :
    ∀ a ∈ page, ∀ b ∈ page, stamp a = stamp b := by
  cases page with
  | nil => exact fun _ ha => absurd ha List.not_mem_nil
  | cons x page =>
    have hhead := (List.pairwise_cons.mp h).1
    rw [List.pairwise_reverse, List.pairwise_cons] at hrev
    have hx : ∀ b ∈ page, stamp b = stamp x :=
      fun b hb => le_antisymm (hrev.1 b hb) (hhead b hb)
    intro a ha b hb
    have hall : ∀ c ∈ x :: page, stamp c = stamp x := by
      intro c hc
      rcases List.mem_cons.mp hc with rfl | hc
      · rfl
      · exact hx c hc
    rw [hall a ha, hall b hb]

/-- The limit before the filter costs no entry if and only if the filter takes all of
    the page, or nothing beyond it. -/
theorem length_filter_take_iff :
    ((log.take n).filter p).length = min n (log.filter p).length ↔
      (∀ a ∈ log.take n, p a = true) ∨ ∀ a ∈ log.drop n, p a = false := by
  have hsplit : (log.filter p).length =
      ((log.take n).filter p).length + ((log.drop n).filter p).length := by
    rw [← List.length_append, ← List.filter_append, List.take_append_drop]
  have htake : ((log.take n).filter p).length ≤ (log.take n).length := List.length_filter_le _ _
  have hlimit : (log.take n).length = min n log.length := List.length_take
  have hdrop : (log.drop n).length = log.length - n := List.length_drop
  have hrest : ((log.drop n).filter p).length ≤ (log.drop n).length := List.length_filter_le _ _
  rw [← List.length_filter_eq_length_iff]
  have hnone : (∀ a ∈ log.drop n, p a = false) ↔ ((log.drop n).filter p).length = 0 := by
    rw [List.length_eq_zero_iff, List.filter_eq_nil_iff]
    exact forall_congr' fun a => forall_congr' fun _ => by rw [Bool.not_eq_true]
  rw [hnone]
  omega

theorem take_append_of_length {page rest : List α}
    (h : page.length = min n (page.length + rest.length)) : (page ++ rest).take n = page := by
  rcases Nat.lt_or_ge page.length n with hlt | hge
  · have hnil : rest = [] := List.length_eq_zero_iff.mp (by omega)
    rw [hnil, List.append_nil, List.take_of_length_le (by omega)]
  · have hfull : n = page.length := by omega
    rw [hfull, List.take_left]

/-- A sorted log cut at the limit, filtered and reversed is a first page of the filtered
    log exactly if its entries bear one stamp and the cut costs none. -/
theorem firstPage_reverse_iff (h : log.Pairwise fun a b => stamp a ≤ stamp b) :
    FirstPage stamp n (log.filter p) ((log.take n).filter p).reverse ↔
      (∀ a ∈ (log.take n).filter p, ∀ b ∈ (log.take n).filter p, stamp a = stamp b) ∧
        ((∀ a ∈ log.take n, p a = true) ∨ ∀ a ∈ log.drop n, p a = false) := by
  have hcut : ((log.take n).filter p).Pairwise fun a b => stamp a ≤ stamp b :=
    h.sublist (List.filter_sublist.trans (List.take_sublist n log))
  constructor
  · intro hpage
    refine ⟨stamps_eq_of_reverse hcut hpage.sorted, length_filter_take_iff.mp ?_⟩
    rw [← hpage.length, List.length_reverse]
  · rintro ⟨hstamps, hcost⟩
    have hlength := length_filter_take_iff.mpr hcost
    have hsplit : log.filter p = (log.take n).filter p ++ (log.drop n).filter p := by
      rw [← List.filter_append, List.take_append_drop]
    refine ⟨((log.take n).filter p).reverse ++ (log.drop n).filter p, ?_, ?_, ?_⟩
    · rw [hsplit]
      exact (List.reverse_perm _).append_right _
    · refine List.pairwise_append.mpr ⟨?_, ?_, fun a ha b hb => ?_⟩
      · refine List.pairwise_of_forall_mem_list fun a ha b hb => ?_
        rw [hstamps a (List.mem_reverse.mp ha) b (List.mem_reverse.mp hb)]
      · exact h.sublist (List.filter_sublist.trans (List.drop_sublist n log))
      · have hcross := (List.pairwise_append.mp ((List.take_append_drop n log).symm ▸ h)).2.2
        exact hcross a (List.mem_of_mem_filter (List.mem_reverse.mp ha)) b
          (List.mem_of_mem_filter hb)
    · rw [hsplit, List.length_append, ← List.length_reverse] at hlength
      exact (take_append_of_length hlength).symm

end Reversed

section Walk

variable {entries page : List α} {n : ℕ}

/-- `n` of the entries, or all, that none of the others precedes. -/
def Earliest (stamp : α → τ) (n : ℕ) (entries page : List α) : Prop :=
  ∃ rest, (page ++ rest).Perm entries ∧ page.length = min n entries.length ∧
    ∀ a ∈ page, ∀ b ∈ rest, stamp a ≤ stamp b

theorem FirstPage.earliest (h : FirstPage stamp n entries page) :
    Earliest stamp n entries page := by
  have hlength := h.length
  obtain ⟨listing, hperm, hsorted, rfl⟩ := h
  refine ⟨listing.drop n, ?_, hlength, ?_⟩
  · rwa [List.take_append_drop]
  · rw [← List.take_append_drop n listing] at hsorted
    exact (List.pairwise_append.mp hsorted).2.2

theorem Earliest.perm {page' : List α} (h : Earliest stamp n entries page)
    (hperm : page'.Perm page) : Earliest stamp n entries page' := by
  obtain ⟨rest, hentries, hlength, hle⟩ := h
  exact ⟨rest, (hperm.append_right rest).trans hentries, hperm.length_eq.trans hlength,
    fun a ha => hle a (hperm.mem_iff.mp ha)⟩

def entriesFrom (stamp : α → τ) (entries : List α) (cursor : Option τ) : List α :=
  entries.filter fun a => cursor.all fun t => decide (t ≤ stamp a)

/-- The largest stamp seen so far. -/
def advance (stamp : α → τ) (cursor : Option τ) (page : List α) : Option τ :=
  lastMax id (cursor.toList ++ page.map stamp)

/-- Asks for pages until one is short. -/
def walk (stamp : α → τ) (n : ℕ) (fetch : Option τ → List α) :
    ℕ → Option τ → Option (List (List α))
  | 0, _ => none
  | fuel + 1, cursor =>
    let page := fetch cursor
    if page.length < n then some [page]
    else (walk stamp n fetch fuel (advance stamp cursor page)).map (page :: ·)

/-- The walk ends, and for each entry some page holds every copy of it. -/
def WalkCovers [DecidableEq α] (stamp : α → τ) (n : ℕ) (fetch : Option τ → List α)
    (entries : List α) (cursor : Option τ) : Prop :=
  ∃ fuel pages, walk stamp n fetch fuel cursor = some pages ∧
    ∀ a ∈ entries, ∃ page ∈ pages, page.count a = entries.count a

theorem mem_entriesFrom {cursor : Option τ} {a : α} :
    a ∈ entriesFrom stamp entries cursor ↔ a ∈ entries ∧ ∀ t ∈ cursor, t ≤ stamp a := by
  rw [entriesFrom, List.mem_filter]
  cases cursor <;> simp

/-- The page holds every copy of an entry that comes before one of its own. -/
theorem Earliest.count_of_lt [DecidableEq α] {a b : α} (h : Earliest stamp n entries page)
    (hb : b ∈ page) (hlt : stamp a < stamp b) : page.count a = entries.count a := by
  obtain ⟨rest, hperm, _, hle⟩ := h
  have hnone : a ∉ rest := fun ha => absurd (hle b hb a ha) (not_le_of_gt hlt)
  rw [← hperm.count_eq, List.count_append, List.count_eq_zero_of_not_mem hnone, Nat.add_zero]

/-- A short page holds all. -/
theorem Earliest.perm_of_short (h : Earliest stamp n entries page) (hshort : page.length < n) :
    page.Perm entries := by
  obtain ⟨rest, hperm, hlength, _⟩ := h
  have hsum := hperm.length_eq
  rw [List.length_append] at hsum
  have hnil : rest = [] := List.length_eq_zero_iff.mp (by omega)
  rwa [hnil, List.append_nil] at hperm

theorem count_entriesFrom [DecidableEq α] {cursor : Option τ} {a : α}
    (h : a ∈ entriesFrom stamp entries cursor) :
    (entriesFrom stamp entries cursor).count a = entries.count a :=
  List.count_filter (List.mem_filter.mp h).2

/-- From a page with an entry in it, the cursor moves to the stamp of one of the
    entries, which none exceeds. -/
theorem advance_of_mem {cursor : Option τ} {a : α} (ha : a ∈ page)
    (hfrom : ∀ b ∈ page, ∀ t ∈ cursor, t ≤ stamp b) :
    ∃ b ∈ page, advance stamp cursor page = some (stamp b) ∧ ∀ c ∈ page, stamp c ≤ stamp b := by
  rcases lastMax_spec id (cursor.toList ++ page.map stamp) with ⟨_, hnil⟩ | ⟨t, ht, hmem, hmax⟩
  · have hpage : page.map stamp = [] := (List.append_eq_nil_iff.mp hnil).2
    rw [List.map_eq_nil_iff.mp hpage] at ha
    exact absurd ha List.not_mem_nil
  · have hle : ∀ c ∈ page, stamp c ≤ t :=
      fun c hc => hmax _ (List.mem_append_right _ (List.mem_map_of_mem hc))
    rcases List.mem_append.mp hmem with hcursor | hpage
    · have heq : stamp a = t :=
        le_antisymm (hle a ha) (hfrom a ha t (Option.mem_toList.mp hcursor))
      exact ⟨a, ha, by rw [heq]; exact ht, fun c hc => heq ▸ hle c hc⟩
    · obtain ⟨b, hb, rfl⟩ := List.mem_map.mp hpage
      exact ⟨b, hb, ht, hle⟩

theorem le_of_advance {cursor : Option τ} {t u : τ}
    (hadvance : advance stamp cursor page = some t) (hpage : ∀ a ∈ page, stamp a ≤ u)
    (hcursor : ∀ s ∈ cursor, s ≤ u) : t ≤ u := by
  rcases List.mem_append.mp (mem_of_lastMax id hadvance) with ht | ht
  · exact hcursor t (Option.mem_toList.mp ht)
  · obtain ⟨a, ha, rfl⟩ := List.mem_map.mp ht
    exact hpage a ha

variable {fetch : Option τ → List α}

section Stall

/-- Where as many entries bear one stamp as fit on a page, none of the page from
    before it bears a later one. -/
theorem Earliest.le_of_tied {t : τ} {b : α} (h : Earliest stamp n entries page)
    (htied : n ≤ (tied stamp t entries).length) (hb : b ∈ page) : stamp b ≤ t := by
  by_contra hlater
  obtain ⟨rest, hperm, hlength, hle⟩ := h
  have hrest : tied stamp t rest = [] := by
    refine List.filter_eq_nil_iff.mpr fun a ha => ?_
    have hlate := lt_of_lt_of_le (lt_of_not_ge hlater) (hle b hb a ha)
    simpa using hlate.ne'
  have hsplit : (tied stamp t entries).length = (tied stamp t page).length := by
    have htie := (hperm.filter fun a => decide (stamp a = t)).length_eq
    rw [List.filter_append, List.length_append] at htie
    change (tied stamp t page).length + (tied stamp t rest).length = _ at htie
    rw [hrest, List.length_nil, Nat.add_zero] at htie
    exact htie.symm
  have hall : (tied stamp t page).length = page.length := by
    have := List.length_filter_le (fun a => decide (stamp a = t)) page
    simp only [tied] at htied hsplit this ⊢
    omega
  have hevery := List.length_filter_eq_length_iff.mp hall b hb
  exact hlater (of_decide_eq_true hevery).le

/-- The walk never ends from before a stamp that fills a page. -/
theorem walk_eq_none (hfetch : ∀ cursor, Earliest stamp n (entriesFrom stamp entries cursor)
      (fetch cursor)) {t : τ} (htied : n ≤ (tied stamp t entries).length) (fuel : ℕ)
    {cursor : Option τ} (hcursor : ∀ s ∈ cursor, s ≤ t) :
    walk stamp n fetch fuel cursor = none := by
  induction fuel generalizing cursor with
  | zero => rfl
  | succ fuel ih =>
    have hfrom : tied stamp t (entriesFrom stamp entries cursor) = tied stamp t entries := by
      rw [tied, entriesFrom, List.filter_filter]
      refine List.filter_congr fun a _ => ?_
      rw [Bool.eq_iff_iff, Bool.and_eq_true, and_iff_left_iff_imp]
      intro ha
      cases cursor with
      | none => rfl
      | some s => simpa [of_decide_eq_true ha] using hcursor s rfl
    have hpage := hfetch cursor
    have htied' := hfrom ▸ htied
    have hlong : ¬ (fetch cursor).length < n := by
      obtain ⟨rest, _, hlength, _⟩ := hpage
      have := List.length_filter_le (fun a => decide (stamp a = t))
        (entriesFrom stamp entries cursor)
      simp only [tied] at htied'
      omega
    have hnext : ∀ s ∈ advance stamp cursor (fetch cursor), s ≤ t := fun s hs =>
      le_of_advance hs (fun a ha => hpage.le_of_tied htied' ha) hcursor
    rw [walk, if_neg hlong, ih hnext]
    rfl

end Stall

section Progress

theorem length_entriesFrom_lt {cursor : Option τ} {a b : α}
    (hb : ∀ t ∈ cursor, t ≤ stamp b) (ha : a ∈ entriesFrom stamp entries cursor)
    (hlt : stamp a < stamp b) :
    (entriesFrom stamp entries (some (stamp b))).length <
      (entriesFrom stamp entries cursor).length := by
  have hsub : entriesFrom stamp entries (some (stamp b)) =
      (entriesFrom stamp entries cursor).filter fun c => decide (stamp b ≤ stamp c) := by
    rw [entriesFrom, entriesFrom, List.filter_filter]
    refine List.filter_congr fun c _ => ?_
    rw [Option.all_some, Bool.eq_iff_iff, Bool.and_eq_true, decide_eq_true_eq]
    refine ⟨fun hc => ⟨hc, ?_⟩, fun hc => hc.1⟩
    cases cursor with
    | none => rfl
    | some t => simpa using (hb t rfl).trans hc
  rw [hsub]
  refine lt_of_le_of_ne (List.length_filter_le _ _) fun heq => ?_
  have hall := List.length_filter_eq_length_iff.mp heq a ha
  exact absurd (of_decide_eq_true hall) (not_le_of_gt hlt)

/-- A full page that no stamp fills has an entry before its last. -/
theorem Earliest.exists_lt {b : α} (hlong : n ≤ page.length)
    (huntied : (tied stamp (stamp b) entries).length < n) (hmax : ∀ a ∈ page, stamp a ≤ stamp b)
    (h : Earliest stamp n entries page) : ∃ a ∈ page, stamp a < stamp b := by
  by_contra hnone
  obtain ⟨rest, hperm, _, _⟩ := h
  have hall : page.filter (fun a => decide (stamp a = stamp b)) = page := by
    refine List.filter_eq_self.mpr fun a ha => decide_eq_true ?_
    exact (hmax a ha).eq_or_lt.resolve_right fun hlt => hnone ⟨a, ha, hlt⟩
  have htie := (hperm.filter fun a => decide (stamp a = stamp b)).length_eq
  rw [List.filter_append, List.length_append, hall] at htie
  simp only [tied] at huntied
  omega

/-- Where no stamp fills a page, each page but the last moves the cursor past an entry
    it holds. -/
theorem walkCovers_of_untied [DecidableEq α] (hn : 0 < n)
    (hfetch : ∀ cursor, Earliest stamp n (entriesFrom stamp entries cursor) (fetch cursor))
    (huntied : ∀ t, (tied stamp t entries).length < n) (cursor : Option τ) :
    WalkCovers stamp n fetch (entriesFrom stamp entries cursor) cursor := by
  induction hsize : (entriesFrom stamp entries cursor).length using Nat.strong_induction_on
    generalizing cursor with
  | _ size ih =>
    have hpage := hfetch cursor
    by_cases hshort : (fetch cursor).length < n
    · refine ⟨1, [fetch cursor], by rw [walk, if_pos hshort], fun a _ => ?_⟩
      exact ⟨_, List.mem_singleton_self _, (hpage.perm_of_short hshort).count_eq a⟩
    · have hlong := Nat.le_of_not_lt hshort
      have hmem : ∀ a ∈ fetch cursor, a ∈ entriesFrom stamp entries cursor := by
        obtain ⟨rest, hperm, _, _⟩ := hpage
        exact fun a ha => hperm.mem_iff.mp (List.mem_append_left rest ha)
      have hfrom : ∀ a ∈ fetch cursor, ∀ t ∈ cursor, t ≤ stamp a :=
        fun a ha => (mem_entriesFrom.mp (hmem a ha)).2
      obtain ⟨first, hfirst⟩ := List.exists_mem_of_length_pos (hn.trans_le hlong)
      obtain ⟨b, hb, hadvance, hmax⟩ := advance_of_mem hfirst hfrom
      have htied : (tied stamp (stamp b) (entriesFrom stamp entries cursor)).length < n :=
        (List.Sublist.length_le (List.filter_sublist.filter _)).trans_lt (huntied (stamp b))
      obtain ⟨a, ha, hlt⟩ := hpage.exists_lt hlong htied hmax
      have hless := length_entriesFrom_lt (hfrom b hb) (hmem a ha) hlt
      obtain ⟨fuel, pages, hwalk, hcovers⟩ := ih _ (hsize ▸ hless) (some (stamp b)) rfl
      refine ⟨fuel + 1, fetch cursor :: pages, ?_, fun c hc => ?_⟩
      · rw [walk, if_neg hshort, hadvance, hwalk]
        rfl
      · rcases lt_or_ge (stamp c) (stamp b) with hbefore | hafter
        · exact ⟨_, List.mem_cons_self, hpage.count_of_lt hb hbefore⟩
        · have hrest : c ∈ entriesFrom stamp entries (some (stamp b)) :=
            mem_entriesFrom.mpr ⟨(mem_entriesFrom.mp hc).1, fun t ht => by
              rw [← Option.some.inj ht]; exact hafter⟩
          obtain ⟨page, hpage, hcount⟩ := hcovers c hrest
          refine ⟨page, List.mem_cons_of_mem _ hpage, ?_⟩
          rw [hcount, count_entriesFrom hrest, count_entriesFrom hc]

end Progress

/-- The walk covers the log exactly if no stamp is borne by as many entries as fit on a
    page. -/
theorem walkCovers_iff [DecidableEq α] [Nonempty τ]
    (hfetch : ∀ cursor, Earliest stamp n (entriesFrom stamp entries cursor) (fetch cursor)) :
    WalkCovers stamp n fetch entries none ↔ ∀ t, (tied stamp t entries).length < n := by
  have hall : entriesFrom stamp entries none = entries := List.filter_eq_self.mpr fun _ _ => rfl
  constructor
  · rintro ⟨fuel, pages, hwalk, _⟩ t
    by_contra htied
    rw [walk_eq_none hfetch (Nat.le_of_not_lt htied) fuel
      (fun s hs => absurd hs (Option.not_mem_none s))] at hwalk
    cases hwalk
  · intro huntied
    have hn : 0 < n := (Nat.zero_le _).trans_lt (huntied (Classical.arbitrary τ))
    exact hall ▸ walkCovers_of_untied hn hfetch huntied none

end Walk

end Pages
