import Mempill.Lib.StampedLog

set_option autoImplicit false

/-!
# Row tables

A table that holds its records encoded: what a select decodes. One record that does
not decode back spoils every select that meets it.
-/
namespace RowTable
open StampedLog

section Decoding

variable {α β ε : Type*} (encode : α → β) (decode : β → Except ε α)

theorem decodeAll_eq_ok_iff (xs : List α) :
    (xs.map encode).mapM decode = .ok xs ↔ ∀ x ∈ xs, decode (encode x) = .ok x := by
  induction xs with
  | nil => simp [pure, Except.pure]
  | cons x xs ih =>
    rw [List.map_cons, List.mapM_cons, List.forall_mem_cons, ← ih]
    cases hx : decode (encode x) with
    | error e => simp [bind, Except.bind]
    | ok y =>
      cases hxs : (xs.map encode).mapM decode with
      | error e => simp [bind, Except.bind]
      | ok ys => simp [bind, Except.bind, pure, Except.pure]

theorem decodeAll_error_of_mem {rows : List β} {row : β} {e : ε} (hrow : row ∈ rows)
    (he : decode row = .error e) : ∃ e', rows.mapM decode = .error e' := by
  induction rows with
  | nil => cases hrow
  | cons r rows ih =>
    rw [List.mapM_cons]
    cases hr : decode r with
    | error e' => exact ⟨e', rfl⟩
    | ok y =>
      have htail : row ∈ rows := by
        rcases List.mem_cons.mp hrow with rfl | h
        · rw [hr] at he
          cases he
        · exact h
      obtain ⟨e', he'⟩ := ih htail
      exact ⟨e', by rw [he']; rfl⟩

variable {decode}

theorem decodeAll_cons_ok_iff {row : β} {rows : List β} {xs : List α} :
    (row :: rows).mapM decode = .ok xs ↔
      ∃ y ys, decode row = .ok y ∧ rows.mapM decode = .ok ys ∧ xs = y :: ys := by
  rw [List.mapM_cons]
  cases hrow : decode row with
  | error e => simp [bind, Except.bind]
  | ok y =>
    cases hrows : rows.mapM decode with
    | error e => simp [bind, Except.bind]
    | ok ys => simp [bind, Except.bind, pure, Except.pure, eq_comm]

theorem exists_decodeAll_iff {rows : List β} :
    (∃ xs, rows.mapM decode = .ok xs) ↔ ∀ row ∈ rows, (decode row).isOk = true := by
  induction rows with
  | nil => simp [pure, Except.pure]
  | cons row rows ih =>
    rw [List.forall_mem_cons, ← ih]
    constructor
    · rintro ⟨_, h⟩
      obtain ⟨y, ys, hrow, hrows, _⟩ := decodeAll_cons_ok_iff.mp h
      exact ⟨by rw [hrow]; rfl, ys, hrows⟩
    · rintro ⟨hrow, ys, hrows⟩
      cases hy : decode row with
      | error e => simp [hy, Except.isOk, Except.toBool] at hrow
      | ok y => exact ⟨y :: ys, decodeAll_cons_ok_iff.mpr ⟨y, ys, hy, hrows, rfl⟩⟩

theorem mem_of_decodeAll {rows : List β} {xs : List α} (h : rows.mapM decode = .ok xs) {x : α}
    (hx : x ∈ xs) : ∃ row ∈ rows, decode row = .ok x := by
  induction rows generalizing xs with
  | nil =>
    cases h
    cases hx
  | cons row rows ih =>
    obtain ⟨y, ys, hrow, hrows, rfl⟩ := decodeAll_cons_ok_iff.mp h
    rcases List.mem_cons.mp hx with rfl | hmem
    · exact ⟨row, List.mem_cons_self, hrow⟩
    · obtain ⟨row', hrow', hx'⟩ := ih hrows hmem
      exact ⟨row', List.mem_cons_of_mem row hrow', hx'⟩

theorem decodeAll_map {γ : Type*} {k : α → γ} {l : β → γ}
    (hkeep : ∀ {row x}, decode row = .ok x → k x = l row) {rows : List β} {xs : List α}
    (h : rows.mapM decode = .ok xs) : xs.map k = rows.map l := by
  induction rows generalizing xs with
  | nil =>
    cases h
    rfl
  | cons row rows ih =>
    obtain ⟨y, ys, hrow, hrows, rfl⟩ := decodeAll_cons_ok_iff.mp h
    rw [List.map_cons, List.map_cons, hkeep hrow, ih hrows]

/-- A selection that decoding keeps can be made before or after it. -/
theorem decodeAll_filter {p : β → Bool} {q : α → Bool}
    (hkeep : ∀ {row x}, decode row = .ok x → q x = p row) {rows : List β} {xs : List α}
    (h : rows.mapM decode = .ok xs) : (rows.filter p).mapM decode = .ok (xs.filter q) := by
  induction rows generalizing xs with
  | nil =>
    cases h
    rfl
  | cons row rows ih =>
    obtain ⟨y, ys, hrow, hrows, rfl⟩ := decodeAll_cons_ok_iff.mp h
    rw [List.filter_cons, List.filter_cons, hkeep hrow]
    split
    · exact decodeAll_cons_ok_iff.mpr ⟨y, ys.filter q, hrow, ih hrows, rfl⟩
    · exact ih hrows

end Decoding

section Selects

variable {α β κ : Type*} {ε : Type*} [LinearOrder κ] (encode : α → β) (decode : β → Except ε α)

/-- `SELECT … WHERE p ORDER BY col ASC`, each row decoded. -/
def select (col : β → κ) (p : β → Bool) (rows : List β) : Except ε (List α) :=
  (inOrder col (rows.filter p)).mapM decode

/-- The first row of `SELECT … WHERE p`, decoded where there is one. -/
def selectFirst (p : β → Bool) (rows : List β) : Except ε (Option α) :=
  match rows.find? p with
  | none => .ok none
  | some row => (decode row).map some

theorem inOrder_map (col : β → κ) (xs : List α) :
    inOrder col (xs.map encode) = (inOrder (col ∘ encode) xs).map encode :=
  (List.map_insertionSort _ _ encode xs fun _ _ _ _ => Iff.rfl).symm

/-- A select answers with the records it meets exactly where each of them decodes back. -/
theorem select_map_eq_ok_iff (col : β → κ) (p : β → Bool) (xs : List α) :
    select decode col p (xs.map encode) =
        .ok (inOrder (col ∘ encode) (xs.filter (p ∘ encode))) ↔
      ∀ x ∈ xs.filter (p ∘ encode), decode (encode x) = .ok x := by
  rw [select, List.filter_map, inOrder_map, decodeAll_eq_ok_iff]
  simp only [mem_inOrder]

theorem select_error_of_mem (col : β → κ) (p : β → Bool) {rows : List β} {row : β} {e : ε}
    (hrow : row ∈ rows) (hp : p row = true) (he : decode row = .error e) :
    ∃ e', select decode col p rows = .error e' :=
  decodeAll_error_of_mem decode ((mem_inOrder col).mpr (List.mem_filter.mpr ⟨hrow, hp⟩)) he

theorem selectFirst_map_eq_ok (p : β → Bool) {xs : List α}
    (h : ∀ x ∈ xs, p (encode x) = true → decode (encode x) = .ok x) :
    selectFirst decode p (xs.map encode) = .ok (xs.find? (p ∘ encode)) := by
  rw [selectFirst, List.find?_map]
  cases hf : xs.find? (p ∘ encode) with
  | none => rfl
  | some x =>
    have hx : (p ∘ encode) x = true := List.find?_some hf
    rw [Option.map_some]
    dsimp only
    rw [h x (List.mem_of_find?_eq_some hf) hx]
    rfl

theorem selectFirst_map_of_unique (p : β → Bool) {xs : List α} {x : α} (hx : x ∈ xs)
    (hp : p (encode x) = true) (huniq : ∀ y ∈ xs, p (encode y) = true → y = x) :
    selectFirst decode p (xs.map encode) = (decode (encode x)).map some := by
  have hfind : xs.find? (p ∘ encode) = some x := by
    cases hf : xs.find? (p ∘ encode) with
    | none => exact absurd hp (by simpa using List.find?_eq_none.mp hf x hx)
    | some y =>
      have hy : (p ∘ encode) y = true := List.find?_some hf
      rw [huniq y (List.mem_of_find?_eq_some hf) hy]
  rw [selectFirst, List.find?_map, hfind]
  rfl

end Selects

end RowTable
