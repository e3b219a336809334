import Mempill.Engine
import Mempill.Rows

set_option autoImplicit false

/-!
# The conflict flag

When the conflict flag of a fold tells of two selected claims that differ in value
while their windows overlap.
-/
namespace Mempill.ConflictFlag
open Mempill.Types Mempill.Persistence Mempill.TruthEngine Mempill.Rows Mempill.IngestClaim
open Mempill.Engine

section Condition

/-- An unknown start lets the window begin at any time, a missing end keeps it open. -/
def Within (vt : ValidTime) (t : Instant) : Prop :=
  (∀ start, vt.start = some start → start ≤ t) ∧ ∀ stop, vt.stop = some stop → t < stop

def Clash (x y : ClaimWithStatus) : Prop :=
  x.claim.fact.value ≠ y.claim.fact.value ∧
    ∃ t, Within x.claim.validTime t ∧ Within y.claim.validTime t

def ShowsClash (rows : List ClaimWithStatus) : Prop := ∃ x ∈ rows, ∃ y ∈ rows, Clash x y

/-- At most one row is live, or the live rows are a trusted succession, or two of
    them clash. -/
def TellsClash (config : EngineConfig) (rows : List ClaimWithStatus) : Prop :=
  (liveRows rows).length ≤ 1 ∨ Chain config rows ∨ ShowsClash (liveRows rows)

end Condition

section Fold

variable {config : EngineConfig} {rows : List ClaimWithStatus} {t : Instant}

theorem not_showsClash_of_length_le (h : rows.length ≤ 1) : ¬ ShowsClash rows := by
  rintro ⟨x, hx, y, hy, hne, _⟩
  obtain _ | ⟨cs, _ | ⟨_, _⟩⟩ := rows
  · cases hx
  · rw [List.mem_singleton.mp hx, List.mem_singleton.mp hy] at hne
    exact hne rfl
  · simp at h

theorem flag_of_length_le
    (h : (foldStatuses rows t config).liveClaims.length ≤ 1) :
    (foldStatuses rows t config).hasConflict = true ↔
      ShowsClash (foldStatuses rows t config).liveClaims := by
  rw [foldStatuses_hasConflict, structuralConflict_of_length_le h]
  exact ⟨fun hflag => absurd hflag Bool.false_ne_true,
    fun hclash => absurd hclash (not_showsClash_of_length_le h)⟩

/-- Several live rows that are no succession raise the flag, whatever their values. -/
theorem flag_of_many (hset : ∀ cs ∈ rows, cs.claim.cardinality ≠ .setValued)
    (hmany : 1 < (liveRows rows).length) (hchain : ¬ Chain config rows) :
    (foldStatuses rows t config).hasConflict = true := by
  rw [foldStatuses_hasConflict, foldStatuses_of_not_chain hchain, structuralConflict_iff]
  obtain ⟨cs, hcs⟩ := List.exists_mem_of_length_pos (lt_trans Nat.zero_lt_one hmany)
  exact ⟨hmany, cs, hcs, hset cs (mem_liveRows.mp hcs).1⟩

theorem flag_iff (hnodup : (rows.map (·.claim.claimRef)).Nodup)
    (hset : ∀ cs ∈ rows, cs.claim.cardinality ≠ .setValued) :
    ((foldStatuses rows t config).hasConflict = true ↔
      ShowsClash (foldStatuses rows t config).liveClaims) ↔ TellsClash config rows := by
  unfold TellsClash
  by_cases hchain : Chain config rows
  · have hsole := foldStatuses_chain_length hnodup hchain t
    exact ⟨fun _ => .inr (.inl hchain), fun _ => flag_of_length_le hsole⟩
  have hselected : (foldStatuses rows t config).liveClaims = liveRows rows :=
    foldStatuses_of_not_chain hchain t
  by_cases hmany : 1 < (liveRows rows).length
  · rw [hselected]
    have hflag : (foldStatuses rows t config).hasConflict = true :=
      flag_of_many hset hmany hchain
    constructor
    · exact fun h => .inr (.inr (h.mp hflag))
    · rintro (hfew | hc | hclash)
      · omega
      · exact absurd hc hchain
      · exact ⟨fun _ => hclash, fun _ => hflag⟩
  · have hfew : (liveRows rows).length ≤ 1 := not_lt.mp hmany
    exact ⟨fun _ => .inl hfew, fun _ => flag_of_length_le (hselected ▸ hfew)⟩

end Fold

section Main

variable {claims : List Claim}

/-- On a line without set-valued claims, the flag tells of a clash among the selected
    claims exactly if few rows are live, or they are a succession, or two of them clash. -/
theorem conflict_flag_tells_clash_iff (hrefs : (claims.map (·.claimRef)).Nodup)
    (hset : ∀ c ∈ claims, c.cardinality ≠ .setValued)
    (supplied : ClaimRef → List ValidityAssertion) (asOf : Instant) (validAt : Option Instant)
    (config : EngineConfig) (latest : ClaimRef → Option Disposition) :
    let folded := fold claims supplied asOf validAt config latest
    (folded.hasConflict = true ↔ ShowsClash folded.liveClaims) ↔
      TellsClash config (foldRows config claims supplied asOf latest) := by
  refine flag_iff (foldRows_nodup hrefs) fun cs hcs => ?_
  obtain ⟨c, hc, rfl⟩ := List.mem_map.mp hcs
  exact hset c ((StampedLog.mem_inOrder _).mp hc)

/-- Two facts that overlap from 5 on. -/
def overlapping : List Claim :=
  [stamp (remember "Paris" (some (dated 1 none))) ⟨1⟩ 10,
    stamp (remember "Berlin" (some (dated 5 none))) ⟨2⟩ 20]

theorem overlapping_is_flagged :
    let folded := fold overlapping (fun _ => []) 30 none EngineConfig.default fun _ => none
    folded.hasConflict = true ↔ ShowsClash folded.liveClaims :=
  (conflict_flag_tells_clash_iff (by decide) (by decide) (fun _ => []) 30 none
    EngineConfig.default fun _ => none).mpr (.inr (.inr
      ⟨_, List.mem_cons_self, _, List.mem_cons_of_mem _ List.mem_cons_self, by decide, 7,
        by simp [Within, claimStatus, stamp, remember, dated]⟩))

/-- One undated fact, remembered twice. -/
def restated : List Op :=
  [.ingestClaim (remember "Paris" none) 10 ⟨1⟩ (.ok 100),
    .ingestClaim (remember "Paris" none) 20 ⟨2⟩ (.ok 101)]

theorem restatement_is_flagged :
    let σ := run (defaultEngine false) Store.sqlite restated
    let folded := foldForWrite EngineConfig.default σ agent "user" "location" 30
    Reachable (defaultEngine false) σ ∧
      ¬ (folded.hasConflict = true ↔ ShowsClash folded.liveClaims) := by
  refine ⟨run_reachable (by decide), fun h => ?_⟩
  obtain ⟨x, hx, y, hy, hne, _⟩ := h.mp (by decide)
  have hsame : ∀ cs ∈ (foldForWrite EngineConfig.default
      (run (defaultEngine false) Store.sqlite restated) agent "user" "location" 30).liveClaims,
      cs.claim.fact.value = .str "Paris" := by decide
  exact hne ((hsame x hx).trans (hsame y hy).symm)

end Main

end Mempill.ConflictFlag
