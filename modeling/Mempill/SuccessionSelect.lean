import Mathlib.Data.List.Forall2
import Mempill.Engine
import Mempill.Rows

set_option autoImplicit false

/-!
# Succession select

What an accepted succession promises: one member at most for each instant, found in any
order, and no loss by leaving members out or closing them earlier.
-/
namespace Mempill.SuccessionSelect
open Mempill.Types Mempill.ValidTimeHelpers Mempill.TruthEngine Mempill.Rows Mempill.IngestClaim
open Mempill.Engine HalfOpen

section Statement

/-- The half-open window of a claim with a start contains the instant. -/
def Covers (claim : Claim) (t : Instant) : Prop :=
  ∃ start, claim.validTime.start = some start ∧ start ≤ t ∧ ∀ e ∈ claim.validTime.stop, t < e

instance (claim : Claim) (t : Instant) : Decidable (Covers claim t) :=
  decidable_of_iff (∃ start ∈ claim.validTime.start, start ≤ t ∧ ∀ e ∈ claim.validTime.stop, t < e)
    Iff.rfl

/-- The claim with an end of its own, or a sooner one. -/
structure Closes (claim closed : Claim) : Prop where
  start : closed.validTime.start = claim.validTime.start
  confidence : closed.validTime.validTimeConfidence = claim.validTime.validTimeConfidence
  stop : ∀ e ∈ claim.validTime.stop, ∃ e' ∈ closed.validTime.stop, e' ≤ e

/-- The selection names the one member whose window contains the instant, if there is one. -/
structure SelectsUniquely (claims : List Claim) (t : Instant) : Prop where
  unique : (claims.filter fun claim => decide (Covers claim t)).length ≤ 1
  selected : ∀ claim,
    selectByValidTimeInstant claims t = some claim ↔ claim ∈ claims ∧ Covers claim t
  ordered : ∀ claims', claims.Perm claims' →
    selectByValidTimeInstant claims' t = selectByValidTimeInstant claims t

/-- What the succession test keeps. -/
structure Inherited (claims : List Claim) (threshold : F32) : Prop where
  sublist : ∀ claims', claims'.Sublist claims → isTrustedSuccession claims' threshold = true
  closed : ∀ claims', List.Forall₂ Closes claims claims' →
    isTrustedSuccession claims' threshold = true

end Statement

section Main

variable {claims claims' : List Claim} {threshold : F32} {t : Instant}

theorem covers_iff {claim : Claim} (h : claim.validTime.start.isSome) :
    Covers claim t ↔ (window claim.validTime).Mem t := by
  obtain ⟨start, hstart⟩ := Option.isSome_iff_exists.mp h
  rw [Covers, window_eq hstart, hstart]
  cases claim.validTime.stop <;> simp [Span.Mem, EndsAfter]

theorem narrows_of_closes {claim closed : Claim} (h : Closes claim closed) :
    (window claim.validTime).Narrows (window closed.validTime) := by
  refine ⟨congrArg (·.getD 0) h.start, fun u hu => ?_⟩
  change EndsBy u closed.validTime.stop
  change EndsBy u claim.validTime.stop at hu
  cases hstop : claim.validTime.stop with
  | none =>
    rw [hstop] at hu
    exact hu.elim
  | some e =>
    obtain ⟨e', he', hle⟩ := h.stop e hstop
    rw [hstop] at hu
    rw [Option.mem_def.mp he']
    exact le_trans hle hu

/-- The narrowing of a row by its active bound closes its claim. -/
theorem closes_claimWithEffectiveWindow (cs : ClaimWithStatus) :
    Closes cs.claim (claimWithEffectiveWindow cs) := by
  refine ⟨rfl, rfl, fun e he => ?_⟩
  rw [claimWithEffectiveWindow]
  dsimp only
  rw [narrowedValidEnd_fst, Option.mem_def.mp he]
  cases cs.boundAt with
  | none => exact ⟨e, rfl, le_rfl⟩
  | some b => exact ⟨min e b, rfl, min_le_left e b⟩

theorem started_of_succession (h : isTrustedSuccession claims threshold = true) :
    ∀ claim ∈ claims, claim.validTime.start.isSome := fun claim hclaim =>
  ((Bool.and_eq_true _ _).mp (((isTrustedSuccession_iff _ _).mp h).1 claim hclaim)).2

theorem selectsUniquely (h : isTrustedSuccession claims threshold = true) (t : Instant) :
    SelectsUniquely claims t := by
  have hstarted := started_of_succession h
  have hselected : ∀ claim,
      selectByValidTimeInstant claims t = some claim ↔ claim ∈ claims ∧ Covers claim t := by
    intro claim
    rw [selectByValidTimeInstant_iff h]
    exact and_congr_right fun hclaim => (covers_iff (hstarted claim hclaim)).symm
  refine ⟨?_, hselected, fun claims' hperm => ?_⟩
  · have hsame : (claims.filter fun claim => decide (Covers claim t)) =
        claims.filter fun claim => decide ((window claim.validTime).Mem t) :=
      List.filter_congr fun claim hclaim =>
        decide_eq_decide.mpr (covers_iff (hstarted claim hclaim))
    rw [hsame]
    exact length_filter_mem_le_one (fun c : Claim => window c.validTime)
      ((isTrustedSuccession_iff _ _).mp h).2 t
  · have h' : isTrustedSuccession claims' threshold = true :=
      isTrustedSuccession_perm hperm threshold ▸ h
    refine Option.ext fun claim => ?_
    rw [hselected, selectByValidTimeInstant_iff h', ← hperm.mem_iff]
    exact and_congr_right fun hclaim => (covers_iff (hstarted claim hclaim)).symm

theorem succession_of_sublist (h : isTrustedSuccession claims threshold = true)
    (hsub : claims'.Sublist claims) : isTrustedSuccession claims' threshold = true := by
  obtain ⟨htrust, hapart⟩ := (isTrustedSuccession_iff _ _).mp h
  exact (isTrustedSuccession_iff _ _).mpr
    ⟨fun claim hclaim => htrust claim (hsub.subset hclaim), hapart.sublist hsub⟩

theorem exists_of_closes (h : List.Forall₂ Closes claims claims') {closed : Claim}
    (hclosed : closed ∈ claims') : ∃ claim ∈ claims, Closes claim closed := by
  induction h with
  | nil => cases hclosed
  | @cons claim _ claims _ hhead _ ih =>
    rcases List.mem_cons.mp hclosed with rfl | htail
    · exact ⟨claim, List.mem_cons_self, hhead⟩
    · obtain ⟨other, hother, hcloses⟩ := ih htail
      exact ⟨other, List.mem_cons_of_mem claim hother, hcloses⟩

theorem succession_of_closes (h : isTrustedSuccession claims threshold = true)
    (hclosed : List.Forall₂ Closes claims claims') :
    isTrustedSuccession claims' threshold = true := by
  rw [isTrustedSuccession_iff] at h ⊢
  induction hclosed with
  | nil => exact h
  | @cons claim closed claims claims' hhead htail ih =>
    obtain ⟨htrust, hapart⟩ := h
    obtain ⟨hhere, hrest⟩ := List.pairwise_cons.mp hapart
    obtain ⟨htrust', hapart'⟩ := ih ⟨fun c hc => htrust c (List.mem_cons_of_mem claim hc), hrest⟩
    refine ⟨List.forall_mem_cons.mpr ⟨?_, htrust'⟩,
      List.pairwise_cons.mpr ⟨fun c' hc' => ?_, hapart'⟩⟩
    · rw [claimIsTrusted, hhead.start, hhead.confidence]
      exact htrust claim List.mem_cons_self
    · obtain ⟨c, hc, hcc'⟩ := exists_of_closes htail hc'
      exact (narrows_of_closes hhead).apart (narrows_of_closes hcc') (hhere c hc)

/-- The succession test looks at no order. A list that it accepts has at most one member
    in force at each instant, which the selection finds in any order, and stays accepted
    without some of its members or with sooner ends. -/
theorem trusted_succession_selects (claims : List Claim) (threshold : F32) :
    (∀ claims', claims.Perm claims' →
      isTrustedSuccession claims' threshold = isTrustedSuccession claims threshold) ∧
      (isTrustedSuccession claims threshold = true →
        (∀ t, SelectsUniquely claims t) ∧ Inherited claims threshold) :=
  ⟨fun _ hperm => (isTrustedSuccession_perm hperm threshold).symm, fun h =>
    ⟨selectsUniquely h, ⟨fun _ => succession_of_sublist h, fun _ => succession_of_closes h⟩⟩⟩

/-- Three facts in a row, the last one first, and one that ends as it starts. -/
def movedTwice : List Claim :=
  [stamp (remember "Rome" (some (dated 7 none))) ⟨3⟩ 10,
    stamp (remember "Paris" (some (dated 1 (some 5)))) ⟨1⟩ 20,
    stamp (remember "Oslo" (some (dated 5 (some 5)))) ⟨4⟩ 30,
    stamp (remember "Berlin" (some (dated 5 (some 7)))) ⟨2⟩ 40]

theorem movedTwice_selects :
    let threshold := EngineConfig.default.validTimeConfidenceThreshold
    isTrustedSuccession movedTwice.reverse threshold = isTrustedSuccession movedTwice threshold ∧
      (∀ t, SelectsUniquely movedTwice t) ∧ Inherited movedTwice threshold := by
  obtain ⟨hperm, haccepted⟩ := trusted_succession_selects movedTwice
    EngineConfig.default.validTimeConfidenceThreshold
  exact ⟨hperm _ (List.reverse_perm movedTwice).symm, haccepted (by decide)⟩

end Main

end Mempill.SuccessionSelect
