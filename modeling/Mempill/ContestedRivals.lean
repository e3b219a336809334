import Mempill.Answers

set_option autoImplicit false

/-!
# Contested answers

When a contested answer of the recall path stands for at least two live claims.
-/
namespace Mempill.ContestedRivals
open Mempill.Types Mempill.Persistence Mempill.TruthEngine Mempill.Rows Mempill.IngestClaim
open Mempill.QueryMemory Mempill.Engine Mempill.AssertValidity Mempill.Invariants Mempill.Answers

section Statement

variable (config : EngineConfig) (σ : Store) (req : QueryMemoryRequest) (now : Instant)

/-- No claim is preferred, and two different live claims are offered. -/
structure Rivals (answer : BeliefProjection) (live : List ClaimWithStatus) : Prop where
  primary : answer.primary = none
  alternatives : ∃ x ∈ live, ∃ y ∈ live, x.claim.claimRef ≠ y.claim.claimRef ∧
    x.claim.claimRef ∈ answer.alternatives.map (·.claimRef) ∧
    y.claim.claimRef ∈ answer.alternatives.map (·.claimRef)

def ContestedMeansRivals : Prop :=
  (execute config σ req now).status = .contested →
    Rivals (execute config σ req now) (liveRows (requestRows config σ req now))

/-- One row answers the request alone, and its latest disposition is contested. -/
def LoneContested : Prop :=
  ∃ cs, SoleAnswer config σ req now cs ∧ cs.lastDisposition = some .contested

end Statement

section Projection

variable {fold : FoldResult} {ledgerEntries : List LedgerEntry} {now : Instant}
variable {config : EngineConfig}

theorem one_lt_length_of_ne {xs : List ClaimWithStatus} {x y : ClaimWithStatus} (hx : x ∈ xs)
    (hy : y ∈ xs) (hne : x ≠ y) : 1 < xs.length := by
  by_contra hlen
  match xs with
  | [] => cases hx
  | [a] => exact hne ((List.mem_singleton.mp hx).trans (List.mem_singleton.mp hy).symm)
  | _ :: _ :: _ => simp at hlen

theorem rivals_of_many (hnodup : (fold.liveClaims.map (·.claim.claimRef)).Nodup)
    (hmany : 1 < fold.liveClaims.length) (contested : Bool) :
    Rivals (project fold ledgerEntries now config contested) fold.liveClaims := by
  obtain ⟨_, hprimary, halternatives⟩ :=
    project_of_many ledgerEntries now config contested hmany
  refine ⟨hprimary, ?_⟩
  have hoffered : ∀ cs ∈ fold.liveClaims, cs.claim.claimRef ∈
      (project fold ledgerEntries now config contested).alternatives.map (·.claimRef) := by
    intro cs hcs
    rw [halternatives, List.map_map]
    exact List.mem_map_of_mem (f := fun cs => (liveBelief now config cs).claimRef) hcs
  match hl : fold.liveClaims with
  | [] => simp [hl] at hmany
  | [_] => simp [hl] at hmany
  | x :: y :: rest =>
    rw [hl] at hnodup hoffered
    have hne : x.claim.claimRef ≠ y.claim.claimRef := by
      simp only [List.map_cons, List.nodup_cons, List.mem_cons, not_or] at hnodup
      exact hnodup.1.1
    have hy : y ∈ x :: y :: rest := List.mem_cons_of_mem x List.mem_cons_self
    exact ⟨x, List.mem_cons_self, y, hy, hne, hoffered x List.mem_cons_self, hoffered y hy⟩

theorem contested_of_lone (ledgerEntries : List LedgerEntry) (now : Instant)
    (config : EngineConfig) {cs : ClaimWithStatus} (hl : fold.liveClaims = [cs])
    (hc : fold.hasConflict = false) (hd : cs.lastDisposition = some .contested) :
    let answer := project fold ledgerEntries now config (anyContested fold.liveClaims)
    answer.status = .contested ∧ answer.primary = some (liveBelief now config cs) := by
  obtain ⟨hstatus, hprimary, _⟩ :=
    project_of_singleton ledgerEntries now config (anyContested fold.liveClaims) hl hc
  have hflag : anyContested fold.liveClaims = true := by simp [anyContested, hl, hd]
  rw [if_pos hflag] at hstatus
  exact ⟨hstatus, hprimary⟩

theorem rivals_of_contested (hnodup : (fold.liveClaims.map (·.claim.claimRef)).Nodup)
    (hconflict : fold.liveClaims.length ≤ 1 → fold.hasConflict = false)
    (hlone : ¬ ∃ cs, fold.liveClaims = [cs] ∧ cs.lastDisposition = some .contested)
    (hstatus : (project fold ledgerEntries now config
      (anyContested fold.liveClaims)).status = .contested) :
    Rivals (project fold ledgerEntries now config (anyContested fold.liveClaims))
      fold.liveClaims := by
  match hl : fold.liveClaims with
  | [] =>
    rw [(project_of_nil _ _ _ _ hl).1] at hstatus
    cases hstatus
  | [cs] =>
    have hflag : ¬ anyContested fold.liveClaims = true := by
      simpa [anyContested, hl] using hlone
    have hc := hconflict (by simp [hl])
    rw [(project_of_singleton _ _ _ _ hl hc).1, if_neg hflag] at hstatus
    split at hstatus <;> cases hstatus
  | x :: y :: rest =>
    rw [← hl]
    exact rivals_of_many hnodup (by simp [hl]) _

theorem Rivals.mono {answer : BeliefProjection} {live live' : List ClaimWithStatus}
    (h : Rivals answer live) (hsub : ∀ cs ∈ live, cs ∈ live') : Rivals answer live' := by
  obtain ⟨x, hx, y, hy, hne, hofferedX, hofferedY⟩ := h.alternatives
  exact ⟨h.primary, x, hsub x hx, y, hsub y hy, hne, hofferedX, hofferedY⟩

/-- Where a structural conflict needs several rows, only a lone contested row can
    make a contested answer without rivals. -/
theorem contested_rivals_iff (ledgerEntries : List LedgerEntry) (now : Instant)
    (config : EngineConfig) (hnodup : (fold.liveClaims.map (·.claim.claimRef)).Nodup)
    (hconflict : fold.liveClaims.length ≤ 1 → fold.hasConflict = false)
    (live : List ClaimWithStatus)
    (hsub : 1 < fold.liveClaims.length → ∀ cs ∈ fold.liveClaims, cs ∈ live) :
    let answer := project fold ledgerEntries now config (anyContested fold.liveClaims)
    (answer.status = .contested → Rivals answer live) ↔
      ¬ ∃ cs, fold.liveClaims = [cs] ∧ cs.lastDisposition = some .contested := by
  dsimp only
  constructor
  · rintro h ⟨cs, hl, hd⟩
    have hquiet : fold.hasConflict = false := hconflict (by simp [hl])
    obtain ⟨hstatus, hprimary⟩ := contested_of_lone ledgerEntries now config hl hquiet hd
    have hnone := (h hstatus).primary
    rw [hprimary] at hnone
    cases hnone
  · intro hlone hstatus
    have hrivals := rivals_of_contested hnodup hconflict hlone hstatus
    refine hrivals.mono (hsub ?_)
    obtain ⟨x, hx, y, hy, hne, _⟩ := hrivals.alternatives
    exact one_lt_length_of_ne hx hy fun hxy => hne (by rw [hxy])

end Projection

section Main

variable {eng : Engine} {σ : Store}

/-- A contested answer stands for at least two live claims, with or without a
    valid-at instant, exactly when no claim left contested answers alone. -/
theorem contested_means_rivals_iff (hσ : Reachable eng σ) (config : EngineConfig)
    (req : QueryMemoryRequest) (now : Instant) :
    ContestedMeansRivals config σ req now ↔ ¬ LoneContested config σ req now := by
  obtain ⟨ledgerEntries, hexec⟩ := execute_eq_project config σ req now
  unfold ContestedMeansRivals LoneContested
  rw [hexec]
  have hiff := contested_rivals_iff ledgerEntries now config (queryFold_nodup hσ config req now)
    (queryFold_hasConflict_of_length_le hσ) (liveRows (requestRows config σ req now))
    (queryFold_live_of_many hσ)
  simpa only [queryFold_eq_singleton_iff hσ] using hiff

def lineNow : QueryMemoryRequest := ⟨agent, "user", "location", none, none⟩

/-- Two dated rivals of one line, the second written without an oracle. -/
def rivalCities : Store :=
  run (defaultEngine false) Store.sqlite
    [.ingestClaim (remember "Paris" (some (dated 1 none))) 10 ⟨1⟩ (.ok 0),
      .ingestClaim (remember "Berlin" (some (dated 5 none))) 20 ⟨2⟩ (.ok 0)]

theorem contested_cities_are_rivals :
    ContestedMeansRivals EngineConfig.default rivalCities lineNow 40 := by
  have hreach : Reachable (defaultEngine false) rivalCities := run_reachable (by decide)
  have hlen : (liveRows (requestRows EngineConfig.default rivalCities lineNow 40)).length = 2 := by
    decide
  have hchain : ¬ Chain EngineConfig.default
      (requestRows EngineConfig.default rivalCities lineNow 40) := by decide
  refine (contested_means_rivals_iff hreach EngineConfig.default lineNow 40).mpr ?_
  rintro ⟨cs, h | ⟨h, _⟩, _⟩
  · have h : liveRows (requestRows EngineConfig.default rivalCities lineNow 40) = [cs] := h
    rw [h] at hlen
    cases hlen
  · exact hchain h

theorem closed_rival_leaves_contested_winner :
    let σ := apply (defaultEngine false) rivalCities
      (.assertValidity (assertOn 1 (.bound 5 none)) 30 50)
    Reachable (defaultEngine false) σ ∧
      (execute EngineConfig.default σ lineNow 40).status = .contested ∧
      (execute EngineConfig.default σ lineNow 40).primary.map (·.claimRef) = some ⟨2⟩ ∧
      (execute EngineConfig.default σ lineNow 40).alternatives = [] ∧
      ¬ ContestedMeansRivals EngineConfig.default σ lineNow 40 := by
  refine ⟨(run_reachable (by decide)).step ⟨by decide, rfl⟩, by decide, by decide, by decide,
    fun h => ?_⟩
  exact absurd (h (by decide)).primary (by decide)

end Main

end Mempill.ContestedRivals
