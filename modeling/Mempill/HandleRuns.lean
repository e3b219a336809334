import Mempill.CallDiscipline
import Mempill.PlannedWrites

set_option autoImplicit false

/-!
# Handle runs

Calls on one handle and its clones, in any interleaving of their steps, with calls that are
given up while they wait for a lock.
-/
namespace Mempill.HandleRuns
open Mempill.Types Mempill.Persistence Mempill.IngestClaim Mempill.AssertValidity
open Mempill.SubmitAdjudication Mempill.Reconcile Mempill.Sweep Mempill.SharedStore
open Mempill.Engine Mempill.WritePhases Mempill.QueueRows Mempill.AgentView Mempill.AgentPlans
open Mempill.HandleCalls Mempill.CallDiscipline LockedTasks Transition
open StampedLog

section System

abbrev System := State Lock Shared Returned

def opened (σ : Store) : System := State.start (Shared.opened σ)

abbrev Reached (serialized : Bool) (eng : Engine) (σ₀ : Store) : System → Prop :=
  Reach (· = opened σ₀) (Step (Callable serialized eng))

variable {serialized : Bool} {eng : Engine} {σ₀ : Store} {s s' : System}

/-- The handle is the key of the pending table. -/
theorem inv_opened (hkeys : DistinctHandles σ₀) : Inv serialized eng σ₀ (Shared.opened σ₀) where
  keys _ _ _ h := by cases h
  bound _ _ h := by cases h
  idle _ _ := rfl
  handles := hkeys
  pending := rfl
  honest := trivial
  exclusive _ := Nat.zero_le _
  settled _ _ := rfl
  serial _ := ⟨Nat.zero_le _, fun _ => rfl⟩

theorem distinctHandles_empty {ties : TieOrder LedgerEntry} : DistinctHandles (.empty ties) :=
  List.nodup_nil

theorem sound_of_reached (hkeys : DistinctHandles σ₀) (h : Reached serialized eng σ₀ s) :
    Sound (discipline serialized eng σ₀) s := by
  refine sound_of_reach discipline_lawful callable_valid (inv_opened hkeys) (fun l => ?_)
    (fun _ => rfl) h
  cases l with
  | store => exact fun _ => rfl
  | agent mutex => exact fun _ _ => rfl

/-- What one step adds to the use cases that ended, and to the map of agent locks. -/
theorem step_extends (hs : Sound (discipline serialized eng σ₀) s) {label : Label}
    (hstep : Step (Callable serialized eng) s label s') :
    (∃ es, s'.shared.ended = s.shared.ended ++ es ∧
      ∀ e ∈ es, ∃ task, s.tasks[e.call]? = some task ∧ task.finished = false) ∧
    (∀ a mutex, s.shared.locks a = some mutex → s'.shared.locks a = some mutex) := by
  have hnone : ∀ {ended : List Ended}, ∃ es, ended = ended ++ es ∧
      ∀ e ∈ es, ∃ task, s.tasks[e.call]? = some task ∧ task.finished = false :=
    ⟨[], (List.append_nil _).symm, fun _ h => absurd h List.not_mem_nil⟩
  cases hstep with
  | call _ => exact ⟨hnone, fun _ _ h => h⟩
  | drop _ => exact ⟨hnone, fun _ _ h => h⟩
  | move hmove =>
    cases hmove with
    | request _ _ => exact ⟨hnone, fun _ _ h => h⟩
    | enter _ _ _ => exact ⟨hnone, fun _ _ h => h⟩
    | unlock _ _ => exact ⟨hnone, fun _ _ h => h⟩
    | access htask =>
      obtain ⟨P, _, hP, hvalid⟩ := hs.valid _ _ htask
      obtain ⟨_, hmay, _⟩ := hvalid s.shared hs.inv hP
      obtain ⟨es, hended, hcalls⟩ := hmay.ended
      refine ⟨⟨es, hended, fun e he => ?_⟩, hmay.locks⟩
      rw [hcalls e he]
      exact ⟨_, htask, rfl⟩

end System

section Replay

variable {serialized : Bool} {eng : Engine} {σ₀ : Store} {s s' : System}

/-- Calls that have been made, none of whose port calls fails, and that have not moved. -/
def making (serialized : Bool) (eng : Engine) (σ₀ : Store) (calls : List (Instant × Call)) :
    System :=
  { opened σ₀ with
    tasks := calls.mapIdx fun t c =>
      handle serialized eng ⟨fun _ => .none, false, false, false⟩ t c.1 c.2 }

/-- The calls move in a given order. -/
def play (s : System) (moves : List ℕ) : Option System := moves.foldlM State.advance s

theorem reached_making (calls : List (Instant × Call)) :
    Reached serialized eng σ₀ (making serialized eng σ₀ calls) := by
  induction calls using List.reverseRecOn with
  | nil => exact .init rfl
  | append_singleton calls c ih =>
    refine ih.step (i := .call) ?_
    have hlast : making serialized eng σ₀ (calls ++ [c]) =
        { making serialized eng σ₀ calls with
          tasks := (making serialized eng σ₀ calls).tasks ++
            [handle serialized eng ⟨fun _ => .none, false, false, false⟩
              (making serialized eng σ₀ calls).tasks.length c.1 c.2] } := by
      simp [making, List.mapIdx_append]
    rw [hlast]
    exact .call ⟨_, c.1, c.2, rfl⟩

theorem reached_play {moves : List ℕ} (h : Reached serialized eng σ₀ s)
    (hplay : play s moves = some s') : Reached serialized eng σ₀ s' := by
  induction moves generalizing s with
  | nil =>
    cases hplay
    exact h
  | cons t moves ih =>
    obtain ⟨mid, hmid, hrest⟩ := Option.bind_eq_some_iff.mp hplay
    exact ih (h.step (.move (move_of_advance hmid))) hrest

theorem exists_reached (serialized : Bool) (calls : List (Instant × Call)) (moves : List ℕ)
    (p : System → Bool)
    (h : (play (making serialized (defaultEngine true) Store.sqlite calls) moves).any p = true) :
    ∃ s, Reached serialized (defaultEngine true) Store.sqlite s ∧ p s = true := by
  obtain ⟨s, hplay, hp⟩ := (Option.any_eq_true ..).mp h
  exact ⟨s, reached_play (reached_making calls) hplay, hp⟩

def otherAgent : AgentId := ⟨"agent-2"⟩

/-- Two calls for one agent with rival facts, and one for another agent. -/
def threeCalls : List (Instant × Call) :=
  [(10, .ingestClaim (remember "Paris" (some (dated 1 none))) ⟨1⟩ (.ok 100)),
    (20, .ingestClaim (remember "Berlin" (some (dated 5 none))) ⟨2⟩ (.ok 101)),
    (30, .ingestClaim { remember "Rome" none with agentId := otherAgent } ⟨3⟩ (.ok 102))]

end Replay

section Exclusion

variable {serialized : Bool} {eng : Engine} {σ₀ : Store} {s s' : System}

/-- No two use cases run for one agent, and with a serializing adapter no two at all. The
    mutex of an agent is its own, and stays the one in the map. -/
theorem use_cases_exclude (hkeys : DistinctHandles σ₀) (h : Reached serialized eng σ₀ s) :
    (∀ a, (runningFor a s.shared).length ≤ 1) ∧
    (serialized = true → s.shared.running.length ≤ 1) ∧
    (∀ a b mutex, s.shared.locks a = some mutex → s.shared.locks b = some mutex → a = b) ∧
    ∀ labels s', Run (Step (Callable serialized eng)) s labels s' →
      ∀ a mutex, s.shared.locks a = some mutex → s'.shared.locks a = some mutex := by
  have hs := sound_of_reached hkeys h
  refine ⟨hs.inv.exclusive, fun hserial => (hs.inv.serial hserial).1, hs.inv.keys, ?_⟩
  intro labels s' hrun a mutex hlock
  have hboth : Sound (discipline serialized eng σ₀) s' ∧ s'.shared.locks a = some mutex := by
    refine hrun.preserves (P := fun s => Sound (discipline serialized eng σ₀) s ∧
      s.shared.locks a = some mutex) ⟨hs, hlock⟩ fun s label s' hs hstep => ?_
    exact ⟨hs.1.step discipline_lawful callable_valid hstep,
      (step_extends hs.1 hstep).2 a mutex hs.2⟩
  exact hboth.2

/-- The first call is in its use case, the second waits for the store. -/
theorem second_call_waits : ∃ s, Reached true (defaultEngine true) Store.sqlite s ∧
    s.shared.running = [(0, agent)] ∧ s.shared.running.length ≤ 1 := by
  obtain ⟨s, hs, hp⟩ := exists_reached true threeCalls [0, 1, 0, 0, 0, 0, 0, 0]
    (fun s => decide (s.shared.running = [(0, agent)])) (by decide +kernel)
  exact ⟨s, hs, of_decide_eq_true hp, (use_cases_exclude distinctHandles_empty hs).2.1 rfl⟩

/-- From every state reached, the calls in flight come to an end, whatever the order of
    their steps: there is no endless run, and a run can stop only where all of them have
    returned. -/
theorem calls_complete (hkeys : DistinctHandles σ₀) (h : Reached serialized eng σ₀ s) :
    (∀ path : ℕ → System, path 0 = s → ∃ n, ∀ t, ¬ Move (path n) t (path (n + 1))) ∧
    ∀ moves s', Run (fun s t s' => Move s t s') s moves s' → (∀ t s'', ¬ Move s' t s'') →
      ∀ task ∈ s'.tasks, task.finished = true := by
  refine ⟨fun path _ => exists_last_move path, fun moves s' hrun hstuck => ?_⟩
  have hs : Sound (discipline serialized eng σ₀) s' :=
    hrun.preserves (sound_of_reached hkeys h) fun s t s' hs hmove => hs.move discipline_lawful hmove
  refine hs.finished_of_stuck
    (show ∀ l, (discipline serialized eng σ₀).rank l < 2 from fun l => ?_) hstuck
  cases l with
  | store => exact Nat.two_pos
  | agent mutex => exact Nat.one_lt_two

theorem calls_in_flight_complete : ∃ s, Reached true (defaultEngine true) Store.sqlite s ∧
    (s.tasks.all fun task => !task.finished) = true ∧
    ∀ moves s', Run (fun s t s' => Move s t s') s moves s' → (∀ t s'', ¬ Move s' t s'') →
      ∀ task ∈ s'.tasks, task.finished = true := by
  obtain ⟨s, hs, hp⟩ := exists_reached true threeCalls [0, 1, 2, 0, 0, 0, 0]
    (fun s => s.tasks.all fun task => !task.finished) (by decide +kernel)
  exact ⟨s, hs, hp, (calls_complete distinctHandles_empty hs).2⟩

end Exclusion

section Refinement

variable {serialized : Bool} {eng : Engine} {σ₀ : Store} {s s' : System}

/-- With a serializing adapter, the store between two use cases is the one that the ended
    use cases reach one after another, each with the reply it gave. -/
theorem serialized_store_replays (hkeys : DistinctHandles σ₀) (h : Reached true eng σ₀ s)
    (hquiet : s.shared.running = []) :
    s.shared.store = replay eng σ₀ s.shared.ended ∧ Honest eng σ₀ s.shared.ended :=
  have hs := sound_of_reached hkeys h
  ⟨(hs.inv.serial rfl).2 hquiet, hs.inv.honest⟩

def allMoves : List ℕ :=
  [0, 1, 2] ++ List.replicate 10 0 ++ List.replicate 9 1 ++ List.replicate 10 2

theorem three_calls_replay : ∃ s, Reached true (defaultEngine true) Store.sqlite s ∧
    s.shared.ended.length = 3 ∧
    s.shared.store = replay (defaultEngine true) Store.sqlite s.shared.ended := by
  obtain ⟨s, hs, hp⟩ := exists_reached true threeCalls allMoves
    (fun s => decide (s.shared.running = [] ∧ s.shared.ended.length = 3)) (by decide +kernel)
  obtain ⟨hquiet, hlength⟩ := of_decide_eq_true hp
  exact ⟨s, hs, hlength, (serialized_store_replays distinctHandles_empty hs hquiet).1⟩

/-- Without it, that holds of the rows of each agent while none of its own use cases runs,
    and every query for the agent is answered as on that store. -/
theorem agent_rows_replay (hkeys : DistinctHandles σ₀) (h : Reached serialized eng σ₀ s)
    {a : AgentId} (hidle : runningFor a s.shared = []) :
    view a s.shared.store = view a (replay eng σ₀ s.shared.ended) ∧
    Honest eng σ₀ s.shared.ended ∧
    ∀ f now q, agentOfQuery q = some a →
      answer f eng s.shared.store now q = answer f eng (replay eng σ₀ s.shared.ended) now q := by
  have hs := sound_of_reached hkeys h
  have hview := hs.inv.settled a hidle
  refine ⟨hview, hs.inv.honest, fun f now q hq => ?_⟩
  rw [← answer_view s.shared.store f eng now hq, hview, answer_view _ f eng now hq]

/-- Both calls of the agent have looked for its mutex before one was made, and the other
    agent's use case has not ended. -/
theorem rows_replay_beside_other : ∃ s, Reached false (defaultEngine true) Store.sqlite s ∧
    s.shared.running = [(2, otherAgent)] ∧
    view agent s.shared.store =
      view agent (replay (defaultEngine true) Store.sqlite s.shared.ended) := by
  obtain ⟨s, hs, hp⟩ := exists_reached false threeCalls
    ([0, 1, 2, 0, 1, 2, 0, 1, 0, 0, 2, 2, 2, 2] ++ List.replicate 3 0 ++ List.replicate 5 1)
    (fun s => decide (s.shared.running = [(2, otherAgent)] ∧ s.shared.ended.length = 2))
    (by decide +kernel)
  obtain ⟨hrunning, _⟩ := of_decide_eq_true hp
  have hidle : runningFor agent s.shared = [] := by
    rw [runningFor, hrunning]
    decide
  exact ⟨s, hs, hrunning, (agent_rows_replay distinctHandles_empty hs hidle).1⟩

/-- A call that has returned stands on the use cases that ended for it, and on no other. -/
theorem returned_answers (hkeys : DistinctHandles σ₀) (h : Reached serialized eng σ₀ s) {t : ℕ}
    {returned : Returned} (hdone : s.tasks[t]? = some (.done returned)) :
    Answers returned.now (own t s.shared.ended) returned.call returned.outcome :=
  (sound_of_reached hkeys h).post hdone

def hasReturned : Work → Bool
  | .done _ => true
  | _ => false

theorem three_calls_answered : ∃ s, Reached true (defaultEngine true) Store.sqlite s ∧
    ∃ returned, s.tasks[1]? = some (.done returned) ∧
      Answers returned.now (own 1 s.shared.ended) returned.call returned.outcome := by
  obtain ⟨s, hs, hp⟩ := exists_reached true threeCalls allMoves
    (fun s => s.tasks[1]?.any hasReturned) (by decide +kernel)
  obtain ⟨task, hdone, hreturned⟩ := (Option.any_eq_true _ _).mp hp
  cases task with
  | done returned =>
    exact ⟨s, hs, returned, hdone, returned_answers distinctHandles_empty hs hdone⟩
  | access _ | lock _ _ | unlock _ _ | dropped => cases hreturned

/-- A call that has returned before another was made has its use cases before all those of
    the other. -/
theorem ended_in_call_order (hkeys : DistinctHandles σ₀) (h : Reached serialized eng σ₀ s)
    {t u : ℕ} {task : Work} (hdone : s.tasks[t]? = some task) (hfinished : task.finished = true)
    (hlater : s.tasks.length ≤ u) {labels : List Label}
    (hrun : Run (Step (Callable serialized eng)) s labels s') :
    ∃ post, s'.shared.ended = s.shared.ended ++ post ∧ own u s.shared.ended = [] ∧
      own t post = [] := by
  have hs := sound_of_reached hkeys h
  have hkept : Sound (discipline serialized eng σ₀) s' ∧ s'.tasks[t]? = some task ∧
      ∃ post, s'.shared.ended = s.shared.ended ++ post ∧ own t post = [] := by
    refine hrun.preserves (P := fun s' => Sound (discipline serialized eng σ₀) s' ∧
      s'.tasks[t]? = some task ∧
        ∃ post, s'.shared.ended = s.shared.ended ++ post ∧ own t post = [])
      ⟨hs, hdone, [], (List.append_nil _).symm, rfl⟩ ?_
    rintro v label v' ⟨hv, htask, post, hpost, hnone⟩ hstep
    refine ⟨hv.step discipline_lawful callable_valid hstep,
      step_finished htask hfinished hstep, ?_⟩
    obtain ⟨es, hes, hothers⟩ := (step_extends hv hstep).1
    refine ⟨post ++ es, by rw [hes, hpost, List.append_assoc], ?_⟩
    rw [own, List.filter_append, ← own, hnone, List.nil_append]
    refine List.filter_eq_nil_iff.mpr fun e he hcall => ?_
    obtain ⟨task', htask', hrest⟩ := hothers e he
    rw [beq_iff_eq.mp hcall, htask] at htask'
    cases htask'
    exact absurd hfinished (by rw [hrest]; exact Bool.false_ne_true)
  obtain ⟨_, _, post, hpost, hnone⟩ := hkept
  exact ⟨post, hpost, hs.fresh u hlater, hnone⟩

theorem first_call_ended_first : ∃ s, Reached true (defaultEngine true) Store.sqlite s ∧
    s.tasks.length = 1 ∧ ∀ labels s', Run (Step (Callable true (defaultEngine true))) s labels s' →
      ∃ post, s'.shared.ended = s.shared.ended ++ post ∧ own 1 s.shared.ended = [] ∧
        own 0 post = [] := by
  obtain ⟨s, hs, hp⟩ := exists_reached true (threeCalls.take 1) (List.replicate 11 0)
    (fun s => decide (s.tasks.length = 1) && s.tasks[0]?.any Task.finished) (by decide +kernel)
  obtain ⟨hlength, hany⟩ := Bool.and_eq_true_iff.mp hp
  obtain ⟨task, htask, hfinished⟩ := (Option.any_eq_true _ _).mp hany
  have hone : s.tasks.length = 1 := of_decide_eq_true hlength
  exact ⟨s, hs, hone, fun labels s' hrun =>
    ended_in_call_order distinctHandles_empty hs htask hfinished hone.le hrun⟩

/-- The identifiers that a use case takes are new. -/
def Minted (σ : Store) : Op → Prop
  | .ingestClaim _ _ claimRef _ => Fresh claimRef.uuid σ
  | .assertValidity _ _ assertionRef | .submitAdjudication _ _ _ assertionRef =>
    Fresh assertionRef σ
  | _ => True

instance (σ : Store) : (op : Op) → Decidable (Minted σ op)
  | .ingestClaim _ _ claimRef _ => inferInstanceAs (Decidable (Fresh claimRef.uuid σ))
  | .assertValidity _ _ assertionRef | .submitAdjudication _ _ _ assertionRef =>
    inferInstanceAs (Decidable (Fresh assertionRef σ))
  | .reconcile _ _ | .sweepExpired _ _ | .sweepOrphan _ _ | .appendEdge _ => .isTrue trivial

/-- One after another, with new identifiers and no port call that fails. -/
def Smooth (eng : Engine) (σ : Store) : List Ended → Prop
  | [] => True
  | e :: es =>
    Minted σ e.op ∧ alone eng σ e = (planOf eng σ e.op).run .none σ ∧
      Smooth eng (alone eng σ e).2 es

theorem run_ties {α : Type} (faults : Faults) (σ : Store) (p : Planned α) :
    (p.run faults σ).2.ties = σ.ties := by
  cases p with
  | answered _ => rfl
  | write appends after result =>
    cases htransact : transact faults σ appends with
    | error _ => simp only [Planned.run, htransact]
    | ok committed =>
      obtain ⟨_, rfl⟩ := transact_eq_ok_iff.mp htransact
      simp only [Planned.run, htransact]
      exact (congrArg Store.ties (finish_congr rfl).2).trans 
        (PlannedWrites.writeAll_appends σ appends).ties

instance (eng : Engine) (σ : Store) (e : Ended) :
    Decidable (alone eng σ e = (planOf eng σ e.op).run .none σ) :=
  have hties := (run_ties e.faults σ (planOf eng σ e.op)).trans
    (run_ties .none σ (planOf eng σ e.op)).symm
  @decidable_of_iff' _ _ Prod.ext_iff
    (@instDecidableAnd _ _ inferInstance (Store.decEqOfTies hties))

instance (eng : Engine) (σ : Store) (es : List Ended) : Decidable (Smooth eng σ es) := by
  induction es generalizing σ with
  | nil => exact .isTrue trivial
  | cons e es ih =>
    exact @instDecidableAnd _ _ inferInstance (@instDecidableAnd _ _ inferInstance (ih _))

theorem replay_reachable {es : List Ended} {σ : Store} (hσ : Reachable eng σ)
    (hhonest : Honest eng σ es) (hsmooth : Smooth eng σ es) : Reachable eng (replay eng σ es) := by
  induction es generalizing σ with
  | nil => exact hσ
  | cons e es ih =>
    obtain ⟨hbacked, _, hrest⟩ := hhonest
    obtain ⟨hminted, hclean, hsmooth⟩ := hsmooth
    refine ih (.step hσ (i := e.op) ⟨?_, ?_⟩) hrest hsmooth
    · revert hbacked hminted
      cases e.op with
      | ingestClaim _ _ _ _ | assertValidity _ _ _ => exact fun _ hminted => hminted
      | submitAdjudication _ _ _ _ => exact fun _ hminted => hminted
      | reconcile _ _ | sweepOrphan _ _ | appendEdge _ => exact fun _ _ => trivial
      | sweepExpired row now => exact fun hbacked _ => hbacked.2
    · exact (congrArg Prod.snd hclean).trans (planOf_run eng σ e.op)

/-- So what holds of every store that operations reach one at a time holds between the use
    cases of interleaved calls. -/
theorem quiet_store_reachable {ties : TieOrder LedgerEntry}
    (h : Reached true eng (.empty ties) s) (hquiet : s.shared.running = [])
    (hsmooth : Smooth eng (.empty ties) s.shared.ended) : Reachable eng s.shared.store := by
  obtain ⟨hstore, hhonest⟩ := serialized_store_replays distinctHandles_empty h hquiet
  rw [hstore]
  exact replay_reachable (.init (Store.new_empty ties)) hhonest hsmooth

theorem three_calls_reachable : ∃ s, Reached true (defaultEngine true) Store.sqlite s ∧
    s.shared.ended.length = 3 ∧ Reachable (defaultEngine true) s.shared.store := by
  obtain ⟨s, hs, hp⟩ := exists_reached true threeCalls allMoves
    (fun s => decide (s.shared.running = [] ∧ s.shared.ended.length = 3 ∧
      Smooth (defaultEngine true) Store.sqlite s.shared.ended)) (by decide +kernel)
  obtain ⟨hquiet, hlength, hsmooth⟩ := of_decide_eq_true hp
  exact ⟨s, hs, hlength, quiet_store_reachable hs hquiet hsmooth⟩

end Refinement

end Mempill.HandleRuns
