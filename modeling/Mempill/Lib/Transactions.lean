import Mempill.Lib.LockedTasks

set_option autoImplicit false

/-!
# Exclusive transactions

Clients of one database. Each has a program, which chooses statements from what it finds at the
start of its transaction, runs them on a copy that the commit puts in place, and tries again when
the database is busy, a bounded number of times. At most one transaction is open, and other
writers come between transactions.
-/
namespace Transactions
open Transition

variable {D S E : Type}

/-- What a client does, chosen from what it finds. -/
abbrev Program (D S : Type) := D → List S

structure Protocol (D S E : Type) where
  exec : S → D → Except E D
  /-- The programs that clients come with. -/
  offered : Program D S → Prop
  busy : E → Bool
  attempts : ℕ

inductive Client (D S E : Type) where
  | waiting (attempt : ℕ) (program : Program D S)
  | running (attempt : ℕ) (program : Program D S) (staged : D) (rest : List S)
  | finished (program : Program D S)
  | failed (attempt : ℕ) (error : E)

structure State (D S E : Type) where
  committed : D
  clients : List (Client D S E)

inductive Label (D S E : Type) where
  | join (program : Program D S)
  | begin (i : ℕ)
  | exec (i : ℕ)
  | commit (i : ℕ)
  /-- An error from outside the statements: while waiting, in the transaction or at its
      commit. -/
  | fault (i : ℕ) (error : E)
  | write (committed : D)

def Client.isRunning : Client D S E → Bool
  | running _ _ _ _ => true
  | _ => false

def Client.isFinished : Client D S E → Bool
  | finished _ => true
  | _ => false

/-- No write transaction is open. -/
def State.Idle (s : State D S E) : Prop := s.clients.all (!·.isRunning) = true

instance (s : State D S E) : Decidable s.Idle := inferInstanceAs (Decidable (_ = true))

def State.set (s : State D S E) (i : ℕ) (client : Client D S E) : State D S E :=
  { s with clients := s.clients.set i client }

/-- The statements one after another, up to the first error. -/
def runAll (exec : S → D → Except E D) (statements : List S) (d : D) : Except E D :=
  statements.foldlM (fun d s => exec s d) d

namespace Protocol

variable (P : Protocol D S E)

/-- An error ends the transaction, and what it staged is gone. -/
def after (attempt : ℕ) (program : Program D S) (error : E) : Client D S E :=
  if attempt < P.attempts ∧ P.busy error = true then .waiting (attempt + 1) program
  else .failed attempt error

def next (s : State D S E) : Label D S E → Option (State D S E)
  | .join program => some { s with clients := s.clients ++ [.waiting 1 program] }
  | .begin i =>
    match s.clients[i]? with
    | some (.waiting n program) =>
      if s.Idle then some (s.set i (.running n program s.committed (program s.committed))) else none
    | _ => none
  | .exec i =>
    match s.clients[i]? with
    | some (.running n program staged (statement :: rest)) =>
      match P.exec statement staged with
      | .ok staged' => some (s.set i (.running n program staged' rest))
      | .error error => some (s.set i (P.after n program error))
    | _ => none
  | .commit i =>
    match s.clients[i]? with
    | some (.running _ program staged []) => some ⟨staged, s.clients.set i (.finished program)⟩
    | _ => none
  | .fault i error =>
    match s.clients[i]? with
    | some (.waiting n program) | some (.running n program _ _) =>
      some (s.set i (P.after n program error))
    | _ => none
  | .write d => if s.Idle then some { s with committed := d } else none

/-- A step. What other writers may do is a parameter. -/
inductive Step (W : D → D → Prop) : State D S E → Label D S E → State D S E → Prop
  | join {s : State D S E} {program : Program D S} : P.offered program →
      Step W s (.join program) { s with clients := s.clients ++ [.waiting 1 program] }
  | begin {s : State D S E} {i n : ℕ} {program : Program D S} :
      s.clients[i]? = some (.waiting n program) → s.Idle →
      Step W s (.begin i) (s.set i (.running n program s.committed (program s.committed)))
  | exec {s : State D S E} {i n : ℕ} {program : Program D S} {staged staged' : D} {statement : S}
      {rest : List S} : s.clients[i]? = some (.running n program staged (statement :: rest)) →
      P.exec statement staged = .ok staged' →
      Step W s (.exec i) (s.set i (.running n program staged' rest))
  | reject {s : State D S E} {i n : ℕ} {program : Program D S} {staged : D} {statement : S}
      {rest : List S} {error : E} :
      s.clients[i]? = some (.running n program staged (statement :: rest)) →
      P.exec statement staged = .error error →
      Step W s (.exec i) (s.set i (P.after n program error))
  | commit {s : State D S E} {i n : ℕ} {program : Program D S} {staged : D} :
      s.clients[i]? = some (.running n program staged []) →
      Step W s (.commit i) ⟨staged, s.clients.set i (.finished program)⟩
  | refuse {s : State D S E} {i n : ℕ} {program : Program D S} {error : E} :
      s.clients[i]? = some (.waiting n program) →
      Step W s (.fault i error) (s.set i (P.after n program error))
  | rollback {s : State D S E} {i n : ℕ} {program : Program D S} {staged : D} {rest : List S}
      {error : E} : s.clients[i]? = some (.running n program staged rest) →
      Step W s (.fault i error) (s.set i (P.after n program error))
  | write {s : State D S E} {d : D} : s.Idle → W s.committed d →
      Step W s (.write d) { s with committed := d }

end Protocol

variable {P : Protocol D S E} {W : D → D → Prop} {s s' : State D S E} {label : Label D S E}

/-- The labels of clients alone, with programs that are offered. -/
def Label.Offered (P : Protocol D S E) : Label D S E → Prop
  | join program => P.offered program
  | write _ => False
  | _ => True

theorem step_of_next (h : P.next s label = some s') (hoffered : label.Offered P) :
    P.Step W s label s' := by
  cases label with
  | join program => cases h; exact .join hoffered
  | begin i =>
    rw [Protocol.next] at h
    split at h
    · rename_i hget
      split_ifs at h with hidle
      cases h
      exact .begin hget hidle
    · cases h
  | exec i =>
    rw [Protocol.next] at h
    split at h
    · rename_i hget
      split at h
      · rename_i hexec
        cases h
        exact .exec hget hexec
      · rename_i hexec
        cases h
        exact .reject hget hexec
    · cases h
  | commit i =>
    rw [Protocol.next] at h
    split at h
    · rename_i hget
      cases h
      exact .commit hget
    · cases h
  | fault i error =>
    rw [Protocol.next] at h
    split at h
    · rename_i hget
      cases h
      exact .refuse hget
    · rename_i hget
      cases h
      exact .rollback hget
    · cases h
  | write d => cases hoffered

section Soundness

theorem runAll_cons {exec : S → D → Except E D} (statement : S) (rest : List S) (d : D) :
    runAll exec (statement :: rest) d = exec statement d >>= runAll exec rest := List.foldlM_cons

theorem runAll_append {exec : S → D → Except E D} (past rest : List S) (d : D) :
    runAll exec (past ++ rest) d = runAll exec past d >>= runAll exec rest := List.foldlM_append

/-- What each statement keeps, all of them keep. -/
theorem runAll_preserves {exec : S → D → Except E D} {R : D → D → Prop} (hrefl : ∀ d, R d d)
    (htrans : ∀ d e f, R d e → R e f → R d f)
    {statements : List S}
    (hexec : ∀ statement ∈ statements, ∀ d d', exec statement d = .ok d' → R d d')
    {d d' : D} (h : runAll exec statements d = .ok d') : R d d' := by
  induction statements generalizing d with
  | nil =>
    injection h with h
    exact h ▸ hrefl d
  | cons statement rest ih =>
    rw [runAll_cons] at h
    cases hstep : exec statement d with
    | error error => rw [hstep] at h; cases h
    | ok e =>
      rw [hstep] at h
      have hrest := ih (fun later hmem => hexec later (List.mem_cons_of_mem _ hmem)) h
      exact htrans d e d' (hexec statement List.mem_cons_self d e hstep) hrest

/-- The attempts a client may have made, and what its transaction stands on. -/
def Client.Sound (P : Protocol D S E) (committed : D) : Client D S E → Prop
  | waiting n program => P.offered program ∧ 1 ≤ n ∧ n ≤ P.attempts
  | running n program staged rest => P.offered program ∧ 1 ≤ n ∧ n ≤ P.attempts ∧
      ∃ past, program committed = past ++ rest ∧ runAll P.exec past committed = .ok staged
  | finished _ => True
  | failed n error => 1 ≤ n ∧ n ≤ P.attempts ∧ (P.busy error = true → n = P.attempts)

structure Inv (P : Protocol D S E) (s : State D S E) : Prop where
  alone : s.clients.countP Client.isRunning ≤ 1
  sound : ∀ client ∈ s.clients, client.Sound P s.committed

theorem sound_after {n : ℕ} {program : Program D S} (hoffered : P.offered program) (hone : 1 ≤ n)
    (hle : n ≤ P.attempts) (error : E) (committed : D) :
    (P.after n program error).Sound P committed := by
  rw [Protocol.after]
  split_ifs with h
  · exact ⟨hoffered, by omega, h.1⟩
  · refine ⟨hone, hle, fun hbusy => ?_⟩
    have hmax : ¬ n < P.attempts := fun hlt => h ⟨hlt, hbusy⟩
    omega

theorem not_running_after (n : ℕ) (program : Program D S) (error : E) :
    (P.after n program error).isRunning = false := by
  rw [Protocol.after]
  split_ifs <;> rfl

theorem Client.Sound.congr {client : Client D S E} {d d' : D} (h : client.Sound P d)
    (hrest : client.isRunning = false) : client.Sound P d' := by
  cases client with
  | running _ _ _ _ => cases hrest
  | waiting _ _ | finished _ | failed _ _ => exact h

theorem idle_iff : s.Idle ↔ s.clients.countP Client.isRunning = 0 := by
  rw [State.Idle, List.all_eq_true, List.countP_eq_zero]
  simp

theorem State.Idle.rest (h : s.Idle) {client : Client D S E} (hmem : client ∈ s.clients) :
    client.isRunning = false := by
  have := List.all_eq_true.mp h client hmem
  rwa [Bool.not_eq_true'] at this

theorem countP_set_eq {i : ℕ} {old : Client D S E} (new : Client D S E)
    (hget : s.clients[i]? = some old) :
    (s.clients.set i new).countP Client.isRunning + (if old.isRunning then 1 else 0) =
      s.clients.countP Client.isRunning + if new.isRunning then 1 else 0 := by
  obtain ⟨hlt, rfl⟩ := List.getElem?_eq_some_iff.mp hget
  rw [List.countP_set hlt]
  by_cases hold : s.clients[i].isRunning = true
  · have hpos : 0 < s.clients.countP Client.isRunning :=
      List.countP_pos_iff.mpr ⟨_, List.getElem_mem hlt, hold⟩
    rw [if_pos hold]
    omega
  · rw [if_neg hold]
    omega

theorem Inv.set (h : Inv P s) {i : ℕ} {old new : Client D S E} (hget : s.clients[i]? = some old)
    (hrunning : new.isRunning = true → old.isRunning = true ∨ s.Idle)
    (hsound : new.Sound P s.committed) : Inv P (s.set i new) where
  alone := by
    have hcount := countP_set_eq new hget
    have halone := h.alone
    change (s.clients.set i new).countP Client.isRunning ≤ 1
    by_cases hnew : new.isRunning = true
    · rcases hrunning hnew with hold | hidle
      · rw [if_pos hnew, if_pos hold] at hcount
        omega
      · have hzero := idle_iff.mp hidle
        rw [if_pos hnew] at hcount
        omega
    · rw [if_neg hnew] at hcount
      omega
  sound := by
    intro client hmem
    rcases List.mem_or_eq_of_mem_set hmem with hmem | rfl
    · exact h.sound client hmem
    · exact hsound

theorem Inv.get (h : Inv P s) {i : ℕ} {client : Client D S E}
    (hget : s.clients[i]? = some client) : client.Sound P s.committed :=
  h.sound client (List.mem_of_getElem? hget)

/-- When the running client gives up its place, no transaction is open. -/
theorem Inv.rest_of_set (h : Inv P s) {i : ℕ} {old : Client D S E} (new : Client D S E)
    (hget : s.clients[i]? = some old) (hold : old.isRunning = true)
    (hnew : new.isRunning = false) {client : Client D S E} (hmem : client ∈ s.clients.set i new) :
    client.isRunning = false := by
  have hcount := countP_set_eq new hget
  have halone := h.alone
  rw [if_pos hold, hnew, if_neg Bool.false_ne_true] at hcount
  have hzero : (s.clients.set i new).countP Client.isRunning = 0 := by omega
  exact Bool.eq_false_iff.mpr (List.countP_eq_zero.mp hzero client hmem)

theorem Inv.step (hattempts : 1 ≤ P.attempts) (h : Inv P s) (hstep : P.Step W s label s') :
    Inv P s' := by
  cases hstep with
  | join hoffered =>
    refine ⟨?_, fun client hmem => ?_⟩
    · have halone := h.alone
      rw [List.countP_append]
      exact halone
    · rcases List.mem_append.mp hmem with hmem | hmem
      · exact h.sound client hmem
      · rw [List.mem_singleton.mp hmem]
        exact ⟨hoffered, le_rfl, hattempts⟩
  | begin hget hidle =>
    obtain ⟨hoffered, hone, hle⟩ := h.get hget
    exact h.set hget (fun _ => .inr hidle) ⟨hoffered, hone, hle, [], rfl, rfl⟩
  | @exec i n program staged staged' statement rest hget hexec =>
    obtain ⟨hoffered, hone, hle, past, hpast, hrun⟩ := h.get hget
    refine h.set hget (fun _ => .inl rfl) ⟨hoffered, hone, hle, past ++ [statement], ?_, ?_⟩
    · rw [hpast, List.append_assoc]
      rfl
    · rw [runAll_append, hrun]
      change runAll P.exec [statement] staged = .ok staged'
      rw [runAll_cons, hexec]
      rfl
  | reject hget hexec =>
    obtain ⟨hoffered, hone, hle, _⟩ := h.get hget
    exact h.set hget (fun hrun => by rw [not_running_after] at hrun; cases hrun)
      (sound_after hoffered hone hle _ _)
  | @commit i n program staged hget =>
    have hrest : ∀ client ∈ s.clients.set i (.finished program), client.isRunning = false :=
      fun client hmem => h.rest_of_set (.finished program) hget rfl rfl hmem
    refine ⟨?_, fun client hmem => ?_⟩
    · rw [List.countP_eq_zero.mpr fun client hmem => Bool.eq_false_iff.mp (hrest client hmem)]
      exact Nat.zero_le 1
    · rcases List.mem_or_eq_of_mem_set hmem with hold | rfl
      · exact (h.sound client hold).congr (hrest client hmem)
      · trivial
  | refuse hget =>
    obtain ⟨hoffered, hone, hle⟩ := h.get hget
    exact h.set hget (fun hrun => by rw [not_running_after] at hrun; cases hrun)
      (sound_after hoffered hone hle _ _)
  | rollback hget =>
    obtain ⟨hoffered, hone, hle, _⟩ := h.get hget
    exact h.set hget (fun hrun => by rw [not_running_after] at hrun; cases hrun)
      (sound_after hoffered hone hle _ _)
  | write hidle _ =>
    exact ⟨h.alone, fun client hmem => (h.sound client hmem).congr (hidle.rest hmem)⟩

end Soundness

section Rules

/-- From a database without clients. -/
abbrev Protocol.Reached (P : Protocol D S E) (W : D → D → Prop) (d₀ : D) : State D S E → Prop :=
  Reach (· = ⟨d₀, []⟩) (P.Step W)

variable {d₀ : D} {I Q : D → Prop} {R : D → D → Prop}

theorem inv_of_reached (hattempts : 1 ≤ P.attempts) (h : P.Reached W d₀ s) : Inv P s := by
  refine h.invariant (fun s hs => ?_) fun s label t _ hs hstep => hs.step hattempts hstep
  subst hs
  exact ⟨Nat.zero_le 1, fun _ hmem => by cases hmem⟩

/-- What a program makes of a database, when it runs alone. -/
def Protocol.Runs (P : Protocol D S E) (program : Program D S) (d d' : D) : Prop :=
  P.offered program ∧ runAll P.exec (program d) d = .ok d'

theorem runs_of_commit (hinv : Inv P s) {i n : ℕ} {program : Program D S} {staged : D}
    (hget : s.clients[i]? = some (.running n program staged [])) :
    P.Runs program s.committed staged := by
  obtain ⟨hoffered, _, _, past, hpast, hrun⟩ := hinv.get hget
  rw [List.append_nil] at hpast
  exact ⟨hoffered, by rw [hpast]; exact hrun⟩

/-- What a step does to the database: nothing, what another writer does, or one whole program. -/
theorem committed_cases (hinv : Inv P s) (h : P.Step W s label s') :
    s'.committed = s.committed ∨ W s.committed s'.committed ∨
      ∃ program, P.Runs program s.committed s'.committed := by
  cases h with
  | commit hget => exact .inr (.inr ⟨_, runs_of_commit hinv hget⟩)
  | write _ hwrite => exact .inr (.inl hwrite)
  | join _ | begin _ _ | exec _ _ | reject _ _ | refuse _ | rollback _ => exact .inl rfl

/-- A relation that writers and whole programs respect holds along every run. -/
theorem related_of_run (hattempts : 1 ≤ P.attempts) (hrefl : ∀ d, R d d)
    (htrans : ∀ d e f, R d e → R e f → R d f) (hwrite : ∀ d d', W d d' → R d d')
    (hprogram : ∀ program d d', P.Runs program d d' → R d d') (hinv : Inv P s)
    {labels : List (Label D S E)} (h : Run (P.Step W) s labels s') :
    R s.committed s'.committed := by
  have hboth : Inv P s' ∧ R s.committed s'.committed := by
    refine h.preserves (P := fun s' => Inv P s' ∧ R s.committed s'.committed)
      ⟨hinv, hrefl _⟩ fun u label v hu hstep => ?_
    refine ⟨hu.1.step hattempts hstep, htrans _ _ _ hu.2 ?_⟩
    rcases committed_cases hu.1 hstep with heq | hw | ⟨program, hruns⟩
    · rw [heq]
      exact hrefl _
    · exact hwrite _ _ hw
    · exact hprogram program _ _ hruns
  exact hboth.2

/-- What other writers and whole programs leave as it is. -/
structure Lasting (P : Protocol D S E) (W : D → D → Prop) (I : D → Prop) : Prop where
  write : ∀ d d', I d → W d d' → I d'
  program : ∀ program d d', I d → P.Runs program d d' → I d'

theorem Lasting.step (hlast : Lasting P W I) (hinv : Inv P s) (hI : I s.committed)
    (h : P.Step W s label s') : I s'.committed := by
  rcases committed_cases hinv h with heq | hw | ⟨program, hruns⟩
  · rwa [heq]
  · exact hlast.write _ _ hI hw
  · exact hlast.program program _ _ hI hruns

theorem Lasting.committed (hlast : Lasting P W I) (hattempts : 1 ≤ P.attempts) (hstart : I d₀)
    (h : P.Reached W d₀ s) : I s.committed :=
  h.invariant (P := fun s => I s.committed) (fun _ hs => hs ▸ hstart)
    fun _ _ _ hs hI hstep => hlast.step (inv_of_reached hattempts hs) hI hstep

theorem not_finished_after (n : ℕ) (program : Program D S) (error : E) :
    (P.after n program error).isFinished = false := by
  rw [Protocol.after]
  split_ifs <;> rfl

/-- What every program achieves, and nothing undoes, holds once a client is through. -/
theorem Lasting.achieved (hlast : Lasting P W I) (hattempts : 1 ≤ P.attempts) (hstart : I d₀)
    (hwrite : ∀ d d', Q d → W d d' → Q d')
    (hprogram : ∀ program d d', I d → P.Runs program d d' → Q d')
    (h : P.Reached W d₀ s) {client : Client D S E} (hmem : client ∈ s.clients)
    (hfinished : client.isFinished = true) : Q s.committed := by
  refine h.invariant
    (P := fun s => ∀ client ∈ s.clients, client.isFinished = true → Q s.committed)
    (fun s hs client hmem _ => ?_) (fun s label t hs hQ hstep client hmem hfinished => ?_)
    client hmem hfinished
  · subst hs
    cases hmem
  have hinv := inv_of_reached hattempts hs
  cases hstep with
  | join _ =>
    rcases List.mem_append.mp hmem with hmem | hmem
    · exact hQ client hmem hfinished
    · rw [List.mem_singleton.mp hmem] at hfinished
      cases hfinished
  | commit hget =>
    exact hprogram _ _ _ (hlast.committed hattempts hstart hs) (runs_of_commit hinv hget)
  | write _ hw => exact hwrite _ _ (hQ client hmem hfinished) hw
  | begin _ _ | exec _ _ =>
    rcases List.mem_or_eq_of_mem_set hmem with hold | rfl
    · exact hQ client hold hfinished
    · cases hfinished
  | reject _ _ | refuse _ | rollback _ =>
    rcases List.mem_or_eq_of_mem_set hmem with hold | rfl
    · exact hQ client hold hfinished
    · rw [not_finished_after] at hfinished
      cases hfinished

/-- Every program that is offered succeeds. -/
def Protocol.Succeeds (P : Protocol D S E) (d : D) : Prop :=
  ∀ program, P.offered program → ∃ d', runAll P.exec (program d) d = .ok d'

/-- Where whole programs succeed, so does each statement when its turn comes. -/
theorem exec_ok_of_running (hinv : Inv P s) (hsucceeds : P.Succeeds s.committed) {i n : ℕ}
    {program : Program D S} {staged : D} {statement : S} {rest : List S}
    (hget : s.clients[i]? = some (.running n program staged (statement :: rest))) :
    ∃ staged', P.exec statement staged = .ok staged' := by
  obtain ⟨hoffered, _, _, past, hpast, hrun⟩ := hinv.get hget
  obtain ⟨d, hd⟩ := hsucceeds program hoffered
  rw [hpast, runAll_append, hrun] at hd
  change runAll P.exec (statement :: rest) staged = .ok d at hd
  rw [runAll_cons] at hd
  cases hexec : P.exec statement staged with
  | ok staged' => exact ⟨staged', rfl⟩
  | error error => rw [hexec] at hd; cases hd

end Rules

section Serialization

/-- Programs one after another, each alone. -/
inductive Protocol.Serial (P : Protocol D S E) : D → List (Program D S) → D → Prop
  | nil (d : D) : Serial P d [] d
  | concat {d e f : D} {programs : List (Program D S)} {program : Program D S} :
      Serial P d programs e → P.Runs program e f → Serial P d (programs ++ [program]) f

/-- The program that a client has brought through. -/
def Client.done : Client D S E → Option (Program D S)
  | finished program => some program
  | _ => none

theorem done_eq_none {client : Client D S E} (h : client.isFinished = false) :
    client.done = none := by
  cases client with
  | finished _ => cases h
  | waiting _ _ | running _ _ _ _ | failed _ _ => rfl

/-- A client in the list is replaced: the order of the results aside, so is its result. -/
theorem filterMap_set_perm {α β : Type} (f : α → Option β) {xs : List α} {i : ℕ} {old : α}
    (new : α) (hget : xs[i]? = some old) (hold : f old = none) :
    ((xs.set i new).filterMap f).Perm (xs.filterMap f ++ (f new).toList) := by
  obtain ⟨hlt, rfl⟩ := List.getElem?_eq_some_iff.mp hget
  have hsplit : xs = xs.take i ++ xs[i] :: xs.drop (i + 1) := by
    rw [List.getElem_cons_drop, List.take_append_drop]
  have hxs : xs.filterMap f = (xs.take i).filterMap f ++ (xs.drop (i + 1)).filterMap f := by
    conv_lhs => rw [hsplit]
    rw [List.filterMap_append, List.filterMap_cons_none hold]
  rw [List.set_eq_take_append_cons_drop, if_pos hlt, List.filterMap_append, hxs, List.append_assoc]
  refine List.Perm.append_left _ ?_
  cases hnew : f new with
  | none => rw [List.filterMap_cons_none hnew, Option.toList_none, List.append_nil]
  | some b =>
    rw [List.filterMap_cons_some hnew, Option.toList_some]
    exact (List.perm_append_singleton b _).symm

theorem done_set_perm {clients : List (Client D S E)} {i : ℕ} {old new : Client D S E}
    (hget : clients[i]? = some old) (hold : old.isFinished = false)
    (hnew : new.isFinished = false) :
    (clients.filterMap Client.done).Perm ((clients.set i new).filterMap Client.done) := by
  have hset := filterMap_set_perm Client.done new hget (done_eq_none hold)
  rw [done_eq_none hnew, Option.toList_none, List.append_nil] at hset
  exact hset.symm

/-- The committed database is what the programs of the clients that are through make of the
    first one after another, in some order: none is lost, none counts twice, and nothing else
    is there. -/
theorem serial_of_reached (hattempts : 1 ≤ P.attempts) {d₀ : D}
    (h : P.Reached (fun _ _ => False) d₀ s) :
    ∃ programs, programs.Perm (s.clients.filterMap Client.done) ∧
      P.Serial d₀ programs s.committed := by
  refine h.invariant (P := fun s => ∃ programs, programs.Perm (s.clients.filterMap Client.done) ∧
    P.Serial d₀ programs s.committed) (fun s hs => ?_) fun s label t hs hprograms hstep => ?_
  · subst hs
    exact ⟨[], .nil, .nil d₀⟩
  obtain ⟨programs, hperm, hserial⟩ := hprograms
  cases hstep with
  | join _ =>
    refine ⟨programs, ?_, hserial⟩
    rw [List.filterMap_append]
    exact hperm.trans (by rw [List.filterMap_cons_none rfl, List.filterMap_nil, List.append_nil])
  | @commit i n program staged hget =>
    refine ⟨programs ++ [program], ?_,
      hserial.concat (runs_of_commit (inv_of_reached hattempts hs) hget)⟩
    exact (hperm.append_right _).trans
      (filterMap_set_perm Client.done (.finished program) hget rfl).symm
  | begin hget _ | exec hget _ =>
    exact ⟨programs, hperm.trans (done_set_perm hget rfl rfl), hserial⟩
  | reject hget _ | refuse hget | rollback hget =>
    exact ⟨programs, hperm.trans (done_set_perm hget rfl (not_finished_after _ _ _)), hserial⟩
  | write _ hfalse => cases hfalse

end Serialization

section Execution

def Protocol.play (P : Protocol D S E) (labels : List (Label D S E)) (s : State D S E) :
    Option (State D S E) :=
  labels.foldlM P.next s

theorem run_of_play {labels : List (Label D S E)} (h : P.play labels s = some s')
    (hoffered : ∀ label ∈ labels, label.Offered P) : Run (P.Step W) s labels s' := by
  induction labels generalizing s with
  | nil =>
    injection h with h
    exact h ▸ .nil s
  | cons label labels ih =>
    rw [Protocol.play, List.foldlM_cons] at h
    obtain ⟨t, hnext, hrest⟩ := Option.bind_eq_some_iff.mp h
    exact .cons (step_of_next hnext (hoffered label List.mem_cons_self))
      (ih hrest fun later hmem => hoffered later (List.mem_cons_of_mem _ hmem))

theorem exists_reached (d₀ : D) (labels : List (Label D S E))
    (hoffered : ∀ label ∈ labels, label.Offered P) (p : State D S E → Bool)
    (h : (P.play labels ⟨d₀, []⟩).any p = true) : ∃ s, P.Reached W d₀ s ∧ p s = true := by
  obtain ⟨s, hplay, hp⟩ := (Option.any_eq_true _ _).mp h
  exact ⟨s, (run_of_play hplay hoffered).reach (.init rfl), hp⟩

end Execution

section Termination

/-- The steps that clients take: all but a new client and a foreign write. -/
def Label.own : Label D S E → Bool
  | join _ | write _ => false
  | _ => true

def Label.isFault : Label D S E → Bool
  | fault _ _ => true
  | _ => false

/-- The attempts left, whether a transaction has still to begin, and its statements left. -/
def Client.left (P : Protocol D S E) : Client D S E → ℕ × ℕ × ℕ
  | waiting n _ => (P.attempts - n + 1, 1, 0)
  | running n _ _ rest => (P.attempts - n + 1, 0, rest.length)
  | finished _ | failed _ _ => (0, 0, 0)

def Client.Before (P : Protocol D S E) : Client D S E → Client D S E → Prop :=
  InvImage (Prod.Lex (· < ·) (Prod.Lex (· < ·) (· < ·))) (Client.left P)

theorem before_wellFounded : WellFounded (Client.Before P) :=
  InvImage.wf _ (Nat.lt_wfRel.wf.prod_lex (Nat.lt_wfRel.wf.prod_lex Nat.lt_wfRel.wf))

theorem before_after (n : ℕ) (program : Program D S) (error : E) {client : Client D S E}
    (hclient : (client.left P).1 = P.attempts - n + 1) :
    Client.Before P (P.after n program error) client := by
  refine Prod.lex_def.mpr (.inl ?_)
  rw [hclient, Protocol.after]
  split_ifs with h
  · change P.attempts - (n + 1) + 1 < P.attempts - n + 1
    omega
  · exact Nat.succ_pos _

theorem oneDown_of_step (h : P.Step W s label s') (hown : label.own = true) :
    LockedTasks.OneDown (Client.Before P) s'.clients s.clients := by
  cases h with
  | join _ => cases hown
  | write _ _ => cases hown
  | @begin i n program hget _ =>
    refine ⟨i, _, _, hget, ?_, rfl⟩
    exact Prod.lex_def.mpr (.inr ⟨rfl, Prod.lex_def.mpr (.inl Nat.zero_lt_one)⟩)
  | @exec i n program staged staged' statement rest hget _ =>
    refine ⟨i, _, _, hget, ?_, rfl⟩
    exact Prod.lex_def.mpr (.inr ⟨rfl, Prod.lex_def.mpr (.inr ⟨rfl, Nat.lt_succ_self _⟩)⟩)
  | @commit i n program staged hget =>
    refine ⟨i, _, _, hget, ?_, rfl⟩
    exact Prod.lex_def.mpr (.inl (Nat.succ_pos _))
  | @reject i _ _ _ _ _ _ hget _ | @rollback i _ _ _ _ _ hget | @refuse i _ _ _ hget =>
    exact ⟨i, _, _, hget, before_after _ _ _ rfl, rfl⟩

/-- However often the database is busy, the clients that are there come to an end. -/
theorem exists_last_step (path : ℕ → State D S E) :
    ∃ n, ∀ label, label.own = true → ¬ P.Step W (path n) label (path (n + 1)) := by
  by_contra! hpath
  obtain ⟨_, ⟨n, rfl⟩, hleast⟩ := (LockedTasks.oneDown_wellFounded
    (before_wellFounded (P := P))).has_min (Set.range fun n => (path n).clients) ⟨_, 0, rfl⟩
  obtain ⟨label, hown, hstep⟩ := hpath n
  exact hleast _ ⟨n + 1, rfl⟩ (oneDown_of_step hstep hown)

def Client.isThrough : Client D S E → Bool
  | finished _ | failed _ _ => true
  | _ => false

/-- While a client is not through, some client can take a step without a fault. -/
theorem exists_step (hsucceeds : P.Succeeds s.committed) (hinv : Inv P s) {client : Client D S E}
    (hmem : client ∈ s.clients) (hrest : client.isThrough = false) :
    ∃ label s', label.own = true ∧ label.isFault = false ∧ P.Step W s label s' := by
  by_cases hidle : s.Idle
  · cases client with
    | waiting n program =>
      obtain ⟨i, hget⟩ := List.getElem?_of_mem hmem
      exact ⟨.begin i, _, rfl, rfl, .begin hget hidle⟩
    | running _ _ _ _ => cases hidle.rest hmem
    | finished _ | failed _ _ => cases hrest
  · have hpos : 0 < s.clients.countP Client.isRunning :=
      Nat.pos_of_ne_zero fun hzero => hidle (idle_iff.mpr hzero)
    obtain ⟨runner, hrunner, hrunning⟩ := List.countP_pos_iff.mp hpos
    obtain ⟨i, hget⟩ := List.getElem?_of_mem hrunner
    cases runner with
    | running n program staged rest =>
      cases rest with
      | nil => exact ⟨.commit i, _, rfl, rfl, .commit hget⟩
      | cons statement rest =>
        obtain ⟨staged', hexec⟩ := exec_ok_of_running hinv hsucceeds hget
        exact ⟨.exec i, _, rfl, rfl, .exec hget hexec⟩
    | waiting _ _ | finished _ | failed _ _ => cases hrunning

def Client.isFailed : Client D S E → Bool
  | failed _ _ => true
  | _ => false

theorem exists_set_alive {clients : List (Client D S E)} {i j : ℕ} {old new : Client D S E}
    (hget : clients[i]? = some old) (hold : old.isFailed = false) (hnew : new.isFailed = false) :
    ∃ client, (clients.set j new)[i]? = some client ∧ client.isFailed = false := by
  by_cases hij : j = i
  · subst hij
    have hlt := (List.getElem?_eq_some_iff.mp hget).1
    exact ⟨new, by rw [List.getElem?_set_self hlt], hnew⟩
  · exact ⟨old, by rw [List.getElem?_set_ne hij, hget], hold⟩

/-- Only a fault fails a client when the programs succeed. -/
theorem alive_step (hsucceeds : P.Succeeds s.committed)
    (hinv : Inv P s) (hstep : P.Step W s label s') (hclean : label.isFault = false) {i : ℕ}
    {client : Client D S E} (hget : s.clients[i]? = some client)
    (halive : client.isFailed = false) :
    ∃ client', s'.clients[i]? = some client' ∧ client'.isFailed = false := by
  cases hstep with
  | join _ =>
    have hlt := (List.getElem?_eq_some_iff.mp hget).1
    exact ⟨client, by rw [List.getElem?_append_left hlt, hget], halive⟩
  | begin _ _ | exec _ _ | commit _ => exact exists_set_alive hget halive rfl
  | reject hrunning hexec =>
    obtain ⟨_, hok⟩ := exec_ok_of_running hinv hsucceeds hrunning
    rw [hexec] at hok
    cases hok
  | refuse _ | rollback _ => cases hclean
  | write _ _ => exact ⟨client, hget, halive⟩

/-- A run without faults that can go no further has brought through every client that had not
    failed before. -/
theorem Lasting.finished_of_stuck {I : D → Prop} (hlast : Lasting P W I)
    (hattempts : 1 ≤ P.attempts)
    (hsucceeds : ∀ d, I d → P.Succeeds d)
    {labels : List (Label D S E)} (hrun : Run (P.Step W) s labels s') (hinv : Inv P s)
    (hI : I s.committed) (hclean : ∀ label ∈ labels, label.isFault = false)
    (hstuck : ∀ label s'', label.own = true → label.isFault = false → ¬ P.Step W s' label s'')
    {i : ℕ} {client : Client D S E} (hget : s.clients[i]? = some client)
    (halive : client.isFailed = false) :
    ∃ program, s'.clients[i]? = some (.finished program) := by
  induction hrun generalizing client with
  | nil s =>
    by_contra hrest
    have hthrough : client.isThrough = false := by
      cases client with
      | finished program => exact absurd ⟨program, hget⟩ hrest
      | failed _ _ => cases halive
      | waiting _ _ | running _ _ _ _ => rfl
    obtain ⟨label, s'', hown, hfree, hstep⟩ :=
      exists_step (W := W) (hsucceeds _ hI) hinv (List.mem_of_getElem? hget) hthrough
    exact hstuck label s'' hown hfree hstep
  | @cons s t u label labels hstep _ ih =>
    obtain ⟨client', hget', halive'⟩ := alive_step (hsucceeds _ hI) hinv hstep
      (hclean label List.mem_cons_self) hget halive
    exact ih (hinv.step hattempts hstep) (hlast.step hinv hI hstep)
      (fun label hmem => hclean label (List.mem_cons_of_mem _ hmem)) hstuck hget' halive'

end Termination

section Families

variable {K : Type} [DecidableEq K]

/-- One database for each key, with transactions that are open at once under different keys. -/
def FamilyStep (P : Protocol D S E) (W : D → D → Prop) (F : K → State D S E)
    (label : K × Label D S E) (F' : K → State D S E) : Prop :=
  ∃ s', P.Step W (F label.1) label.2 s' ∧ F' = Function.update F label.1 s'

def labelsAt (k : K) (labels : List (K × Label D S E)) : List (Label D S E) :=
  (labels.filter fun label => label.1 == k).map Prod.snd

theorem run_at {F F' : K → State D S E} {labels : List (K × Label D S E)}
    (h : Run (FamilyStep P W) F labels F') (k : K) :
    Run (P.Step W) (F k) (labelsAt k labels) (F' k) := by
  induction h with
  | nil F => exact .nil _
  | @cons F G F' label labels hstep _ ih =>
    obtain ⟨s', hstep, rfl⟩ := hstep
    by_cases hk : label.1 = k
    · subst hk
      rw [Function.update_self] at ih
      rw [labelsAt, List.filter_cons_of_pos (by exact beq_self_eq_true _)]
      exact .cons hstep ih
    · rw [Function.update_of_ne (Ne.symm hk)] at ih
      rwa [labelsAt, List.filter_cons_of_neg (by rwa [beq_iff_eq])]

theorem reached_at {F : K → State D S E} {d₀ : D}
    (h : Reach (· = fun _ => ⟨d₀, []⟩) (FamilyStep P W) F) (k : K) : P.Reached W d₀ (F k) := by
  refine h.invariant (P := fun F => P.Reached W d₀ (F k)) (fun F hF => ?_)
    fun F label F' _ hreached hstep => ?_
  · subst hF
    exact .init rfl
  · obtain ⟨s', hstep, rfl⟩ := hstep
    by_cases hk : label.1 = k
    · subst hk
      rw [Function.update_self]
      exact hreached.step hstep
    · rwa [Function.update_of_ne (Ne.symm hk)]

def Protocol.playAt (P : Protocol D S E) (labels : List (K × Label D S E)) (F : K → State D S E) :
    Option (K → State D S E) :=
  labels.foldlM
    (fun F label => (P.next (F label.1) label.2).map fun s' => Function.update F label.1 s') F

theorem run_of_playAt {F F' : K → State D S E} {labels : List (K × Label D S E)}
    (h : P.playAt labels F = some F') (hoffered : ∀ label ∈ labels, label.2.Offered P) :
    Run (FamilyStep P W) F labels F' := by
  induction labels generalizing F with
  | nil =>
    injection h with h
    exact h ▸ .nil F
  | cons label labels ih =>
    rw [Protocol.playAt, List.foldlM_cons] at h
    obtain ⟨G, hnext, hrest⟩ := Option.bind_eq_some_iff.mp h
    obtain ⟨s', hs', rfl⟩ := Option.map_eq_some_iff.mp hnext
    exact .cons ⟨s', step_of_next hs' (hoffered label List.mem_cons_self), rfl⟩
      (ih hrest fun later hmem => hoffered later (List.mem_cons_of_mem _ hmem))

end Families

end Transactions
