import Mempill.Migrations

set_option autoImplicit false

/-!
# Agent files

The file of each agent under one directory, opened by any number of handles of any agents.
Distinct path strings are taken for distinct files, as on a file system that tells upper
from lower case.
-/
namespace Mempill.AgentFiles
open Mempill.Migrations Ddl Transactions Transition

section Path

/-- `Path::join` with a relative path. -/
def joinPath (baseDir name : String) : String :=
  if baseDir = "" ∨ baseDir.toList.getLast? = some '/' then baseDir ++ name
  else baseDir ++ "/" ++ name

def fileSafe (c : Char) : Bool := c.isAlphanum || c == '-' || c == '_'

def fileName (agentId : String) : String := "agent_" ++ agentId ++ ".db"

variable (debug : String → String) (baseDir : String)

/-- The `{:?}` of a string is a parameter. -/
def deriveAgentDbPath (agentId : String) : Except OpenError String :=
  if agentId = "" then .error (.invalidAgentId "agent_id must not be empty")
  else if agentId.toList.all fileSafe = false then
    .error (.invalidAgentId ("agent_id " ++ debug agentId ++
      " contains characters outside [A-Za-z0-9_-]; this restriction guarantees two distinct " ++
      "agent_ids can never normalize to the same database filename"))
  else .ok (joinPath baseDir (fileName agentId))

variable {debug baseDir}

theorem deriveAgentDbPath_eq_ok_iff {agentId path : String} :
    deriveAgentDbPath debug baseDir agentId = .ok path ↔
      agentId ≠ "" ∧ agentId.toList.all fileSafe = true ∧
        path = joinPath baseDir (fileName agentId) := by
  rw [deriveAgentDbPath]
  split_ifs with hempty hforeign
  · exact ⟨fun h => (by cases h), fun h => absurd hempty h.1⟩
  · exact ⟨fun h => (by cases h), fun h => by rw [hforeign] at h; cases h.2.1⟩
  · rw [Bool.not_eq_false] at hforeign
    rw [Except.ok.injEq]
    exact ⟨fun h => ⟨hempty, hforeign, h.symm⟩, fun h => h.2.2.symm⟩

theorem joinPath_inj {name name' : String} (h : joinPath baseDir name = joinPath baseDir name') :
    name = name' := by
  rw [joinPath, joinPath] at h
  split_ifs at h <;> exact (String.append_right_inj _).mp h

theorem fileName_inj {agentId agentId' : String} (h : fileName agentId = fileName agentId') :
    agentId = agentId' :=
  (String.append_right_inj _).mp ((String.append_left_inj _).mp h)

/-- Two agents never share a file. -/
theorem agent_of_path {agentId agentId' path : String}
    (h : deriveAgentDbPath debug baseDir agentId = .ok path)
    (h' : deriveAgentDbPath debug baseDir agentId' = .ok path) : agentId = agentId' := by
  obtain ⟨_, _, hpath⟩ := deriveAgentDbPath_eq_ok_iff.mp h
  obtain ⟨_, _, hpath'⟩ := deriveAgentDbPath_eq_ok_iff.mp h'
  exact fileName_inj (joinPath_inj (hpath.symm.trans hpath'))

/-- The name of an accepted agent stays in the directory. -/
theorem slash_not_mem_fileName {agentId : String} (h : agentId.toList.all fileSafe = true) :
    '/' ∉ (fileName agentId).toList := by
  intro hmem
  rw [fileName, String.toList_append, String.toList_append, List.mem_append,
    List.mem_append] at hmem
  rcases hmem with (hmem | hmem) | hmem
  · exact absurd hmem (by decide)
  · exact absurd (List.all_eq_true.mp h '/' hmem) (by decide)
  · exact absurd hmem (by decide)

end Path

section Files

/-- A file and the handles that open it. -/
abbrev File := State (Database Cell) Statement OpenError

abbrev Files := String → File

abbrev FileLabel := Label (Database Cell) Statement OpenError

/-- What the handles of an agent do, each to the file that its name derives. -/
inductive FileStep (literal : String → Cell) (debug : String → String) (baseDir : String) :
    Files → String × FileLabel → Files → Prop
  | opened {files files' : Files} {agentId path : String} {label : FileLabel} :
      deriveAgentDbPath debug baseDir agentId = .ok path →
      FamilyStep (openProtocol literal) Writes files (path, label) files' →
      FileStep literal debug baseDir files (agentId, label) files'
  | rejected {files : Files} {agentId : String} {error : OpenError} :
      deriveAgentDbPath debug baseDir agentId = .error error →
      FileStep literal debug baseDir files (agentId, opener) files

variable {literal : String → Cell} {debug : String → String} {baseDir : String}
  {files files' : Files} {labels : List (String × FileLabel)}

/-- The steps of the agents as steps of the files. -/
theorem exists_file_run (hrun : Run (FileStep literal debug baseDir) files labels files') :
    ∃ byPath, Run (FamilyStep (openProtocol literal) Writes) files byPath files' ∧
      ∀ agentId path, deriveAgentDbPath debug baseDir agentId = .ok path →
        labelsAt path byPath = labelsAt agentId labels := by
  induction hrun with
  | nil files => exact ⟨[], .nil files, fun _ _ _ => rfl⟩
  | cons hstep _ ih =>
    obtain ⟨byPath, hbyPath, hlabels⟩ := ih
    cases hstep with
    | @opened _ agentId path label hpath hstep =>
      refine ⟨(path, label) :: byPath, .cons hstep hbyPath, fun agentId' path' hpath' => ?_⟩
      have hsame : path = path' ↔ agentId = agentId' := by
        refine ⟨fun heq => agent_of_path hpath (heq ▸ hpath'), fun heq => ?_⟩
        rw [heq, hpath'] at hpath
        injection hpath with hpath
        exact hpath.symm
      have hrest := hlabels agentId' path' hpath'
      rw [labelsAt, labelsAt] at hrest ⊢
      by_cases hagent : agentId = agentId'
      · rw [List.filter_cons_of_pos (by simpa using hsame.mpr hagent),
          List.filter_cons_of_pos (by simpa using hagent), List.map_cons, List.map_cons, hrest]
      · rw [List.filter_cons_of_neg (by simpa using mt hsame.mp hagent),
          List.filter_cons_of_neg (by simpa using hagent), hrest]
    | @rejected agentId error hpath =>
      refine ⟨byPath, hbyPath, fun agentId' path' hpath' => ?_⟩
      have hagent : agentId ≠ agentId' := by
        rintro rfl
        rw [hpath] at hpath'
        cases hpath'
      rw [hlabels agentId' path' hpath', labelsAt, labelsAt,
        List.filter_cons_of_neg (by simpa using hagent)]

/-- Whatever the handles of other agents do, the file of an agent goes the way of its own
    handles alone, it lies in the directory, and a file that is nobody's is left as it is. -/
theorem agent_files_apart (hrun : Run (FileStep literal debug baseDir) files labels files') :
    (∀ agentId path, deriveAgentDbPath debug baseDir agentId = .ok path →
      Run ((openProtocol literal).Step Writes) (files path) (labelsAt agentId labels)
        (files' path) ∧
      path = joinPath baseDir (fileName agentId) ∧ '/' ∉ (fileName agentId).toList) ∧
    ∀ path, (∀ agentId, deriveAgentDbPath debug baseDir agentId ≠ .ok path) →
      files' path = files path := by
  refine ⟨fun agentId path hpath => ?_, fun path hnobody => ?_⟩
  · obtain ⟨_, hsafe, heq⟩ := deriveAgentDbPath_eq_ok_iff.mp hpath
    obtain ⟨byPath, hbyPath, hlabels⟩ := exists_file_run hrun
    refine ⟨?_, heq, slash_not_mem_fileName hsafe⟩
    rw [← hlabels agentId path hpath]
    exact run_at hbyPath path
  · refine hrun.preserves (P := fun files' => files' path = files path) rfl
      fun v label v' hv hstep => ?_
    cases hstep with
    | @opened _ agentId path' label hpath' hstep =>
      obtain ⟨file', _, rfl⟩ := hstep
      have hother : path ≠ path' := fun heq => hnobody agentId (heq ▸ hpath')
      rw [Function.update_of_ne hother, hv]
    | rejected _ => exact hv

/-- Steps of the files as those of the agents whose files they are. -/
theorem run_of_paths (hpaths : ∀ label ∈ labels,
      deriveAgentDbPath debug baseDir label.1 = .ok (joinPath baseDir (fileName label.1)))
    (hrun : Run (FamilyStep (openProtocol literal) Writes) files
      (labels.map fun label => (joinPath baseDir (fileName label.1), label.2)) files') :
    Run (FileStep literal debug baseDir) files labels files' := by
  induction labels generalizing files with
  | nil =>
    cases hrun
    exact .nil _
  | cons label labels ih =>
    cases hrun with
    | cons hstep hrest =>
      exact .cons (.opened (hpaths label List.mem_cons_self) hstep)
        (ih (fun later hmem => hpaths later (List.mem_cons_of_mem _ hmem)) hrest)

/-- A handle opens a new file: it begins, writes the migrations and commits. -/
def opening : List FileLabel :=
  [opener, .begin 0] ++ List.replicate 20 (.exec 0) ++ [.commit 0]

/-- Two agents take turns, each in a transaction of its own. -/
def openings : List (String × FileLabel) :=
  opening.flatMap fun label => [("alice", label), ("bob", label)]

/-- Two agents open their files at the same time, and a third name is refused. -/
theorem alice_opens_alone : ∃ after,
    Run (FileStep .text id "/data") (fun _ => ⟨.empty, []⟩)
      (("../alice", opener) :: openings) after ∧
    (after "/data/agent_alice.db").committed.version = currentSchemaVersion ∧
    (after "/data/agent_bob.db").committed.version = currentSchemaVersion ∧
    Run ((openProtocol .text).Step Writes) ⟨.empty, []⟩ opening
      (after "/data/agent_alice.db") := by
  have hplay : ((openProtocol .text).playAt
      (openings.map fun label => (joinPath "/data" (fileName label.1), label.2))
        fun _ => ⟨.empty, []⟩).any
        (fun after =>
          decide ((after "/data/agent_alice.db").committed.version = currentSchemaVersion) &&
            decide ((after "/data/agent_bob.db").committed.version = currentSchemaVersion)) =
      true := by decide +kernel
  obtain ⟨after, hafter, hversions⟩ := (Option.any_eq_true _ _).mp hplay
  obtain ⟨halice, hbob⟩ := Bool.and_eq_true_iff.mp hversions
  have hopenings : Run (FileStep .text id "/data") (fun _ => ⟨.empty, []⟩) openings after := by
    have hnames : ∀ agentId ∈ ["alice", "bob"],
        agentId ≠ "" ∧ agentId.toList.all fileSafe = true := by decide
    refine run_of_paths (fun label hmem => ?_) (run_of_playAt hafter ?_)
    · have hname : label.1 ∈ ["alice", "bob"] := by
        obtain ⟨_, _, hmem⟩ := List.mem_flatMap.mp hmem
        exact List.mem_map_of_mem (f := Prod.fst) hmem
      obtain ⟨hempty, hsafe⟩ := hnames label.1 hname
      exact deriveAgentDbPath_eq_ok_iff.mpr ⟨hempty, hsafe, rfl⟩
    · simp [openings, opening, opener, Label.Offered, openProtocol]
  have hrun : Run (FileStep .text id "/data") (fun _ => ⟨.empty, []⟩)
      (("../alice", opener) :: openings) after := .cons (.rejected rfl) hopenings
  exact ⟨after, hrun, of_decide_eq_true halice, of_decide_eq_true hbob,
    ((agent_files_apart hrun).1 "alice" "/data/agent_alice.db" rfl).1⟩

end Files

end Mempill.AgentFiles
