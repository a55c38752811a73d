/-
Scenarios: a panel is set up and taken through steps, each a command or a
stretch of time. Every step is reported with its outcome, with what listeners
wrote down meanwhile, and with the notes in the journal up to a level; the
notes of the setup come with the first step.
-/
import MachinePanel.Scenario.Perform

namespace MachinePanel.Scenario

/-- A step of a scenario. -/
inductive Step where
  | command (c : Command)
  | advance (ms : Nat)

/-- A scenario. -/
structure Script where
  setup : Setup := {}
  /-- The deepest level of notes to report. -/
  level : Option Level := none
  steps : List Step := []

/-- What a step led to. -/
structure Report where
  outcome : Outcome
  entries : List Entry
  notes : List Note

/-- The listener calls with actions that a step can lead to. -/
def Step.calls : Step → Nat
  | command c => c.calls
  | advance _ => 0

/-- How deep reactions can be nested: each level is a call that carries out
actions, so there are no more levels than such calls, and one for the emission
that starts it all. -/
def Script.depth (script : Script) : Nat :=
  script.steps.foldr (fun step n => step.calls + n) 1

/-- Carries out a step. -/
def Step.perform (react : Reaction Listener Memory) (step : Step) (s : Stage) : Outcome × Stage :=
  match step with
  | command c => Scenario.perform react c s
  | advance ms => (.answer .done, s.advance react ms)

/-- The report of a step, and the panel with its journal and notebook empty again. -/
def report (level : Option Level) (outcome : Outcome) (s : Stage) : Report × Stage :=
  ({ outcome
     entries := s.memory.entries.toList
     notes := s.journal.toList.filter fun n => level.any (·.includes n.level) },
    { s with journal := #[], memory := { s.memory with entries := #[] } })

/-- Carries out steps one after the other. -/
def runSteps (react : Reaction Listener Memory) (level : Option Level) :
    List Step → Stage → List Report
  | [], _ => []
  | step :: steps, s =>
    let (outcome, s) := step.perform react s
    let (r, s) := report level outcome s
    r :: runSteps react level steps s

/-- Runs a scenario. -/
def run (script : Script) : List Report :=
  runSteps (reaction script.depth) script.level script.steps (Panel.new script.setup {})

end MachinePanel.Scenario
