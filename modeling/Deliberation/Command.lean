import Deliberation.Document.Format
import Deliberation.Engine.Data

/-!
Command lines. The words of a command name a task and a document, and options change the
configuration that the task runs with.
-/

namespace Deliberation

/-- Why the words are no command. -/
inductive UsageFault where
  | noTask
  | unknownTask (name : String)
  | unknownOption (name : String)
  | noValue (option : String)
  | badValue (option value : String)
  | badGoal (error : ParseError)
  | badAction (error : ParseError)
  | badTarget (error : ScheduleError Float)
  | noFile
  | noActions
  | unexpected (word : String)

def UsageFault.message : UsageFault → String
  | .noTask => "a task is needed: infer, solve, plan, validate, schedule, simulate, sensitivity, evaluate, risks or config"
  | .unknownTask name => s!"unknown task '{name}'"
  | .unknownOption name => s!"unknown option '{name}'"
  | .noValue option => s!"option '{option}' needs a value"
  | .badValue option value => s!"invalid value '{value}' for option '{option}'"
  | .badGoal error => error.message
  | .badAction error => error.message
  | .badTarget error => error.message
  | .noFile => "a file is needed"
  | .noActions => "an action is needed"
  | .unexpected word => s!"unexpected word '{word}'"

/-- What is to be done: a query is put to a document with a changed configuration, or the configuration is
written to a file. -/
inductive Task where
  | ask (document : String) (query : Query) (change : Config → Config)
  | writeConfig (output : String)

structure Command where
  task : Task
  /-- The file of the configuration, if it is not the standard one. -/
  config : Option String
  /-- Whether the answer is written on one line. -/
  compact : Bool

namespace Command

/-- The words of a command, taken apart. -/
structure Words where
  /-- The words that are no options, in order. -/
  plain : List String
  /-- The options with their values, in order. -/
  options : List (String × String)
  compact : Bool

/-- Takes words apart. Behind two dashes alone there are only plain words. -/
def takeApart : List String → Except UsageFault Words
  | [] => .ok ⟨[], [], false⟩
  | "--" :: rest => .ok ⟨rest, [], false⟩
  | "--compact" :: rest => do return { ← takeApart rest with compact := true }
  | word :: rest =>
    if !("--".toList.isPrefixOf word.toList) then do
      let words ← takeApart rest
      return { words with plain := word :: words.plain }
    else
      match Text.splitOn '=' word.toList, rest with
      | name :: part :: parts, rest => do
        let words ← takeApart rest
        let value := String.ofList (Text.join "=" (part :: parts))
        return { words with options := (String.ofList name, value) :: words.options }
      | _, value :: rest => do
        let words ← takeApart rest
        return { words with options := (word, value) :: words.options }
      | _, [] => .error (.noValue word)

/-- The value of an option, if it is given. -/
def option {α : Type} (words : Words) (name : String) (read : Data → Decoded α) : Except UsageFault (Option α) :=
  match words.options.lookup name with
  | none => .ok none
  | some text =>
    match Format.json.read read text with
    | .ok value => .ok (some value)
    | .error _ => .error (.badValue name text)

/-- The configuration with what an option changes. -/
def changedBy {α : Type} (value : Option α) (change : α → Config → Config) (config : Config) : Config :=
  (value.map (change · config)).getD config

/-- The options of a task, besides those of all tasks. -/
def taskOptions : String → List String
  | "infer" => ["--goal", "--max-passes"]
  | "solve" => ["--node-budget"]
  | "plan" => ["--depth-bound"]
  | "schedule" => ["--horizon"]
  | "simulate" => ["--trials", "--seed"]
  | "sensitivity" => ["--delta"]
  | _ => []

/-- Words of which none may be left over. -/
def nothingMore : List String → Except UsageFault Unit
  | [] => .ok ()
  | word :: _ => .error (.unexpected word)

/-- The query of a task, from the words behind the document, and what it changes in the configuration. -/
def readQuery (words : Words) (task : String) (rest : List String) :
    Except UsageFault (Query × (Config → Config)) := do
  match task with
  | "infer" =>
    nothingMore rest
    let maxPasses ← option words "--max-passes" Decode.nat
    let goal ← (words.options.lookup "--goal").mapM fun text => (Atom.parse text).mapError .badGoal
    return (.infer goal, changedBy maxPasses fun n config => { config with maxPasses := some n })
  | "solve" =>
    nothingMore rest
    let budget ← option words "--node-budget" Decode.nat
    return (.solve, changedBy budget fun n config => { config with solver.nodeBudget := n })
  | "plan" =>
    nothingMore rest
    let bound ← option words "--depth-bound" Decode.nat
    return (.plan, changedBy bound fun n config => { config with planner.depthBound := some n })
  | "validate" =>
    if rest.isEmpty then throw .noActions
    return (.validatePlan (← rest.mapM fun text => (Action.parse text).mapError .badAction), id)
  | "schedule" =>
    nothingMore rest
    let horizon ← option words "--horizon" Decode.number
    return (.schedule, changedBy horizon fun x config => { config with horizon := some x })
  | "simulate" =>
    nothingMore rest
    let trials ← option words "--trials" Decode.nat
    let seed ← option words "--seed" Decode.nat
    return (.simulate, fun config =>
      changedBy trials (fun n config => { config with simulation.trials := n })
        (changedBy seed (fun n config => { config with simulation.seed := n.toUInt64 }) config))
  | "sensitivity" =>
    let targets ← rest.mapM fun text => (Target.parse text).mapError .badTarget
    let delta ← option words "--delta" Decode.number
    return (.sensitivity targets, changedBy delta fun x config => { config with sensitivity.delta := x })
  | "evaluate" =>
    nothingMore rest
    return (.evaluate, id)
  | "risks" =>
    nothingMore rest
    return (.risks, id)
  | name => throw (.unknownTask name)

def parse (text : List String) : Except UsageFault Command := do
  let words ← takeApart text
  match words.plain with
  | [] => throw .noTask
  | [_] => throw .noFile
  | task :: file :: rest =>
    let config := words.options.lookup "--config"
    match words.options.find? fun entry => !("--config" :: taskOptions task).contains entry.1 with
    | some (name, _) => throw (.unknownOption name)
    | none =>
      if task = "config" then
        nothingMore rest
        return ⟨.writeConfig file, config, words.compact⟩
      else
        let (query, change) ← readQuery words task rest
        return ⟨.ask file query change, config, words.compact⟩

end Command

end Deliberation
