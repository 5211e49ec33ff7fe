import Deliberation.Command
import Deliberation.Document.Format

/-!
The command line: reads a document and a configuration, answers a query, and prints the answer as
JSON.
-/

namespace Deliberation

def readText (path : String) : IO String := do
  try IO.FS.readFile path
  catch _ => throw (IO.userError s!"failed to read {path}")

/-- What the text of a file was read as. -/
def readAs {α : Type} (path : String) (result : Except Refusal α) : IO α :=
  match result with
  | .ok value => return value
  | .error _ => throw (IO.userError s!"failed to parse {path}")

/-- The configuration of a file, or the standard one. -/
def readConfig : Option String → IO Config
  | none => return .standard
  | some path => do
    let text ← readText path
    readAs path (Format.toml.read Config.decode text)

def readDocument (path : String) : IO Document := do
  let text ← readText path
  readAs path (Document.parse (Format.ofPath path) text)

def startEngine (config : Config) : IO Engine :=
  match Engine.ofConfig config with
  | .ok engine => return engine
  | .error error => throw (IO.userError error.message)

def Command.run (command : Command) : IO Unit := do
  let config ← readConfig command.config
  match command.task with
  | .ask path query change =>
    let engine ← startEngine (change config)
    let doc ← readDocument path
    match engine.run doc query with
    | .ok answer => IO.println (if command.compact then Json.text answer.toData else Json.indentedText answer.toData)
    | .error error => throw (IO.userError error.message)
  | .writeConfig path =>
    let engine ← startEngine config
    match Format.toml.text? engine.config.toData with
    | some text => do
      try IO.FS.writeFile path text
      catch _ => throw (IO.userError s!"failed to write {path}")
      IO.println s!"Wrote configuration to {path}"
    | none => throw (IO.userError s!"failed to parse {path}")

end Deliberation

/-- Runs the command that the words of the command line stand for. -/
def main (words : List String) : IO UInt32 := do
  match Deliberation.Command.parse words with
  | .error fault =>
    IO.eprintln fault.message
    return 2
  | .ok command =>
    try
      command.run
      return 0
    catch error =>
      IO.eprintln (toString error)
      return 1
