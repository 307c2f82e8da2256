import Dialogue.Player
import Dialogue.Lighthouse
import Dialogue.Shelf.Disk

/-! The command line: play a saved story, play the sample story, print the sample story. What it does is a function of
its arguments, the files it can read and its input. -/
namespace Dialogue.CommandLine

def usage : String := "tsuzuri - Story builder and player

USAGE:
    tsuzuri <command> [--debug]

COMMANDS:
    play <story.json> [--debug]    Play a compiled story in the terminal
    demo [--debug]                 Play the built-in sample story
    dump                           Print the sample story as JSON
    --help, -h                     Show this help message

OPTIONS:
    --debug    Show runtime state (node, segment, context) on stderr

EXAMPLES:
    tsuzuri dump > lighthouse.json
    tsuzuri play lighthouse.json --debug
"

def failed (message : String) : RunResult := { stderr := Player.errorText message, code := 1 }

def misused (message : String) : RunResult :=
  { stdout := usage, stderr := Player.errorText message ++ "\n", code := 1 }

def isOption (arg : String) : Bool := "--".toList.isPrefixOf arg.toList

def loadMessage : LoadError → String
  | .notText fault => fault.message
  | .notStory _ => "the file holds no story"
  | .notClosed e => e.message

inductive Plan where
  | done (result : RunResult)
  | play (story : Story) (debug : Bool)

def planFile (read : String → Except FileFault ByteArray) (path : String) (debug : Bool) : Plan :=
  match read path with
  | .error fault => .done (failed s!"Failed to read file '{path}': {fault.message}")
  | .ok bytes =>
    match Story.load bytes with
    | .error e => .done (failed (loadMessage e))
    | .ok story => .play story debug

def planSample (use : Story → Plan) : Plan :=
  match Lighthouse.story with
  | .ok story => use story
  | .error e => .done (failed e.message)

def path? (args : List String) : Option String :=
  match args with
  | path :: _ => if isOption path then none else some path
  | [] => none

def plan (read : String → Except FileFault ByteArray) (args : List String) : Plan :=
  match args with
  | [] => .done { stdout := usage, code := 1 }
  | command :: rest =>
    let debug := rest.contains "--debug"
    if command = "play" then
      match path? rest with
      | some path => planFile read path debug
      | none => .done (misused "Missing story file path")
    else if command = "demo" then planSample fun story => .play story debug
    else if command = "dump" then planSample fun story => .done { stdout := story.saved ++ "\n" }
    else if command = "--help" ∨ command = "-h" then .done { stdout := usage }
    else .done (misused s!"Unknown command '{command}'")

def run (read : String → Except FileFault ByteArray) (args : List String) (time input : String) : RunResult :=
  match plan read args with
  | .done result => result
  | .play story debug => Player.play story debug time input

end Dialogue.CommandLine
