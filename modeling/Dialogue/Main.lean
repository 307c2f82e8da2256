import Dialogue.CommandLine

/-! The program. It reads the file and the lines of input and writes the output; what they mean is decided by
`CommandLine.plan` and `Player.take`. A segment is shown at once, as if its reveal had been cut short. -/
open Dialogue

def report (result : RunResult) : IO UInt32 := do
  IO.print result.stdout
  IO.eprint result.stderr
  return UInt32.ofNat result.code

def faultOf : IO.Error → FileFault
  | .noFileOrDirectory .. => .notFound
  | .inappropriateType .. => .notFolder
  | .invalidArgument .. => .nameTooLong
  | _ => .isFolder

def readFile (args : List String) : IO (Except FileFault ByteArray) := do
  match args with
  | _ :: path :: _ =>
    try return .ok (← IO.FS.readBinFile path)
    catch e => return .error (faultOf e)
  | _ => return .error .notFound

def tell (debug : Bool) (told : List Notice) : IO Unit := do
  let seconds := (← IO.monoMsNow) / 1000
  IO.eprint (Player.noticeText debug (toString seconds) told)

partial def playOn (debug : Bool) (input : IO.FS.Stream) (s : Play.Session) : IO UInt32 := do
  if debug then IO.eprint (Player.position s)
  match Player.screen s with
  | .ended => report { stdout := Player.theEnd }
  | .nothing => report { stderr := Player.nothingToShow s, code := 1 }
  | .choice text | .segment text =>
    IO.print text
    (← IO.getStdout).flush
    let line ← input.getLine
    if line.isEmpty then return 0
    match Player.take s (Text.trim line) with
    | .quit text => report { stdout := text }
    | .failed text told e => do
      tell debug told
      report { stdout := text, stderr := Player.errorText e.message, code := 1 }
    | .goOn text told next =>
      tell debug told
      IO.print text
      playOn debug input next

def main (args : List String) : IO UInt32 := do
  let found ← readFile args
  match CommandLine.plan (fun _ => found) args with
  | .done result => report result
  | .play story debug =>
    let first := Player.begin story debug
    tell debug first.log
    match first.result with
    | .error e => report { stderr := Player.errorText e.message, code := 1 }
    | .ok s =>
      IO.print Player.welcome
      playOn debug (← IO.getStdin) s
