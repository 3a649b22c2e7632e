import FlatLisp.ReadLoop

/-!
# The command line

The read loop on standard input and output. Evaluation itself reads no files: a turn that asks for a
source not asked for before is taken once more from the same state, after the source has been read.
-/

namespace FlatLisp.CommandLine

/-- The failure that the operating system reports by number. -/
def faultOfCode (code : UInt32) : SourceFault :=
  if code = 21 then .isADirectory else if code = 20 then .notADirectory else .noSuchFile

/-- What the file system has at a path. -/
def fetch (path : String) : IO (Except SourceFault String) := do
  match ← (IO.FS.readBinFile path).toBaseIO with
  | .ok bytes =>
    match String.fromUTF8? bytes with
    | some text => return .ok text
    | none => return .error .invalidEncoding
  | .error (.inappropriateType _ code _) => return .error (faultOfCode code)
  | .error (.noFileOrDirectory _ code _) => return .error (faultOfCode code)
  | .error _ => return .error .noSuchFile

/-- Answers of the file system so far. -/
abbrev Answers := List (String × Except SourceFault String)

/-- Let every session take its sources from the answers. -/
def supply (answers : Answers) (w : World Empty) : World Empty :=
  { w with sessions := w.sessions.map fun s => { s with loader := .recorded answers } }

/-- Run a computation until every source that it asks for has been fetched. -/
partial def settle {α : Type} (answers : Answers) (w : World Empty)
    (act : Answers → EvalM Empty α) : IO (Except Error α × World Empty × Answers) := do
  let (result, after) := act answers (supply answers { w with requested := [] })
  match after.requested.find? fun path => (answers.lookup path).isNone with
  | none => return (result, after, answers)
  | some path => settle ((path, ← fetch path) :: answers) w act

/-- Show what was printed. -/
def flush (w : World Empty) : IO (World Empty) := do
  IO.print w.printed
  (← IO.getStdout).flush
  return { w with printed := "" }

/-- Ask for lines until there are no more or one of them ends the loop. -/
partial def converse (input : IO.FS.Stream) (root : ScopeId) (answers : Answers) (pending : String)
    (w : World Empty) : IO Unit := do
  IO.print (ReadLoop.prompt pending)
  (← IO.getStdout).flush
  let line ← input.getLine
  if line.isEmpty then IO.print ReadLoop.farewell
  else
    let text := ReadLoop.cleanLine (String.ofList (line.toList.filter (· != '\n')))
    let (result, after, answers) ←
      settle answers w fun _ => ReadLoop.turn root pending (.line text)
    let w ← flush after
    match result with
    | .ok (some pending) => converse input root answers pending w
    | _ => return ()

end FlatLisp.CommandLine

open FlatLisp FlatLisp.CommandLine in
/-- Run the read loop, after loading the source that the first argument names. -/
def main (args : List String) : IO UInt32 := do
  let (result, after, answers) ← settle [] World.empty fun answers =>
    ReadLoop.start (.recorded answers) args.head?
  let w ← flush after
  match result with
  | .ok root => converse (← IO.getStdin) root answers "" w
  | .error e => IO.eprintln e.message
  return 0
