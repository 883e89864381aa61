import LabelBasic.Session

/-!
# The program

Runs a session at a terminal. Output is written as soon as it is printed, and input is read a line at
a time, when the program wants more of it.
-/
namespace LabelBasic.Terminal

def writeOutput (text : String) : IO Unit := do
  let output ← IO.getStdout
  output.putStr text
  output.flush

def writeError (text : String) : IO Unit := do
  (← IO.getStderr).putStr text

/-- The bytes up to and including the next line feed; none at the end. -/
partial def readLine (input : IO.FS.Stream) (line : ByteArray) : IO ByteArray := do
  let byte ← input.read 1
  if byte.isEmpty || byte.toList == [10] then return line ++ byte
  readLine input (line ++ byte)

/-- What the operating system says about a failure. -/
def systemError : IO.Error → SystemError
  | .noFileOrDirectory _ number text | .interrupted _ number text | .alreadyExists _ number text
  | .invalidArgument _ number text | .permissionDenied _ number text
  | .resourceExhausted _ number text | .inappropriateType _ number text
  | .noSuchThing _ number text | .otherError number text | .resourceBusy number text
  | .resourceVanished number text | .unsupportedOperation number text | .hardwareFault number text
  | .unsatisfiedConstraints number text | .illegalOperation number text
  | .protocolError number text | .timeExpired number text => ⟨text, number.toNat⟩
  | .unexpectedEof => ⟨"unexpected end of file", 0⟩
  | .userError text => ⟨text, 0⟩

/-- Reads a file. -/
def content (path : String) : IO Content := do
  try
    let file ← IO.FS.Handle.mk path .read
    return .ok (← file.readBinToEnd).toList
  catch e =>
    return .error (systemError e)

/-- A seed that differs from run to run. -/
def chance : IO UInt64 := do
  let bytes ← IO.getRandomBytes 8
  return bytes.toList.foldl (fun seed byte => seed * 256 + byte.toUInt64) 0

/-- Runs one instruction, of which `written` texts are written already. Where the input ends within
it, it is run again with one line more, as long as there is one. -/
partial def perform (p : Program) (pc : Nat) (i : Instruction) (written : Nat) (m : Machine) :
    IO (Turn × Machine) := do
  let (turn, after) := m.perform p pc i
  if written < after.output.size then
    writeOutput (String.join (after.output.toList.drop written))
  let done := (turn, { after with output := #[] })
  match turn with
  | .failed .endOfInput =>
    let line ← readLine (← IO.getStdin) .empty
    if line.isEmpty then return done
    let reader := { m.reader with lines := m.reader.lines ++ [line.toList] }
    perform p pc i after.output.size { m with reader }
  | _ => return done

/-- Runs a program from an address on, and answers with what went wrong. -/
partial def runFrom (shown : LogLevel) (p : Program) (pc : Nat) (m : Machine) :
    IO (Option Report) := do
  let halt (m : Machine) : IO (Option Report) := do
    writeError (Console.lines shown [.halted m.store.size])
    return none
  match p.at? pc with
  | none => halt m
  | some i =>
    writeError (Console.lines shown [.executing pc i])
    match ← perform p pc i 0 m with
    | (.goOn next, m) => runFrom shown p next m
    | (.halted, m) => halt m
    | (.failed f, _) => return some (f.report.atLine i.line)

/-- Runs or lists a program, and answers with what went wrong. -/
def run (o : CommandLine.Options) : IO (Option Report) := do
  let shown := Console.level o.verbosity
  let parsed := load o.path (← content o.path)
  writeError (Console.lines shown parsed.log)
  match parsed.result with
  | .error r => return some r
  | .ok ss =>
    if o.listing then
      writeOutput (listing ss)
      return none
    writeError (Console.lines shown (Program.linkLog ss))
    let seed ← match o.seed? with
      | some seed => pure seed
      | none => chance
    let p := Program.ofStatements ss
    runFrom shown p 0 (.initial p (.ofSeed seed) (.ofBytes []))

/-- A session with these arguments; its exit status. -/
def session (arguments : List String) : IO UInt32 := do
  match CommandLine.request arguments with
  | .version =>
    writeOutput CommandLine.version
    return 0
  | .help =>
    writeOutput CommandLine.help
    return 0
  | .misuse problem =>
    writeError (CommandLine.refusal problem)
    return 2
  | .run o =>
    match ← run o with
    | none => return 0
    | some r =>
      writeError (Console.fatal r)
      return 1

end LabelBasic.Terminal

def main (arguments : List String) : IO UInt32 := LabelBasic.Terminal.session arguments
