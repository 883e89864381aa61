import LabelBasic.CommandLine
import LabelBasic.Console
import LabelBasic.Machine.Run
import LabelBasic.Parse.Program

/-!
# Sessions

What one use of the interpreter comes to, from its arguments, the program file and the input to the
texts it writes and its exit status. `transcript` is the whole of it for an input known in advance.
-/
namespace LabelBasic

/-- Why the operating system refuses a file: its words and its number. -/
structure SystemError where
  text : String
  number : Nat
  deriving DecidableEq, Repr

namespace SystemError

def reason (e : SystemError) : String := e.text ++ " (os error " ++ toString e.number ++ ")"

end SystemError

/-- What reading a file gives. -/
abbrev Content := Except SystemError (List UInt8)

/-- The text of a program file. -/
def sourceText (path : String) : Content → Except Fault String
  | .error e => throw (.unreadableFile path e.reason)
  | .ok bytes =>
    match String.fromUTF8? bytes.toByteArray with
    | some source => pure source
    | none => throw (.unreadableFile path Fault.notUtf8)

/-- Compiles a program file. -/
def load (path : String) (content : Content) : Parsed :=
  match sourceText path content with
  | .error f => ⟨.error f.report, []⟩
  | .ok source =>
    let parsed := compile source
    match parsed.result with
    | .error _ => parsed
    | .ok ss => { parsed with log := parsed.log ++ [.loaded path ss.length] }

/-- The listing of a program, a statement on a line. -/
def listing (ss : List Statement) : String := String.join (ss.map fun s => s.text ++ "\n")

/-- What a session leaves behind: its exit status, and the texts on standard output and standard
error. -/
structure Transcript where
  status : Nat
  output : String
  errors : String
  deriving DecidableEq, Repr

namespace Transcript

/-- A session that ran up to its end or to an error. -/
def ofRun (shown : LogLevel) (log : List Event) (output : String) (failure? : Option Report) :
    Transcript where
  status := if failure?.isSome then 1 else 0
  output := output
  errors := Console.lines shown log ++ (failure?.map Console.fatal).getD ""

/-- A session with some options. It is without an answer if the program takes more than `fuel`
turns. `chance` is the seed of a run that is not to be repeatable. -/
def ofOptions (o : CommandLine.Options) (content : Content) (input : List UInt8) (chance : UInt64)
    (fuel : Nat) : Option Transcript :=
  let shown := Console.level o.verbosity
  let parsed := load o.path content
  match parsed.result with
  | .error r => some (.ofRun shown parsed.log "" (some r))
  | .ok ss =>
    if o.listing then some (.ofRun shown parsed.log (listing ss) none)
    else
      let p := Program.ofStatements ss
      let m := Machine.initial p (.ofSeed (o.seed?.getD chance)) (.ofBytes input)
      (m.run p (fun _ => false) fuel).map fun r =>
        .ofRun shown (parsed.log ++ Program.linkLog ss ++ r.log)
          (String.join r.machine.output.toList) r.failure?

end Transcript

/-- The session that some arguments start, where `files` are the contents of the files. -/
def transcript (arguments : List String) (files : String → Content) (input : List UInt8)
    (chance : UInt64) (fuel : Nat) : Option Transcript :=
  match CommandLine.request arguments with
  | .version => some ⟨0, CommandLine.version, ""⟩
  | .help => some ⟨0, CommandLine.help, ""⟩
  | .misuse problem => some ⟨2, "", CommandLine.refusal problem⟩
  | .run o => Transcript.ofOptions o (files o.path) input chance fuel

end LabelBasic
