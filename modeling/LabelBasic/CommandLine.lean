import LabelBasic.Number.Numeral

/-!
# The command line

`request` reads the arguments from left to right. The first one that asks for the version or for
help, or that cannot be understood, decides; otherwise a program is run.
-/
namespace LabelBasic.CommandLine

/-- What to run, and how. -/
structure Options where
  path : String
  /-- Where `random` starts, if the run is to be repeatable. -/
  seed? : Option UInt64
  /-- List the program instead of running it. -/
  listing : Bool
  verbosity : Nat
  deriving DecidableEq, Repr

/-- What is wrong with a command line. -/
inductive Misuse where
  | unknownOption (text : String)
  | repeatedOption (name : String)
  /-- A value given to an option that takes none. -/
  | unwantedValue (name : String)
  | missingSeed
  | badSeed (text : String)
  | missingPath
  | emptyPath
  | extraPath (text : String)
  deriving DecidableEq, Repr

namespace Misuse

def message : Misuse → String
  | unknownOption text => "unexpected argument '" ++ text ++ "'"
  | repeatedOption name => "the argument '" ++ name ++ "' cannot be used more than once"
  | unwantedValue name => "the argument '" ++ name ++ "' takes no value"
  | missingSeed => "a value is required for '--seed'"
  | badSeed text => "invalid value '" ++ text ++ "' for '--seed'"
  | missingPath => "the program to run is missing"
  | emptyPath => "the path of the program is empty"
  | extraPath text => "unexpected argument '" ++ text ++ "'"

end Misuse

/-- What a command line asks for. -/
inductive Request where
  | run (options : Options)
  | version
  | help
  | misuse (problem : Misuse)
  deriving DecidableEq, Repr

/-- The options seen so far. -/
structure Draft where
  path? : Option String
  seed? : Option UInt64
  listing : Bool
  verbosity : Nat

namespace Draft

def empty : Draft := ⟨none, none, false, 0⟩

end Draft

/-- Reading goes on with a draft, or a request is settled without the rest of the arguments. -/
abbrev Reading := Except Request

def refuse {α : Type} (problem : Misuse) : Reading α := throw (.misuse problem)

/-- An argument that starts an option and is no value. A single hyphen is a path. -/
def isOption (argument : String) : Bool :=
  match argument.toList with
  | '-' :: _ :: _ => true
  | _ => false

namespace Draft

def withPath (d : Draft) (text : String) : Reading Draft :=
  if d.path?.isSome then refuse (.extraPath text)
  else if text = "" then refuse .emptyPath
  else pure { d with path? := some text }

def withSeed (d : Draft) (text : String) : Reading Draft :=
  if d.seed?.isSome then refuse (.repeatedOption "--seed")
  else
    match Numeral.word64? text.toList with
    | some seed => pure { d with seed? := some seed }
    | none => refuse (.badSeed text)

def withListing (d : Draft) : Reading Draft :=
  if d.listing then refuse (.repeatedOption "--ast") else pure { d with listing := true }

/-- Options of one letter, run together behind one hyphen. -/
def withLetters (d : Draft) : List Char → Reading Draft
  | [] => pure d
  | 'v' :: rest => withLetters { d with verbosity := d.verbosity + 1 } rest
  | 'V' :: _ => throw .version
  | 'h' :: _ => throw .help
  | c :: _ => refuse (.unknownOption (String.ofList ['-', c]))

/-- An option by its name, with the value written behind an equals sign if there is one. -/
def withNamed (d : Draft) (name : String) (value? : Option String) : Reading Draft :=
  match name, value? with
  | "seed", some text => d.withSeed text
  | "seed", none => refuse .missingSeed
  | "ast", none => d.withListing
  | "version", none => throw .version
  | "help", none => throw .help
  | name, value? =>
    let option := "--" ++ name
    if value?.isSome ∧ name ∈ ["ast", "version", "help"] then refuse (.unwantedValue option)
    else refuse (.unknownOption option)

/-- An argument that needs no other. -/
def withArgument (d : Draft) (argument : String) : Reading Draft :=
  match argument.toList with
  | '-' :: '-' :: rest =>
    let name := rest.takeWhile (· ≠ '=')
    let value? := match rest.dropWhile (· ≠ '=') with
      | _ :: value => some (String.ofList value)
      | [] => none
    d.withNamed (String.ofList name) value?
  | '-' :: c :: rest => d.withLetters (c :: rest)
  | _ => d.withPath argument

def finish (d : Draft) : Reading Options :=
  match d.path? with
  | some path => pure ⟨path, d.seed?, d.listing, d.verbosity⟩
  | none => refuse .missingPath

/-- Reads the arguments that are left. Behind two hyphens all are paths. -/
def read (d : Draft) : List String → Reading Options
  | [] => d.finish
  | "--" :: paths => do (← paths.foldlM withPath d).finish
  | ["--seed"] => refuse .missingSeed
  | "--seed" :: value :: rest =>
    if isOption value then refuse .missingSeed else do (← d.withSeed value).read rest
  | argument :: rest => do (← d.withArgument argument).read rest

end Draft

/-- The request that a list of arguments makes. -/
def request (arguments : List String) : Request :=
  match Draft.empty.read arguments with
  | .ok options => .run options
  | .error r => r

/-- The answer to `--version`. -/
def version : String := "basic-tree 0.3.0\n"

/-- The answer to `--help`. -/
def help : String :=
  "A tree-walking interpreter for a small labeled BASIC dialect\n\n" ++
  "Usage: basic [OPTIONS] <PATH>\n\n" ++
  "Arguments:\n" ++
  "  <PATH>  The program to run\n\n" ++
  "Options:\n" ++
  "      --seed <SEED>  Seed for random() so a run can be repeated\n" ++
  "      --ast          Print the parsed program instead of running it\n" ++
  "  -v...              More logging on stderr; repeat for more\n" ++
  "  -h, --help         Print help\n" ++
  "  -V, --version      Print version\n"

/-- The answer to a command line that cannot be understood. -/
def refusal (problem : Misuse) : String :=
  "error: " ++ problem.message ++ "\n\nUsage: basic [OPTIONS] <PATH>\n\n" ++
  "For more information, try '--help'.\n"

end LabelBasic.CommandLine
