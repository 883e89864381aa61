import LabelBasic.Event
import LabelBasic.Report

/-!
# The console

How the log and a fatal error are written for a reader at a terminal. Control characters that
terminals act on are spelled out in the log, so that a program text cannot steer the terminal.
-/
namespace LabelBasic.Console

/-- The log that is shown when more logging is asked for this many times. -/
def level : Nat → LogLevel
  | 0 => .warn
  | 1 => .debug
  | _ => .trace

/-- The spelling of a character in the log. -/
def spell (c : Char) : List Char :=
  if c ∈ ['\x07', '\x08', '\x0c', '\x1b', '\x7f'] then
    "\\x".toList ++ (if c.toNat < 16 then ['0'] else []) ++ Nat.toDigits 16 c.toNat
  else if 0x80 ≤ c.toNat ∧ c.toNat ≤ 0x9f then
    "\\u\x7b".toList ++ Nat.toDigits 16 c.toNat ++ ['\x7d']
  else [c]

/-- A text with the characters spelled out that terminals act on. -/
def guarded (text : String) : String := String.ofList (text.toList.flatMap spell)

/-- An event on a line of its own. -/
def line (e : Event) : String :=
  let name := e.level.name
  "".pushn ' ' (5 - name.length) ++ name ++ " " ++ guarded e.text ++ "\n"

/-- The events of a log that are shown. -/
def lines (shown : LogLevel) (log : List Event) : String :=
  String.join ((log.filter (Event.isShown shown)).map line)

/-- The error that ends the program, in bold. -/
def fatal (r : Report) : String := "\x1b[1m?" ++ r.message ++ "\x1b[0m\n"

end LabelBasic.Console
