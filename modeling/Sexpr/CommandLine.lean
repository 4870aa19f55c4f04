import Sexpr.Format

/-!
# The command line

The formatter as a command: it reads a text from a file named on the command line, or from
standard input, and prints it formatted. This module holds everything about the command that
does not need input or output: the options, how the arguments are read into them, and the texts
it prints.

Options: `-i N` or `--indent N` spaces per level (2), `-s` or `--shorthand` to print quoted forms
with their shorthands, `--verbatim` to print atoms and strings without escapes, and
`--max-depth N` for the nesting limit (500). Short options may be run together (`-si4`), and a
value may follow its option after `=`. `--` ends the options.

## Main definitions

* `Sexpr.CommandLine.Options`, `Sexpr.CommandLine.Options.settings`.
* `Sexpr.CommandLine.parseArgs`: the arguments read into a request: run, help or version.
* `Sexpr.CommandLine.failure`: the text of a syntax error, naming where the input came from.
-/

set_option autoImplicit false

namespace Sexpr
namespace CommandLine

/-- What the command was asked to do. -/
structure Options where
  /-- Spaces per level of nesting. -/
  width : Nat := 2
  /-- Print quoted forms with their shorthands. -/
  shorthand : Bool := false
  /-- Print atoms and strings without escapes. -/
  verbatim : Bool := false
  /-- How many lists and quoted forms may be open at once. -/
  maxDepth : Nat := 500
  /-- The file to read; standard input when there is none. -/
  input : Option String := none
deriving DecidableEq, Repr

/-- The reading and printing settings the options ask for: the verbatim or the standard layout,
at the width asked for and with quoted forms as shorthands if asked. -/
def Options.settings (o : Options) : Settings :=
  let base := if o.verbatim then Layout.verbatim else Layout.standard
  { layout := { base with
      width := o.width
      quoteStyle := if o.shorthand then .shorthand else base.quoteStyle },
    limits := { maxDepth := o.maxDepth } }

/-- What the arguments ask for. -/
inductive Request where
  /-- Format the input. -/
  | run (o : Options)
  /-- Print the help text. -/
  | help
  /-- Print the version. -/
  | version
deriving DecidableEq, Repr

/-- How the command is called. -/
def usage : String :=
  "USAGE:\n    indent [OPTIONS] [INPUT_PATH]\n"

/-- The help text. -/
def helpText : String :=
  "indent 0.1.0\n" ++
  "S-Expression parser with position-tracked errors and an indenting printer\n\n" ++
  usage ++ "\n" ++
  "ARGS:\n" ++
  "    <INPUT_PATH>    Path to the input file (default: stdin)\n\n" ++
  "OPTIONS:\n" ++
  "    -h, --help                     Print help information\n" ++
  "    -i, --indent <INDENT>          Number of spaces per nesting level [default: 2]\n" ++
  "        --max-depth <MAX_DEPTH>    Maximum nesting depth accepted [default: 500]\n" ++
  "    -s, --shorthand                Print quoted forms as 'x instead of (quote x)\n" ++
  "    -V, --version                  Print version information\n" ++
  "        --verbatim                 Print strings and atoms without re-escaping them\n"

/-- The version line. -/
def versionText : String := "indent 0.1.0\n"

/-- The text printed for arguments that cannot be used. -/
def argumentError (what : String) : String :=
  "error: " ++ what ++ "\n\n" ++ usage ++ "\nFor more information try --help\n"

/-- The number a text spells in decimal, with an optional plus sign. -/
def natOf? (s : String) : Option Nat :=
  let ds := match s.toList with
    | '+' :: ds => ds
    | ds => ds
  if ds.isEmpty || !ds.all Char.isDigit then none
  else some (ds.foldl (fun n d => 10 * n + (d.toNat - '0'.toNat)) 0)

/-- Reads the value of a numeric option, of at most `bound`. -/
def numberOf (option : String) (bound : Option Nat) (v : String) : Except String Nat :=
  match natOf? v, bound with
  | none, _ =>
    .error (argumentError ("Invalid value \"" ++ v ++ "\" for '" ++ option ++
      "': invalid digit found in string"))
  | some n, some b =>
    if n > b then
      .error (argumentError ("Invalid value \"" ++ v ++ "\" for '" ++ option ++
        "': number too large to fit in target type"))
    else .ok n
  | some n, none => .ok n

/-- The name of an option as the error texts write it. -/
def optionName : Char → String
  | 'i' => "--indent <INDENT>"
  | _ => "--max-depth <MAX_DEPTH>"

/-- Sets the option named by `c` (`i` for the indent, `m` for the depth limit) to `v`. -/
def setValue (o : Options) (c : Char) (v : String) : Except String Options :=
  match c with
  | 'i' => do
    let n ← numberOf (optionName 'i') none v
    pure { o with width := n }
  | _ => do
    let n ← numberOf (optionName 'm') (some 4294967295) v
    pure { o with maxDepth := n }

/-- A value that an option needs and was not given. -/
def missingValue (c : Char) : String :=
  argumentError ("The argument '" ++ optionName c ++ "' requires a value but none was supplied")

/-- An argument that fits nowhere. -/
def unexpected (a : String) : String :=
  argumentError ("Found argument '" ++ a ++ "' which wasn't expected, or isn't valid in this context")

/-- Takes a positional argument: the input file, of which there is at most one. -/
def setInput (o : Options) (a : String) : Except String Options :=
  match o.input with
  | none => .ok { o with input := some a }
  | some _ => .error (unexpected a)

/-- What reading the arguments comes to so far: a request made, or options still being read
and, if the last option needs a value, which one. -/
inductive Pending where
  | done (r : Request)
  | reading (o : Options) (needs : Option Char)

/-- Reads a run of short options such as `-si4`: flags, until one that takes a value, which is
the rest of the run (after an optional `=`) or else the next argument. -/
def shortRun (o : Options) (whole : String) : List Char → Except String Pending
  | [] => .ok (.reading o none)
  | 's' :: r => shortRun { o with shorthand := true } whole r
  | 'h' :: _ => .ok (.done .help)
  | 'V' :: _ => .ok (.done .version)
  | 'i' :: r =>
    match r with
    | [] => .ok (.reading o (some 'i'))
    | '=' :: v => (setValue o 'i' (String.ofList v)).map fun o => .reading o none
    | v => (setValue o 'i' (String.ofList v)).map fun o => .reading o none
  | c :: _ => .error (unexpected ("-" ++ c.toString))

/-- Reads one argument that is not the value of an option before it. -/
def option (o : Options) (a : String) : Except String Pending :=
  match a.toList with
  | '-' :: '-' :: name =>
    let (key, val) := (name.takeWhile (· ≠ '='), name.dropWhile (· ≠ '='))
    match String.ofList key, val with
    | "help", [] => .ok (.done .help)
    | "version", [] => .ok (.done .version)
    | "shorthand", [] => .ok (.reading { o with shorthand := true } none)
    | "verbatim", [] => .ok (.reading { o with verbatim := true } none)
    | "indent", [] => .ok (.reading o (some 'i'))
    | "indent", _ :: v => (setValue o 'i' (String.ofList v)).map fun o => .reading o none
    | "max-depth", [] => .ok (.reading o (some 'm'))
    | "max-depth", _ :: v => (setValue o 'm' (String.ofList v)).map fun o => .reading o none
    | _, _ => .error (unexpected a)
  | '-' :: c :: r => shortRun o a (c :: r)
  | _ => (setInput o a).map fun o => .reading o none

/-- Reads the arguments, from the options `o` read so far; `needs` is the option waiting for
its value, and `rest` is whether `--` has ended the options. -/
def parseFrom (o : Options) (needs : Option Char) (rest : Bool) :
    List String → Except String Request
  | [] =>
    match needs with
    | some c => .error (missingValue c)
    | none => .ok (.run o)
  | a :: as =>
    match needs with
    | some c => do
      let o ← setValue o c a
      parseFrom o none rest as
    | none =>
      if rest then do
        let o ← setInput o a
        parseFrom o none true as
      else if a = "--" then parseFrom o none true as
      else
        match option o a with
        | .error e => .error e
        | .ok (.done r) => .ok r
        | .ok (.reading o n) => parseFrom o n false as

/-- Reads the command's arguments. -/
def parseArgs (args : List String) : Except String Request :=
  parseFrom {} none false args

/-- A path as the error texts quote it. -/
def quotePath (p : String) : String :=
  "\"" ++ String.ofList (p.toList.flatMap fun c =>
    match c with
    | '"' => ['\\', '"']
    | '\\' => ['\\', '\\']
    | '\n' => ['\\', 'n']
    | '\r' => ['\\', 'r']
    | '\t' => ['\\', 't']
    | c => [c]) ++ "\""

/-- The text of a syntax error in the input named by `input`. -/
def failure (input : Option String) (e : SyntaxError) : String :=
  let source := match input with
    | some p => quotePath p
    | none => "(stdin)"
  e.fault.describe ++ " in " ++ source ++ e.pos.display

example : (parseArgs ["-si4", "--max-depth=7", "f.txt"]).toOption =
    some (.run { width := 4, shorthand := true, maxDepth := 7, input := some "f.txt" }) := by
  decide

end CommandLine
end Sexpr
