import Sexpr.CommandLine

/-!
# The formatter command

Reads the text named on the command line, or standard input, and prints it formatted; a syntax
error is reported on standard error with its position, and the command then fails.
-/

/-- Runs the formatter command. -/
def main (args : List String) : IO UInt32 := do
  match Sexpr.CommandLine.parseArgs args with
  | .error msg =>
    IO.eprint msg
    return 2
  | .ok .help =>
    IO.print Sexpr.CommandLine.helpText
    return 0
  | .ok .version =>
    IO.print Sexpr.CommandLine.versionText
    return 0
  | .ok (.run o) =>
    let text ← match o.input with
      | some p => IO.FS.readFile p
      | none => (← IO.getStdin).readToEnd
    match Sexpr.formatWith text o.settings with
    | .ok out =>
      IO.print out
      return 0
    | .error e =>
      IO.eprintln ("Error: " ++ Sexpr.CommandLine.failure o.input e)
      return 1
