import MessagePipe.Walkthrough

/-!
# MessagePipe.Main

The command line: prints the walkthrough.
-/

def main : IO UInt32 := do
  match MessagePipe.Walkthrough.transcript with
  | .ok text =>
    IO.print text
    return 0
  | .error e =>
    IO.eprintln s!"Error: {e.text}"
    return 1
