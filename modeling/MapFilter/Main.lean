import MapFilter.Command
import MapFilter.Text.Printable

open MapFilter

def main (args : List String) : IO UInt32 := do
  let outcome ←
    if args.isEmpty then
      let line ← (← IO.getStdin).getLine
      pure (Command.answer isPrintable line)
    else pure (Command.check args)
  match outcome with
  | .ok text =>
    IO.print text
    return 0
  | .error e =>
    IO.eprintln e.message
    return 1
