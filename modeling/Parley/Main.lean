import Parley.Demo

/-!
# The console program

Plays the tavern conversation with a player at the keyboard.
-/

namespace Parley

/-- Write what has been added to the output since it was last shown. -/
def showNew (shown : Nat) (demo : Demo) : IO Unit := do
  let out ← IO.getStdout
  out.putStr (Demo.textOf (demo.trace.drop shown))
  out.flush

/-- Ask and answer until the conversation is over. -/
partial def playOn (shown : Nat) (demo : Demo) : IO UInt32 := do
  if demo.isOver then
    showNew shown demo.finish
    return 0
  let asked := demo.prompt
  showNew shown asked
  let line ← (← IO.getStdin).getLine
  if line.isEmpty then
    IO.eprintln "the input has ended"
    return 1
  match asked.respond (String.ofList (line.toList.takeWhile (· ≠ '\n'))) with
  | .ok next => playOn asked.trace.length next
  | .error failure =>
    IO.eprintln failure.message
    return 1

end Parley

def main : IO UInt32 := do
  let demo := Parley.Demo.opened
  Parley.showNew 0 demo
  Parley.playOn demo.trace.length demo
