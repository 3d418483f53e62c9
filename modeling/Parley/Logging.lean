import Parley.Failure
import Parley.Json.Value

/-!
# Setting up logging

Programs that run conversations on their own set up one destination for log entries, with a
format and a threshold.  Only the first set-up counts; later ones find a destination already
there and change nothing.
-/

namespace Parley

/-- The root of logging: its threshold and the formats of its destinations. -/
structure RootLogger where
  level : Int := 30
  formats : List String := []
  deriving DecidableEq, Repr

namespace RootLogger

/-- The format of the destination that a set-up adds. -/
def entryFormat : String :=
  "%(asctime)s %(levelname)s [%(name)s] %(message)s"

def threshold? (name : String) : Option Int :=
  [("CRITICAL", 50), ("FATAL", 50), ("ERROR", 40), ("WARNING", 30), ("WARN", 30),
    ("INFO", 20), ("DEBUG", 10), ("NOTSET", 0)].lookup name

/-- The threshold that a level stands for; null keeps the present one. -/
def readLevel (present : Int) : Json.Value → Except Failure Int
  | .null => .ok present
  | .int n => .ok n
  | .bool b => .ok (if b then 1 else 0)
  | .string name => match threshold? name with
    | some n => .ok n
    | none => .error (.unknownLevel name)
  | _ => .error .levelType

/-- Set up logging at a level.  The destination is added before the level is read, so it
stays when the level is refused. -/
def configure (root : RootLogger) (level : Json.Value) : RootLogger × Except Failure Unit :=
  if root.formats.isEmpty then
    let opened := { root with formats := [entryFormat] }
    match readLevel root.level level with
    | .ok n => ({ opened with level := n }, .ok ())
    | .error failure => (opened, .error failure)
  else (root, .ok ())

end RootLogger

end Parley
