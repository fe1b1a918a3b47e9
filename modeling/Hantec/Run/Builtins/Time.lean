import Hantec.Run.Builtins.Text

/-!
# Builtins on time
-/

namespace Hantec

def TimeFn.run (f : TimeFn) (args : List Value) : Proc Value :=
  match f with
  | .now => do return .num (← Proc.onWorld World.readClock)
  | .format => do
    let ms ← argument args 0
    dateText ms (← argument args 1)
  | .sleep => do
    Proc.wait (sleepDelay (← numberArgument args 0))
    return .null
  | .measure => do
    let start ← Proc.onWorld World.readClock
    let _ ← invoke (← argument args 0) []
    return .num ((← Proc.onWorld World.readClock) - start)

end Hantec
