import Hantec.Disk
import Hantec.Web

/-!
# The world around a run

What has been printed, the disk, the pages asked for, the clock, and the source of random
numbers.
-/

namespace Hantec

/-- How long to wait. -/
inductive Delay where
  /-- Until the others have had their turn. -/
  | turn
  | millis (x : Float)
  /-- Until a worker is done, which takes no time. -/
  | worker

/-- How long a sleep of a number of milliseconds takes. One that is not positive only gives the
others a turn. -/
def sleepDelay (ms : Float) : Delay := if ms / 1000 > 0 then .millis ms else .turn

/-- What lies around a run. -/
structure World where
  /-- What has been printed, piece by piece. -/
  output : Array String
  disk : Disk
  web : Web
  environment : List (String × String)
  /-- The time in milliseconds. -/
  clock : Float
  seed : Nat

namespace World

def print (w : World) (text : String) : World := { w with output := w.output.push text }

/-- All that has been printed. -/
def outputText (w : World) : String := w.output.foldl (· ++ ·) ""

/-- How far the clock moves on while it is read, in milliseconds. -/
def readingTime : Float := 1 / 1024

/-- The time, which moves on a little with each reading. -/
def readClock (w : World) : Float × World := (w.clock, { w with clock := w.clock + readingTime })

/-- The next random number from zero up to, but not with, one. -/
def random (w : World) : Float × World :=
  let seed := (w.seed * 6364136223846793005 + 1442695040888963407) % Nat.pow 2 64
  (Float.ofNat (seed / Nat.pow 2 11) / Float.ofNat (Nat.pow 2 53), { w with seed := seed })

end World

end Hantec
