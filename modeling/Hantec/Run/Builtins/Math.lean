import Hantec.Run.Builtins.Core

/-!
# Builtins on numbers
-/

namespace Hantec

def numberArguments : List Value → Proc (List Float)
  | [] => pure []
  | v :: vs => do
    let x ← Proc.toNumber v
    return x :: (← numberArguments vs)

/-- The first of the numbers that no other one beats. It is no number if one of them is none. -/
def extreme (beats : Float → Float → Bool) (empty : Float) : List Float → Float
  | [] => empty
  | x :: xs =>
    if (x :: xs).any Float.isNaN then Number.nan
    else xs.foldl (fun best y => if beats y best then y else best) x

/-- A random whole number, counted from `low` on. -/
def randomBetween (low high : Float) : Proc Value := do
  let r ← Proc.onWorld World.random
  let x := r * (high - low + 1)
  if x.isNaN then Proc.fault .nanWhole
  else if x.isInf then Proc.fault .infiniteWhole
  else return .num (Number.floor x + low)

def MathFn.run (f : MathFn) (args : List Value) : Proc Value :=
  match f with
  | .abs => do return .num (← numberArgument args 0).abs
  | .round => do return .num (Number.round (← numberArgument args 0))
  | .floor => do return .num (Number.floor (← numberArgument args 0))
  | .ceil => do return .num (Number.ceil (← numberArgument args 0))
  | .power => do
    let a ← numberArgument args 0
    let b ← numberArgument args 1
    return .num (Number.power a b)
  | .sqrt => do return .num (← numberArgument args 0).sqrt
  | .sin => do return .num (← numberArgument args 0).sin
  | .cos => do return .num (← numberArgument args 0).cos
  | .tan => do return .num (← numberArgument args 0).tan
  | .min => do return .num (extreme (· < ·) Number.infinity (← numberArguments args))
  | .max => do return .num (extreme (· > ·) (-Number.infinity) (← numberArguments args))
  | .random => do return .num (← Proc.onWorld World.random)
  | .randomBetween => do
    let low ← numberArgument args 0
    let high ← numberArgument args 1
    Hantec.randomBetween low high

end Hantec
