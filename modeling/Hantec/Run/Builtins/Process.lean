import Hantec.Run.Builtins.Core

/-!
# Builtins on the process
-/

namespace Hantec

def ProcessFn.run (f : ProcessFn) (args : List Value) : Proc Value :=
  match f with
  | .arguments => do Proc.newArray ((← Proc.config).arguments.map .str)
  | .environment => do
    let name ← textArgument args 0
    Proc.onWorld fun w => (((w.environment.lookup name).map .str).getD .null, w)
  | .exit => do
    let code ← numberArgument args 0
    Proc.failWith (.exit ((Number.trunc? code).getD 0))

end Hantec
