import Hantec.Main
import Hantec.Proofs.Base64
import Hantec.Proofs.Cells
import Hantec.Proofs.Circuits
import Hantec.Proofs.Cli.Emitted
import Hantec.Proofs.Cli.Entries
import Hantec.Proofs.Control
import Hantec.Proofs.Cycles
import Hantec.Proofs.Files
import Hantec.Proofs.Finalizers
import Hantec.Proofs.Grammar.Progress
import Hantec.Proofs.Jobs.Isolation
import Hantec.Proofs.Layout
import Hantec.Proofs.LineNumbers
import Hantec.Proofs.Masks
import Hantec.Proofs.Number.HalfUp
import Hantec.Proofs.Objects
import Hantec.Proofs.PrintHygiene
import Hantec.Proofs.Scopes
import Hantec.Proofs.Template
import Hantec.Proofs.Throwing
import Hantec.Proofs.ValueModel
