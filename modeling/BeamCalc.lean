import BeamCalc.Main
import BeamCalc.Proofs.Grammar.Emission
import BeamCalc.Proofs.Calculator.Failure
import BeamCalc.Proofs.Grammar.Placement
import BeamCalc.Proofs.Grammar.Roles
import BeamCalc.Proofs.Grammar.Nesting
import BeamCalc.Proofs.Grammar.Calls
import BeamCalc.Proofs.Grammar.Trailing
import BeamCalc.Proofs.Grammar.Finality
import BeamCalc.Proofs.Grammar.Activation
import BeamCalc.Proofs.Grammar.Location
import BeamCalc.Proofs.Grammar.Spacing
import BeamCalc.Proofs.Calculator.Composition
import BeamCalc.Proofs.Evaluation.Policies
import BeamCalc.Proofs.Evaluation.Demand
import BeamCalc.Proofs.Evaluation.OperandStack
import BeamCalc.Proofs.Token.Tiling
import BeamCalc.Proofs.Vocabulary.LastDefinition
import BeamCalc.Proofs.Calculator.Substitution
import BeamCalc.Proofs.Calculator.UnusedDefinition
import BeamCalc.Proofs.Script.DataFlow
import BeamCalc.Proofs.Script.Concatenation
import BeamCalc.Proofs.Script.Exchange
import BeamCalc.Proofs.Script.Reentry
import BeamCalc.Proofs.Instruction.Display
import BeamCalc.Proofs.Grammar.Balance
import BeamCalc.Proofs.Number.Literal
import BeamCalc.Proofs.Script.Decoration
import BeamCalc.Proofs.Token.Display
