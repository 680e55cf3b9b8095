import TailLoop.Main
import TailLoop.Prelude.Semantics
import TailLoop.Proofs.IdentifierUniqueness
import TailLoop.Proofs.Execution
import TailLoop.Proofs.LoweringSteps
import TailLoop.Proofs.DecisionSteps
import TailLoop.Proofs.LoweringWrites
import TailLoop.Proofs.DecisionReach
import TailLoop.Proofs.LoweringFaults
import TailLoop.Proofs.CheckerFindings
import TailLoop.Proofs.CompileAgreement
import TailLoop.Proofs.Frames
import TailLoop.Proofs.Simulation
import TailLoop.Proofs.CaseSimulation
import TailLoop.Proofs.MeaningPreservation
import TailLoop.Proofs.ContractRules
import TailLoop.Proofs.Remarks
import TailLoop.Proofs.PrintedText
import TailLoop.Proofs.CallOrder
import TailLoop.Proofs.CodeShape
import TailLoop.Proofs.BlockGrammar
import TailLoop.Proofs.CodeTerms
import TailLoop.Proofs.RestartText
import TailLoop.Proofs.LexicalScan
import TailLoop.Proofs.SelfContainedCode
import TailLoop.Proofs.DocumentRoundTrip
import TailLoop.Proofs.JsonReading
import TailLoop.Proofs.DecodeOutcomes
import TailLoop.Proofs.LoadOutcomes
import TailLoop.Proofs.DigitLimit
import TailLoop.Proofs.Positions
import TailLoop.Proofs.SelfCallMarking
import TailLoop.Proofs.TagAssignment
import TailLoop.Proofs.Comments
import TailLoop.Proofs.TailCycles
import TailLoop.Proofs.LiteralRoundTrip
import TailLoop.Proofs.LoweringRelation
import TailLoop.Proofs.FrozenCaptures
import TailLoop.Proofs.WordsOfCode
import TailLoop.Proofs.ControlPaths
import TailLoop.Proofs.DefiniteAssignment
import TailLoop.Proofs.BalancedDecisions
import TailLoop.Proofs.SafeIdentifiers
import TailLoop.Proofs.FreeOccurrences
import TailLoop.Proofs.OwnVariables
import TailLoop.Proofs.DraftRestoration
import TailLoop.Proofs.PrintedMeaning
