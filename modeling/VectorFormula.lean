import VectorFormula.Main
import VectorFormula.Proofs.Grammar.Acceptance
import VectorFormula.Proofs.Machine.Safety
import VectorFormula.Proofs.Parsing.Progress
import VectorFormula.Proofs.Reading.Coverage
import VectorFormula.Proofs.Reading.Numerals
import VectorFormula.Proofs.Reading.Positions
import VectorFormula.Proofs.References.Guards
import VectorFormula.Proofs.References.Identities
import VectorFormula.Proofs.References.ImplicitZeros
import VectorFormula.Proofs.References.Unknowns
import VectorFormula.Proofs.Decimal.Numeral
import VectorFormula.Proofs.Token.Lookahead
import VectorFormula.Proofs.Token.Spelling
import VectorFormula.Proofs.Value.Display
import VectorFormula.Proofs.Value.Commutation
import VectorFormula.Proofs.Value.Comparison
import VectorFormula.Proofs.Value.Picking
import VectorFormula.Proofs.Evaluation.Relevance
import VectorFormula.Proofs.Evaluation.Relaxation
import VectorFormula.Proofs.Evaluation.Inlining
import VectorFormula.Proofs.Evaluation.Sharing
import VectorFormula.Proofs.Evaluation.Equality
import VectorFormula.Proofs.Evaluation.Layers
import VectorFormula.Proofs.Evaluation.Termination
import VectorFormula.Proofs.Registry.Growth
import VectorFormula.Proofs.Value.Slicing
