import FactorLabel.Chain.Evaluate
import FactorLabel.Chain.Samples
import FactorLabel.Chain.Script
import FactorLabel.Field.Reader
import FactorLabel.Json.Printer
import FactorLabel.Json.Reader
import FactorLabel.Labels.Lookup
import FactorLabel.Number.Radix
import FactorLabel.Stored.Chain
import FactorLabel.Stored.Settings
import FactorLabel.Term.Fresh
import FactorLabel.Proofs.Chain.Answers
import FactorLabel.Proofs.Chain.Confirm
import FactorLabel.Proofs.Chain.Congruence
import FactorLabel.Proofs.Chain.Denominator
import FactorLabel.Proofs.Chain.Identity
import FactorLabel.Proofs.Chain.Parts
import FactorLabel.Proofs.Chain.Range
import FactorLabel.Proofs.Chain.Reciprocal
import FactorLabel.Proofs.Chain.Related
import FactorLabel.Proofs.Chain.Renaming
import FactorLabel.Proofs.Chain.Session
import FactorLabel.Proofs.Chain.Simplified
import FactorLabel.Proofs.Chain.Simplify
import FactorLabel.Proofs.Chain.Slots
import FactorLabel.Proofs.Chain.Surgery
import FactorLabel.Proofs.Display.Accuracy
import FactorLabel.Proofs.Display.Normal
import FactorLabel.Proofs.Display.Reduced
import FactorLabel.Proofs.Display.Unambiguous
import FactorLabel.Proofs.Field.Canonical
import FactorLabel.Proofs.Field.Continued
import FactorLabel.Proofs.Field.Faults
import FactorLabel.Proofs.Field.RoundTrip
import FactorLabel.Proofs.Grammar.Expression
import FactorLabel.Proofs.Grammar.Groups
import FactorLabel.Proofs.Grammar.Segments
import FactorLabel.Proofs.Json.Number
import FactorLabel.Proofs.Json.Quoted
import FactorLabel.Proofs.Json.ReadBack
import FactorLabel.Proofs.Labels.Checked
import FactorLabel.Proofs.Labels.Difference
import FactorLabel.Proofs.Labels.Equality
import FactorLabel.Proofs.Labels.History
import FactorLabel.Proofs.Labels.Product
import FactorLabel.Proofs.Number.Radix
import FactorLabel.Proofs.Ratio.Total
import FactorLabel.Proofs.Stored.Lossless
import FactorLabel.Proofs.Term.Composed
import FactorLabel.Proofs.Token.Script
