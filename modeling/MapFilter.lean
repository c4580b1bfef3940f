import MapFilter.Main
import MapFilter.Proofs.Lexing
import MapFilter.Proofs.Parsing
import MapFilter.Proofs.RangeText
import MapFilter.Proofs.Execution
import MapFilter.Proofs.Draft
import MapFilter.Proofs.Realization
import MapFilter.Proofs.Refinement
import MapFilter.Proofs.Condition
import MapFilter.Proofs.Outcome
import MapFilter.Proofs.Meaning
import MapFilter.Proofs.Placeholders
import MapFilter.Proofs.Derivation
import MapFilter.Proofs.Ahead
import MapFilter.Proofs.Completeness
import MapFilter.Proofs.Rearranging
import MapFilter.Proofs.Acceptance
import MapFilter.Proofs.Canonical
import MapFilter.Proofs.Composition
import MapFilter.Proofs.Recognition
import MapFilter.Proofs.Spacing
import MapFilter.Proofs.Clauses
import MapFilter.Proofs.Height
import MapFilter.Proofs.Renumbering
import MapFilter.Proofs.JsonReading
import MapFilter.Proofs.Masking
import MapFilter.Proofs.Quoting
import MapFilter.Proofs.Tokenization
import MapFilter.Proofs.Events
import MapFilter.Proofs.Footprint
import MapFilter.Proofs.Interchange
import MapFilter.Proofs.Provenance
import MapFilter.Proofs.Session
import MapFilter.Proofs.RangeMeaning
import MapFilter.Proofs.Unescaping
import MapFilter.Proofs.LikeMeaning
import MapFilter.Proofs.ListValues
import MapFilter.Proofs.Listing
import MapFilter.Proofs.Runs
import MapFilter.Proofs.Unquoted
import MapFilter.Proofs.Rounding
import MapFilter.Proofs.ShortestDecimal
import MapFilter.Proofs.DecimalText
import MapFilter.Proofs.Advice
import MapFilter.Proofs.RangeParts
import MapFilter.Proofs.LiteralReading
import MapFilter.Proofs.Answers
