import MapFilter.Editing
import MapFilter.Main
import MapFilter.Proofs.Evaluation
import MapFilter.Proofs.Files.Writing
import MapFilter.Proofs.Grammar.Boundary
import MapFilter.Proofs.Grammar.Decimal
import MapFilter.Proofs.Grammar.Reading
import MapFilter.Proofs.Grammar.Text
import MapFilter.Proofs.Offsets.Cut
import MapFilter.Proofs.Offsets.Group
import MapFilter.Proofs.Offsets.Reader
import MapFilter.Proofs.Offsets.Safety
import MapFilter.Proofs.Processing.FixedPoint
import MapFilter.Proofs.Processing.Labels
import MapFilter.Proofs.Processing.Records
import MapFilter.Proofs.Processing.Tokens
import MapFilter.Proofs.Reading.Breaks
import MapFilter.Proofs.Reading.Concatenation
import MapFilter.Proofs.Reading.Marks
import MapFilter.Proofs.Reading.Quotations
import MapFilter.Proofs.Reading.SingleCalls
import MapFilter.Proofs.Reading.Surroundings
import MapFilter.Proofs.Rewriting.Confluence
import MapFilter.Proofs.Rewriting.Counts
import MapFilter.Proofs.Rewriting.Exchanges
import MapFilter.Proofs.Rewriting.Growth
import MapFilter.Proofs.Rewriting.Runs
import MapFilter.Proofs.Rewriting.Walk
import MapFilter.Proofs.Running.Outcome
import MapFilter.Proofs.Running.Sources
import MapFilter.Proofs.Sorts.FirstFault
import MapFilter.Proofs.Sorts.Range
import MapFilter.Proofs.Sorts.Raw
import MapFilter.Proofs.Sorts.RawChain
import MapFilter.Proofs.Sorts.Respelling
