import Reindent.Main
import Reindent.Proofs.Attributes.Layout
import Reindent.Proofs.Brackets.Alignment
import Reindent.Proofs.Brackets.Switches
import Reindent.Proofs.Causality
import Reindent.Proofs.Command.Check
import Reindent.Proofs.Command.Outcomes
import Reindent.Proofs.Command.TabWidth
import Reindent.Proofs.Dump
import Reindent.Proofs.Embedding.Document
import Reindent.Proofs.Embedding.LineComments
import Reindent.Proofs.Isolation.Document
import Reindent.Proofs.Layout.Document
import Reindent.Proofs.Matching.Halves
import Reindent.Proofs.Noninterference.Document
import Reindent.Proofs.Response
import Reindent.Proofs.Safety
import Reindent.Proofs.Scan.Partition
import Reindent.Proofs.Scan.ReturnModes
import Reindent.Proofs.Standalone
import Reindent.Proofs.Tags.Endings
import Reindent.Proofs.VerbatimText
import Reindent.Proofs.Verify
import Reindent.Response
import Reindent.Proofs.Matching.Failures
import Reindent.Proofs.Matching.Reports
import Reindent.Proofs.Offsets.Exactness
import Reindent.Proofs.Offsets.Document
