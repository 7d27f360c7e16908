import MplsReach.Forwarding.Bound
import MplsReach.Main
import MplsReach.Network.LinkRemoval
import MplsReach.Outline.Network
import MplsReach.Outline.Step
import MplsReach.Proofs.Alike
import MplsReach.Proofs.Alternation
import MplsReach.Proofs.Arrivals
import MplsReach.Proofs.Bench
import MplsReach.Proofs.Bottom
import MplsReach.Proofs.Cabling
import MplsReach.Proofs.Chains
import MplsReach.Proofs.Completion
import MplsReach.Proofs.Concat
import MplsReach.Proofs.Conversion
import MplsReach.Proofs.Convertible
import MplsReach.Proofs.Copies
import MplsReach.Proofs.CopyNames
import MplsReach.Proofs.Counting
import MplsReach.Proofs.Coverage
import MplsReach.Proofs.Cycles
import MplsReach.Proofs.Drawing
import MplsReach.Proofs.Entries
import MplsReach.Proofs.Failures
import MplsReach.Proofs.FirstHop
import MplsReach.Proofs.Forwarding
import MplsReach.Proofs.Header
import MplsReach.Proofs.Hops
import MplsReach.Proofs.Joining
import MplsReach.Proofs.Language
import MplsReach.Proofs.MarkPassing
import MplsReach.Proofs.Marker
import MplsReach.Proofs.Marks
import MplsReach.Proofs.NamedHeader
import MplsReach.Proofs.Nesting
import MplsReach.Proofs.Observation
import MplsReach.Proofs.Paths
import MplsReach.Proofs.Product
import MplsReach.Proofs.Quoting
import MplsReach.Proofs.Reading
import MplsReach.Proofs.Realization
import MplsReach.Proofs.Refinement
import MplsReach.Proofs.Replay
import MplsReach.Proofs.Reread
import MplsReach.Proofs.Results
import MplsReach.Proofs.Reversal
import MplsReach.Proofs.Runs
import MplsReach.Proofs.Search
import MplsReach.Proofs.Spelling
import MplsReach.Proofs.Stack
import MplsReach.Proofs.Tidy
import MplsReach.Proofs.Tops
import MplsReach.Proofs.Tours
import MplsReach.Proofs.Variants
import MplsReach.Proofs.Verdict
import MplsReach.Proofs.Visits
import MplsReach.Proofs.Ways
import MplsReach.Proofs.Worklist
import MplsReach.Report.Action
import MplsReach.Report.Analysis
import MplsReach.Report.Json
import MplsReach.Report.Memory
import MplsReach.Report.Verdict
import MplsReach.Session.Buffering
import MplsReach.Session.Collection
import MplsReach.Session.Defaulting
import MplsReach.Session.Editing
import MplsReach.Session.Emission
import MplsReach.Session.Guarding
import MplsReach.Session.Sketching
import MplsReach.Session.Streaming
import MplsReach.Session.Tabling
import MplsReach.Session.Workbench
import MplsReach.Text.Escape
