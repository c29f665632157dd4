import BlockSpec.Main
import BlockSpec.Proofs.Conservation
import BlockSpec.Proofs.MethodNames
import BlockSpec.Proofs.Refusal
import BlockSpec.Proofs.Skipping
import BlockSpec.Proofs.Sources
import BlockSpec.Proofs.Separation
import BlockSpec.Proofs.Isolation
import BlockSpec.Proofs.Freshness
import BlockSpec.Proofs.Suffixes
import BlockSpec.Proofs.Spacing
import BlockSpec.Proofs.Sections
import BlockSpec.Proofs.Running
import BlockSpec.Proofs.Grammar
import BlockSpec.Proofs.LegalNames
import BlockSpec.Proofs.Totality
import BlockSpec.Proofs.Undoing
import BlockSpec.Proofs.Bindings
import BlockSpec.Proofs.FirstTests
import BlockSpec.Proofs.QuotedLabels
import BlockSpec.Proofs.Returning
import BlockSpec.Proofs.LineSpans
import BlockSpec.Proofs.Markers
import BlockSpec.Proofs.MethodBodies
import BlockSpec.Proofs.Discovery
import BlockSpec.Proofs.Indentation
import BlockSpec.Proofs.Quoting
import BlockSpec.Proofs.Outlines
import BlockSpec.Proofs.Differences
import BlockSpec.Proofs.FreeNames
import BlockSpec.Proofs.SnakeNames
