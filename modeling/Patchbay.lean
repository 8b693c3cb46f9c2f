import Patchbay.Main
import Patchbay.Proofs.Parser.Omission
import Patchbay.Proofs.Parser.Numbering
import Patchbay.Proofs.Parser.Consumption
import Patchbay.Proofs.Printer.Nesting
import Patchbay.Proofs.Sizing.Expansion
import Patchbay.Proofs.Analysis.Extraction
import Patchbay.Proofs.Analysis.Clashes
import Patchbay.Proofs.Sizing.DelayScans
import Patchbay.Proofs.Sizing.Suppression
import Patchbay.Proofs.Sizing.Detection
import Patchbay.Proofs.Analysis.Labels
import Patchbay.Proofs.Analysis.Pruning
import Patchbay.Proofs.Analysis.Renaming
import Patchbay.Proofs.Analysis.Extension
import Patchbay.Proofs.Cache.Transparency
import Patchbay.Proofs.Cache.Persistence
import Patchbay.Proofs.Cache.Recency
import Patchbay.Proofs.Analysis.Suggestions
import Patchbay.Proofs.Stack
