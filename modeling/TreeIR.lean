import TreeIR.Archive
import TreeIR.Compile
import TreeIR.Proofs.ArgumentOrder
import TreeIR.Proofs.JsonDepth
import TreeIR.Proofs.JsonText
import TreeIR.Proofs.LexicalScope
import TreeIR.Proofs.Subtree
import TreeIR.Proofs.TextRoundTrip
import TreeIR.Proofs.WireRoundTrip
import TreeIR.Tree.Equality
import TreeIR.Proofs.ByName
import TreeIR.Proofs.Resolvable
import TreeIR.Proofs.Rearrangement
import TreeIR.Proofs.Restoration
import TreeIR.Proofs.CallbackLoops
import TreeIR.Proofs.WireGrammar
import TreeIR.Proofs.OlderForms
import TreeIR.Proofs.CanonicalForm
import TreeIR.Proofs.LineLayout
import TreeIR.Proofs.ScopeStack
import TreeIR.Proofs.Blame
import TreeIR.Proofs.WireFaults
import TreeIR.Proofs.JsonBoundary
import TreeIR.Proofs.Brackets
import TreeIR.Proofs.DecodedTypes
import TreeIR.Proofs.DescriptorGrowth
import TreeIR.Proofs.SuiteNesting
import TreeIR.Proofs.StringLiterals
import TreeIR.Proofs.DescriptorShape
import TreeIR.Proofs.DescriptorTables
import TreeIR.Proofs.Flattening
import TreeIR.Proofs.Legibility
import TreeIR.Proofs.Unambiguity
import TreeIR.Proofs.ArgumentResolution
import TreeIR.Proofs.LineEnds
import TreeIR.Proofs.WireInjectivity
import TreeIR.Proofs.ArgumentValues
import TreeIR.Proofs.InventedNames
