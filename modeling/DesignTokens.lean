import DesignTokens.CommandLine
import DesignTokens.Editor.Frame
import DesignTokens.Editor.Session
import DesignTokens.Inheritance
import DesignTokens.Main
import DesignTokens.Proofs.Inheritance
import DesignTokens.Proofs.Registry
import DesignTokens.Proofs.RegistryStore
import DesignTokens.Proofs.Resolution
import DesignTokens.Registry
import DesignTokens.Resolution
import DesignTokens.Settings
import DesignTokens.TokenFile
import DesignTokens.Workspace
import DesignTokens.Proofs.Publication
import DesignTokens.Proofs.ParsedTokens
import DesignTokens.Proofs.WorkspaceRuns
import DesignTokens.Proofs.Addresses
import DesignTokens.Proofs.IncrementalLoading
import DesignTokens.Proofs.RegistryContents
import DesignTokens.Proofs.EditorRuns
import DesignTokens.Proofs.PublishedDiagnostics
import DesignTokens.Proofs.EditorTexts
import DesignTokens.Proofs.ResolutionModes
import DesignTokens.Proofs.ResolutionStability
import DesignTokens.Proofs.ReferenceLookup
import DesignTokens.Proofs.ReferenceSpelling
import DesignTokens.Proofs.Declarations
import DesignTokens.Proofs.DeclaredTokens
import DesignTokens.Proofs.VariableLookup
import DesignTokens.Proofs.AliasLabels
import DesignTokens.Proofs.InheritedCopies
import DesignTokens.Proofs.SettingsRoundTrip
import DesignTokens.Proofs.WholeReferences
import DesignTokens.Proofs.DiscoveredFiles
import DesignTokens.Proofs.LoadIssues
import DesignTokens.Proofs.DocumentWalk
import DesignTokens.Proofs.InheritedTypes
import DesignTokens.Proofs.KeySpellings
import DesignTokens.Proofs.KeyOffsets
import DesignTokens.Proofs.KeyPositions
import DesignTokens.Proofs.UsageRanges
import DesignTokens.Proofs.LinePositions
import DesignTokens.Proofs.CallParentheses
import DesignTokens.Proofs.OverlappingUsages
import DesignTokens.Proofs.SemanticHighlights
import DesignTokens.Proofs.MentionOrder
import DesignTokens.Proofs.GraphTables
import DesignTokens.Proofs.RenderedReferences
import DesignTokens.Proofs.SearchLoops
import DesignTokens.Proofs.TypedCompletions
import DesignTokens.Proofs.OrderedReads
