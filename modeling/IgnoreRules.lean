import IgnoreRules.Config.Resolution
import IgnoreRules.ErrorReport.Codec
import IgnoreRules.Version
import IgnoreRules.Workspace
import IgnoreRules.Proofs.Path.Ancestors
import IgnoreRules.Proofs.Path.Alike
import IgnoreRules.Proofs.Path.Outcomes
import IgnoreRules.Proofs.Path.Windows
import IgnoreRules.Proofs.Path.Directories
import IgnoreRules.Proofs.RuleSet.LastMatch
import IgnoreRules.Proofs.RuleSet.Notes
import IgnoreRules.Proofs.RuleSet.ClosedForm
import IgnoreRules.Proofs.RuleSet.Monotone
import IgnoreRules.Proofs.RuleSet.ExclusiveOr
import IgnoreRules.Proofs.RuleSet.Slashes
import IgnoreRules.Proofs.RuleSet.Rearranged
import IgnoreRules.Proofs.RuleSet.Questions
import IgnoreRules.Proofs.RuleSet.Work
import IgnoreRules.Proofs.Workspace.Plain
import IgnoreRules.Proofs.Workspace.Invisible
import IgnoreRules.Proofs.Workspace.Compiled
import IgnoreRules.Proofs.Workspace.CaseVariants
import IgnoreRules.Proofs.Workspace.Work
import IgnoreRules.Proofs.Workspace.Batches
import IgnoreRules.Proofs.Json.Record
import IgnoreRules.Proofs.Json.RoundTrip
import IgnoreRules.Proofs.ErrorReport.Details
import IgnoreRules.Proofs.ErrorReport.RoundTrip
import IgnoreRules.Proofs.Config.Schemas
import IgnoreRules.Proofs.Config.Sources
import IgnoreRules.Proofs.Config.Settings
import IgnoreRules.Proofs.Regex.Search
import IgnoreRules.Proofs.Text.Spellings
import IgnoreRules.Proofs.Glob.Language
import IgnoreRules.Proofs.Text.Pieces
import IgnoreRules.Proofs.Text.Ends
import IgnoreRules.Proofs.Glob.Parsed
import IgnoreRules.Proofs.Glob.Components
import IgnoreRules.Proofs.Glob.Boundaries
import IgnoreRules.Proofs.Glob.TrailingGlobStar
import IgnoreRules.Proofs.Glob.Wildcards
import IgnoreRules.Proofs.Glob.LeadingGlobStar
import IgnoreRules.Proofs.Glob.Classes
import IgnoreRules.Proofs.Glob.Slices
import IgnoreRules.Proofs.Glob.Counts
import IgnoreRules.Proofs.Glob.Shape
import IgnoreRules.Proofs.Glob.DanglingEscape
import IgnoreRules.Proofs.Glob.Matchable
import IgnoreRules.Proofs.Glob.CaseWidening
import IgnoreRules.Proofs.Text.Escapes
import IgnoreRules.Proofs.Pattern.Bodies
import IgnoreRules.Proofs.Pattern.Meaning
import IgnoreRules.Proofs.Rule.EscapedNames
import IgnoreRules.Proofs.Regex.Grammar
import IgnoreRules.Proofs.Regex.Unambiguous
import IgnoreRules.Proofs.Regex.ReadBack
import IgnoreRules.Proofs.Glob.ReadBack
