import SqlDialects.Main
import SqlDialects.Rules.RuleBook
import SqlDialects.Proofs.Grammar.Gaps
import SqlDialects.Proofs.Grammar.Words
import SqlDialects.Proofs.Grammar.Names
import SqlDialects.Proofs.Grammar.Numbers
import SqlDialects.Proofs.Grammar.Expression
import SqlDialects.Proofs.Grammar.ExpressionReading
import SqlDialects.Proofs.Grammar.Query
import SqlDialects.Proofs.Grammar.QueryReading
import SqlDialects.Proofs.Canonical.WellFormed
import SqlDialects.Proofs.Canonical.Spelled
import SqlDialects.Proofs.Canonical.Query
import SqlDialects.Proofs.Canonical.RoundTrip
import SqlDialects.Proofs.Canonical.Parts
import SqlDialects.Proofs.Text.Requoting
import SqlDialects.Proofs.Conversion.TreePath
import SqlDialects.Proofs.Pattern.Matching
import SqlDialects.Proofs.Pattern.Replacing
import SqlDialects.Proofs.Rules.Rewriting
import SqlDialects.Proofs.Rules.Patterns
import SqlDialects.Proofs.Rules.TextRules
import SqlDialects.Proofs.Rules.RowLimits
import SqlDialects.Proofs.Conversion.Options
import SqlDialects.Proofs.Rules.Pipeline
import SqlDialects.Proofs.Grammar.Nesting
import SqlDialects.Proofs.Grammar.Table
import SqlDialects.Proofs.Conversion.TableRoundTrip
import SqlDialects.Proofs.Conversion.TextPath
import SqlDialects.Proofs.Grammar.Script
import SqlDialects.Proofs.Grammar.CalmText
import SqlDialects.Proofs.Pattern.Remembered
import SqlDialects.Proofs.Rules.CalmRules
import SqlDialects.Proofs.Conversion.OneStatement
import SqlDialects.Proofs.Canonical.Names
import SqlDialects.Proofs.Conversion.Families
import SqlDialects.Proofs.Conversion.AuditTrail
import SqlDialects.Proofs.Grammar.Carrying
import SqlDialects.Proofs.Grammar.CarriedQueries
import SqlDialects.Proofs.Grammar.Respacing
import SqlDialects.Proofs.Grammar.RespacedTables
import SqlDialects.Proofs.Grammar.Comments
import SqlDialects.Proofs.Grammar.Bodies
import SqlDialects.Proofs.Conversion.EntryPoints
import SqlDialects.Proofs.Canonical.Precedence
import SqlDialects.Proofs.Grammar.Statements
import SqlDialects.Proofs.Grammar.Mirroring
import SqlDialects.Proofs.Text.Letters
import SqlDialects.Proofs.Grammar.LetterCase
import SqlDialects.Proofs.Pattern.Cutting
import SqlDialects.Proofs.Conversion.Scripts
import SqlDialects.Proofs.Conversion.RenamedCalls
import SqlDialects.Proofs.Conversion.ReportedErrors
import SqlDialects.Proofs.Conversion.Paging
import SqlDialects.Proofs.Rules.Stepping
import SqlDialects.Proofs.Conversion.Advisories
import SqlDialects.Proofs.Conversion.LeftoverQuotes
import SqlDialects.Proofs.Conversion.ColumnNames
import SqlDialects.Proofs.Rules.CalledNames
import SqlDialects.Proofs.Conversion.SortedSpecs
import SqlDialects.Proofs.Conversion.TableKeys
import SqlDialects.Proofs.Rules.SpacedLimits
import SqlDialects.Proofs.Conversion.Accounting
import SqlDialects.Proofs.Rules.ConvertedPages
import SqlDialects.Proofs.Rules.ConvertedCalls
import SqlDialects.Proofs.Rules.Endings
import SqlDialects.Proofs.Conversion.OrderlyTexts
import SqlDialects.Proofs.Text.QuotedSpans
import SqlDialects.Proofs.Text.WholeLiterals
import SqlDialects.Proofs.Grammar.TrailingComments
import SqlDialects.Proofs.Conversion.DefinitionHeads
import SqlDialects.Proofs.Conversion.Separators
import SqlDialects.Proofs.Rules.LiteralPasses
import SqlDialects.Proofs.Rules.RegisteredRules
import SqlDialects.Proofs.Conversion.TypeRoundTrip
import SqlDialects.Proofs.Pattern.Absence
import SqlDialects.Proofs.Pattern.Written
import SqlDialects.Proofs.Rules.Phrases
import SqlDialects.Proofs.Rules.SparedPatterns
import SqlDialects.Proofs.Rules.SettledTexts
import SqlDialects.Proofs.Grammar.Progress
import SqlDialects.Proofs.Grammar.Termination
import SqlDialects.Proofs.Grammar.TopLevel
import SqlDialects.Proofs.Conversion.WrittenParts
