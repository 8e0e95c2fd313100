import DomainSql.Console
import DomainSql.Decimal.Binary64
import DomainSql.Decimal.Layout
import DomainSql.Decimal.Shortest
import DomainSql.Domain.Basic
import DomainSql.Domain.Comparison
import DomainSql.Domain.FunctionName
import DomainSql.Domain.Literal
import DomainSql.Domain.Marker
import DomainSql.Domain.Operand
import DomainSql.Error
import DomainSql.Filter.Basic
import DomainSql.Filter.Bound
import DomainSql.Formula.Basic
import DomainSql.Formula.Reading
import DomainSql.Join.Basic
import DomainSql.Join.Hop
import DomainSql.Join.Kind
import DomainSql.Join.Session
import DomainSql.Json.Basic
import DomainSql.Json.Reader
import DomainSql.Json.Writer
import DomainSql.Main
import DomainSql.Proofs.AlignedRuleTrees
import DomainSql.Proofs.BindingRun
import DomainSql.Proofs.BlankedTexts
import DomainSql.Proofs.BranchingFormulas
import DomainSql.Proofs.CacheConsistency
import DomainSql.Proofs.CallArguments
import DomainSql.Proofs.CallReading
import DomainSql.Proofs.CanonicalDomain
import DomainSql.Proofs.CanonicalKeys
import DomainSql.Proofs.ColumnRun
import DomainSql.Proofs.ConditionReading
import DomainSql.Proofs.DomainConcatenation
import DomainSql.Proofs.DomainDecoding
import DomainSql.Proofs.DomainEncoding
import DomainSql.Proofs.DomainTexts
import DomainSql.Proofs.DroppedFields
import DomainSql.Proofs.FailedFilter
import DomainSql.Proofs.FailedOperations
import DomainSql.Proofs.FailedSelection
import DomainSql.Proofs.FieldOperations
import DomainSql.Proofs.FieldOrder
import DomainSql.Proofs.FilterJoins
import DomainSql.Proofs.FormulaShape
import DomainSql.Proofs.FormulaTraversal
import DomainSql.Proofs.IntegerLiterals
import DomainSql.Proofs.InterchangeableQueries
import DomainSql.Proofs.InterchangeableSessions
import DomainSql.Proofs.JoinScopes
import DomainSql.Proofs.JoinWays
import DomainSql.Proofs.JsonGrammar
import DomainSql.Proofs.JsonNumbers
import DomainSql.Proofs.JsonNumerals
import DomainSql.Proofs.JsonStrings
import DomainSql.Proofs.JsonTexts
import DomainSql.Proofs.LiteralNumbers
import DomainSql.Proofs.NormalShape
import DomainSql.Proofs.NotedCalls
import DomainSql.Proofs.ObservedSessions
import DomainSql.Proofs.OrderItems
import DomainSql.Proofs.Outcome
import DomainSql.Proofs.PathKeys
import DomainSql.Proofs.PathResolution
import DomainSql.Proofs.PathsApart
import DomainSql.Proofs.PrefixNotation
import DomainSql.Proofs.PrefixPrinting
import DomainSql.Proofs.QueryHistory
import DomainSql.Proofs.RebuiltFormulas
import DomainSql.Proofs.RewordedConditions
import DomainSql.Proofs.RuleTreeAgreement
import DomainSql.Proofs.RuleTreeDepth
import DomainSql.Proofs.RuleTreeEncoding
import DomainSql.Proofs.RuleTreeMarkers
import DomainSql.Proofs.RuleTreeOperands
import DomainSql.Proofs.RuleTreeOptimizer
import DomainSql.Proofs.RuleTreeReading
import DomainSql.Proofs.RuleTreeRoundTrip
import DomainSql.Proofs.RuleTreeTexts
import DomainSql.Proofs.SessionGrowth
import DomainSql.Proofs.SessionHistory
import DomainSql.Proofs.SessionTrace
import DomainSql.Proofs.SettledRuleTrees
import DomainSql.Proofs.SortedFields
import DomainSql.Proofs.StatementColumns
import DomainSql.Proofs.StatementScanning
import DomainSql.Proofs.StatementScopes
import DomainSql.Proofs.StatementText
import DomainSql.Proofs.TextLiterals
import DomainSql.Proofs.TextSpellings
import DomainSql.Proofs.TokenScanning
import DomainSql.Proofs.TruthValues
import DomainSql.Proofs.WhereClause
import DomainSql.Query.Basic
import DomainSql.Query.Order
import DomainSql.RuleTree.Basic
import DomainSql.RuleTree.Conversion
import DomainSql.RuleTree.Json
import DomainSql.RuleTree.Vocabulary
import DomainSql.Settings.Basic
import DomainSql.Settings.ForeignKeyTable
import DomainSql.Sql.Clause
import DomainSql.Sql.Dialect
import DomainSql.Sql.Predicate
import DomainSql.Sql.Quoting
import DomainSql.Sql.Statement
import DomainSql.Sql.Term
import DomainSql.Sql.Token
import DomainSql.Text.Blank
import DomainSql.Text.Cased
import DomainSql.Text.LowerCase
import DomainSql.Text.Split
