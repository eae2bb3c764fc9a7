import PhpAtlas.Ancestry.Flat
import PhpAtlas.Ancestry.Resolve
import PhpAtlas.Atlas
import PhpAtlas.CommandLine.Options
import PhpAtlas.CommandLine.Run
import PhpAtlas.Config.Basic
import PhpAtlas.Config.Read
import PhpAtlas.Deduction.Annotation
import PhpAtlas.Deduction.Basic
import PhpAtlas.Deduction.Members
import PhpAtlas.Deduction.Narrowing
import PhpAtlas.Deduction.Walk
import PhpAtlas.Disk
import PhpAtlas.Doc.Comment
import PhpAtlas.Doc.Locate
import PhpAtlas.Doc.TypeExpr
import PhpAtlas.Index.Basic
import PhpAtlas.Index.Declaration
import PhpAtlas.Index.Member
import PhpAtlas.Json.Basic
import PhpAtlas.Json.Symbol
import PhpAtlas.Lint.Basic
import PhpAtlas.Lint.Reference
import PhpAtlas.Main
import PhpAtlas.Name
import PhpAtlas.Path
import PhpAtlas.Project
import PhpAtlas.Proofs.Deduction.Steady
import PhpAtlas.Scope.Basic
import PhpAtlas.Scope.Collect
import PhpAtlas.Scope.Resolve
import PhpAtlas.Signature
import PhpAtlas.Source.Document
import PhpAtlas.Source.Header
import PhpAtlas.Source.Lexer
import PhpAtlas.Source.Parse.Basic
import PhpAtlas.Source.Parse.Expression
import PhpAtlas.Source.Parse.Member
import PhpAtlas.Source.Parse.Signature
import PhpAtlas.Source.Parse.Statement
import PhpAtlas.Source.Quoted
import PhpAtlas.Source.Token
import PhpAtlas.Source.Tree
import PhpAtlas.Source.Trivia
import PhpAtlas.Store.Basic
import PhpAtlas.Store.Table
import PhpAtlas.Store.Vault
import PhpAtlas.Symbol
import PhpAtlas.Text.Basic
import PhpAtlas.Text.Fold
import PhpAtlas.Text.Offset
import PhpAtlas.Toml.Basic
import PhpAtlas.Toml.Document
import PhpAtlas.Toml.Quoted
import PhpAtlas.Toml.Scalar
import PhpAtlas.TypeList
import PhpAtlas.Proofs.Deduction.Questions
import PhpAtlas.Proofs.Deduction.Termination
import PhpAtlas.Proofs.Text.Pieces
import PhpAtlas.Proofs.Scope.Names
import PhpAtlas.Proofs.Scope.Localization
import PhpAtlas.Proofs.Doc.Nesting
import PhpAtlas.Proofs.Doc.Forms
import PhpAtlas.Proofs.Doc.Written
import PhpAtlas.Proofs.Doc.Reading
import PhpAtlas.Proofs.Doc.RoundTrip
import PhpAtlas.Proofs.Doc.Stability
import PhpAtlas.Proofs.Index.Atomicity
import PhpAtlas.Proofs.Index.OpenTransactions
import PhpAtlas.Proofs.Ancestry.Assembly
import PhpAtlas.Proofs.Ancestry.Failures
import PhpAtlas.Proofs.Ancestry.InterfaceOrder
import PhpAtlas.Proofs.Ancestry.Precedence
import PhpAtlas.Proofs.Ancestry.Resolution
import PhpAtlas.Proofs.Ancestry.Subtyping
import PhpAtlas.Proofs.Ancestry.Uniqueness
import PhpAtlas.Proofs.Store.Listings
import PhpAtlas.Proofs.Store.Transactions
import PhpAtlas.Proofs.Deduction.Symbols
import PhpAtlas.Proofs.Index.Ownership
import PhpAtlas.Proofs.Index.Requests
import PhpAtlas.Proofs.Index.Integrity
import PhpAtlas.Proofs.Index.Deductions
import PhpAtlas.Proofs.Index.Idempotence
import PhpAtlas.Proofs.Index.Survival
import PhpAtlas.Proofs.Deduction.Conditions
import PhpAtlas.Proofs.Project.Reports
import PhpAtlas.Proofs.Project.Freshness
import PhpAtlas.Proofs.Source.Nodes
import PhpAtlas.Proofs.Deduction.Scopes
import PhpAtlas.Proofs.Deduction.Locality
import PhpAtlas.Proofs.Deduction.Search
import PhpAtlas.Proofs.Deduction.Closures
import PhpAtlas.Proofs.Index.Places
import PhpAtlas.Proofs.Scope.Namespaces
import PhpAtlas.Proofs.Deduction.Parameters
import PhpAtlas.Proofs.Lint.Coverage
import PhpAtlas.Proofs.Deduction.Passing
import PhpAtlas.Proofs.Ancestry.Depth
import PhpAtlas.Proofs.Ancestry.Members
import PhpAtlas.Proofs.Text.Occurrences
import PhpAtlas.Proofs.Index.Order
import PhpAtlas.Proofs.Doc.Adjacency
import PhpAtlas.Proofs.Index.Frame
import PhpAtlas.Proofs.Doc.Location
import PhpAtlas.Proofs.Text.Words
import PhpAtlas.Proofs.Doc.Tokens
import PhpAtlas.Proofs.Doc.TagLines
import PhpAtlas.Proofs.Doc.Signatures
import PhpAtlas.Proofs.Doc.Selection
import PhpAtlas.Proofs.Types.Distinct
import PhpAtlas.Proofs.Types.OrderedSet
import PhpAtlas.Proofs.Doc.TypeNames
import PhpAtlas.Proofs.Doc.Nullability
import PhpAtlas.Proofs.Index.Priority
import PhpAtlas.Proofs.Scope.Imports
import PhpAtlas.Proofs.Lint.Monotonicity
import PhpAtlas.Proofs.Ancestry.Documentation
import PhpAtlas.Proofs.Ancestry.Entries
import PhpAtlas.Proofs.Ancestry.Offers
import PhpAtlas.Proofs.Index.MemberOwners
import PhpAtlas.Proofs.Ancestry.Overrides
import PhpAtlas.Source.Variables
import PhpAtlas.Proofs.Source.Variables
import PhpAtlas.Proofs.Deduction.Regions
import PhpAtlas.Proofs.Parse.Rows
import PhpAtlas.Proofs.Parse.Readers
import PhpAtlas.Proofs.Parse.Signatures
import PhpAtlas.Proofs.Parse.Members
import PhpAtlas.Proofs.Parse.Expressions
import PhpAtlas.Proofs.Parse.Statements
import PhpAtlas.Proofs.Parse.Layout
