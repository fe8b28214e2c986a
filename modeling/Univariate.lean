import Univariate.Calculus.Difference
import Univariate.Calculus.GaussLegendre
import Univariate.Calculus.Integral
import Univariate.Calculus.Limit
import Univariate.Calculus.Simpson
import Univariate.Cartesian
import Univariate.Decimal.Binary
import Univariate.Decimal.Layout
import Univariate.Decimal.Literal
import Univariate.Decimal.Places
import Univariate.Decimal.Shortest
import Univariate.Document.Basic
import Univariate.Document.Configuration
import Univariate.Document.Parser
import Univariate.Document.Value
import Univariate.Elementary
import Univariate.Expr.Basic
import Univariate.Expr.Error
import Univariate.Expr.Eval
import Univariate.Expr.FusedName
import Univariate.Expr.Juxtaposition
import Univariate.Expr.Lexer
import Univariate.Expr.Name
import Univariate.Expr.Parser
import Univariate.Expr.Printer
import Univariate.Expr.Token
import Univariate.Formula
import Univariate.Log
import Univariate.Logger
import Univariate.Polynomial.Dense
import Univariate.Polynomial.Equation
import Univariate.Polynomial.Latex
import Univariate.Polynomial.Printer
import Univariate.Polynomial.Report
import Univariate.Polynomial.Term
import Univariate.Proofs.Calculus.Difference
import Univariate.Proofs.Calculus.Limit
import Univariate.Proofs.Calculus.Simpson
import Univariate.Proofs.Decimal.ReadBack
import Univariate.Proofs.Decimal.Shortest
import Univariate.Proofs.Decimal.Sign
import Univariate.Proofs.Document.Comments
import Univariate.Proofs.Document.Configuration
import Univariate.Proofs.Document.RoundTrip
import Univariate.Proofs.Document.Written
import Univariate.Proofs.Double.ExactDifference
import Univariate.Proofs.Double.Nonnegative
import Univariate.Proofs.Double.NotANumber
import Univariate.Proofs.Double.Rounding
import Univariate.Proofs.Double.Scientific
import Univariate.Proofs.Double.TotalOrder
import Univariate.Proofs.Double.Truncation
import Univariate.Proofs.Double.Unpacked
import Univariate.Proofs.Double.Value
import Univariate.Proofs.Exact.Branches
import Univariate.Proofs.Exact.Complex
import Univariate.Proofs.Exact.Extended
import Univariate.Proofs.Exact.Pairs
import Univariate.Proofs.Exact.Power
import Univariate.Proofs.Exact.Real
import Univariate.Proofs.Expr.Completeness
import Univariate.Proofs.Expr.Culprits
import Univariate.Proofs.Expr.Declaration
import Univariate.Proofs.Expr.ExactValue
import Univariate.Proofs.Expr.Grammar
import Univariate.Proofs.Expr.InputEnd
import Univariate.Proofs.Expr.IntegerExponent
import Univariate.Proofs.Expr.Lexemes
import Univariate.Proofs.Expr.Lexing
import Univariate.Proofs.Expr.LongestNames
import Univariate.Proofs.Expr.Neighbours
import Univariate.Proofs.Expr.Nesting
import Univariate.Proofs.Expr.Printing
import Univariate.Proofs.Expr.ProductSigns
import Univariate.Proofs.Expr.RoundTrip
import Univariate.Proofs.Expr.Soundness
import Univariate.Proofs.Expr.Spacing
import Univariate.Proofs.Expr.SubstitutedValue
import Univariate.Proofs.Expr.Substitution
import Univariate.Proofs.Expr.Variables
import Univariate.Proofs.Expr.Vocabulary
import Univariate.Proofs.Expr.WellFormed
import Univariate.Proofs.Polynomial.Acceptance
import Univariate.Proofs.Polynomial.Agreement
import Univariate.Proofs.Polynomial.BracedExponent
import Univariate.Proofs.Polynomial.Coefficients
import Univariate.Proofs.Polynomial.Collecting
import Univariate.Proofs.Polynomial.Cutting
import Univariate.Proofs.Polynomial.Derivation
import Univariate.Proofs.Polynomial.Division
import Univariate.Proofs.Polynomial.Exact
import Univariate.Proofs.Polynomial.Expansion
import Univariate.Proofs.Polynomial.Language
import Univariate.Proofs.Polynomial.LeftSide
import Univariate.Proofs.Polynomial.Phrases
import Univariate.Proofs.Polynomial.PowerSum
import Univariate.Proofs.Polynomial.RoundTrip
import Univariate.Proofs.Polynomial.Spelling
import Univariate.Proofs.Polynomial.Stripping
import Univariate.Proofs.Polynomial.Term
import Univariate.Proofs.Roots.Cardano
import Univariate.Proofs.Roots.Convergence
import Univariate.Proofs.Roots.FixedPoints
import Univariate.Proofs.Roots.Pairing
import Univariate.Proofs.Roots.Partners
import Univariate.Proofs.Roots.Quadratic
import Univariate.Proofs.Roots.Scaling
import Univariate.Proofs.Roots.Separation
import Univariate.Proofs.Roots.Solution
import Univariate.Proofs.Roots.StartingPoints
import Univariate.Proofs.Roots.Stopping
import Univariate.Proofs.Solver.History
import Univariate.Proofs.Text.Ascii
import Univariate.Proofs.Text.Lines
import Univariate.Proofs.Text.Positions
import Univariate.Proofs.Text.SignedTerms
import Univariate.Roots.ClosedForm
import Univariate.Roots.DurandKerner
import Univariate.Roots.Messages
import Univariate.Roots.Printer
import Univariate.Roots.Separation
import Univariate.Roots.Solution
import Univariate.Scalar
import Univariate.Settings
import Univariate.Showcase
import Univariate.Solver
import Univariate.Text.Blank
import Univariate.Text.Brackets
import Univariate.Text.Cased
import Univariate.Text.DecimalDigit
import Univariate.Text.Lines
import Univariate.Text.Lowercase
import Univariate.Text.Positions
import Univariate.Text.Printable
import Univariate.Text.Quoted
import Univariate.Text.Ranges
import Univariate.Text.SignedTerms
import Univariate.Text.Symbols
