import BoolQuery.Tree.Grammar
import BoolQuery.Expr.Text
import BoolQuery.Main
import BoolQuery.Proofs.ReadStep
import BoolQuery.Proofs.ReadGrammar
import BoolQuery.Proofs.FirstFault
import BoolQuery.Proofs.LexemeSpec
import BoolQuery.Proofs.ScanCover
import BoolQuery.Proofs.Retoken
import BoolQuery.Proofs.Pieces
import BoolQuery.Proofs.CanonicalText
import BoolQuery.Proofs.Adjacency
import BoolQuery.Expr.Shape
import BoolQuery.Proofs.Expressible
import BoolQuery.Proofs.Parts
import BoolQuery.Proofs.Places
import BoolQuery.Proofs.Composition
import BoolQuery.Proofs.LexFaults
import BoolQuery.Proofs.BlockRow
import BoolQuery.Proofs.Truncation
import BoolQuery.Tree.Descent
import BoolQuery.Proofs.Descent
import BoolQuery.Proofs.Sessions
import BoolQuery.Proofs.OnePass
import BoolQuery.Proofs.Typing
import BoolQuery.Proofs.Uniformity
import BoolQuery.Proofs.Nodes
import BoolQuery.Proofs.MarkupText
import BoolQuery.Json.Shape
import BoolQuery.Expr.OfDocument
import BoolQuery.Proofs.Chains
import BoolQuery.Proofs.Documents
import BoolQuery.Proofs.DocumentDepth
import BoolQuery.Proofs.Carets
import BoolQuery.Proofs.Regrouping
import BoolQuery.Proofs.TrailingBlanks
import BoolQuery.Expr.Tagged
import BoolQuery.Proofs.Walks
import BoolQuery.Proofs.Tags
