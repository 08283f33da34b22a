import LetTree.Main
import LetTree.Node.Edit
import LetTree.Node.Teardown
import LetTree.Proofs.Analysis.Safety
import LetTree.Proofs.Command.Outcome
import LetTree.Proofs.Grammar.Viability
import LetTree.Proofs.Grammar.Writing
import LetTree.Proofs.Node.Drawing
import LetTree.Proofs.Source.Comments
import LetTree.Proofs.Source.Composition
import LetTree.Proofs.Source.Layout
import LetTree.Proofs.Source.Spans
import LetTree.Proofs.Constant.Exactness
import LetTree.Proofs.Constant.Power
import LetTree.Proofs.Constant.Evaluation
import LetTree.Proofs.Constant.Remainder
import LetTree.Proofs.Analysis.Agreement
import LetTree.Proofs.Analysis.Order
import LetTree.Proofs.Source.Numerals
import LetTree.Proofs.Source.Excerpts
import LetTree.Proofs.Token.Strings
import LetTree.Proofs.Node.Traversal
import LetTree.Proofs.Node.Branches
import LetTree.Proofs.Source.Summaries
import LetTree.Proofs.Token.Operators
