import Barnamaj.Main
import Barnamaj.Proofs.Compilation.Layout
import Barnamaj.Proofs.Compilation.Verdict
import Barnamaj.Proofs.Parser.Batch
import Barnamaj.Proofs.Parser.FirstFault
import Barnamaj.Proofs.Parser.History
import Barnamaj.Proofs.Token.LongestMatch
import Barnamaj.Proofs.Tree.Unparse
import Barnamaj.Proofs.Tree.Walk
import Barnamaj.Proofs.Compilation.DeclaredNames
import Barnamaj.Proofs.Code.Forms
import Barnamaj.Proofs.Symbol.OpenScopes
import Barnamaj.Proofs.Code.Sameness
import Barnamaj.Proofs.Code.Listing
import Barnamaj.Proofs.Symbol.ScopeTrees
import Barnamaj.Proofs.Code.Numbering
import Barnamaj.Proofs.Code.Composition
import Barnamaj.Proofs.Tree.Outlines
import Barnamaj.Proofs.Symbol.TypeNames
import Barnamaj.Proofs.Token.Motion
import Barnamaj.Proofs.Compilation.Numbers
import Barnamaj.Proofs.Code.History
import Barnamaj.Proofs.Symbol.Specs
import Barnamaj.Proofs.CommandLine.Results
import Barnamaj.Proofs.Parser.Progress
