import Abacus.Editor.Server
import Abacus.Files.Tree
import Abacus.Main
import Abacus.Proofs.Accidents
import Abacus.Proofs.Advance
import Abacus.Proofs.Agreement
import Abacus.Proofs.Bookkeeping
import Abacus.Proofs.ByteLines
import Abacus.Proofs.Calls
import Abacus.Proofs.CommandWords
import Abacus.Proofs.Configurations
import Abacus.Proofs.Debugging
import Abacus.Proofs.Division
import Abacus.Proofs.FirstFault
import Abacus.Proofs.Layout
import Abacus.Proofs.LineCuts
import Abacus.Proofs.Literals
import Abacus.Proofs.Lookahead
import Abacus.Proofs.Nesting
import Abacus.Proofs.Publications
import Abacus.Proofs.Ranges
import Abacus.Proofs.Recognition
import Abacus.Proofs.Reproduction
import Abacus.Proofs.Routes
import Abacus.Proofs.Spacing
import Abacus.Proofs.Spelling
import Abacus.Proofs.SyntaxErrors
import Abacus.Proofs.Trailing
import Abacus.Proofs.Undecodable
import Abacus.Proofs.Underlining
import Abacus.Proofs.WellFormed
import Abacus.Proofs.WordKinds
import Abacus.Token.Cursor
