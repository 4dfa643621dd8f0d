import SmallC.Main
import SmallC.Proofs.Blocks
import SmallC.Proofs.Build.Leftovers
import SmallC.Proofs.Homes
import SmallC.Proofs.Redeclarations
import SmallC.Proofs.Temporaries
import SmallC.Proofs.Typing
import SmallC.Proofs.Preprocess
import SmallC.Proofs.Definitions
import SmallC.Proofs.Initialisers
import SmallC.Proofs.Token.Printing
import SmallC.Proofs.Pieces
import SmallC.Proofs.Progress.Source
import SmallC.Proofs.Loops
import SmallC.Proofs.Resolution
import SmallC.Proofs.Results
import SmallC.Proofs.Agreement
import SmallC.Proofs.Narrowing
import SmallC.Proofs.Parentheses
import SmallC.Proofs.Expansion
import SmallC.Proofs.Scaling
import SmallC.Proofs.Arity
import SmallC.Proofs.Strings
import SmallC.Proofs.Arguments
import SmallC.Proofs.Tree.Folded
