import LabelBasic.Main
import LabelBasic.Proofs.Blocks.Refinement
import LabelBasic.Proofs.Defects
import LabelBasic.Proofs.Grammar.Exact
import LabelBasic.Proofs.Lines
import LabelBasic.Proofs.Listing
import LabelBasic.Proofs.Nesting
import LabelBasic.Proofs.Reentry
import LabelBasic.Proofs.Typing
import LabelBasic.Proofs.Coverage
import LabelBasic.Proofs.Faults
import LabelBasic.Proofs.OpenLoops
import LabelBasic.Proofs.Branches
import LabelBasic.Proofs.Calls
import LabelBasic.Proofs.FaultLines
import LabelBasic.Proofs.DataOrder
import LabelBasic.Proofs.Decoding
import LabelBasic.Proofs.InputWords
import LabelBasic.Proofs.Insertion
import LabelBasic.Proofs.Mirroring
import LabelBasic.Proofs.DataPlaces
import LabelBasic.Proofs.Carrying
import LabelBasic.Proofs.Interruption
import LabelBasic.Proofs.Draws
import LabelBasic.Proofs.Moments
import LabelBasic.Proofs.Dependence
import LabelBasic.Proofs.Division
import LabelBasic.Proofs.Places
import LabelBasic.Proofs.Extents
import LabelBasic.Proofs.Listing.Strings
import LabelBasic.Proofs.Listing.Floats
import LabelBasic.Proofs.NumberTexts
import LabelBasic.Proofs.Exactness
import LabelBasic.Proofs.Chains
import LabelBasic.Proofs.Continuing
import LabelBasic.Proofs.Counting
import LabelBasic.Proofs.Linking
import LabelBasic.Proofs.Storing
import LabelBasic.Proofs.EarlyFaults
import LabelBasic.Proofs.Lookahead
import LabelBasic.Proofs.Answers
import LabelBasic.Proofs.Substrings
import LabelBasic.Proofs.CarriageReturns
import LabelBasic.Proofs.Nearest
import LabelBasic.Proofs.NumberValues
import LabelBasic.Proofs.Balance
import LabelBasic.Proofs.Advancing
import LabelBasic.Proofs.Overflow
import LabelBasic.Proofs.References
import LabelBasic.Proofs.Ending
