import Autodoc.Main
import Autodoc.Proofs.Ancestry
import Autodoc.Proofs.Descent
import Autodoc.Proofs.EnumTypes
import Autodoc.Proofs.EnumVisibility
import Autodoc.Proofs.FileNames
import Autodoc.Proofs.Handover
import Autodoc.Proofs.Kinds
import Autodoc.Proofs.NameOrder
import Autodoc.Proofs.Nicknames
import Autodoc.Proofs.Placement
import Autodoc.Proofs.RegistrationOrder
import Autodoc.Proofs.WellFormed
import Autodoc.Proofs.FileTree
import Autodoc.Proofs.Writing
import Autodoc.Proofs.Failure
import Autodoc.Proofs.Checking
import Autodoc.Proofs.Causes
import Autodoc.Proofs.Strictness
import Autodoc.Proofs.Validation
import Autodoc.Proofs.DocBlock
import Autodoc.Proofs.DocComment
import Autodoc.Proofs.ClassNames
import Autodoc.Proofs.Session
import Autodoc.Proofs.MarkedLines
import Autodoc.Proofs.Listing
import Autodoc.Proofs.References
import Autodoc.Proofs.Merging
import Autodoc.Proofs.Drift
import Autodoc.Proofs.Repetition
import Autodoc.Proofs.Removal
import Autodoc.Proofs.Inheritance
import Autodoc.Proofs.Constants
import Autodoc.Proofs.Requirements
import Autodoc.Proofs.Decoding
import Autodoc.Proofs.OutputTypes
import Autodoc.Proofs.Bearing
import Autodoc.Proofs.ClassBody
import Autodoc.Proofs.Readability
import Autodoc.Proofs.Circles
import Autodoc.Proofs.Answering
import Autodoc.Proofs.Variables
import Autodoc.Proofs.Places
import Autodoc.Proofs.Preorder
import Autodoc.Proofs.Overrides
import Autodoc.Proofs.Trailing
import Autodoc.Proofs.Indexes
import Autodoc.Proofs.IdentityFilter
import Autodoc.Proofs.Membership
