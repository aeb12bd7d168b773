import ThreeAddress.Main
import ThreeAddress.Proofs.Layout.Acceptance
import ThreeAddress.Proofs.Layout.Closed
import ThreeAddress.Proofs.Layout.ControlFlow
import ThreeAddress.Proofs.Layout.Form
import ThreeAddress.Proofs.Layout.Protection
import ThreeAddress.Proofs.Layout.Traps
import ThreeAddress.Proofs.Lowering.Exclusive
import ThreeAddress.Proofs.Lowering.Plain
import ThreeAddress.Proofs.Semantics.Assignments
import ThreeAddress.Proofs.Semantics.Deeds
import ThreeAddress.Proofs.Traversal.Depths
import ThreeAddress.Proofs.Traversal.Outlines
import ThreeAddress.Proofs.Traversal.StackEffects
import ThreeAddress.Proofs.Layout.Evaluation
import ThreeAddress.Proofs.Traversal.Handlers
import ThreeAddress.Proofs.Layout.Exceptions
import ThreeAddress.Proofs.Unmarked.Code
import ThreeAddress.Proofs.Unmarked.States
import ThreeAddress.Proofs.Unmarked.Steps
import ThreeAddress.Proofs.Unmarked.Visits
import ThreeAddress.Proofs.Unmarked.Bodies
import ThreeAddress.Proofs.Layout.Receiving
import ThreeAddress.Proofs.Traversal.StackForms
import ThreeAddress.Proofs.Traversal.Writes
import ThreeAddress.Proofs.Cells.Finish
import ThreeAddress.Proofs.Cells.Linked
import ThreeAddress.Proofs.Layout.Names
import ThreeAddress.Proofs.Layout.Slots
import ThreeAddress.Proofs.Layout.Targets
import ThreeAddress.Proofs.ClassFile.Branches
import ThreeAddress.Proofs.ClassFile.Placement
import ThreeAddress.Proofs.Descriptors
import ThreeAddress.Proofs.ClassFile.Attributes
import ThreeAddress.Proofs.Traversal.Entries
import ThreeAddress.Proofs.Cells.Entries
import ThreeAddress.Proofs.Operands
