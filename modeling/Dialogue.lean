import Dialogue.Main
import Dialogue.Shelf.Repository
import Dialogue.Proofs.Play.Asides
import Dialogue.Proofs.Play.Choices
import Dialogue.Proofs.Play.Driving
import Dialogue.Proofs.Play.Loops
import Dialogue.Proofs.Play.Parts
import Dialogue.Proofs.Play.Reveals
import Dialogue.Proofs.Play.Safety
import Dialogue.Proofs.Play.Tickets
import Dialogue.Proofs.Play.Transitions
import Dialogue.Proofs.Shelf.Agreement
import Dialogue.Proofs.Text.Positions
import Dialogue.Proofs.Value.Keys
import Dialogue.Proofs.Workshop.Accounting
import Dialogue.Proofs.Workshop.Closing
import Dialogue.Proofs.Workshop.Compilation
import Dialogue.Proofs.Workshop.Conditions
import Dialogue.Proofs.Workshop.Listing
import Dialogue.Proofs.Workshop.Mirrors
import Dialogue.Proofs.Workshop.Ordering
import Dialogue.Proofs.Workshop.Ownership
import Dialogue.Proofs.Workshop.Refusals
import Dialogue.Proofs.Workshop.Sealing
import Dialogue.Proofs.Workshop.Splicing
import Dialogue.Proofs.Workshop.Templates
import Dialogue.Proofs.Workshop.Walks
import Dialogue.Proofs.Story.Faults
import Dialogue.Proofs.Story.Saving
