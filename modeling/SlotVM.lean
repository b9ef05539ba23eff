import SlotVM.Main
import SlotVM.Proofs.Cleanup.Isolation
import SlotVM.Proofs.Cleanup.Once
import SlotVM.Proofs.Cleanup.PendingError
import SlotVM.Proofs.Control.Validation
import SlotVM.Proofs.Control.CallReturn
import SlotVM.Proofs.Control.Return
import SlotVM.Proofs.Control.Loop
import SlotVM.Proofs.Store.Closed
import SlotVM.Proofs.Termination.Forward
import SlotVM.Proofs.Translation.Renaming
import SlotVM.Proofs.Translation.Relocation
import SlotVM.Proofs.Store.WriteOnce
import SlotVM.Proofs.Store.Footprint
import SlotVM.Proofs.Assembly.RoundTrip
import SlotVM.Proofs.Assembly.Validity
import SlotVM.Proofs.Assembly.Respelling
import SlotVM.Proofs.Assembly.ErrorLine
import SlotVM.Proofs.Operator.Comparison
import SlotVM.Proofs.Value.Rendering
import SlotVM.Proofs.Control.PartialApplication
