import Quorum.Config.Saved
import Quorum.Fault.Family
import Quorum.Main
import Quorum.Proofs.Channel.Opening
import Quorum.Proofs.Channel.RoundTrip
import Quorum.Proofs.Command.Keygen
import Quorum.Proofs.Config.Load
import Quorum.Proofs.Config.RoundTrip
import Quorum.Proofs.Curve.Canonical
import Quorum.Proofs.Curve.Law
import Quorum.Proofs.Society.Adoption
import Quorum.Proofs.Society.Cleanup
import Quorum.Proofs.Society.Delivery
import Quorum.Proofs.Society.Interleaving
import Quorum.Proofs.Society.Records
import Quorum.Proofs.Society.Refusal
import Quorum.Proofs.Society.Setup
import Quorum.Proofs.Society.Submission
import Quorum.Proofs.Society.Transport
import Quorum.Proofs.Threshold.Containment
import Quorum.Proofs.Threshold.Framing
import Quorum.Proofs.Threshold.KeyForms
import Quorum.Proofs.Threshold.Link
import Quorum.Proofs.Threshold.Secrecy
