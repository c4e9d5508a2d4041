import MclLink.Contact.Collision
import MclLink.Contact.Repair
import MclLink.Contact.Retreat
import MclLink.Contact.Memory
import MclLink.Peers.Session
import MclLink.Peers.Transport
import MclLink.Peers.Cutover
import MclLink.Peers.Exchange
import MclLink.Peers.Answers
import MclLink.Frame.Ieee
import MclLink.Frame.Distance
import MclLink.Frame.Inversion
import MclLink.Frame.Majors
import MclLink.Frame.Memory
import MclLink.Frame.Rejection
import MclLink.Frame.Chunks
import MclLink.Control.Framing
import MclLink.Control.Lengths
import MclLink.Control.Sequence
import MclLink.Node.Ownership
import MclLink.Rendezvous.Offer
import MclLink.Rendezvous.Meeting
import MclLink.Registry.Outcome
import MclLink.Control.Vectors
