import CanisLink.Interleave
import CanisLink.EdgeFollows
import CanisLink.EdgeLink
import CanisLink.Numbering
import CanisLink.DeviceApi
import CanisLink.Stores
import CanisLink.Effects
import CanisLink.Server
import CanisLink.Steward
import CanisLink.McuStream
import CanisLink.McuLink
import CanisLink.Handshake
import CanisLink.Resolve
import CanisLink.EndOnDisk
import CanisLink.Engage
import CanisLink.Handling
import CanisLink.Born
import CanisLink.HardCap
import CanisLink.Restart
import CanisLink.SavedSessions
import CanisLink.SessionsKept
import CanisLink.InvitesKept
import CanisLink.PolicyKept
import CanisLink.BondsKept
import CanisLink.Migrate
import CanisLink.RateKept
import CanisLink.SelfCall
import CanisLink.Confine
import CanisLink.McuResync
import CanisLink.Debounce
import CanisLink.Points
import CanisLink.Custody
import CanisLink.InviteSections
import CanisLink.InviteCustody
import CanisLink.SessionSections
import CanisLink.SessionCustody
import CanisLink.MediaReady
import CanisLink.Tick
import CanisLink.Announce
import CanisLink.Machine
import CanisLink.Broadcast
import CanisLink.Signaling
import CanisLink.OfferArrives
import CanisLink.Answers
import CanisLink.Segments
import CanisLink.Routing
import CanisLink.Sleep
import CanisLink.RateWindow
import CanisLink.Deadlines
import CanisLink.RoundTrip
import CanisLink.FailedAccept
import CanisLink.Acknowledged
import CanisLink.PadPresses
import CanisLink.SensorLost
import CanisLink.FailedCall
import CanisLink.Armed
import CanisLink.Consent
import CanisLink.DeviceSocket
import CanisLink.Pushes
import CanisLink.Rings
import CanisLink.Rooms
import CanisLink.Beliefs
import CanisLink.Connect
import CanisLink.Crash
import CanisLink.Unseen
import CanisLink.Sensed
import CanisLink.Ephemeral
import CanisLink.EdgeMain
import CanisLink.Firmware
