import MaiaMeet.OrderedMap
import MaiaMeet.Runs
import MaiaMeet.Isolation
import MaiaMeet.Relay
import MaiaMeet.Published
import MaiaMeet.Capture
import MaiaMeet.Mesh
import MaiaMeet.RateLimit
import MaiaMeet.Chat
import MaiaMeet.Trickle
import MaiaMeet.Serial
import MaiaMeet.Collision
import MaiaMeet.Lifecycle
import MaiaMeet.Locks
import MaiaMeet.Attempts
import MaiaMeet.Honesty
import MaiaMeet.Rewriting
import MaiaMeet.Keying
import MaiaMeet.Payload
import MaiaMeet.RouteSafety
import MaiaMeet.Requests
import MaiaMeet.Indicator
import MaiaMeet.ScreenShare
import MaiaMeet.ControlServer
import MaiaMeet.Rollback
import MaiaMeet.HeaderSafety
import MaiaMeet.Addresses
import MaiaMeet.Certified
import MaiaMeet.Convergence
import MaiaMeet.Flood
import MaiaMeet.Heartbeat
import MaiaMeet.Protected
import MaiaMeet.Sdp
import MaiaMeet.SfuConfig
import MaiaMeet.Lobby
import MaiaMeet.Vhosts
import MaiaMeet.Installed
