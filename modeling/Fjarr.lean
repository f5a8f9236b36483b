import Fjarr.Control.Restart
import Fjarr.Media.Overrun
import Fjarr.Media.LateJoiner
import Fjarr.Media.Serving
import Fjarr.Media.Keyframes
import Fjarr.Core.Select
import Fjarr.Core.Valves
import Fjarr.Blob.EndToEnd
import Fjarr.Signaling.Isolation
import Fjarr.Signaling.PeerGone
import Fjarr.Signaling.Presence
import Fjarr.Signaling.Metering
import Fjarr.Terminal.Exit
import Fjarr.Terminal.Output
import Fjarr.Audio.Floor
import Fjarr.Desktop.Stopped
import Fjarr.Desktop.Tracks
import Fjarr.Desktop.Motion
import Fjarr.Desktop.Undisturbed
import Fjarr.Desktop.Utf8
import Fjarr.Web.Paste
import Fjarr.Web.PushToTalk
import Fjarr.Web.Publisher
import Fjarr.Web.Layout
import Fjarr.Web.Requests
import Fjarr.Web.RobotClipboard
import Fjarr.Web.Selection
import Fjarr.Web.Ladder
import Fjarr.Net.Capability
import Fjarr.Net.Policy
import Fjarr.Connect.Shell
import Fjarr.Capture.Release
import Fjarr.Setup.Ghosts
import Fjarr.Setup.Undo
