import EternalTerminal.Server.ClientInput
import EternalTerminal.Server.RecoveryWrites
import EternalTerminal.Server.SendOrder
import EternalTerminal.Core.InterruptInput
import EternalTerminal.Net.WindowedPair
import EternalTerminal.Server.OutputRuns
import EternalTerminal.Server.SessionOwnership
import EternalTerminal.Net.LaneHandover
import EternalTerminal.Net.TableBounds
import EternalTerminal.Server.RouterService
import EternalTerminal.Client.ConsoleAccount
import EternalTerminal.Terminal.PtyDelivery
import EternalTerminal.Terminal.TmuxResponse
import EternalTerminal.Core.BufferMerge
import EternalTerminal.Net.DataPackets
import EternalTerminal.Core.StreamTags
import EternalTerminal.Server.OwnedSends
import EternalTerminal.Net.ClosingSockets
import EternalTerminal.Net.PacketSizes
import EternalTerminal.Core.ConnectionProof
import EternalTerminal.Core.CryptoRuns
import EternalTerminal.Core.OutputPatience
import EternalTerminal.Net.BindReplies
import EternalTerminal.Client.KeepaliveWrites
import EternalTerminal.Client.SendEnvironment
