import BeLa.Words
import BeLa.Runs
import BeLa.Unwinding
import BeLa.Components
import BeLa.Writes
import BeLa.Framing
import BeLa.Receiving
import BeLa.FramingRoundTrip
import BeLa.VectoredWrite
import BeLa.Flow
import BeLa.CommandLine
import BeLa.CommandText
import BeLa.Masks
import BeLa.MatchMeaning
import BeLa.UpdateText
import BeLa.Switch
import BeLa.Context
import BeLa.Execute
import BeLa.Editing
import BeLa.Rollback
import BeLa.RemoteExecution
import BeLa.BatchExecution
import BeLa.RemoteOutput
import BeLa.Plugin
import BeLa.PluginMatch
import BeLa.PluginUndo
import BeLa.Card
import BeLa.Message
import BeLa.Channel
import BeLa.Command
import BeLa.Handling
import BeLa.ShellWords
import BeLa.HarmlessLines
import BeLa.HostName
import BeLa.Paths
import BeLa.Steps
import BeLa.Invariant
import BeLa.LiveCards
import BeLa.Footprint
import BeLa.Ledger
import BeLa.Isolation
import BeLa.Tenancy
import BeLa.SharedBridge
import BeLa.BridgeTenants
import BeLa.Client
import BeLa.Accelerate
import BeLa.Owners
import BeLa.ChannelOwnership
import BeLa.PrefixTables
import BeLa.PacketPath
import BeLa.Stages
import BeLa.ClientTable
import BeLa.MakeFlow
import BeLa.FlowDump
import BeLa.ChannelTypes
import BeLa.Requests
import BeLa.AddFlowsEndToEnd
import BeLa.Replies
import BeLa.LateReplies
import BeLa.Orphans
import BeLa.Session
import BeLa.MalformedInput
import BeLa.BoundedMaps
import BeLa.Translation
import BeLa.RuleRegistry
import BeLa.StartUp
import BeLa.Registration
import BeLa.CardTable
import BeLa.CardSocket
import BeLa.CommandServer
import BeLa.Descriptors
import BeLa.EventLoop
import BeLa.OpenFiles
import BeLa.Accsh
import BeLa.ToolCards
import BeLa.Attachment
import BeLa.Pairing
import BeLa.PluginHooks
import BeLa.NatFlows
import BeLa.NatBridge
import BeLa.Alone
import BeLa.Offloading
import BeLa.OffloadedFlows
import BeLa.NatOffload
