import ChatProject.Client.ChatSender
import ChatProject.Client.ClientGroupsMng
import ChatProject.Client.ClientMng
import ChatProject.Client.ClientNet
import ChatProject.Client.GroupReplies
import ChatProject.Client.JoinSteps
import ChatProject.Client.Screens
import ChatProject.Client.Typing
import ChatProject.Client.Ui
import ChatProject.Lib.Framing
import ChatProject.Lib.Handles
import ChatProject.Lib.Lines
import ChatProject.Lib.LinkedRing
import ChatProject.Lib.Machine
import ChatProject.Lib.Ownership
import ChatProject.Lib.Progress
import ChatProject.Lib.ShellWords
import ChatProject.Lib.Simulation
import ChatProject.Lib.TrialDivision
import ChatProject.Lib.Walk
import ChatProject.Server.Answering
import ChatProject.Server.Departure
import ChatProject.Server.DescriptorRange
import ChatProject.Server.FreeMcQueue
import ChatProject.Server.GroupMng
import ChatProject.Server.History
import ChatProject.Server.Isolation
import ChatProject.Server.Membership
import ChatProject.Server.Passes
import ChatProject.Server.Pressure
import ChatProject.Server.RecvBuffer
import ChatProject.Server.Refinement
import ChatProject.Server.Reuse
import ChatProject.Server.ServerLoop
import ChatProject.Server.ServerMng
import ChatProject.Server.ServerNet
import ChatProject.Server.Table
import ChatProject.Server.UserMng
import ChatProject.Service.Addresses
import ChatProject.Service.Atomic
import ChatProject.Service.Books
import ChatProject.Service.Chat
import ChatProject.Service.Frame
import ChatProject.Service.Replies
import ChatProject.Shared.CRuntime
import ChatProject.Shared.Codec
import ChatProject.Shared.GenDList
import ChatProject.Shared.GenDListRefinement
import ChatProject.Shared.GenQueue
import ChatProject.Shared.GenQueueRefinement
import ChatProject.Shared.Grammar
import ChatProject.Shared.HashMap
import ChatProject.Shared.HashMapNodes
import ChatProject.Shared.HashMapRefinement
import ChatProject.Shared.HashMapTraversal
import ChatProject.Shared.Lookahead
import ChatProject.Shared.PrimeRounding
import ChatProject.Shared.Protocol
import ChatProject.Shared.Stdin
import ChatProject.System.Agreement
import ChatProject.System.Attribution
import ChatProject.System.Blocking
import ChatProject.System.CommandLog
import ChatProject.System.Conformance
import ChatProject.System.Connections
import ChatProject.System.Conversation
import ChatProject.System.Descriptors
import ChatProject.System.Dialogue
import ChatProject.System.Exchange
import ChatProject.System.Histories
import ChatProject.System.Host
import ChatProject.System.Linearization
import ChatProject.System.Network
import ChatProject.System.PartialSends
import ChatProject.System.Progress
import ChatProject.System.Reassembly
import ChatProject.System.Sitting
import ChatProject.System.SpawnCommands
import ChatProject.System.WindowOwners
import ChatProject.System.Windows
import ChatProject.Tests.MockServer
