import RustDemo.Transition.System
import RustDemo.Collections.HashMap
import RustDemo.Chat.Server
import RustDemo.Chat.Membership
import RustDemo.Stream.Incremental
import RustDemo.Stream.LengthPrefixed
import RustDemo.Chat.Json
import RustDemo.Chat.Codec
import RustDemo.Stream.Terminated
import RustDemo.ChatNew.Lines
import RustDemo.ChatNew.Peer
import RustDemo.ChatNew.Broadcast
import RustDemo.Chat.Session
import RustDemo.Chat.System
import RustDemo.Chat.Protocol
import RustDemo.Chat.Interleaving
import RustDemo.Chat.Delivery
import RustDemo.Chat.Departure
import RustDemo.Chat.Teardown
import RustDemo.Chat.Responses
import RustDemo.Collections.Registry
import RustDemo.TokioChat.Connection
import RustDemo.ChatNew.Registration
import RustDemo.TokioChat.Registration
import RustDemo.Chat.Registration
import RustDemo.Chat.Arrival
import RustDemo.Chat.Announcements
import RustDemo.Chat.Acknowledgement
import RustDemo.WsChat.Handler
import RustDemo.WsChat.Nicks
import RustDemo.WsChat.Posts
import RustDemo.Collections.Rearranged
import RustDemo.LibFun.QSort
import RustDemo.LibFun.Partition
import RustDemo.LibFun.Sorting
import RustDemo.Collections.MinStack
import RustDemo.LibFun.MinStack
import RustDemo.Stream.TerminatedDecoder
import RustDemo.TcpEcho.LineCodec
import RustDemo.WsChat.Backlog
import RustDemo.WsChat.Frames
import RustDemo.TokioChat.Safety
import RustDemo.ChatNew.ReadErrors
import RustDemo.Collections.AutoIncrement
import RustDemo.MysqlDemo.TablePost
import RustDemo.Text.Format
import RustDemo.WsChat.LogFile
import RustDemo.WsChat.Saving
import RustDemo.LibFun.Glib
import RustDemo.LibFun.Iterations
import RustDemo.WebSocket.Echo
import RustDemo.Console.Commands
import RustDemo.Console.Input
import RustDemo.ChatNew.Wakeups
import RustDemo.Chat.Ordering
import RustDemo.Console.World
import RustDemo.Console.Connections
import RustDemo.Console.Printed
import RustDemo.Console.EndToEnd
import RustDemo.Chat.Heartbeat
import RustDemo.Chat.Progress
import RustDemo.ChatNew.Conversation
import RustDemo.TokioChat.Broadcast
import RustDemo.WsChat.Replay
import RustDemo.ChatNew.Ticks
import RustDemo.ChatNew.Polling
import RustDemo.RedisDemo.Counter
import RustDemo.RedisDemo.Ending
import RustDemo.RedisDemo.Numbers
import RustDemo.MysqlDemo.Rows
import RustDemo.LibFun.Replace
import RustDemo.Text.SelfDelimiting
import RustDemo.WsChat.FailedSaves
