import DnServer.Lib.Table
import DnServer.Lib.Transition
import DnServer.Lib.Handler
import DnServer.Lib.KeySort
import DnServer.Lib.ProRata
import DnServer.Bullfight.Types
import DnServer.Bullfight.Poker
import DnServer.Bullfight.Bull
import DnServer.Bullfight.HasCards
import DnServer.Bullfight.Thirteen
import DnServer.Bullfight.Counts
import DnServer.Bullfight.Special
import DnServer.Bullfight.Timer
import DnServer.Bullfight.Game.State
import DnServer.Bullfight.Game.Step
import DnServer.Bullfight.Game.System
import DnServer.Bullfight.Game.Spec
import DnServer.Bullfight.Game.Cards
import DnServer.Bullfight.Game.Compare
import DnServer.Bullfight.Game.Bank
import DnServer.Bullfight.Game.Settle
import DnServer.Bullfight.Game.Moves
import DnServer.Bullfight.Game.Invariant
import DnServer.Bullfight.Game.Dispatch
import DnServer.Bullfight.Game.Deal
import DnServer.Bullfight.Game.Grab
import DnServer.Bullfight.Game.Balance
import DnServer.Bullfight.Game.Safety
import DnServer.Bullfight.Game.Fee
import DnServer.Bullfight.Game.Cap
import DnServer.Bullfight.Game.Replies
import DnServer.Bullfight.Game.Accounts
import DnServer.Bullfight.Game.Books
import DnServer.Bullfight.Game.Account
import DnServer.Bullfight.Game.Conservation
import DnServer.Lib.Mirror
import DnServer.Bullfight.Room.State
import DnServer.Bullfight.Room.Step
import DnServer.Bullfight.Room.System
import DnServer.Bullfight.Room.Spec
import DnServer.Bullfight.Room.Seats
import DnServer.Bullfight.Room.Grants
import DnServer.Bullfight.Room.Atomic
import DnServer.Bullfight.Room.SameIP
import DnServer.Bullfight.Room.SuitableBet
import DnServer.Bullfight.Center.Step
import DnServer.Bullfight.Center.System
import DnServer.Bullfight.Center.Session
import DnServer.Bullfight.Center.UpLose
import DnServer.Lib.Loop
import DnServer.Lib.Packed
import DnServer.Lib.Returns
import DnServer.Lib.Keyed
import DnServer.Bullfight.Center.Online
import DnServer.Bullfight.Shop.State
import DnServer.Bullfight.Shop.Step
import DnServer.Bullfight.Shop.Recharge
import DnServer.Bullfight.Shop.Exchange
import DnServer.Bullfight.Task.State
import DnServer.Bullfight.Task.Daily
import DnServer.Bullfight.Gate.State
import DnServer.Bullfight.Gate.Delivery
import DnServer.Lib.Coroutine
import DnServer.Lib.Service
import DnServer.Bullfight.Agent.State
import DnServer.Bullfight.Agent.SafeBox
import DnServer.Bullfight.Agent.Seat
import DnServer.Bullfight.Agent.Lock
import DnServer.Bullfight.Agent.Ledger
import DnServer.Bullfight.Agent.Kick
import DnServer.Bullfight.Agent.BestHand
import DnServer.Bullfight.Agent.RedPacket
import DnServer.Bullfight.Agent.ScratchCard
import DnServer.Bullfight.Agent.CardTime
import DnServer.Bullfight.Agent.CardPace
import DnServer.Lib.Decoder
import DnServer.Lib.Numeral
import DnServer.Redis.Buffer
import DnServer.Redis.State
import DnServer.Redis.Client
import DnServer.Redis.Reply
import DnServer.Redis.Splitter
import DnServer.Redis.Stream
import DnServer.Redis.TopList
import DnServer.Redis.WishingWell
import DnServer.Lib.CompareSort
import DnServer.Redis.Leaderboard
import DnServer.Redis.Ledger
import DnServer.Redis.Batch
import DnServer.Redis.Pipeline
import DnServer.Lib.LuaFormat
import DnServer.Lib.MySql
import DnServer.Bullfight.Database.SafeBox
import DnServer.Lib.Memory
import DnServer.Lib.Tiling
import DnServer.Gate.RingBuffer
import DnServer.Gate.Tiled
import DnServer.Gate.Alloc
import DnServer.Gate.Chain
import DnServer.Lib.Circular
import DnServer.Skynet.MessageQueue
import DnServer.Skynet.Blockcall
import DnServer.Skynet.LockSession
import DnServer.Skynet.Lua.Matching
import DnServer.Skynet.GlobalQueue
import DnServer.Skynet.Scheduling
import DnServer.Skynet.Handles
import DnServer.Skynet.Multicast.Payload
import DnServer.Skynet.Multicast.Membership
import DnServer.Skynet.Timer.Update
import DnServer.Skynet.Seri.Robust
import DnServer.Gate.Connections
import DnServer.Gate.Send
import DnServer.Gate.Mread
import DnServer.Gate.Frames
import DnServer.Gate.Slots
import DnServer.Connection.Server
import DnServer.Harbor.Wire
import DnServer.Harbor.Master
import DnServer.Harbor.Delivery
import DnServer.Bullfight.Arrange
import DnServer.Skynet.Timer.Words
import DnServer.Skynet.Reserved
import DnServer.Skynet.Naming
import DnServer.Skynet.Multicast.InPlace
import DnServer.Gate.Accept
import DnServer.Gate.EmptyFrames
import DnServer.Gate.Ownership
import DnServer.Bullfight.Database.AddSlashes
import DnServer.Connection.Socket
import DnServer.Connection.Block
import DnServer.Gate.Calls
import DnServer.Gate.Partition
import DnServer.Bullfight.Agent.GameCurrency
import DnServer.Bullfight.Hall
import DnServer.Lib.Pieces
import DnServer.Gate.Contents
import DnServer.Gate.Reading
import DnServer.Gate.Polling
import DnServer.Gate.Places
import DnServer.Gate.Turns
import DnServer.Gate.Preamble
import DnServer.Gate.WebSocket
import DnServer.Lib.Latest
import DnServer.Harbor.Network
import DnServer.Harbor.Telling
import DnServer.Harbor.Told
import DnServer.Harbor.Agreement
import DnServer.Lib.Chained
import DnServer.Harbor.NameTable
import DnServer.Protobuf.Fields
import DnServer.Lib.Tokens
import DnServer.Skynet.Buffers
import DnServer.Skynet.Ownership
import DnServer.Skynet.Leaks
import DnServer.Skynet.Callbacks
