import Arcium.Conc.Prog
import Arcium.Conc.System
import Arcium.Conc.Together
import Arcium.Conc.Exclusion
import Arcium.Base.Bytes
import Arcium.Base.Codec
import Arcium.Base.LittleEndian
import Arcium.Base.RecordFormat
import Arcium.Base.Reader
import Arcium.Base.IndexMap
import Arcium.Base.TableLog
import Arcium.Base.SortedMap
import Arcium.Base.NumberedLog
import Arcium.Base.Cursor
import Arcium.Crypto.Ratchet
import Arcium.Crypto.RatchetSpec
import Arcium.Crypto.Replay
import Arcium.Crypto.TwoParty
import Arcium.Crypto.Symbolic
import Arcium.Crypto.TwoPartyInv
import Arcium.Crypto.TwoPartyStep
import Arcium.Crypto.Delivery
import Arcium.Crypto.X3dh
import Arcium.Crypto.KeyAgreement
import Arcium.Crypto.Hybrid
import Arcium.Storage.Records
import Arcium.Storage.Store
import Arcium.Storage.Solo
import Arcium.Storage.Encrypted
import Arcium.Storage.PlainMap
import Arcium.Protocol.Checkpoint
import Arcium.Protocol.Counters
import Arcium.Protocol.Eviction
import Arcium.Protocol.RatchetRecord
import Arcium.Protocol.SessionBytes
import Arcium.Protocol.Durable
import Arcium.Protocol.Messenger
import Arcium.Protocol.RecordBytes
import Arcium.Protocol.Transition
import Arcium.Protocol.DurableSpec
import Arcium.Protocol.Batches
import Arcium.Protocol.MessengerSpec
import Arcium.Protocol.LifecycleSpec
import Arcium.Protocol.Alone
import Arcium.Protocol.Change
import Arcium.Protocol.MessageInv
import Arcium.Protocol.SessionInv
import Arcium.Protocol.NoFork
import Arcium.Protocol.TwoEnds
import Arcium.Protocol.Decisions
import Arcium.Protocol.System
import Arcium.Protocol.Guarantees
import Arcium.Protocol.Obligations
import Arcium.Protocol.Recovery
import Arcium.Protocol.SendStatus
import Arcium.Protocol.PendingLists
import Arcium.Protocol.StoreInv
import Arcium.Protocol.StoreAlone
import Arcium.Relay.Server
import Arcium.Relay.Invariant
import Arcium.Relay.Pages
import Arcium.Relay.Protocol
import Arcium.Relay.Fetching
import Arcium.Relay.Exchange
import Arcium.Relay.Connection
import Arcium.Network.Wire
import Arcium.Mobile.Formats
import Arcium.Mobile.Packing
import Arcium.Network.ChatBytes
import Arcium.Network.KeyNames
import Arcium.Mobile.Core
import Arcium.Network.RowBytes
import Arcium.Network.RowStore
import Arcium.Network.History
import Arcium.Network.Messenger
import Arcium.Network.Chat
import Arcium.Network.Transition
import Arcium.Network.Device
import Arcium.Network.Rules
import Arcium.Network.CoreSpec
import Arcium.Network.Refusals
import Arcium.Network.ChatSpec
import Arcium.Network.RoundSpec
import Arcium.Network.System
import Arcium.Network.StoredRows
import Arcium.Network.Pinning
import Arcium.Network.Prekeys
import Arcium.Network.Responders
import Arcium.Network.Unheard
import Arcium.Network.Authority
import Arcium.Network.Publishing
import Arcium.Network.ChatInv
import Arcium.Network.Delivered
import Arcium.Network.TextsKept
import Arcium.Network.Deletions
import Arcium.Network.Receipts
import Arcium.Network.Replays
import Arcium.Network.Openers
import Arcium.Network.Honest
import Arcium.Network.ScanLog
import Arcium.Network.Coverage
import Arcium.Network.ScanRun
import Arcium.Network.ScanSafe
import Arcium.Psi.Intersect
import Arcium.Psi.Client
import Arcium.Psi.Program
import Arcium.Android.MessageRepository
import Arcium.Android.MasterKey
import Arcium.TwoDevices
