import Telegraph.Cache.CacheUses
import Telegraph.Cache.ModernCache
import Telegraph.Lib.Bytes
import Telegraph.Lib.Chains
import Telegraph.Lib.CounterMode
import Telegraph.Lib.Dictionary
import Telegraph.Lib.Intervals
import Telegraph.Lib.Machine
import Telegraph.Lib.Multiplicity
import Telegraph.Lib.Reader
import Telegraph.Lib.SeqNum
import Telegraph.Lib.Table
import Telegraph.Lib.Walks
import Telegraph.Messages.ChannelHoles
import Telegraph.Messages.ConversationViews
import Telegraph.Messages.Database
import Telegraph.Messages.EmptiedConversations
import Telegraph.Messages.PeerCounts
import Telegraph.Messages.PeerSteps
import Telegraph.Messages.Steps
import Telegraph.Messages.Transaction
import Telegraph.Messages.UnreadCount
import Telegraph.MtProto.Acknowledgements
import Telegraph.MtProto.ContainerPacking
import Telegraph.MtProto.DatacenterAuth
import Telegraph.MtProto.Factorization
import Telegraph.MtProto.IncomingMessages
import Telegraph.MtProto.MessageOrder
import Telegraph.MtProto.MessageScan
import Telegraph.MtProto.ObfuscatedConnection
import Telegraph.MtProto.AuthKeyShape
import Telegraph.MtProto.ProgressToken
import Telegraph.MtProto.QuickAck
import Telegraph.MtProto.RequestOrder
import Telegraph.MtProto.RequestRun
import Telegraph.MtProto.SaltSet
import Telegraph.MtProto.ServiceBodies
import Telegraph.MtProto.TcpConnection
import Telegraph.MtProto.TLBytes
import Telegraph.Secret.Client
import Telegraph.Secret.Database
import Telegraph.Secret.Envelope
import Telegraph.Secret.IncomingOrder
import Telegraph.Secret.IncomingQueue
import Telegraph.Secret.Keys
import Telegraph.Secret.OutgoingSent
import Telegraph.Secret.Rekey
import Telegraph.Secret.RekeyHandshake
import Telegraph.Secret.Resendable
import Telegraph.Stage.ActionStage
import Telegraph.Stage.ExclusiveQueues
import Telegraph.Stage.FinishedActors
import Telegraph.Stage.Queues
import Telegraph.Updates.AppliedOnce
import Telegraph.Updates.ApplyUpdates
import Telegraph.Updates.GapEngines
import Telegraph.Updates.MessageService
import Telegraph.Updates.PtsMoves
import Telegraph.VoIP.Acks
import Telegraph.VoIP.BufferStreams
import Telegraph.VoIP.CallStates
import Telegraph.VoIP.JitterBuffer
import Telegraph.VoIP.PacketFormat
import Telegraph.VoIP.RecvWindow
import Telegraph.Lib.Memory
import Telegraph.Coder.CoderRoundTrip
import Telegraph.Database.IdLookups
import Telegraph.Database.MessageIndex
import Telegraph.Database.RemoteContacts
import Telegraph.Messages.SortKeys
import Telegraph.Messages.TrailingHoles
import Telegraph.Messages.TopMessages
import Telegraph.Secret.EnvelopeBounds
import Telegraph.Secret.ResendRange
import Telegraph.Database.ConversationPaging
import Telegraph.Secret.ResendContent
import Telegraph.Messages.MessageFlags
import Telegraph.MtProto.MessageIds
import Telegraph.Database.HistoryHoles
import Telegraph.Database.HistorySegments
import Telegraph.Messages.PinnedConversations
import Telegraph.MtProto.FileBasedKeychain
import Telegraph.Database.CustomProperties
import Telegraph.Text.PreparedText
import Telegraph.Text.TextChecking
import Telegraph.TL.MetaConstructor
import Telegraph.Media.PlainAttachments
import Telegraph.Media.DocumentAttachment
import Telegraph.Media.MediaRoundTrip
import Telegraph.TL.SchemeTables
import Telegraph.TL.SchemeObjects
import Telegraph.VoIP.JitterPlayback
import Telegraph.VoIP.StreamFrames
import Telegraph.VoIP.CongestionControl
import Telegraph.VoIP.SendQueue
import Telegraph.TL.SchemeRoundTrip
import Telegraph.Files.DownloadIntegrity
import Telegraph.Files.FileTransfer
import Telegraph.Channels.CaughtUp
import Telegraph.Signals.PoolRounds
import Telegraph.Signals.LatestSignal
