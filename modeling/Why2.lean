import Why2.Lib.Chunks
import Why2.Lib.Ctr
import Why2.Lib.Lru
import Why2.Lib.Delimited
import Why2.Lib.Bytes
import Why2.Lib.BinaryField
import Why2.Lib.XorConvolution
import Why2.Lib.BinaryIrreducible
import Why2.Lib.BinaryPolynomial
import Why2.Lib.Exterior
import Why2.Lib.Branch
import Why2.Lib.Runs
import Why2.Lib.Fifo
import Why2.Lib.PartitionPoint
import Why2.Lib.Padding
import Why2.Lib.Purge
import Why2.Lib.Files
import Why2.Lib.FixedCodec
import Why2.Lib.Restarts
import Why2.Lib.Replica
import Why2.Lib.TokenBucket
import Why2.Core.Grid
import Why2.Core.Subcell
import Why2.Core.ShiftRows
import Why2.Core.MixColumns
import Why2.Core.Diffusion
import Why2.Core.Crypto
import Why2.Core.Stream
import Why2.Core.StreamRun
import Why2.Core.Encrypter
import Why2.Core.Auth
import Why2.Core.Construction
import Why2.Chat.PacketStream
import Why2.Chat.SessionPacket
import Why2.Chat.Connection
import Why2.Chat.Sequence
import Why2.Chat.Login
import Why2.Chat.Peers
import Why2.Chat.Rekey
import Why2.Chat.Requests
import Why2.Chat.History
import Why2.Chat.Paging
import Why2.Chat.Moderation
import Why2.Chat.Bans
import Why2.Chat.Teardown
import Why2.Chat.Tokens
import Why2.Chat.DiskFile
import Why2.Chat.ImageCache
import Why2.Chat.PictureFetch
import Why2.Chat.Uploads
import Why2.Chat.UploadChecks
import Why2.Chat.SharedFiles
import Why2.Chat.Pictures
import Why2.Chat.Screen
import Why2.Chat.AccessUnit
import Why2.Chat.Sharing
import Why2.Chat.ScreenPath
import Why2.Chat.Shares
import Why2.Chat.Voice
import Why2.Chat.Channels
import Why2.Chat.Text
import Why2.Chat.Pane
import Why2.Chat.Convergence
import Why2.Chat.Handover
import Why2.Chat.TextPolicy
import Why2.Chat.Listen
import Why2.Chat.AccountStore
import Why2.Chat.KeyExchange
import Why2.Chat.Redial
import Why2.Chat.Recording
import Why2.Chat.Playback
import Why2.Chat.Download
import Why2.Chat.Mention
import Why2.Lib.Counted
import Why2.Lib.Lists
import Why2.Chat.Registration
import Why2.Chat.Settings
import Why2.Chat.ConfigFile
import Why2.Chat.Handshake
import Why2.Chat.VoiceRate
import Why2.Chat.Markup
import Why2.Chat.MarkupMemo
import Why2.Chat.MathParse
import Why2.Chat.MathReads
import Why2.Chat.MathSource
import Why2.Chat.MathDepth
import Why2.Chat.MathBlock
import Why2.Chat.MathLayout
import Why2.Lib.Offsets
import Why2.Chat.PaneRows
import Why2.Chat.PaneScroll
import Why2.Chat.PaneHistory
import Why2.Chat.Replay
import Why2.Chat.Input
import Why2.Lib.Breaks
import Why2.Chat.Wrap
import Why2.Chat.Render
