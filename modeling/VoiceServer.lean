import VoiceServer.PartialRun
import VoiceServer.ByteReads
import VoiceServer.BigEndian
import VoiceServer.Rfc6455
import VoiceServer.WebSocketFrame
import VoiceServer.FrameAcceptance
import VoiceServer.ReceivePath
import VoiceServer.ReadOutcome
import VoiceServer.WebSocketSession
import VoiceServer.WriteQueue
import VoiceServer.AudioMixer
import VoiceServer.MixerOverflow
import VoiceServer.RoomManager
import VoiceServer.RoomTick
import VoiceServer.RoomHistory
import VoiceServer.RoomInvariant
import VoiceServer.RoomDelivery
import VoiceServer.RoomOverflow
import VoiceServer.TickPlacement
import VoiceServer.MixingTimer
import VoiceServer.VoiceChatServer
import VoiceServer.UpgradeOrder
import VoiceServer.RoomMembership
import VoiceServer.VoiceChatClient
import VoiceServer.CapturePath
import VoiceServer.DatagramSize
import VoiceServer.BinaryData
import VoiceServer.TextCodec
import VoiceServer.BinaryMessage
import VoiceServer.DecodeReads
import VoiceServer.BinaryRecord
import VoiceServer.MixerAverage
import VoiceServer.Playback
import VoiceServer.JitterBuffer
import VoiceServer.PlaybackRing
import VoiceServer.Smoothing
import VoiceServer.Base64
import VoiceServer.Base64Utilities
import VoiceServer.HandshakeKey
import VoiceServer.Sha1
import VoiceServer.Sha1Custom
import VoiceServer.AcceptValue
import VoiceServer.Projection
import VoiceServer.ReadUntil
import VoiceServer.SessionStream
import VoiceServer.ServerRefinement
import VoiceServer.EchoServer
import VoiceServer.ConcurrentWrites
import VoiceServer.DropOldest
import VoiceServer.ClientPlayback
import VoiceServer.VoicePage
import VoiceServer.LossyNetwork
import VoiceServer.MixOrigins
import VoiceServer.VoiceNetwork
import VoiceServer.WalkOrder
import VoiceServer.WebListener
import VoiceServer.PortAudio
import VoiceServer.AudioStreams
import VoiceServer.RoomIds
import VoiceServer.AsyncLogger
import VoiceServer.LoggerWakeup
