import EasyVoiceCall.Lib.Bytes
import EasyVoiceCall.Lib.Machine
import EasyVoiceCall.Lib.PtrSet
import EasyVoiceCall.RawUdpSpec
import EasyVoiceCall.Discipline
import EasyVoiceCall.Marker
import EasyVoiceCall.Carry
import EasyVoiceCall.Lib.Fifo
import EasyVoiceCall.Fade
import EasyVoiceCall.Downstream
import EasyVoiceCall.Playout
import EasyVoiceCall.Uplink
import EasyVoiceCall.Order
import EasyVoiceCall.Worker
import EasyVoiceCall.Stop
import EasyVoiceCall.Speech
import EasyVoiceCall.Reads
import EasyVoiceCall.Comfort
import EasyVoiceCall.Lifetime
import EasyVoiceCall.Lib.Flight
import EasyVoiceCall.Storm
import EasyVoiceCall.Interchange
import EasyVoiceCall.Lib.Throwing
import EasyVoiceCall.Attempt
import EasyVoiceCall.Lib.Pipe
import EasyVoiceCall.TcpClient
import EasyVoiceCall.Relay
import EasyVoiceCall.RelayFifo
import EasyVoiceCall.Lib.Except
import EasyVoiceCall.LossCheck
import EasyVoiceCall.FadeShape
import EasyVoiceCall.VolumeMeter
import EasyVoiceCall.Jni
import EasyVoiceCall.Lib.Framing
import EasyVoiceCall.Capture
import EasyVoiceCall.Slots
import EasyVoiceCall.Connection
import EasyVoiceCall.Stream
import EasyVoiceCall.WriteQueue
import EasyVoiceCall.Lib.Objects
import EasyVoiceCall.SendBuffers
import EasyVoiceCall.Concealment
import EasyVoiceCall.AudioInStub
import EasyVoiceCall.Lib.Regex
import EasyVoiceCall.Lib.Decimal
import EasyVoiceCall.Address
import EasyVoiceCall.Lib.Hub
import EasyVoiceCall.Conversation
import EasyVoiceCall.Broadcast
import EasyVoiceCall.Finish
import EasyVoiceCall.MainWindow
import EasyVoiceCall.HangUp
import EasyVoiceCall.Phone
import EasyVoiceCall.Headless
import EasyVoiceCall.Statics
