import QwNet.Huffman.RoundTrip
import QwNet.Parser.InSync
import QwNet.Parser.Bounds
import QwNet.Parser.Termination
import QwNet.Channel.Checksum
import QwNet.Channel.Frames
import QwNet.Lib.Transition
import QwNet.Channel.Usercmd
import QwNet.Channel.Receive
import QwNet.Channel.System
import QwNet.Channel.Ring
import QwNet.Channel.Counters
import QwNet.Channel.Connect
import QwNet.Channel.Numbering
import QwNet.Channel.Unsent
import QwNet.Channel.Delta
import QwNet.Channel.Effects
import QwNet.Channel.Stale
import QwNet.Channel.Movement
import QwNet.Parser.Print
import QwNet.Parser.Entities
import QwNet.Parser.Effects
import QwNet.Parser.FullUpdate
import QwNet.Lib.Resource
import QwNet.Parser.Session
import QwNet.Parser.Download
import QwNet.Channel.Handshake
import QwNet.Lib.LinkedQueue
import QwNet.Channel.Packets
import QwNet.Channel.Reliable
import QwNet.Channel.Fate
import QwNet.Channel.Connectionless
import QwNet.Channel.ReliableQueue
import QwNet.Lifecycle
import QwNet.Lib.AlternatingBit
import QwNet.Channel.Delivery
import QwNet.Huffman.Compressor
import QwNet.Parser.UsercmdReads
import QwNet.Huffman.Decompressor
import QwNet.Channel.MovementTime
import QwNet.Channel.PacketLoss
import QwNet.Console
import QwNet.Lib.Digits
import QwNet.Net.Address
import QwNet.Net.Ipv4Text
import QwNet.Lib.Runs
import QwNet.Net.Ipv6Text
import QwNet.Lib.OverrunRing
import QwNet.Net.Loopback
import QwNet.Channel.ConnectRequest
import QwNet.Lib.Trimming
import QwNet.Sleep
import QwNet.Lib.StopAndWait
import QwNet.Channel.Netchan
import QwNet.Channel.Header
import QwNet.Channel.Downlink
import QwNet.Channel.Duplex
import QwNet.Lib.DelayLine
import QwNet.Channel.Delays
import QwNet.Channel.Thread
import QwNet.Channel.Unread
import QwNet.Worker
import QwNet.Channel.Datagram
import QwNet.Channel.Wire
import QwNet.Channel.Disconnect
import QwNet.EndToEnd
