import Protocraft.Stream.Io
import Protocraft.Stream.Source
import Protocraft.Stream.Program
import Protocraft.Stream.Leb128
import Protocraft.Error
import Protocraft.Primatives.VarInt
import Protocraft.Primatives.HandshakeVersion
import Protocraft.Stream.Cipher
import Protocraft.Stream.Sink
import Protocraft.Stream.Poll
import Protocraft.Defaults.Writer
import Protocraft.Defaults.AsyncWriter
import Protocraft.Defaults.Reader
import Protocraft.Defaults.Switch
import Protocraft.Stream.Codec
import Protocraft.Stream.Stored
import Protocraft.Traits
import Protocraft.Defaults.Compression
import Protocraft.Protocol.Write
import Protocraft.Defaults.Decompression
import Protocraft.Protocol.Read
import Protocraft.Protocol.Framing
import Protocraft.Protocol.Segmentation
import Protocraft.Protocol.Provider
import Protocraft.Protocol.Handshake
import Protocraft.Protocol.Rejection
import Protocraft.Protocol.Limits
import Protocraft.Protocol.Failure
import Protocraft.Defaults.PreCompression
import Protocraft.Defaults.Payload
import Protocraft.Protocol.Compressed
import Protocraft.Defaults.AsyncReturns
import Protocraft.Protocol.Agreement
import Protocraft.Defaults.AsyncCalls
import Protocraft.Protocol.Visible
import Protocraft.Primatives.VarIntCodec
import Protocraft.Protocol.Opening
import Protocraft.Stream.BigEndian
import Protocraft.Stream.Delimited
import Protocraft.Primatives.Codec
import Protocraft.Primatives.Composite
import Protocraft.Protocol.LegacyPing
import Protocraft.Primatives.Array
import Protocraft.Stream.Polled
import Protocraft.Stream.NonBlocking
import Protocraft.Stream.Spelling
import Protocraft.Stream.Confined
import Protocraft.Stream.Choreography
import Protocraft.Stream.Piece
import Protocraft.Defaults.AsyncReader
import Protocraft.Primatives.Grammar
import Protocraft.Protocol.AsyncRead
import Protocraft.Protocol.AsyncOpening
import Protocraft.Protocol.OpeningConfined
import Protocraft.Protocol.Sending
import Protocraft.Protocol.Link
import Protocraft.Protocol.Connection
import Protocraft.Protocol.Progress
import Protocraft.Protocol.Confined
import Protocraft.Protocol.Output
import Protocraft.Protocol.Interop
import Protocraft.Protocol.Greeting
