import Atoman.Bootloader.Commit
import Atoman.Codec.Rle
import Atoman.Codec.Lzss
import Atoman.Codec.Dict
import Atoman.Codec.Zero
import Atoman.Lib.BlockParser
import Atoman.Comm.V1Send
import Atoman.Comm.Parser
import Atoman.Comm.Blocks
import Atoman.Comm.V1Parser
import Atoman.Comm.V1Blocks
import Atoman.Comm.V1Header
import Atoman.Comm.V1RoundTrip
import Atoman.Comm.V1Transmit
import Atoman.Lib.History
import Atoman.Comm.Frames
import Atoman.Comm.Moves
import Atoman.Comm.Delivery
import Atoman.Comm.V1Frames
import Atoman.Codec.Bounds
import Atoman.Comm.V1Moves
import Atoman.Comm.V1Route
import Atoman.Comm.Validated
import Atoman.Comm.Extents
import Atoman.FalCore.Chunks
import Atoman.DemoStorage.Atomic
import Atoman.Bch4.Soundness
import Atoman.Codec.Entry.Language
import Atoman.Codec.Entry.ZeroLanguage
import Atoman.Trace.Fifo
import Atoman.Scope.Readout
import Atoman.Srtos.Order
import Atoman.Srtos.Vacant
import Atoman.SectionStl.Conservation
import Atoman.SectionStl.Revocation
import Atoman.SectionStl.Registration
import Atoman.SectionStl.Initialization
import Atoman.SectionStl.Bypass
import Atoman.RealtimeScope.Requests
import Atoman.Shell.Limits
import Atoman.DemoStorage.Mailbox
import Atoman.Pfc.Trip
import Atoman.Chb.Sequencing
import Atoman.TcpStream.Connection
import Atoman.Fsm.Events
import Atoman.Bootloader.Codec
import Atoman.Bootloader.Protocol
import Atoman.Bootloader.Recovery
import Atoman.FalCore.Consistency
import Atoman.FalCore.Progress
import Atoman.UartDma.Receive
import Atoman.UartDma.SerialLink
import Atoman.TimeShare.Fairness
import Atoman.KeyEvent.Presses
import Atoman.SectionList.Enumeration
import Atoman.Perf.Accounting
import Atoman.RlyOn.Requests
import Atoman.Perf.Completeness
import Atoman.Shell.Lines
import Atoman.Shell.Commands
import Atoman.Comm.Checksum
import Atoman.Control.Trig
import Atoman.Control.Fll
import Atoman.Control.PiTustin
import Atoman.Control.Filters
import Atoman.Usart.Transmit
import Atoman.Iir.Registers
import Atoman.UartDma.Transmit
import Atoman.Nand.Session
import Atoman.Nand.Restore
import Atoman.Srtos.Release
