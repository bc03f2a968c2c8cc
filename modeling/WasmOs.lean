import WasmOs.JumpSound
import WasmOs.ScanSound
import WasmOs.EngineTotal
import WasmOs.JitConfine
import WasmOs.JitAgree
import WasmOs.Sandbox
import WasmOs.LinearMemory
import WasmOs.CallFrame
import WasmOs.Command
import WasmOs.CommandSound
import WasmOs.Pools
import WasmOs.Heap
import WasmOs.Console
import WasmOs.TcpConn
import WasmOs.TcpDelivery
import WasmOs.TcpReceive
import WasmOs.TcpSequence
import WasmOs.TcpServer
import WasmOs.Isolation
import WasmOs.MemoryBound
import WasmOs.Labels
import WasmOs.TcpDemux
import WasmOs.Handshake
import WasmOs.PacketSound
import WasmOs.StackTotal
import WasmOs.DhcpRun
import WasmOs.DhcpOptions
import WasmOs.Lexemes
import WasmOs.FileTable
import WasmOs.BlockIo
import WasmOs.WasmFsSound
import WasmOs.WasmFsFaults
import WasmOs.VirtioSound
import WasmOs.HostWorld
import WasmOs.FsReadBack
import WasmOs.ArgsSound
import WasmOs.Sleep
import WasmOs.AsmSound
import WasmOs.HostSafe
import WasmOs.Numerics
import WasmOs.IntSound
import WasmOs.FuncIndex
import WasmOs.Imports
import WasmOs.Indirect
import WasmOs.JitInstall
import WasmOs.JumpEnds
import WasmOs.MemoryGrow
import WasmOs.Spawned
import WasmOs.Segments
import WasmOs.Shadow
import WasmOs.ShadowBody
import WasmOs.ShadowCall
import WasmOs.Padding
import WasmOs.ArpCacheSound
import WasmOs.Tokenizer
import WasmOs.StringLiteral
import WasmOs.LoaderFormat
import WasmOs.LineEditor
import WasmOs.LineEditorSound
import WasmOs.Vga
import WasmOs.Pixels
import WasmOs.Blit
import WasmOs.TerminalSound
import WasmOs.WatParser
import WasmOs.WatModule
import WasmOs.TokenStream
import WasmOs.Body
import WasmOs.BodyParse
import WasmOs.FoldedFlat
import WasmOs.Resolve
import WasmOs.LebReaders
import WasmOs.Utf8
import WasmOs.ShellTokenizer
import WasmOs.ParserCalls
import WasmOs.ParserEnds
import WasmOs.X64
import WasmOs.Emitters
import WasmOs.EmitSound
import WasmOs.FmtInt
import WasmOs.ParseInt
import WasmOs.History
import WasmOs.FuncNames
import WasmOs.VirtioNetSound
import WasmOs.Virtq
import WasmOs.NetSystem
import WasmOs.SourceSpawned
import WasmOs.UdpAnswer
import WasmOs.Scheduler
import WasmOs.Mount
import WasmOs.FatLoad
import WasmOs.HostCalls
