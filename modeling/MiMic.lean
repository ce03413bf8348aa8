import MiMic.Lib.System
import MiMic.Lib.Ring
import MiMic.Lib.OnesComplement
import MiMic.Core.Stdlib
import MiMic.Core.FifoBuffer
import MiMic.NetIf.IpTypes
import MiMic.Tcp.Socket
import MiMic.Tcp.Checksum
import MiMic.Tcp.TxQueue
import MiMic.Tcp.LockSections
import MiMic.Tcp.Tasks
import MiMic.Tcp.RxFacts
import MiMic.Tcp.Transition
import MiMic.Lib.Ownership
import MiMic.Tcp.Ownership
import MiMic.Tcp.Retransmit
import MiMic.Tcp.SendWindow
import MiMic.Tcp.Handshake
import MiMic.Tcp.Teardown
import MiMic.Lib.Contiguous
import MiMic.Tcp.TxSequence
import MiMic.Tcp.RxStream
import MiMic.NetIf.Receive
import MiMic.Lib.Registry
import MiMic.NetIf.Connections
import MiMic.Json.CharEffect
import MiMic.Json.RpcStorage
import MiMic.Http.BodyParser
import MiMic.Lib.Scanner
import MiMic.Http.ChunkedGrammar
import MiMic.Http.ChunkedBody
import MiMic.Core.FormatWriter
import MiMic.Core.FormatBuffer
import MiMic.Core.FormatPrint
import MiMic.Http.BodyWriter
import MiMic.Http.ChunkedWriter
import MiMic.Lib.WsFrame
import MiMic.WebSocket.ModWebSocket
import MiMic.WebSocket.Header
import MiMic.WebSocket.Writing
import MiMic.WebSocket.Reading
import MiMic.Json.Getters
import MiMic.Rpc.Handlers
import MiMic.Rpc.Objects
import MiMic.Lib.Decimal
import MiMic.Lib.Json
import MiMic.Rpc.Response
import MiMic.Rpc.Answers
import MiMic.Lib.Hex
import MiMic.Vm.Instruction
import MiMic.Vm.MiMicVM
import MiMic.Vm.TxtCompiler
import MiMic.Vm.Execution
import MiMic.Vm.Compiling
import MiMic.Lib.CodeLayout
import MiMic.Vm.RemoteMcu
import MiMic.Vm.Safety
import MiMic.NetIf.Checksums
import MiMic.Lib.AgingCache
import MiMic.NetIf.Arp
import MiMic.NetIf.ArpRuns
import MiMic.NetIf.ArpExchange
import MiMic.NetIf.NextHop
import MiMic.Driver.EthernetMM
import MiMic.Driver.K64f
import MiMic.Driver.Lpc17xx
import MiMic.Driver.TxRings
import MiMic.Core.Text
import MiMic.Http.HeaderParser
import MiMic.Http.HeaderLines
import MiMic.Http.HeaderWriter
import MiMic.Http.HeaderRoundTrip
import MiMic.Http.RequestPrefix
import MiMic.NetIf.TcpOptions
import MiMic.Snic.IdPtrTable
import MiMic.Snic.IdTableRuns
import MiMic.Snic.Api
import MiMic.Snic.ApiRuns
import MiMic.Httpd.Connection
import MiMic.Httpd.Thread
import MiMic.Flash.Configulation
import MiMic.Flash.OnchipFlashWriter
import MiMic.Flash.K64fIap
import MiMic.Flash.Updates
import MiMic.Flash.BlockWrites
import MiMic.NetIf.DhcpClient
import MiMic.NetIf.DhcpRuns
import MiMic.Snic.MessageTask
import MiMic.Snic.Reception
import MiMic.Http.Delivery
import MiMic.Httpd.Responder
import MiMic.Httpd.DeviceDescription
import MiMic.Httpd.HeaderErrors
import MiMic.Httpd.Modules
import MiMic.Httpd.ResponseGrammar
import MiMic.Httpd.Responses
import MiMic.Httpd.OneResponse
import MiMic.NetIf.ListenQueue
import MiMic.NetIf.UdpSocket
import MiMic.NetIf.UdpQueue
import MiMic.NetIf.UdpDemux
import MiMic.NetIf.UdpSend
import MiMic.NetIf.PortNumber
import MiMic.NetIf.IcmpEcho
import MiMic.Http.BodyStream
import MiMic.NetIf.Reset
import MiMic.Lib.FieldLayout
import MiMic.Snic.Commands
import MiMic.Core.RingBuffer
import MiMic.Lib.Tlv
import MiMic.NetIf.DhcpOptions
import MiMic.Vm.DbCompiler
import MiMic.Lib.Numeral
import MiMic.Http.UrlReader
import MiMic.Net.MDnsPacket
import MiMic.Net.SsdpHeader
import MiMic.Net.SsdpLines
import MiMic.Net.SsdpSocket
import MiMic.Tcp.SendBuffers
import MiMic.Http.SendBuffers
import MiMic.Net.MDnsName
import MiMic.Lib.Stores
import MiMic.Lib.Base64
import MiMic.Http.Base64
import MiMic.Http.UrlCalls
import MiMic.Httpd.UrlCapture
import MiMic.Snic.SendLoop
import MiMic.Snic.SocketTables
import MiMic.Snic.SocketReceive
import MiMic.Http.BodyReads
import MiMic.Httpd.FileUpload
import MiMic.Httpd.DirectoryListing
import MiMic.Http.UrlQuery
import MiMic.Http.UrlEncode
import MiMic.Httpd.FileIoUrl
import MiMic.Core.FormatTextReader
import MiMic.Core.IntegerText
import MiMic.Tcp.RtoBounds
import MiMic.Driver.BufferPool
import MiMic.NetIf.Apipa
import MiMic.Json.RpcLookup
import MiMic.Config.NetConfig
import MiMic.Config.LoadFile
import MiMic.Httpcl.Client
import MiMic.Httpcl.Responses
import MiMic.Httpcl.StatusPlace
import MiMic.Httpcl.Exchange
import MiMic.Config.Update
import MiMic.Httpd.SettingUrl
import MiMic.Httpd.SettingUpdate
import MiMic.Lib.Prog
import MiMic.Lib.WriteBack
import MiMic.Lib.Chains
import MiMic.Lib.Nibbles
import MiMic.Lib.Simulation
import MiMic.Fat.Volume
import MiMic.Fat.Window
import MiMic.Fat.Entry
import MiMic.Fat.Clusters
import MiMic.Fat.ClusterRuns
import MiMic.Fat.Mount
import MiMic.Fat.FreeCount
import MiMic.Fat.File
import MiMic.Fat.FileData
import MiMic.Fat.FileRead
import MiMic.Fat.Growth
import MiMic.Fat.FileWrite
import MiMic.Fat.FileSeek
import MiMic.Fat.Files
import MiMic.Fat.Sync
