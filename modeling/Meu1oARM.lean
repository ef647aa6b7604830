import Meu1oARM.Foundation.Machine
import Meu1oARM.Foundation.CString
import Meu1oARM.Foundation.Run
import Meu1oARM.Lwip.Tcp
import Meu1oARM.Lwip.Pbuf
import Meu1oARM.Httpd.State
import Meu1oARM.Httpd.Write
import Meu1oARM.Httpd.Plain
import Meu1oARM.Httpd.Ssi
import Meu1oARM.Httpd.Close
import Meu1oARM.Httpd.Send
import Meu1oARM.Httpd.Strnstr
import Meu1oARM.Httpd.Cgi
import Meu1oARM.Httpd.File
import Meu1oARM.Httpd.Request
import Meu1oARM.Httpd.Callbacks
import Meu1oARM.Httpd.Connection
import Meu1oARM.Foundation.Expand
import Meu1oARM.Foundation.Tokens
import Meu1oARM.Httpd.TagScan
import Meu1oARM.Httpd.SsiStream
import Meu1oARM.Httpd.Serving
import Meu1oARM.Httpd.Opening
import Meu1oARM.Foundation.Loop
import Meu1oARM.Httpd.SsiCalls
import Meu1oARM.Httpd.SsiLoop
import Meu1oARM.Httpd.SsiCounters
import Meu1oARM.Httpd.SsiProgress
import Meu1oARM.Httpd.Answer
import Meu1oARM.Httpd.Moves
import Meu1oARM.Httpd.Linked
import Meu1oARM.Httpd.World
import Meu1oARM.Httpd.TagLookup
import Meu1oARM.Foundation.Pieces
import Meu1oARM.Httpd.InsertBounds
import Meu1oARM.Httpd.TagGrammar
import Meu1oARM.Httpd.Response
import Meu1oARM.Httpd.Resources
import Meu1oARM.Httpd.Receive
import Meu1oARM.Httpd.Safety
import Meu1oARM.Httpd.Parsing
import Meu1oARM.Httpd.Segments
import Meu1oARM.Httpd.Arrival
import Meu1oARM.Httpd.Reaction
import Meu1oARM.Httpd.Idle
import Meu1oARM.Httpd.RequestLine
import Meu1oARM.Httpd.HeaderBlock
import Meu1oARM.Httpd.Versions
import Meu1oARM.Httpd.Tags
import Meu1oARM.Foundation.Calendar
import Meu1oARM.Httpd.Parameters
import Meu1oARM.Foundation.Decimal
import Meu1oARM.Board.Rtc
import Meu1oARM.Board.Application
import Meu1oARM.Board.Dispatch
import Meu1oARM.Board.Relays
import Meu1oARM.Board.RootPage
import Meu1oARM.Board.Clock
import Meu1oARM.Board.SetClock
import Meu1oARM.Board.Buffers
import Meu1oARM.Board.Card
import Meu1oARM.Foundation.Overwrite
import Meu1oARM.Board.SdCard
import Meu1oARM.Board.MainLoop
import Meu1oARM.Foundation.LinkedList
import Meu1oARM.Httpd.Post
import Meu1oARM.Httpd.PostReaction
import Meu1oARM.Httpd.PostSignals
import Meu1oARM.Httpd.PostHeader
import Meu1oARM.Httpd.PostBody
import Meu1oARM.Httpd.Connections
import Meu1oARM.Httpd.Listed
import Meu1oARM.Httpd.Oldest
import Meu1oARM.Foundation.LittleEndian
import Meu1oARM.Foundation.Tiling
import Meu1oARM.Lwip.Heap
import Meu1oARM.Foundation.Ledger
import Meu1oARM.Lwip.HeapBlocks
import Meu1oARM.Lwip.HeapOps
import Meu1oARM.Lwip.HeapRuns
import Meu1oARM.Foundation.Serial
import Meu1oARM.Foundation.Slice
import Meu1oARM.Lwip.TcpAck
import Meu1oARM.Lwip.TcpCalls
import Meu1oARM.Lwip.TcpDelivery
import Meu1oARM.Lwip.TcpRuns
import Meu1oARM.Lwip.TcpLink
