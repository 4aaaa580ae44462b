import LedaSdk.AliWs.BufferMgmt
import LedaSdk.AliWs.Client
import LedaSdk.AliWs.Fifo
import LedaSdk.AliWs.Network
import LedaSdk.AliWs.QueueContract
import LedaSdk.AliWs.Receive
import LedaSdk.AliWs.SlotAccess
import LedaSdk.AliWs.SlotHistory
import LedaSdk.AliWs.SlotInvariant
import LedaSdk.AliWs.WakeUp
import LedaSdk.Base.Binary64
import LedaSdk.Base.Block
import LedaSdk.Base.CInt
import LedaSdk.Base.CStr
import LedaSdk.Base.Cursor
import LedaSdk.Base.CyclicQueue
import LedaSdk.Base.DecimalValue
import LedaSdk.Base.FixedPoint
import LedaSdk.Base.FloatText
import LedaSdk.Base.JsonText
import LedaSdk.Base.KeyedList
import LedaSdk.Base.LinkedRing
import LedaSdk.Base.Monitor
import LedaSdk.Base.Numeral
import LedaSdk.Base.Procedure
import LedaSdk.Base.Refinement
import LedaSdk.Base.RingQueue
import LedaSdk.Base.Run
import LedaSdk.ErrorCode
import LedaSdk.Json.CJson
import LedaSdk.Json.Denotation
import LedaSdk.Json.Parse
import LedaSdk.Json.ParseBuffer
import LedaSdk.Json.ParsedString
import LedaSdk.Json.ParsedText
import LedaSdk.Json.Print
import LedaSdk.Json.PrintBuffer
import LedaSdk.Json.PrintCalls
import LedaSdk.Json.PrintedText
import LedaSdk.Json.RoundTrip
import LedaSdk.Json.Spaced
import LedaSdk.Leda.Answering
import LedaSdk.Leda.BlockingWait
import LedaSdk.Leda.CallSystem
import LedaSdk.Leda.CallbackArguments
import LedaSdk.Leda.CodecRoundTrip
import LedaSdk.Leda.ConnectionTraffic
import LedaSdk.Leda.Correlation
import LedaSdk.Leda.Deadline
import LedaSdk.Leda.Decoding
import LedaSdk.Leda.DeviceData
import LedaSdk.Leda.Encoding
import LedaSdk.Leda.EntryMemory
import LedaSdk.Leda.FaithfulDecoding
import LedaSdk.Leda.FaithfulEncoding
import LedaSdk.Leda.Framing
import LedaSdk.Leda.Inbound
import LedaSdk.Leda.Message
import LedaSdk.Leda.MessageCustody
import LedaSdk.Leda.MsgId
import LedaSdk.Leda.PendingReply
import LedaSdk.Leda.PoolLifecycle
import LedaSdk.Leda.RealValues
import LedaSdk.Leda.RecvProc
import LedaSdk.Leda.ReplyRace
import LedaSdk.Leda.ReplyRing
import LedaSdk.Leda.ReplyRouting
import LedaSdk.Leda.ResponseOutcome
import LedaSdk.Leda.Startup
import LedaSdk.Leda.SuccessPayload
import LedaSdk.Leda.Teardown
import LedaSdk.Leda.TeardownOrder
import LedaSdk.Leda.WireId
import LedaSdk.Utility.PoolAtomicity
import LedaSdk.Utility.PoolOrder
import LedaSdk.Utility.PoolProgress
import LedaSdk.Utility.PoolShutdown
import LedaSdk.Utility.PoolThreads
import LedaSdk.Utility.Threadpool
