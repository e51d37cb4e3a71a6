import Mantids.Json
import Mantids.Token
import Mantids.MethodsHandler
import Mantids.BChunks
import Mantids.Spill
import Mantids.DelimiterMode
import Mantids.DirectDelimiterMode
import Mantids.MultiDelimiterMode
import Mantids.JwtSignature
import Mantids.JwtRevocation
import Mantids.FileRequest
import Mantids.SessionReferences
import Mantids.SessionLifetime
import Mantids.ContentLength
import Mantids.ChunkedBody
import Mantids.UrlVars
import Mantids.FastRpcFrame
import Mantids.FastRpcCall
import Mantids.FastRpcAnswers
import Mantids.FastRpcWait
import Mantids.FastRpcErrorAnswer
import Mantids.FastRpcExits
import Mantids.Impersonation
import Mantids.SocketTransport
import Mantids.Crypto
import Mantids.SafeMapThreads
import Mantids.ThreadPool
import Mantids.CryptoChallenge
import Mantids.ChunkOrder
import Mantids.MultiplexedLine
import Mantids.ThreadPoolStop
import Mantids.DatabaseQueries
import Mantids.AcceptorMultithreaded
import Mantids.DocumentRoot
import Mantids.SessionBookkeeping
import Mantids.UrlStream
import Mantids.BasicAuthentication
import Mantids.HttpAnswer
import Mantids.BridgeThread
import Mantids.Lib.Keystream
import Mantids.SocketChainAes
import Mantids.BChunksSlices
import Mantids.BBaseFind
import Mantids.BMem
import Mantids.BBaseCompare
import Mantids.BRef
import Mantids.AppendTo
import Mantids.DisplaceUntil
import Mantids.MemCopies
import Mantids.WriteFailures
import Mantids.ParserBounds
import Mantids.BChunksOfString
import Mantids.JsonEval
import Mantids.RestfulMethods
import Mantids.MethodTables
import Mantids.RevocationList
import Mantids.JwtCache
import Mantids.ThreadPoolLimit
import Mantids.ApiVersions
import Mantids.BrowserGate
import Mantids.JsonEvalCorrect
import Mantids.UrlDecoders
import Mantids.UrlStrings
import Mantids.ObfuscatedBase64
import Mantids.Totp
import Mantids.JInjection
import Mantids.HtmliContentTypes
import Mantids.Cookies
import Mantids.ChunkSizes
import Mantids.HeaderPolicies
import Mantids.HeaderRoundTrip
import Mantids.Lib.Loop
import Mantids.MimeMessage
import Mantids.MimeStaticTexts
import Mantids.RequestQuery
import Mantids.SetCookie
import Mantids.SubValues
import Mantids.UrlEncoderSinks
import Mantids.VarsLookups
import Mantids.AesHandshake
import Mantids.BashLine
import Mantids.BlockAllocation
import Mantids.BridgeBlocks
import Mantids.BufferedReader
import Mantids.DelimitedBlocks
import Mantids.GenRandomBytes
import Mantids.Lib.LeftmostLongest
import Mantids.MariaDbBinding
import Mantids.PgsqlBinding
import Mantids.ChunkSearch
import Mantids.IPv4Range
import Mantids.SqliteRows
import Mantids.StringList
import Mantids.VarsFile
import Mantids.Lib.Wakeups
import Mantids.SafeQueue
import Mantids.SocketChain
import Mantids.SocketChainEnd
import Mantids.FastRpcEndToEnd
import Mantids.FastRpcLogin
import Mantids.RestfulAuthorisation
import Mantids.HttpEndToEnd
import Mantids.HttpResponseEndToEnd
