import Llmtrace.Schemes.Run
import Llmtrace.Schemes.Word
import Llmtrace.Schemes.Table
import Llmtrace.Schemes.Pool
import Llmtrace.Schemes.Rows
import Llmtrace.Schemes.Ordered
import Llmtrace.Schemes.Json
import Llmtrace.Schemes.Text
import Llmtrace.Schemes.Search
import Llmtrace.Schemes.JsText
import Llmtrace.Schemes.Numeral
import Llmtrace.Schemes.JsValue
import Llmtrace.Schemes.JsonText
import Llmtrace.Schemes.JsRoundTrip
import Llmtrace.Schemes.JsSorted
import Llmtrace.Schemes.Utf8
import Llmtrace.Schemes.Parser
import Llmtrace.Schemes.Base64
import Llmtrace.Schemes.Recency
import Llmtrace.Schemes.Trie
import Llmtrace.Schemes.Like
import Llmtrace.Schemes.Linear
import Llmtrace.Journal.Record
import Llmtrace.Journal.Catalog
import Llmtrace.Journal.Calls
import Llmtrace.Journal.Queue
import Llmtrace.Journal.Capacity
import Llmtrace.Journal.Files
import Llmtrace.Replay.ExactlyOnce
import Llmtrace.Auth.Throttle
import Llmtrace.Auth.Pruning
import Llmtrace.Auth.Login
import Llmtrace.Auth.Cookies
import Llmtrace.Proxy.Routing
import Llmtrace.Proxy.Redaction
import Llmtrace.Proxy.Headers
import Llmtrace.Proxy.Masking
import Llmtrace.Proxy.Uris
import Llmtrace.Proxy.Upstream
import Llmtrace.Proxy.Capture
import Llmtrace.Proxy.Perimeter
import Llmtrace.Proxy.Upload
import Llmtrace.Proxy.ResponseCapture
import Llmtrace.Proxy.WebSocket
import Llmtrace.Parsers.Response
import Llmtrace.Parsers.Assembly
import Llmtrace.Parsers.Chat
import Llmtrace.Parsers.Stream
import Llmtrace.Parsers.Browser
import Llmtrace.Parsers.Arrivals
import Llmtrace.Parsers.Reassembly
import Llmtrace.Parsers.Preview
import Llmtrace.Parsers.Usage
import Llmtrace.Parsers.CallOrder
import Llmtrace.Plugins.Cache
import Llmtrace.Plugins.Identity
import Llmtrace.Plugins.Host
import Llmtrace.Trace.Session
import Llmtrace.Trace.Credentials
import Llmtrace.Trace.Bounds
import Llmtrace.Trace.Sanitized
import Llmtrace.Plugins.Hooks
import Llmtrace.Trace.FirstToken
import Llmtrace.Trace.Memory
import Llmtrace.Trace.Accounting
import Llmtrace.Storage.Traces
import Llmtrace.Storage.Rollup
import Llmtrace.Storage.Integrity
import Llmtrace.Storage.Transactions
import Llmtrace.Storage.Cleanup
import Llmtrace.Storage.Paging
import Llmtrace.Storage.Archive
import Llmtrace.Storage.Rotation
import Llmtrace.Storage.Collection
import Llmtrace.Storage.Frames
import Llmtrace.Storage.Bodies
import Llmtrace.Storage.Reading
import Llmtrace.Storage.Timeseries
import Llmtrace.Storage.Facets
import Llmtrace.Storage.Shortcuts
import Llmtrace.Storage.Retention
import Llmtrace.Auth.Sessions
import Llmtrace.Auth.SignIn
import Llmtrace.Auth.SignOut
import Llmtrace.Storage.Export
import Llmtrace.Storage.ExportText
import Llmtrace.Query.Schema
import Llmtrace.Query.Sql
import Llmtrace.Query.Text
import Llmtrace.Query.Printed
import Llmtrace.Query.RoundTrip
import Llmtrace.Query.Acceptance
import Llmtrace.Query.ResultRows
import Llmtrace.Query.Search
import Llmtrace.Transcript.History
import Llmtrace.Transcript.Stream
import Llmtrace.Transcript.Records
import Llmtrace.Transcript.Whole
import Llmtrace.Transcript.Agreement
import Llmtrace.Transcript.Identity
import Llmtrace.Ui.Resource
import Llmtrace.Ui.Preview
