import AfbBinder.Lib.Arrange
import AfbBinder.Lib.Bracket
import AfbBinder.Lib.Bytes
import AfbBinder.Lib.JsonText
import AfbBinder.Lib.Chain
import AfbBinder.Lib.Closure
import AfbBinder.Lib.Crlf
import AfbBinder.Lib.Keyed
import AfbBinder.Lib.Counted
import AfbBinder.Lib.Exchange
import AfbBinder.Lib.Loop
import AfbBinder.Lib.Outcome
import AfbBinder.Lib.Path
import AfbBinder.Lib.Run
import AfbBinder.Lib.Slots
import AfbBinder.Lib.Query
import AfbBinder.Lib.Base64
import AfbBinder.Lib.Sha1
import AfbBinder.Thread.Pool
import AfbBinder.Thread.Queue
import AfbBinder.Thread.Exclusion
import AfbBinder.Thread.Progress
import AfbBinder.Thread.Order
import AfbBinder.Thread.Accounts
import AfbBinder.Session.Store
import AfbBinder.Session.Effects
import AfbBinder.Session.Lifetime
import AfbBinder.Session.Follows
import AfbBinder.Session.Lookup
import AfbBinder.Session.Expiry
import AfbBinder.Session.Contents
import AfbBinder.Session.Release
import AfbBinder.Session.Context
import AfbBinder.Session.Subcall
import AfbBinder.Session.Forwarded
import AfbBinder.Session.Acts
import AfbBinder.Session.Returned
import AfbBinder.Session.Carry
import AfbBinder.Session.Json1
import AfbBinder.Session.Assurance
import AfbBinder.Session.Ledger
import AfbBinder.Apis.Registry
import AfbBinder.Apis.Requests
import AfbBinder.Apis.Coherence
import AfbBinder.Apis.Isolation
import AfbBinder.Locale.Subpath
import AfbBinder.Locale.Container
import AfbBinder.Locale.Lookup
import AfbBinder.Locale.Search
import AfbBinder.Locale.Root
import AfbBinder.Locale.Lifetime
import AfbBinder.Locale.Cache
import AfbBinder.Locale.Parents
import AfbBinder.Locale.Folders
import AfbBinder.Locale.Spacing
import AfbBinder.Locale.Order
import AfbBinder.Http.Hsrv
import AfbBinder.Http.Routing
import AfbBinder.Http.Query
import AfbBinder.Http.Handlers
import AfbBinder.Http.Alias
import AfbBinder.Http.OnePage
import AfbBinder.Http.Form
import AfbBinder.Http.Serving
import AfbBinder.Http.Connections
import AfbBinder.Http.Conduct
import AfbBinder.Ws.Transport
import AfbBinder.Ws.Websock
import AfbBinder.Ws.Frame
import AfbBinder.Ws.Unmask
import AfbBinder.Ws.HeaderBuffer
import AfbBinder.Ws.Link
import AfbBinder.Ws.Send
import AfbBinder.Ws.Hangup
import AfbBinder.Ws.Buffer
import AfbBinder.Ws.Header
import AfbBinder.Ws.Close
import AfbBinder.Ws.Assembly
import AfbBinder.Ws.Delivery
import AfbBinder.Ws.Control
import AfbBinder.WsClient.Lines
import AfbBinder.WsClient.Response
import AfbBinder.WsClient.Block
import AfbBinder.WsClient.Headers
import AfbBinder.WsClient.Acceptance
import AfbBinder.WsClient.Skipping
import AfbBinder.Handshake.Accept
import AfbBinder.Handshake.Request
import AfbBinder.Handshake.Upgrade
import AfbBinder.Handshake.Agreement
import AfbBinder.Wsj1.Scan
import AfbBinder.Wsj1.Listing
import AfbBinder.Wsj1.Grammar
import AfbBinder.Wsj1.Link
import AfbBinder.Wsj1.Message
import AfbBinder.Wsj1.Reception
import AfbBinder.Wsj1.Replies
import AfbBinder.Wsj1.RoundTrip
import AfbBinder.Wsj1.Conversation
import AfbBinder.Dbus.Signature
import AfbBinder.Dbus.Packing
import AfbBinder.Evt.Store
import AfbBinder.Evt.Graph
import AfbBinder.Evt.Activity
import AfbBinder.Evt.Subscription
import AfbBinder.Evt.Owners
import AfbBinder.Evt.Heap
import AfbBinder.Evt.Refinement
import AfbBinder.Evt.Shape
import AfbBinder.Evt.Identifiers
import AfbBinder.ApiWs.Wire
import AfbBinder.ApiWs.Bounds
import AfbBinder.ApiWs.Client
import AfbBinder.ApiWs.Server
import AfbBinder.ApiWs.RoundTrip
import AfbBinder.ApiWs.Replies
import AfbBinder.ApiWs.Hangup
import AfbBinder.ApiWs.Mirror
import AfbBinder.ApiWs.Exchange
import AfbBinder.ApiWs.Clients
import AfbBinder.ApiWs.Service
import AfbBinder.ApiDbus.Server
import AfbBinder.ApiDbus.Lifetime
import AfbBinder.ApiDbus.Calls
import AfbBinder.ApiDbus.Conduct
import AfbBinder.Hook.Req
import AfbBinder.Hook.Transparency
