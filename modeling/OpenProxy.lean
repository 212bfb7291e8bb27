import OpenProxy.Lib.Transition
import OpenProxy.Pool
import OpenProxy.PoolWindow
import OpenProxy.Dispatch
import OpenProxy.Text
import OpenProxy.Config
import OpenProxy.Settings
import OpenProxy.Routing
import OpenProxy.Lib.Uri
import OpenProxy.Lib.Encodings
import OpenProxy.Credentials
import OpenProxy.Auth
import OpenProxy.Retention
import OpenProxy.Exposition
import OpenProxy.Record
import OpenProxy.Replay
import OpenProxy.Compaction
import OpenProxy.Lib.Lines
import OpenProxy.Scan
import OpenProxy.Store
import OpenProxy.Durability
import OpenProxy.Intact
import OpenProxy.Live
import OpenProxy.Sse
import OpenProxy.Shape
import OpenProxy.Handle
import OpenProxy.Frames
import OpenProxy.Refusal
import OpenProxy.Accounting
import OpenProxy.Coverage
import OpenProxy.Verdict
import OpenProxy.Restart
import OpenProxy.Deadline
import OpenProxy.Handlers
import OpenProxy.AppState
import OpenProxy.Coherence
import OpenProxy.Authority
import OpenProxy.Routable
import OpenProxy.Json
import OpenProxy.Catalog
import OpenProxy.CatalogCache
import OpenProxy.Retune
import OpenProxy.Skew
import OpenProxy.RangeTail
import OpenProxy.Governor
import OpenProxy.Permits
import OpenProxy.ModelScope
import OpenProxy.Injection
import OpenProxy.ConfigView
import OpenProxy.Throttle
import OpenProxy.Lib.Join
import OpenProxy.Lib.Bytes
import OpenProxy.Observation
import OpenProxy.Reordering
import OpenProxy.Session
import OpenProxy.Codec
import OpenProxy.Recovery
import OpenProxy.Persist
import OpenProxy.Waiting
import OpenProxy.Buckets
import OpenProxy.Telescope
import OpenProxy.Agreement
import OpenProxy.LinkLocal
import OpenProxy.BaseUrl
import OpenProxy.Provenance
import OpenProxy.Exchange
import OpenProxy.Overflow
import OpenProxy.Backoff
import OpenProxy.Lib.FirstBy
import OpenProxy.Merging
import OpenProxy.Listing
import OpenProxy.Pressure
import OpenProxy.Labels
import OpenProxy.Locale
import OpenProxy.Setup
import OpenProxy.Lib.OrderedMap
import OpenProxy.Dashboard
import OpenProxy.Rendering
import OpenProxy.Fifo
import OpenProxy.Inflight
import OpenProxy.Served
import OpenProxy.Lifetime
import OpenProxy.Lib.Serde
import OpenProxy.ConfigFile
import OpenProxy.Reboot
import OpenProxy.Password
import OpenProxy.Access
import OpenProxy.Clients
