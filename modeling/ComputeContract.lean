import ComputeContract.Attest.Binding
import ComputeContract.Attest.Cid
import ComputeContract.Attest.CoSign
import ComputeContract.Attest.Der
import ComputeContract.Attest.Inline
import ComputeContract.Attest.ProofRecord
import ComputeContract.Attest.Remote
import ComputeContract.Attest.Sign
import ComputeContract.Attest.Verify
import ComputeContract.Attest.WebCrypto
import ComputeContract.Cbor.Canonical
import ComputeContract.Cbor.DagCbor
import ComputeContract.Cbor.OfJson
import ComputeContract.Cbor.Prefix
import ComputeContract.Cbor.Returns
import ComputeContract.Cbor.RoundTrip
import ComputeContract.Cbor.Sound
import ComputeContract.Cbor.Tree
import ComputeContract.Lib.Along
import ComputeContract.Lib.AssocList
import ComputeContract.Lib.Chunked
import ComputeContract.Lib.Decimal
import ComputeContract.Lib.Digits
import ComputeContract.Lib.Except
import ComputeContract.Lib.Glob
import ComputeContract.Lib.LexCode
import ComputeContract.Lib.Lowest
import ComputeContract.Lib.Pages
import ComputeContract.Lib.Search
import ComputeContract.Lib.Split
import ComputeContract.Lib.Strip
import ComputeContract.Lib.Task
import ComputeContract.Lib.Walk
import ComputeContract.Market.Auction
import ComputeContract.Market.Author
import ComputeContract.Market.BidWindow
import ComputeContract.Market.Bidder
import ComputeContract.Market.Contract
import ComputeContract.Market.Discovery
import ComputeContract.Market.Egress
import ComputeContract.Market.Endpoint
import ComputeContract.Market.Ephemeral
import ComputeContract.Market.FixUps
import ComputeContract.Market.Graph
import ComputeContract.Market.GraphRuns
import ComputeContract.Market.KeyBinding
import ComputeContract.Market.Lifecycle
import ComputeContract.Market.Logged
import ComputeContract.Market.Payment
import ComputeContract.Market.Registry
import ComputeContract.Market.Requester
import ComputeContract.Market.Resolve
import ComputeContract.Market.ServiceAuth
import ComputeContract.Market.Settled
import ComputeContract.Market.Teardown
import ComputeContract.Market.Tracking
import ComputeContract.Market.Winner
import ComputeContract.Mst.Block
import ComputeContract.Mst.Delete
import ComputeContract.Mst.History
import ComputeContract.Mst.Insert
import ComputeContract.Mst.Live
import ComputeContract.Mst.Mst
import ComputeContract.Mst.Node
import ComputeContract.Mst.Operations
import ComputeContract.Mst.Reload
import ComputeContract.Mst.Reopen
import ComputeContract.Mst.Run
import ComputeContract.Mst.Search
import ComputeContract.Mst.WellFormed
import ComputeContract.Packages.Git
import ComputeContract.Packages.Latest
import ComputeContract.Packages.LocalFs
import ComputeContract.Packages.Pds
import ComputeContract.Packages.Registry
import ComputeContract.Plc.Authorization
import ComputeContract.Plc.Chain
import ComputeContract.Plc.Directory
import ComputeContract.Plc.Export
import ComputeContract.Plc.Genesis
import ComputeContract.Plc.Latest
import ComputeContract.Plc.Resolution
import ComputeContract.Provider.Agreement
import ComputeContract.Provider.DigitalOcean
import ComputeContract.Provider.DropletRuns
import ComputeContract.Provider.Droplets
import ComputeContract.Provider.Identity
import ComputeContract.Provider.Issue
import ComputeContract.Provider.Local
import ComputeContract.Provider.Supervisor
import ComputeContract.Provider.UnitFile
import ComputeContract.Rbac.Allowlist
import ComputeContract.Rbac.Authorize
import ComputeContract.Rbac.Glob
import ComputeContract.Rbac.Join
import ComputeContract.Rbac.Oidc
import ComputeContract.Rbac.Policy
import ComputeContract.Rbac.Record
import ComputeContract.Relay.Gate
import ComputeContract.Relay.Isolation
import ComputeContract.Relay.Nonce
import ComputeContract.Relay.Reconnect
import ComputeContract.Relay.Registration
import ComputeContract.Relay.Relay
import ComputeContract.Relay.Requests
import ComputeContract.Relay.Server
import ComputeContract.Relay.SingleUse
import ComputeContract.Relay.Ssh
import ComputeContract.Relay.Transparency
import ComputeContract.Relay.Worker
import ComputeContract.Repo.Addressed
import ComputeContract.Repo.Atomic
import ComputeContract.Repo.Batch
import ComputeContract.Repo.Car
import ComputeContract.Repo.Chain
import ComputeContract.Repo.Commit
import ComputeContract.Repo.Export
import ComputeContract.Repo.Firehose
import ComputeContract.Repo.Interleaved
import ComputeContract.Repo.Pagination
import ComputeContract.Repo.Records
import ComputeContract.Repo.Repo
import ComputeContract.Repo.Rewind
import ComputeContract.Repo.Slice
import ComputeContract.Repo.Store
import ComputeContract.Repo.StrongRef
import ComputeContract.Repo.Truncated
import ComputeContract.Spindle.Console
import ComputeContract.Spindle.Events
import ComputeContract.Spindle.Framing
import ComputeContract.Spindle.Held
import ComputeContract.Spindle.Isolation
import ComputeContract.Spindle.Knots
import ComputeContract.Spindle.LogStream
import ComputeContract.Spindle.Moves
import ComputeContract.Spindle.Pipeline
import ComputeContract.Spindle.Settled
import ComputeContract.Spindle.Tenants
import ComputeContract.Util.Base32
import ComputeContract.Util.Base64
import ComputeContract.Util.Cid
import ComputeContract.Util.CidText
import ComputeContract.Util.FiveBits
import ComputeContract.Util.Host
import ComputeContract.Util.Json
import ComputeContract.Util.JsonNumber
import ComputeContract.Util.JsonText
import ComputeContract.Util.Path
import ComputeContract.Util.Semver
import ComputeContract.Util.Text
import ComputeContract.Util.TextOrder
import ComputeContract.Util.TextPrefix
import ComputeContract.Util.Tid
import ComputeContract.Util.TidClock
import ComputeContract.Util.Url
import ComputeContract.Util.UrlEncoded
