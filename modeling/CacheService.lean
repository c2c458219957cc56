import CacheService.Main
import CacheService.Remote.Server
import CacheService.Text.Scalar
import CacheService.Proofs.Text.Printable
import CacheService.Proofs.Tier
import CacheService.Proofs.Store.Run
import CacheService.Proofs.Store.Settlement
import CacheService.Proofs.Store.Invariant
import CacheService.Proofs.Store.History
import CacheService.Proofs.Store.RecencyList
import CacheService.Proofs.Store.Reference
import CacheService.Proofs.Store.Accounting
import CacheService.Proofs.Store.Headroom
import CacheService.Proofs.Remote.Interleaving
import CacheService.Proofs.Remote.Books
import CacheService.Proofs.Remote.Healthy
import CacheService.Proofs.Remote.Promises
import CacheService.Proofs.Remote.OneMap
import CacheService.Proofs.Remote.Execution
import CacheService.Proofs.Remote.Exchanges
import CacheService.Proofs.Remote.Logins
import CacheService.Proofs.Remote.Tapping
import CacheService.Proofs.Remote.Stopping
import CacheService.Proofs.Remote.Draining
import CacheService.Proofs.Remote.ManyReads
import CacheService.Proofs.Store.Inclusion
import CacheService.Proofs.Cache.Lifecycle
import CacheService.Proofs.Tier.History
import CacheService.Proofs.Remote.Lookups
import CacheService.Proofs.Remote.Reaching
import CacheService.Proofs.Cache.TypedValues
import CacheService.Proofs.Cache.InUse
import CacheService.Proofs.Cache.FailFast
import CacheService.Proofs.Store.Displacement
import CacheService.Proofs.Store.Sweep
import CacheService.Proofs.Store.Renewal
import CacheService.Proofs.Expiry
import CacheService.Proofs.Store.Batch
import CacheService.Proofs.Duration
import CacheService.Proofs.Properties
import CacheService.Proofs.Address.RoundTrip
import CacheService.Proofs.Address.NodeList
import CacheService.Proofs.Settings.Selection
import CacheService.Proofs.Capacity.Plan
import CacheService.Proofs.Http.Keys
import CacheService.Proofs.Remote.Lifetime
import CacheService.Proofs.Http.Writing
import CacheService.Proofs.Recency.History
import CacheService.Proofs.Tier.Bound
import CacheService.Proofs.Cache.Batch
