import CacheService.Address.Basic
import CacheService.Remote.Answer

/-!
# CacheService.Remote.Network

What lies beyond the remote client: a network that takes connections, or not, and
answers requests on them. Nothing is asked of it; a state of any type may remember what
has been sent. A server that never answers is one that answers with `silence`, after
which the client's time limits are all that goes on.
-/

namespace CacheService.Remote

/-- How an attempt to connect ends. -/
inductive Dial
  | accepted
  | refused (reason : String)
  /-- Nothing comes back in time. -/
  | silence
  deriving DecidableEq, Repr

/-- A network with states `σ`, on which each node of a client has at most one
connection at a time. -/
class Network (σ : Type) where
  /-- Opens a new connection for a node. -/
  dial : σ → (node : Nat) → Address → Dial × σ
  /-- Sends a request on the connection of a node. -/
  exchange : σ → (node : Nat) → Request → Answer × σ

end CacheService.Remote
