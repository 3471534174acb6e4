/-
  A cluster: a service in many instances that share one Redis server.

  Each instance has the middleware in front of a handler, with counters and a
  clock of its own (`middleware.rs`, `stores/redis.rs`).  Other clients of the
  server make calls as well.  The order is that in which the server executes.
-/
import ArmatureRatelimit.Service
import ArmatureRatelimit.RedisFleet

open Lib Lib.Redis

namespace ArmatureRatelimit

/-- A request to one of the instances, or a call by someone else. -/
inductive ClusterEvent (ν Req : Type)
  | request (node : ℕ) (env : RedisEnv) (unix : ℤ) (req : Req)
  | call (c : FleetCall ν)

structure Cluster (ν Req ρ E ω : Type) extends Service ν Req ρ E ω where
  store : RedisStore

structure ClusterState (ν Req ω : Type) where
  db : Db ν
  skipOnErrorCount : ℕ → ℕ
  unkeyedAllowCount : ℕ → ℕ
  received : Received Req ω

/-- What the middleware of an instance acts on. -/
def ClusterState.node {ν Req ω : Type} (s : ClusterState ν Req ω) (i : ℕ) :
    MiddlewareState (Db ν) := ⟨s.db, s.skipOnErrorCount i, s.unkeyedAllowCount i⟩

namespace Cluster

variable {ν Req ρ E ω : Type} [F64 ν] (C : Cluster ν Req ρ E ω)

/-- What the caller of an event gets: a response, or nothing. -/
def step (e : ClusterEvent ν Req) (s : ClusterState ν Req ω) :
    Option (Outcome (Except E ρ)) × ClusterState ν Req ω :=
  match e with
  | .request node env unix req =>
    let r := C.middleware.handle C.framework C.keyDigest (C.store.backend C.keyDigest) C.noted env
      unix req (s.node node) s.received
    (some r.1, ⟨r.2.1.store, Function.update s.skipOnErrorCount node r.2.1.skipOnErrorCount,
      Function.update s.unkeyedAllowCount node r.2.1.unkeyedAllowCount, r.2.2⟩)
  | .call c => (none, { s with db := (fleetStep C.keyDigest c s.db).2 })

/-- How many requests under a key the handlers have received. -/
def receivedUnder (key : String) (s : ClusterState ν Req ω) : ℕ :=
  s.received.requests.countP fun req => C.keyOf req == some key

end Cluster

end ArmatureRatelimit
