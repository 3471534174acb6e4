/-
  A service over the memory store: the middleware in front of a handler, while
  the application resets keys (`RateLimiter::reset`) and the prune task of the
  limiter passes over the store (`PruneTask` in `lib.rs`).

  The handler `next` notes the requests that it receives.
-/
import ArmatureRatelimit.Middleware
import ArmatureRatelimit.MemoryRuns

open Lib

namespace ArmatureRatelimit

inductive ServiceAction (Req : Type)
  | request (req : Req)
  | reset (key : String)
  | prune

/-- Something that happens to a service, with what it reads. -/
structure ServiceEvent (Req : Type) where
  env : MemoryEnv
  unix : ℤ
  action : ServiceAction Req

def ServiceEvent.now {Req : Type} (e : ServiceEvent Req) : ℤ := e.env.now

/-- The world behind the handler, and the requests it has received. -/
structure Received (Req ω : Type) where
  world : ω
  requests : List Req

structure Service (ν Req ρ E ω : Type) where
  middleware : RateLimitMiddleware ν
  framework : Framework Req ρ
  keyDigest : String → String
  next : Req → ω → Except E ρ × ω

structure ServiceState (ν Req ω : Type) where
  middleware : MiddlewareState (MemoryStore ν)
  received : Received Req ω

namespace Service

variable {ν Req ρ E ω : Type} [F64 ν] (S : Service ν Req ρ E ω)

/-- The handler, which notes what it receives. -/
def noted (req : Req) (received : Received Req ω) : Except E ρ × Received Req ω :=
  let r := S.next req received.world
  (r.1, ⟨r.2, received.requests ++ [req]⟩)

/-- The key under which a request is counted, if it has one. -/
def keyOf (req : Req) : Option String :=
  S.middleware.keyExtractor.extract S.keyDigest (S.middleware.requestInfo S.framework req)

/-- What the caller of an event gets: a response, or nothing. -/
def step (e : ServiceEvent Req) (s : ServiceState ν Req ω) :
    Option (Outcome (Except E ρ)) × ServiceState ν Req ω :=
  match e.action with
  | .request req =>
    let r := S.middleware.handle S.framework S.keyDigest MemoryStore.backend S.noted e.env e.unix
      req s.middleware s.received
    (some r.1, ⟨r.2.1, r.2.2⟩)
  | .reset key =>
    (none, { s with middleware := { s.middleware with store := s.middleware.store.reset key } })
  | .prune =>
    (none, { s with middleware := { s.middleware with store := s.middleware.store.cleanup e.env } })

/-- How many requests under a key the handler has received. -/
def receivedUnder (key : String) (s : ServiceState ν Req ω) : ℕ :=
  s.received.requests.countP fun req => S.keyOf req == some key

end Service

end ArmatureRatelimit
