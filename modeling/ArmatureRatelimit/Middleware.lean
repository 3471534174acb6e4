/-
  The middleware (`middleware.rs`), over any backend.

  A call acts on the state of the backend and on the two counters of the
  middleware.  Its requests and responses are those of the framework: a
  `Framework` is what the middleware uses of them.
-/
import ArmatureRatelimit.Config
import ArmatureRatelimit.Extractor

namespace ArmatureRatelimit

/-- `RateLimitHeaders` (`error.rs`). -/
structure RateLimitHeaders where
  limit : ℕ
  remaining : ℕ
  reset : ℕ
  retryAfter : Option ℕ
  deriving DecidableEq, Repr

namespace RateLimitHeaders

/-- `RateLimitHeaders::allowed`. -/
def allow (limit remaining reset : ℕ) : RateLimitHeaders := ⟨limit, remaining, reset, none⟩

/-- `RateLimitHeaders::denied`. -/
def deny (limit reset retryAfter : ℕ) : RateLimitHeaders := ⟨limit, 0, reset, some retryAfter⟩

end RateLimitHeaders

/-- What to do with a request no key could be derived from. -/
inductive UnkeyedRequestPolicy
  | allow
  | deny
  deriving DecidableEq

/-- Response from rate limit check. -/
inductive RateLimitCheckResponse
  | allowed (headers : Option RateLimitHeaders)
  | limited (headers : Option RateLimitHeaders) (message : String) (retryAfter : Option ℕ)
  deriving DecidableEq, Repr

def RateLimitCheckResponse.isAllowed : RateLimitCheckResponse → Bool
  | allowed _ => true
  | limited .. => false

def RateLimitCheckResponse.headers : RateLimitCheckResponse → Option RateLimitHeaders
  | allowed headers => headers
  | limited headers _ _ => headers

/-- The limiter is its algorithm: its store is an argument of the calls. -/
structure RateLimitMiddleware (ν : Type) where
  algorithm : Algorithm ν
  keyExtractor : KeyExtractor
  includeHeaders : Bool
  errorMessage : String
  bypassKeys : List String
  /-- allow or deny the request when the store errors -/
  skipOnError : Bool
  trustedProxyDepth : ℕ
  unkeyedPolicy : UnkeyedRequestPolicy

/-- What a middleware acts on. -/
structure MiddlewareState (σ : Type) where
  store : σ
  skipOnErrorCount : ℕ
  unkeyedAllowCount : ℕ

/-- The counters of a new middleware. -/
def MiddlewareState.new {σ : Type} (store : σ) : MiddlewareState σ := ⟨store, 0, 0⟩

/-- `fetch_add(1)`, which wraps. -/
def fetchAdd (count : ℕ) : ℕ := asU64 (count + 1 : ℕ)

namespace RateLimitMiddleware

variable {ν ε σ : Type} [F64 ν]

/-! ## Configuration -/

def new (limiter : RateLimiter ν) : RateLimitMiddleware ν where
  algorithm := limiter.algorithm
  keyExtractor := .ip
  includeHeaders := limiter.config.includeHeaders
  errorMessage := limiter.config.errorMessage.getD "Rate limit exceeded"
  bypassKeys := limiter.config.bypassKeys
  skipOnError := limiter.config.skipOnError
  trustedProxyDepth := limiter.config.trustedProxyDepth
  unkeyedPolicy := .deny

def withUnkeyedPolicy (self : RateLimitMiddleware ν) (policy : UnkeyedRequestPolicy) :
    RateLimitMiddleware ν := { self with unkeyedPolicy := policy }

def withExtractor (self : RateLimitMiddleware ν) (extractor : KeyExtractor) :
    RateLimitMiddleware ν := { self with keyExtractor := extractor }

def withBypassKeys (self : RateLimitMiddleware ν) (keys : List String) : RateLimitMiddleware ν :=
  { self with bypassKeys := self.bypassKeys ++ keys }

/-! ## Checks -/

section
variable (self : RateLimitMiddleware ν) (keyDigest : String → String)

/-- A bypass entry matches a key, or the bucket of the API key that it is. -/
def bypasses (key : String) : Bool :=
  self.bypassKeys.any fun b => b == key || apiKeyBucket keyDigest b == key

def respond (result : RateLimitCheckResult) : RateLimitCheckResponse :=
  if result.allowed then
    .allowed (if self.includeHeaders then
      some (.allow result.limit result.remaining result.resetAt) else none)
  else
    .limited
      (if self.includeHeaders then
        some (.deny result.limit result.resetAt ((result.retryAfter.map Duration.asSecs).getD 1))
        else none)
      self.errorMessage (result.retryAfter.map Duration.asSecs)

/-- What is made of what the limiter returned. -/
def settle (result : Outcome RateLimitCheckResult) (s : MiddlewareState σ) :
    Outcome RateLimitCheckResponse × MiddlewareState σ :=
  match result with
  | .ok result => (.ok (self.respond result), s)
  | .error .panic => (.error .panic, s)
  | .error (.err _) =>
    -- fail open, or closed
    if self.skipOnError then
      (.ok (.allowed none), { s with skipOnErrorCount := fetchAdd s.skipOnErrorCount })
    else (.ok (.limited none self.errorMessage none), s)

/-- `RateLimitMiddleware::check`. -/
def check (store : RateLimitStore ν ε σ) (env : ε) (unix : ℤ) (info : RequestInfo)
    (s : MiddlewareState σ) : Outcome RateLimitCheckResponse × MiddlewareState σ :=
  match self.keyExtractor.extract keyDigest info with
  | none =>
    match self.unkeyedPolicy with
    | .allow =>
      (.ok (.allowed none), { s with unkeyedAllowCount := fetchAdd s.unkeyedAllowCount })
    | .deny => (.ok (.limited none self.errorMessage none), s)
  | some key =>
    if self.bypasses keyDigest key then (.ok (.allowed none), s)
    else
      let r := RateLimiter.check store env unix key self.algorithm s.store
      self.settle r.1 { s with store := r.2 }

end

end RateLimitMiddleware

/-! ## Handling -/

/-- What the middleware uses of the framework's requests and responses, and the
    text of a JSON object. -/
structure Framework (Req ρ : Type) where
  clientAddress : Req → ℕ → Option IpAddr
  pathOnly : Req → String
  /-- the subject of the identity that an authentication layer attached -/
  verifiedSubject : Req → Option String
  header : Req → String → Option String
  newResponse : ℕ → ρ
  withBody : ρ → ByteArray → ρ
  insertHeader : ρ → String → String → ρ
  status : ρ → ℕ
  json : List (String × String) → String

/-- A response has the status it is made with, whatever its body and headers. -/
structure Framework.KeepsStatus {Req ρ : Type} (fw : Framework Req ρ) : Prop where
  new : ∀ status, fw.status (fw.newResponse status) = status
  withBody : ∀ response body, fw.status (fw.withBody response body) = fw.status response
  insertHeader : ∀ response name value,
    fw.status (fw.insertHeader response name value) = fw.status response

/-- The request header this extractor reads, if any. -/
def KeyExtractor.requiredHeader : KeyExtractor → Option String
  | apiKey headerName _ => some headerName
  | header name => some name
  | _ => none

namespace Framework

variable {Req ρ : Type} (fw : Framework Req ρ)

def insertLimits (h : RateLimitHeaders) (remaining : String) (response : ρ) : ρ :=
  let response := fw.insertHeader response "X-RateLimit-Limit" (toString h.limit)
  let response := fw.insertHeader response "X-RateLimit-Remaining" remaining
  fw.insertHeader response "X-RateLimit-Reset" (toString h.reset)

/-- The response to a request that was let through. -/
def allowedResponse (headers : Option RateLimitHeaders) (response : ρ) : ρ :=
  match headers with
  | some h => fw.insertLimits h (toString h.remaining) response
  | none => response

def limitedResponse (headers : Option RateLimitHeaders) (message : String)
    (retryAfter : Option ℕ) : ρ :=
  let response := fw.withBody (fw.newResponse 429)
    (fw.json [("error", "Too Many Requests"), ("message", message)]).toUTF8
  let response := fw.insertHeader response "Content-Type" "application/json"
  let response :=
    match retryAfter with
    | some retry => fw.insertHeader response "Retry-After" (toString retry)
    | none => response
  match headers with
  | some h => fw.insertLimits h "0" response
  | none => response

end Framework

namespace RateLimitMiddleware

variable {ν ε σ Req ρ E ω : Type} [F64 ν] (self : RateLimitMiddleware ν) (fw : Framework Req ρ)

/-- What the extractors read of a request. -/
def requestInfo (req : Req) : RequestInfo where
  ip := fw.clientAddress req self.trustedProxyDepth
  path := fw.pathOnly req
  userId := fw.verifiedSubject req
  headers :=
    match self.keyExtractor.requiredHeader with
    | none => []
    | some name =>
      match fw.header req name with
      | none => []
      | some value => [(name, value)]

/-- `RateLimitMiddleware::handle`; `next` acts on the world behind it. -/
def handle (keyDigest : String → String) (store : RateLimitStore ν ε σ)
    (next : Req → ω → Except E ρ × ω) (env : ε) (unix : ℤ) (req : Req) (s : MiddlewareState σ)
    (world : ω) : Outcome (Except E ρ) × MiddlewareState σ × ω :=
  let r := self.check keyDigest store env unix (self.requestInfo fw req) s
  match r.1 with
  | .ok (.allowed headers) =>
    let answer := next req world
    (.ok (answer.1.map (fw.allowedResponse headers)), r.2, answer.2)
  | .ok (.limited headers message retryAfter) =>
    (.ok (.ok (fw.limitedResponse headers message retryAfter)), r.2, world)
  | .error failure => (.error failure, r.2, world)

end RateLimitMiddleware

end ArmatureRatelimit
