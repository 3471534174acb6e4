/-
  The accounting of the middleware: what becomes of every request, over runs of
  requests and over any backend.

  The backend is logged: it notes the key and its answer at every consultation.
  A request is let through because the store admitted it, because its key is in
  the bypass list, because it has no key, or because the store failed; the only
  other fate of an admitted request is that its check panics before it answers.

  `middleware_accounting_iff`: the allowed responses are the sum of the four
  counts exactly when no admitted check panics.
-/
import ArmatureRatelimit.Middleware
import ArmatureRatelimit.Lib.Runs

open Lib

namespace ArmatureRatelimit

variable {ν ε σ : Type} [F64 ν]

/-! ## Consultations of the store -/

namespace RateLimiter

/-- The call of the store that serves an algorithm. -/
def consult (store : RateLimitStore ν ε σ) (env : ε) (key : String) (algorithm : Algorithm ν)
    (s : σ) : Outcome (Bool × ℕ) × σ :=
  match algorithm with
  | .tokenBucket capacity refillRate => store.tokenBucketCheck env key capacity refillRate s
  | .slidingWindowLog maxRequests window => store.slidingWindowCheck env key maxRequests window s
  | .fixedWindow maxRequests window => store.fixedWindowCheck env key maxRequests window s

/-- What the limiter makes of an answer. -/
def resultOf (algorithm : Algorithm ν) (unix : ℤ) (result : Bool × ℕ) :
    Outcome RateLimitCheckResult :=
  match algorithm with
  | .tokenBucket capacity refillRate => tokenBucketResult capacity refillRate unix result
  | .slidingWindowLog maxRequests window => slidingWindowResult maxRequests window unix result
  | .fixedWindow maxRequests window => fixedWindowResult maxRequests window unix result

theorem check_eq_answer (store : RateLimitStore ν ε σ) (env : ε) (unix : ℤ) (key : String)
    (algorithm : Algorithm ν) (s : σ) :
    check store env unix key algorithm s =
      answer (resultOf algorithm unix) (consult store env key algorithm s) := by
  cases algorithm <;> rfl

end RateLimiter

/-- The store with a log of its consultations: the key, and the answer. -/
def RateLimitStore.logged (store : RateLimitStore ν ε σ) :
    RateLimitStore ν ε (σ × List (String × Outcome (Bool × ℕ))) where
  tokenBucketCheck env key capacity refillRate s :=
    let r := store.tokenBucketCheck env key capacity refillRate s.1
    (r.1, (r.2, s.2 ++ [(key, r.1)]))
  slidingWindowCheck env key maxRequests window s :=
    let r := store.slidingWindowCheck env key maxRequests window s.1
    (r.1, (r.2, s.2 ++ [(key, r.1)]))
  fixedWindowCheck env key maxRequests window s :=
    let r := store.fixedWindowCheck env key maxRequests window s.1
    (r.1, (r.2, s.2 ++ [(key, r.1)]))

omit [F64 ν] in
theorem consult_logged (store : RateLimitStore ν ε σ) (env : ε) (key : String)
    (algorithm : Algorithm ν) (s : σ × List (String × Outcome (Bool × ℕ))) :
    RateLimiter.consult store.logged env key algorithm s =
      ((RateLimiter.consult store env key algorithm s.1).1,
        ((RateLimiter.consult store env key algorithm s.1).2,
          s.2 ++ [(key, (RateLimiter.consult store env key algorithm s.1).1)])) := by
  cases algorithm <;> rfl

/-- An answer that is an error. -/
def isErr (r : Outcome (Bool × ℕ)) : Bool :=
  match r with
  | .error (.err _) => true
  | _ => false

/-! ## What the limiter makes of an answer -/

/-- The clock readings at which an admission is reported: none before the epoch,
    and for a sliding window those whose reset time is a `u64`. -/
def Algorithm.ReportsAt (unix : ℤ) : Algorithm ν → Prop
  | .slidingWindowLog _ window =>
    0 ≤ unix ∧ Duration.asSecs unix.toNat + Duration.asSecs window ≤ u64Max
  | .tokenBucket .. | .fixedWindow .. => 0 ≤ unix

instance (unix : ℤ) (algorithm : Algorithm ν) : Decidable (algorithm.ReportsAt unix) :=
  match algorithm with
  | .slidingWindowLog .. => inferInstanceAs (Decidable (_ ∧ _))
  | .tokenBucket .. | .fixedWindow .. => inferInstanceAs (Decidable (0 ≤ unix))

namespace RateLimiter

/-- A result that says `allowed`, or a panic. -/
def Says (allowed : Bool) : Outcome RateLimitCheckResult → Prop
  | .ok result => result.allowed = allowed
  | .error failure => failure = .panic

/-- The limiter says what the store answered; its own arithmetic gives no `Err`. -/
theorem resultOf_says (algorithm : Algorithm ν) (unix : ℤ) (result : Bool × ℕ) :
    Says result.1 (resultOf algorithm unix result) := by
  obtain ⟨allowed, remaining⟩ := result
  cases algorithm with
  | tokenBucket capacity refillRate =>
    simp only [resultOf, tokenBucketResult]
    cases sinceEpoch unix with
    | none => rfl
    | some d =>
      cases allowed with
      | true => rfl
      | false =>
        simp only [Bool.false_eq_true, if_false]
        split
        · split <;> rfl
        · rfl
  | slidingWindowLog maxRequests window =>
    simp only [resultOf, slidingWindowResult]
    cases sinceEpoch unix with
    | none => rfl
    | some d =>
      simp only
      split
      · rfl
      · cases allowed <;> rfl
  | fixedWindow maxRequests window =>
    simp only [resultOf, fixedWindowResult]
    cases sinceEpoch unix with
    | none => rfl
    | some d => cases allowed <;> rfl

theorem resultOf_admitted (algorithm : Algorithm ν) (unix : ℤ) (remaining : ℕ) :
    resultOf algorithm unix (true, remaining) = .error .panic ↔ ¬ algorithm.ReportsAt unix := by
  by_cases h : 0 ≤ unix
  · have hd : sinceEpoch unix = some unix.toNat := if_pos h
    cases algorithm with
    | slidingWindowLog maxRequests window =>
      simp only [resultOf, slidingWindowResult, hd, Algorithm.ReportsAt, h, true_and, not_le]
      split_ifs with ho <;> simp [ho]
    | tokenBucket capacity refillRate =>
      simp [resultOf, tokenBucketResult, hd, Algorithm.ReportsAt, h]
    | fixedWindow maxRequests window =>
      simp [resultOf, fixedWindowResult, hd, Algorithm.ReportsAt, h]
  · have hd : sinceEpoch unix = none := if_neg h
    cases algorithm <;>
      simp [resultOf, slidingWindowResult, tokenBucketResult, fixedWindowResult, hd,
        Algorithm.ReportsAt, h]

/-- **What becomes of an answer**: a result that says the same, or a panic, and
    which of the two it is for an admission is up to the clock. -/
theorem resultOf_cases (algorithm : Algorithm ν) (unix : ℤ) (allowed : Bool) (remaining : ℕ) :
    (∃ result, resultOf algorithm unix (allowed, remaining) = .ok result ∧
      result.allowed = allowed ∧ (allowed = true → algorithm.ReportsAt unix)) ∨
    resultOf algorithm unix (allowed, remaining) = .error .panic ∧
      (allowed = true → ¬ algorithm.ReportsAt unix) := by
  have hsays := resultOf_says algorithm unix (allowed, remaining)
  have hadmitted := resultOf_admitted algorithm unix remaining
  cases hresult : resultOf algorithm unix (allowed, remaining) with
  | ok result =>
    rw [hresult] at hsays
    refine .inl ⟨result, rfl, hsays, ?_⟩
    rintro rfl
    by_contra hno
    cases hresult.symm.trans (hadmitted.mpr hno)
  | error failure =>
    rw [hresult] at hsays
    obtain rfl : failure = .panic := hsays
    refine .inr ⟨rfl, ?_⟩
    rintro rfl
    exact hadmitted.mp hresult

/-- What the store admits is reported, where the clock allows it. -/
theorem check_of_admitted {store : RateLimitStore ν ε σ} {env : ε} {unix : ℤ} {key : String}
    {algorithm : Algorithm ν} {s : σ} (hreports : algorithm.ReportsAt unix)
    (h : isAdmitted (consult store env key algorithm s).1 = true) :
    ∃ result, (check store env unix key algorithm s).1 = .ok result ∧ result.allowed = true := by
  rw [check_eq_answer]
  show ∃ result, ((consult store env key algorithm s).1 >>= resultOf algorithm unix) = _ ∧ _
  cases hanswer : (consult store env key algorithm s).1 with
  | error failure =>
    rw [hanswer] at h
    cases h
  | ok answer =>
    obtain ⟨allowed, remaining⟩ := answer
    rw [hanswer] at h
    obtain rfl : allowed = true := h
    rcases resultOf_cases algorithm unix true remaining with ⟨result, hresult, hallowed, -⟩ |
      ⟨-, hno⟩
    · exact ⟨result, hresult, hallowed⟩
    · exact absurd hreports (hno rfl)

end RateLimiter

/-! ## Requests -/

/-- A request with what its check reads. -/
structure Request (ε : Type) where
  info : RequestInfo
  env : ε
  unix : ℤ

namespace RateLimitMiddleware

section
variable (self : RateLimitMiddleware ν) (keyDigest : String → String)

def serve (store : RateLimitStore ν ε σ) (r : Request ε) (s : MiddlewareState σ) :
    Outcome RateLimitCheckResponse × MiddlewareState σ :=
  self.check keyDigest store r.env r.unix r.info s

/-- The key under which the store is consulted about a request, if it is. -/
def consulted (r : Request ε) : Option String :=
  (self.keyExtractor.extract keyDigest r.info).filter fun key => !self.bypasses keyDigest key

def isBypassed (r : Request ε) : Bool :=
  (self.keyExtractor.extract keyDigest r.info).any (self.bypasses keyDigest)

def isUnkeyedAllowed (r : Request ε) : Bool :=
  (self.keyExtractor.extract keyDigest r.info).isNone && decide (self.unkeyedPolicy = .allow)

/-- What the store answers about a request, if it is consulted. -/
def storeAnswer (store : RateLimitStore ν ε σ) (r : Request ε) (s : σ) :
    Option (Outcome (Bool × ℕ)) :=
  (self.consulted keyDigest r).map fun key =>
    (RateLimiter.consult store r.env key self.algorithm s).1

def isStoreAdmitted (store : RateLimitStore ν ε σ) (r : Request ε) (s : σ) : Bool :=
  (self.storeAnswer keyDigest store r s).any isAdmitted

def isFailedOpen (store : RateLimitStore ν ε σ) (r : Request ε) (s : σ) : Bool :=
  (self.storeAnswer keyDigest store r s).any fun answer => self.skipOnError && isErr answer

/-- The store admits the request, and its check panics. -/
def isInterrupted (store : RateLimitStore ν ε σ) (r : Request ε) (s : σ) : Bool :=
  self.isStoreAdmitted keyDigest store r s && !decide (self.algorithm.ReportsAt r.unix)

end

/-- A check that answers `Allowed`. -/
def isAllowedResponse (r : Outcome RateLimitCheckResponse) : Bool :=
  match r with
  | .ok response => response.isAllowed
  | .error _ => false

/-! ## One request -/

section
variable {self : RateLimitMiddleware ν} {keyDigest : String → String}
  {store : RateLimitStore ν ε σ} {r : Request ε}

omit [F64 ν] in
theorem consulted_eq_some {key : String} :
    self.consulted keyDigest r = some key ↔
      self.keyExtractor.extract keyDigest r.info = some key ∧
        self.bypasses keyDigest key = false := by
  simp [consulted, Option.filter_eq_some_iff]

omit [F64 ν] in
/-- Every request is unkeyed, bypassed or consulted about. -/
theorem request_cases (self : RateLimitMiddleware ν) (keyDigest : String → String)
    (r : Request ε) :
    self.keyExtractor.extract keyDigest r.info = none ∨
      (∃ key, self.keyExtractor.extract keyDigest r.info = some key ∧
        self.bypasses keyDigest key = true) ∨
      ∃ key, self.consulted keyDigest r = some key := by
  cases hkey : self.keyExtractor.extract keyDigest r.info with
  | none => exact .inl rfl
  | some key =>
    cases hb : self.bypasses keyDigest key with
    | true => exact .inr (.inl ⟨key, rfl, hb⟩)
    | false => exact .inr (.inr ⟨key, consulted_eq_some.mpr ⟨hkey, hb⟩⟩)

theorem serve_unkeyed {s : MiddlewareState σ}
    (h : self.keyExtractor.extract keyDigest r.info = none) :
    self.serve keyDigest store r s =
      match self.unkeyedPolicy with
      | .allow =>
        (.ok (.allowed none), { s with unkeyedAllowCount := fetchAdd s.unkeyedAllowCount })
      | .deny => (.ok (.limited none self.errorMessage none), s) := by
  cases hp : self.unkeyedPolicy <;> simp only [serve, check, h, hp]

theorem serve_bypassed {s : MiddlewareState σ} {key : String}
    (h : self.keyExtractor.extract keyDigest r.info = some key)
    (hb : self.bypasses keyDigest key = true) :
    self.serve keyDigest store r s = (.ok (.allowed none), s) := by
  simp only [serve, check, h, hb, if_true]

theorem serve_of_consulted {s : MiddlewareState σ} {key : String}
    (h : self.consulted keyDigest r = some key) :
    self.serve keyDigest store r s =
      let a := RateLimiter.consult store r.env key self.algorithm s.store
      self.settle (a.1 >>= RateLimiter.resultOf self.algorithm r.unix) { s with store := a.2 } := by
  obtain ⟨hkey, hb⟩ := consulted_eq_some.mp h
  simp only [serve, check, hkey, hb, Bool.false_eq_true, if_false, RateLimiter.check_eq_answer,
    RateLimiter.answer]

theorem serve_consulted {s : MiddlewareState (σ × List (String × Outcome (Bool × ℕ)))}
    {key : String} (h : self.consulted keyDigest r = some key) :
    self.serve keyDigest store.logged r s =
      let a := RateLimiter.consult store r.env key self.algorithm s.store.1
      self.settle (a.1 >>= RateLimiter.resultOf self.algorithm r.unix)
        { s with store := (a.2, s.store.2 ++ [(key, a.1)]) } := by
  rw [serve_of_consulted h]
  simp only [consult_logged]

/-! ### What the limiter returns, settled -/

omit [F64 ν] in
theorem isAllowed_respond (result : RateLimitCheckResult) :
    (self.respond result).isAllowed = result.allowed := by
  unfold respond
  cases h : result.allowed <;> simp [RateLimitCheckResponse.isAllowed]

omit [F64 ν] in
@[simp] theorem settle_store (result : Outcome RateLimitCheckResult) (s : MiddlewareState σ) :
    (self.settle result s).2.store = s.store := by
  unfold settle
  split
  · rfl
  · rfl
  · split <;> rfl

omit [F64 ν] in
@[simp] theorem settle_unkeyedAllowCount (result : Outcome RateLimitCheckResult)
    (s : MiddlewareState σ) :
    (self.settle result s).2.unkeyedAllowCount = s.unkeyedAllowCount := by
  unfold settle
  split
  · rfl
  · rfl
  · split <;> rfl

/-- An answer of the store is an admission that is reported, an admission whose
    check panics, an error let through, or not let through at all. -/
theorem settle_allowed (algorithm : Algorithm ν) (unix : ℤ) (answer : Outcome (Bool × ℕ))
    (s : MiddlewareState σ) :
    (isAllowedResponse
        (self.settle (answer >>= RateLimiter.resultOf algorithm unix) s).1).toNat +
      (isAdmitted answer && !decide (algorithm.ReportsAt unix)).toNat =
    (isAdmitted answer).toNat + (self.skipOnError && isErr answer).toNat := by
  cases answer with
  | error failure =>
    cases failure with
    | panic => simp [bind, Except.bind, settle, isAllowedResponse, isAdmitted, isErr]
    | err e =>
      cases hs : self.skipOnError <;>
        simp [bind, Except.bind, settle, hs, isAllowedResponse, isAdmitted, isErr,
          RateLimitCheckResponse.isAllowed]
  | ok result =>
    obtain ⟨allowed, remaining⟩ := result
    show (isAllowedResponse
        (self.settle (RateLimiter.resultOf algorithm unix (allowed, remaining)) s).1).toNat +
      (allowed && !decide (algorithm.ReportsAt unix)).toNat = _
    rcases RateLimiter.resultOf_cases algorithm unix allowed remaining with
      ⟨result, hresult, hallowed, hreports⟩ | ⟨hresult, hno⟩
    · have hresponse : isAllowedResponse (self.settle (.ok result) s).1 = allowed :=
        (isAllowed_respond result).trans hallowed
      rw [hresult, hresponse]
      cases allowed with
      | false => simp [isAdmitted, isErr]
      | true => simp [hreports rfl, isAdmitted, isErr]
    · rw [hresult]
      cases allowed with
      | false => simp [settle, isAllowedResponse, isAdmitted, isErr]
      | true => simp [settle, isAllowedResponse, isAdmitted, isErr, hno rfl]

theorem settle_skipOnErrorCount (algorithm : Algorithm ν) (unix : ℤ)
    (answer : Outcome (Bool × ℕ)) (s : MiddlewareState σ) :
    (self.settle (answer >>= RateLimiter.resultOf algorithm unix) s).2.skipOnErrorCount =
      if self.skipOnError && isErr answer then fetchAdd s.skipOnErrorCount
      else s.skipOnErrorCount := by
  cases answer with
  | error failure =>
    cases failure with
    | panic => simp [bind, Except.bind, settle, isErr]
    | err e => cases hs : self.skipOnError <;> simp [bind, Except.bind, settle, hs, isErr]
  | ok result =>
    obtain ⟨allowed, remaining⟩ := result
    show (self.settle (RateLimiter.resultOf algorithm unix (allowed, remaining))
      s).2.skipOnErrorCount = _
    rcases RateLimiter.resultOf_cases algorithm unix allowed remaining with
      ⟨result, hresult, -⟩ | ⟨hresult, -⟩ <;> rw [hresult] <;> simp [settle, isErr]

/-! ### One step -/

abbrev LoggedState (σ : Type) := MiddlewareState (σ × List (String × Outcome (Bool × ℕ)))

/-- **The step.**  A request is let through, or its check is interrupted, as
    often as one of the four reasons applies. -/
theorem serve_balance (r : Request ε) (s : LoggedState σ) :
    (isAllowedResponse (self.serve keyDigest store.logged r s).1).toNat +
        (self.isInterrupted keyDigest store r s.store.1).toNat =
      (self.isStoreAdmitted keyDigest store r s.store.1).toNat +
        (self.isBypassed keyDigest r).toNat + (self.isUnkeyedAllowed keyDigest r).toNat +
        (self.isFailedOpen keyDigest store r s.store.1).toNat := by
  unfold isInterrupted isStoreAdmitted isFailedOpen storeAnswer
  rcases request_cases self keyDigest r with hkey | ⟨key, hkey, hb⟩ | ⟨key, hc⟩
  · rw [serve_unkeyed hkey]
    cases hp : self.unkeyedPolicy <;>
      simp [consulted, isBypassed, isUnkeyedAllowed, hkey, hp, isAllowedResponse,
        RateLimitCheckResponse.isAllowed]
  · rw [serve_bypassed hkey hb]
    simp [consulted, isBypassed, isUnkeyedAllowed, hkey, hb, isAllowedResponse,
      RateLimitCheckResponse.isAllowed, Option.filter]
  · obtain ⟨hkey, hb⟩ := consulted_eq_some.mp hc
    rw [serve_consulted hc]
    simp only [hc, Option.map_some, Option.any_some, isBypassed, isUnkeyedAllowed, hkey, hb,
      Option.isNone_some, Bool.false_and, Bool.toNat_false, add_zero]
    exact settle_allowed _ _ _ _

/-- The store is consulted as the request says, and its answer is noted. -/
theorem serve_store (r : Request ε) (s : LoggedState σ) :
    (self.serve keyDigest store.logged r s).2.store.2 = s.store.2 ++
      ((self.consulted keyDigest r).map fun key =>
        (key, (RateLimiter.consult store r.env key self.algorithm s.store.1).1)).toList := by
  rcases request_cases self keyDigest r with hkey | ⟨key, hkey, hb⟩ | ⟨key, hc⟩
  · rw [serve_unkeyed hkey]
    cases hp : self.unkeyedPolicy <;> simp [consulted, hkey]
  · rw [serve_bypassed hkey hb]
    simp [consulted, hkey, hb, Option.filter]
  · rw [serve_consulted hc]
    simp [hc]

theorem serve_unkeyedAllowCount (r : Request ε) (s : LoggedState σ) :
    (self.serve keyDigest store.logged r s).2.unkeyedAllowCount =
      if self.isUnkeyedAllowed keyDigest r then fetchAdd s.unkeyedAllowCount
      else s.unkeyedAllowCount := by
  rcases request_cases self keyDigest r with hkey | ⟨key, hkey, hb⟩ | ⟨key, hc⟩
  · rw [serve_unkeyed hkey]
    cases hp : self.unkeyedPolicy <;> simp [isUnkeyedAllowed, hkey, hp]
  · rw [serve_bypassed hkey hb]
    simp [isUnkeyedAllowed, hkey]
  · obtain ⟨hkey, -⟩ := consulted_eq_some.mp hc
    rw [serve_consulted hc]
    simp [isUnkeyedAllowed, hkey]

theorem serve_skipOnErrorCount (r : Request ε) (s : LoggedState σ) :
    (self.serve keyDigest store.logged r s).2.skipOnErrorCount =
      if self.isFailedOpen keyDigest store r s.store.1 then fetchAdd s.skipOnErrorCount
      else s.skipOnErrorCount := by
  unfold isFailedOpen storeAnswer
  rcases request_cases self keyDigest r with hkey | ⟨key, hkey, hb⟩ | ⟨key, hc⟩
  · rw [serve_unkeyed hkey]
    cases hp : self.unkeyedPolicy <;> simp [consulted, hkey]
  · rw [serve_bypassed hkey hb]
    simp [consulted, hkey, hb, Option.filter]
  · rw [serve_consulted hc]
    simp only [hc, Option.map_some, Option.any_some]
    exact settle_skipOnErrorCount _ _ _ _

end

/-! ## Runs -/

theorem fetchAdd_of_lt {count : ℕ} (h : count + 1 < 2 ^ 64) : fetchAdd count = count + 1 :=
  asU64_of_lt h

section
variable (self : RateLimitMiddleware ν) (keyDigest : String → String) (store : RateLimitStore ν ε σ)
  (s : LoggedState σ) (requests : List (Request ε))

/-- The accounts of a run, with the admissions whose checks panicked. -/
theorem run_balance :
    (outputs (self.serve keyDigest store.logged) s requests).countP isAllowedResponse +
        tally (self.serve keyDigest store.logged)
          (fun r t => self.isInterrupted keyDigest store r t.store.1) s requests =
      tally (self.serve keyDigest store.logged)
          (fun r t => self.isStoreAdmitted keyDigest store r t.store.1) s requests +
        requests.countP (self.isBypassed keyDigest) +
        requests.countP (self.isUnkeyedAllowed keyDigest) +
        tally (self.serve keyDigest store.logged)
          (fun r t => self.isFailedOpen keyDigest store r t.store.1) s requests := by
  rw [countP_outputs]
  induction requests generalizing s with
  | nil => rfl
  | cons r rest ih =>
    have hr := @serve_balance _ _ _ _ self keyDigest store r s
    have hrest := ih (self.serve keyDigest store.logged r s).2
    simp only [tally, List.countP_cons] at hrest ⊢
    cases hb : self.isBypassed keyDigest r <;> cases hu : self.isUnkeyedAllowed keyDigest r <;>
      simp only [hb, hu, Bool.toNat_true, Bool.toNat_false, if_true, Bool.false_eq_true,
        if_false] at hr ⊢ <;> omega

theorem run_consulted :
    (run (self.serve keyDigest store.logged) s requests).store.2.map Prod.fst =
      s.store.2.map Prod.fst ++ requests.filterMap (self.consulted keyDigest) := by
  rw [List.filterMap_eq_flatMap_toList]
  refine run_eq_append (fun t : LoggedState σ => t.store.2.map Prod.fst) (fun r t => ?_) s requests
  simp only [serve_store, List.map_append]
  cases self.consulted keyDigest r <;> rfl

/-- The answers that satisfy `p` are those given along the run. -/
theorem run_answers (p : Outcome (Bool × ℕ) → Bool) :
    (run (self.serve keyDigest store.logged) s requests).store.2.countP (fun c => p c.2) =
      s.store.2.countP (fun c => p c.2) + tally (self.serve keyDigest store.logged)
        (fun r t => (self.storeAnswer keyDigest store r t.store.1).any p) s requests := by
  refine run_eq_add_tally (fun t : LoggedState σ => t.store.2.countP fun c => p c.2)
    (fun r t _ => ?_) (Nat.lt_succ_self _)
  simp only [serve_store, List.countP_append, storeAnswer]
  cases self.consulted keyDigest r with
  | none => rfl
  | some key =>
    simp only [Option.map_some, Option.toList_some, Option.any_some, List.countP_singleton]
    cases p (RateLimiter.consult store r.env key self.algorithm t.store.1).1 <;> rfl

theorem run_unkeyedAllowCount
    (h : s.unkeyedAllowCount + requests.countP (self.isUnkeyedAllowed keyDigest) < 2 ^ 64) :
    (run (self.serve keyDigest store.logged) s requests).unkeyedAllowCount =
      s.unkeyedAllowCount + requests.countP (self.isUnkeyedAllowed keyDigest) := by
  rw [← tally_eq_countP (self.serve keyDigest store.logged) _ s] at h ⊢
  refine run_eq_add_tally MiddlewareState.unkeyedAllowCount (fun r t hr => ?_) h
  rw [serve_unkeyedAllowCount]
  cases hu : self.isUnkeyedAllowed keyDigest r with
  | false => rfl
  | true =>
    rw [hu] at hr
    exact fetchAdd_of_lt hr

theorem run_skipOnErrorCount
    (h : s.skipOnErrorCount + tally (self.serve keyDigest store.logged)
      (fun r t => self.isFailedOpen keyDigest store r t.store.1) s requests < 2 ^ 64) :
    (run (self.serve keyDigest store.logged) s requests).skipOnErrorCount =
      s.skipOnErrorCount + tally (self.serve keyDigest store.logged)
        (fun r t => self.isFailedOpen keyDigest store r t.store.1) s requests := by
  refine run_eq_add_tally MiddlewareState.skipOnErrorCount (fun r t hr => ?_) h
  rw [serve_skipOnErrorCount]
  cases hf : self.isFailedOpen keyDigest store r t.store.1 with
  | false => rfl
  | true =>
    rw [hf] at hr
    exact fetchAdd_of_lt hr

end

/-! ## Handling -/

section
variable {Req ρ E ω : Type}

/-- `next` with a log of the requests it is invoked on. -/
def logCalls (next : Req → ω → Except E ρ × ω) (req : Req) (world : ω × List Req) :
    Except E ρ × ω × List Req :=
  let answer := next req world.1
  (answer.1, answer.2, world.2 ++ [req])

theorem status_insertLimits {fw : Framework Req ρ} (hfw : fw.KeepsStatus) (h : RateLimitHeaders)
    (remaining : String) (response : ρ) :
    fw.status (fw.insertLimits h remaining response) = fw.status response := by
  simp only [Framework.insertLimits, hfw.insertHeader]

theorem status_limitedResponse {fw : Framework Req ρ} (hfw : fw.KeepsStatus)
    (headers : Option RateLimitHeaders) (message : String) (retryAfter : Option ℕ) :
    fw.status (fw.limitedResponse headers message retryAfter) = 429 := by
  unfold Framework.limitedResponse
  cases headers <;> cases retryAfter <;>
    simp only [status_insertLimits hfw, hfw.insertHeader, hfw.withBody, hfw.new]

/-- What handling a request makes of its check. -/
def HandlesOnce (self : RateLimitMiddleware ν) (keyDigest : String → String)
    (store : RateLimitStore ν ε σ) (fw : Framework Req ρ) : Prop :=
  ∀ (next : Req → ω → Except E ρ × ω) (env : ε) (unix : ℤ) (req : Req) (s : MiddlewareState σ)
    (world : ω) (calls : List Req),
    let handled := self.handle fw keyDigest store (logCalls next) env unix req s (world, calls)
    match (self.check keyDigest store env unix (self.requestInfo fw req) s).1 with
    | .ok (.allowed _) => handled.2.2.2 = calls ++ [req]
    | .ok (.limited ..) => handled.2.2.2 = calls ∧
      ∃ response, handled.1 = .ok (.ok response) ∧ fw.status response = 429
    | .error _ => handled.2.2.2 = calls

theorem handle_once (self : RateLimitMiddleware ν) (keyDigest : String → String)
    (store : RateLimitStore ν ε σ) {fw : Framework Req ρ} (hfw : fw.KeepsStatus) :
    self.HandlesOnce (E := E) (ω := ω) keyDigest store fw := by
  intro next env unix req s world calls
  simp only [handle]
  cases hcheck : (self.check keyDigest store env unix (self.requestInfo fw req) s).1 with
  | error failure => rfl
  | ok response =>
    cases response with
    | allowed headers => rfl
    | limited headers message retryAfter =>
      exact ⟨rfl, _, rfl, status_limitedResponse hfw headers message retryAfter⟩

end

/-! ## The accounts -/

/-- The requests that the store, the bypass list and the two counters account for
    at the end of a run. -/
def accounted (self : RateLimitMiddleware ν) (keyDigest : String → String)
    (requests : List (Request ε)) (final : LoggedState σ) : ℕ :=
  final.store.2.countP (fun c => isAdmitted c.2) + requests.countP (self.isBypassed keyDigest) +
    final.unkeyedAllowCount + final.skipOnErrorCount

/-- **Accounting.**  The store is consulted once for each keyed, non-bypassed
    request and otherwise never; the allowed responses are the admissions of the
    store, the bypassed requests and the two counts exactly when no check
    panics that the store admitted; `next` is invoked once for an allowed
    response and never for a limited one, which has status 429. -/
theorem middleware_accounting_iff {Req ρ E ω : Type} (self : RateLimitMiddleware ν)
    (keyDigest : String → String) (store : RateLimitStore ν ε σ) (fw : Framework Req ρ)
    (hfw : fw.KeepsStatus) (s : σ) (requests : List (Request ε))
    (hunkeyed : requests.countP (self.isUnkeyedAllowed keyDigest) < 2 ^ 64)
    (hskip : (run (self.serve keyDigest store.logged) (.new (s, [])) requests).store.2.countP
      (fun c => self.skipOnError && isErr c.2) < 2 ^ 64) :
    let serve := self.serve keyDigest store.logged
    let final := run serve (.new (s, [])) requests
    final.store.2.map Prod.fst = requests.filterMap (self.consulted keyDigest) ∧
    ((outputs serve (.new (s, [])) requests).countP isAllowedResponse =
        self.accounted keyDigest requests final ↔
      Allowed serve (fun r t => self.isStoreAdmitted keyDigest store r t.store.1 = true →
        self.algorithm.ReportsAt r.unix) (.new (s, [])) requests) ∧
    self.HandlesOnce (E := E) (ω := ω) keyDigest store fw := by
  intro serve final
  refine ⟨?_, ?_, handle_once self keyDigest store hfw⟩
  · exact run_consulted self keyDigest store (.new (s, [])) requests
  · have hbalance : (outputs serve (.new (s, [])) requests).countP isAllowedResponse +
        tally serve (fun r t => self.isInterrupted keyDigest store r t.store.1) (.new (s, []))
          requests =
        tally serve (fun r t => self.isStoreAdmitted keyDigest store r t.store.1)
            (.new (s, [])) requests + requests.countP (self.isBypassed keyDigest) +
          requests.countP (self.isUnkeyedAllowed keyDigest) +
          tally serve (fun r t => self.isFailedOpen keyDigest store r t.store.1)
            (.new (s, [])) requests :=
      run_balance self keyDigest store (.new (s, [])) requests
    have hadmitted : final.store.2.countP (fun c => isAdmitted c.2) =
        0 + tally serve (fun r t => self.isStoreAdmitted keyDigest store r t.store.1)
          (.new (s, [])) requests :=
      run_answers self keyDigest store (.new (s, [])) requests isAdmitted
    have hfailed : final.store.2.countP (fun c => self.skipOnError && isErr c.2) =
        0 + tally serve (fun r t => self.isFailedOpen keyDigest store r t.store.1)
          (.new (s, [])) requests :=
      run_answers self keyDigest store (.new (s, [])) requests
        fun answer => self.skipOnError && isErr answer
    have hunkeyedCount : final.unkeyedAllowCount =
        0 + requests.countP (self.isUnkeyedAllowed keyDigest) :=
      run_unkeyedAllowCount self keyDigest store (.new (s, [])) requests
        (lt_of_eq_of_lt (Nat.zero_add _) hunkeyed)
    have hskipCount : final.skipOnErrorCount =
        0 + tally serve (fun r t => self.isFailedOpen keyDigest store r t.store.1)
          (.new (s, [])) requests :=
      run_skipOnErrorCount self keyDigest store (.new (s, [])) requests (hfailed ▸ hskip)
    have hpanics : Allowed serve (fun r t => self.isStoreAdmitted keyDigest store r t.store.1 =
        true → self.algorithm.ReportsAt r.unix) (.new (s, [])) requests ↔
        tally serve (fun r t => self.isInterrupted keyDigest store r t.store.1) (.new (s, []))
          requests = 0 :=
      allowed_iff_tally fun r t => by simp [isInterrupted]
    rw [hpanics, accounted, hadmitted, hunkeyedCount, hskipCount]
    omega

/-! ### A middleware that is keyed on the user -/

/-- A limiter of one request per window, which an internal user bypasses. -/
def sampleMiddleware (window : ℕ) : RateLimitMiddleware ℚ :=
  let limiter : RateLimiter ℚ := ⟨.memory .new, .slidingWindowLog 1 window,
    RateLimiterBuilder.new.config (.slidingWindowLog 1 window)⟩
  (((new limiter).withExtractor .userId).withUnkeyedPolicy .allow).withBypassKeys ["internal"]

/-- The digest of the one bypass entry. -/
def sampleDigest (key : String) : String :=
  if key = "internal" then "3bed2cb3a3acf7b6a8ef408420cc682d5520e26976d354254f528c965612054f"
  else ""

/-- A store whose answers are those of a script. -/
def scripted : RateLimitStore ℚ Unit (List (Outcome (Bool × ℕ))) where
  tokenBucketCheck _ _ _ _ script := (script.headD (.ok (false, 0)), script.tail)
  slidingWindowCheck _ _ _ _ script := (script.headD (.ok (false, 0)), script.tail)
  fixedWindowCheck _ _ _ _ script := (script.headD (.ok (false, 0)), script.tail)

def sampleRequest (unix : ℤ) (userId : Option String) : Request Unit :=
  ⟨⟨none, "/", userId, []⟩, (), unix⟩

/-- Requests are their user, and responses a status with headers. -/
def sampleFramework : Framework (Option String) (ℕ × List (String × String)) where
  clientAddress _ _ := none
  pathOnly _ := "/"
  verifiedSubject userId := userId
  header _ _ := none
  newResponse status := (status, [])
  withBody response _ := response
  insertHeader response name value := (response.1, response.2 ++ [(name, value)])
  status response := response.1
  json _ := ""

/-- An admission, a denial, a store failure, a bypass and an unkeyed request. -/
def sampleRequests : List (Request Unit) :=
  [some "client", some "client", some "client", some "internal", none].map
    (sampleRequest 1700000000000000000)

/-- Four of the five requests are let through, one for each reason. -/
theorem middleware_accounting_five :
    (outputs ((sampleMiddleware (Duration.fromSecs 60)).serve sampleDigest scripted.logged)
      (.new ([.ok (true, 0), .ok (false, 0), .error (.err .timeout)], []))
      sampleRequests).countP isAllowedResponse =
    (sampleMiddleware (Duration.fromSecs 60)).accounted sampleDigest sampleRequests
      (run ((sampleMiddleware (Duration.fromSecs 60)).serve sampleDigest scripted.logged)
        (.new ([.ok (true, 0), .ok (false, 0), .error (.err .timeout)], [])) sampleRequests) :=
  (middleware_accounting_iff (E := Unit) (ω := Unit) (sampleMiddleware (Duration.fromSecs 60))
    sampleDigest scripted sampleFramework ⟨fun _ => rfl, fun _ _ => rfl, fun _ _ _ => rfl⟩
    [.ok (true, 0), .ok (false, 0), .error (.err .timeout)] sampleRequests
    (by decide) (by decide)).2.1.mpr
    ((allowed_iff_forall.mpr (by decide :
      ∀ r ∈ sampleRequests, (sampleMiddleware (Duration.fromSecs 60)).algorithm.ReportsAt
        r.unix)).imp fun _ _ _ h _ => h)

/-- The store admits the request, and the check panics: in any build if the clock
    reads before the epoch, and in one with overflow checks on the reset time of
    a window that never ends.  The admission has no response. -/
theorem middleware_accounting_interrupted :
    (∀ window ∈ [Duration.fromSecs 60, Duration.max],
      (sampleMiddleware window).algorithm.Valid) ∧
    ∀ c ∈ [(Duration.fromSecs 60, (-1 : ℤ)), (Duration.max, 1700000000000000000)],
      (outputs ((sampleMiddleware c.1).serve sampleDigest scripted.logged)
        (.new ([.ok (true, 0)], [])) [sampleRequest c.2 (some "client")]).countP
          isAllowedResponse ≠
      (sampleMiddleware c.1).accounted sampleDigest [sampleRequest c.2 (some "client")]
        (run ((sampleMiddleware c.1).serve sampleDigest scripted.logged)
          (.new ([.ok (true, 0)], [])) [sampleRequest c.2 (some "client")]) := by
  refine ⟨?_, by decide⟩
  intro window hwindow
  rcases List.mem_pair.mp hwindow with rfl | rfl
  · exact ⟨by decide, by decide⟩
  · exact ⟨by decide, by decide⟩

end RateLimitMiddleware

end ArmatureRatelimit
