/-
  What the remaining requests of a response are good for.

  A response says how many requests its key has left.  `Countdown` is that number
  as a function of the entry and the time: a check takes one away while there is
  one, and neither time nor a reset nor a pass of the prune task lowers it.

  `service_promise`: the requests that were said to remain are let through,
  whenever they come.  `service_burst`: at the same instant no others are.
-/
import ArmatureRatelimit.Proof.Allowance
import ArmatureRatelimit.Proof.Standalone

open Lib

namespace ArmatureRatelimit

/-! ## Countdowns -/

/-- How many checks an entry has left at a time. -/
structure Countdown {algorithm : Algorithm ℚ} {β : Type} (view : MapView algorithm β)
    (left : ℤ → Option β → ℕ) : Prop where
  mono : ∀ {t u e}, t ≤ u → left t e ≤ left u e
  le_none : ∀ t e, left t e ≤ left t none
  runs : ∀ {t u}, t ≤ u → view.body t ≠ none → view.body u ≠ none
  body : ∀ {now b e}, view.body now = some b →
    (0 < left now e ∧ (b e).1 = (true, left now e - 1) ∧
        left now (some (b e).2) = left now e - 1) ∨
      left now e = 0 ∧ (b e).1 = (false, 0) ∧ left now (some (b e).2) = 0

/-! ### Sliding windows -/

def slidingLeft (maxRequests window : ℕ) (now : ℤ) (e : Option SlidingWindowState) : ℕ :=
  maxRequests - (pruneLog (now - window) (e.getD .empty).log).length

theorem pruneLog_concat {cutoff now : ℤ} (h : cutoff ≤ now) (log : List ℤ) :
    pruneLog cutoff (pruneLog cutoff log ++ [now]) = pruneLog cutoff log ++ [now] := by
  have hpruned : pruneLog cutoff (pruneLog cutoff log) = pruneLog cutoff log :=
    pruneLog_pruneLog le_rfl log
  generalize pruneLog cutoff log = pruned at hpruned ⊢
  cases pruned with
  | nil => simp [pruneLog, not_lt.mpr h]
  | cons x pruned =>
    have hx : ¬ x < cutoff := by
      intro hx
      have hlength := congrArg List.length hpruned
      have hshort := pruneLog_length_le cutoff pruned
      have hdrop : pruneLog cutoff (x :: pruned) = pruneLog cutoff pruned := by
        simp [pruneLog, hx]
      rw [hdrop, List.length_cons] at hlength
      omega
    simp [pruneLog, hx]

theorem slidingLeft_mono (maxRequests window : ℕ) {t u : ℤ} (h : t ≤ u)
    (e : Option SlidingWindowState) :
    slidingLeft maxRequests window t e ≤ slidingLeft maxRequests window u e := by
  have hcutoff : t - window ≤ u - window := by omega
  have hshort : (pruneLog (u - window) (e.getD .empty).log).length ≤
      (pruneLog (t - window) (e.getD .empty).log).length := by
    rw [← pruneLog_pruneLog hcutoff]
    exact pruneLog_length_le _ _
  simp only [slidingLeft]
  omega

theorem slidingWindow_countdown (maxRequests window : ℕ) :
    Countdown (slidingWindowView maxRequests window) (slidingLeft maxRequests window) where
  mono h := slidingLeft_mono maxRequests window h _
  le_none t e := by
    simp [slidingLeft, SlidingWindowState.empty, pruneLog]
  runs {t u} htu hbody := by
    simp only [slidingWindowView, ne_eq, Option.map_eq_none_iff] at hbody ⊢
    obtain ⟨cutoff, hcutoff⟩ := Option.ne_none_iff_exists'.mp hbody
    have hmin := (instantSub_some.mp hcutoff).1
    rw [instantSub_some.mpr ⟨by omega, rfl⟩]
    simp
  body {now b e} hb := by
    obtain ⟨cutoff, hcutoff, rfl⟩ := Option.map_eq_some_iff.mp hb
    obtain ⟨-, rfl⟩ := instantSub_some.mp hcutoff
    have hnow : now - window ≤ now := by omega
    simp only [slidingLeft, MemoryStore.slidingWindowBody, recordRequest, Option.getD_some]
    split_ifs with hroom
    · rw [pruneLog_concat hnow, List.length_append, List.length_singleton]
      exact .inl ⟨by omega, rfl, by omega⟩
    · rw [pruneLog_pruneLog le_rfl]
      exact .inr ⟨by omega, rfl, by omega⟩

/-! ### Fixed windows -/

def fixedLeft (maxRequests window : ℕ) (now : ℤ) (e : Option FixedWindowState) : ℕ :=
  match e with
  | none => maxRequests
  | some x =>
    if window ≤ durationSince now x.windowStart then maxRequests else maxRequests - x.count

theorem fixedLeft_mono (maxRequests window : ℕ) {t u : ℤ} (h : t ≤ u)
    (e : Option FixedWindowState) :
    fixedLeft maxRequests window t e ≤ fixedLeft maxRequests window u e := by
  cases e with
  | none => exact le_rfl
  | some x =>
    have hsince : durationSince t x.windowStart ≤ durationSince u x.windowStart := by
      simp only [durationSince]
      omega
    simp only [fixedLeft]
    split_ifs <;> omega

theorem fixedWindow_countdown (maxRequests : ℕ) {window : ℕ} (hwindow : 0 < window) :
    Countdown (fixedWindowView maxRequests window) (fixedLeft maxRequests window) where
  mono h := fixedLeft_mono maxRequests window h _
  le_none t e := by
    cases e with
    | none => exact le_rfl
    | some x =>
      simp only [fixedLeft]
      split_ifs <;> omega
  runs _ _ := Option.some_ne_none _
  body {now b e} hb := by
    obtain rfl := Option.some.inj hb
    obtain ⟨y, hbody, hy⟩ := MemoryStore.fixedWindowBody_cases maxRequests window now e
    -- the window that the check counts in is not over, and has what is left
    obtain ⟨hleft, hopen⟩ : fixedLeft maxRequests window now e = maxRequests - y.count ∧
        ¬ window ≤ durationSince now y.windowStart := by
      rcases hy with ⟨rfl, hover⟩ | ⟨x, rfl, rfl, hopen⟩
      · refine ⟨?_, by simpa [durationSince_self] using hwindow.ne'⟩
        cases e with
        | none => rfl
        | some x => exact if_pos (hover x rfl)
      · exact ⟨if_neg (not_le.mpr hopen), not_le.mpr hopen⟩
    rw [hleft, hbody]
    by_cases hroom : y.count < maxRequests
    · refine .inl ⟨by omega, ?_, ?_⟩
      · simp [WindowState.increment, hroom, Nat.sub_sub]
      · simp only [fixedLeft, WindowState.increment, hroom, if_true, if_neg hopen]
        omega
    · refine .inr ⟨by omega, ?_, ?_⟩
      · simp [WindowState.increment, hroom]
      · simp only [fixedLeft, WindowState.increment, hroom, if_false, if_neg hopen]
        omega

/-! ### Token buckets -/

def bucketLeft (capacity : ℕ) (refillRate : ℚ) (now : ℤ) (e : Option (TokenBucketState ℚ)) : ℕ :=
  ⌊BucketState.level capacity refillRate now e⌋₊

theorem level_mono {capacity : ℕ} {refillRate : ℚ} (hrate : 0 ≤ refillRate) {t u : ℤ} (h : t ≤ u)
    (e : Option (TokenBucketState ℚ)) :
    BucketState.level capacity refillRate t e ≤ BucketState.level capacity refillRate u e := by
  cases e with
  | none => exact le_rfl
  | some x =>
    have hsince : durationSince t x.lastRefill ≤ durationSince u x.lastRefill := by
      simp only [durationSince]
      omega
    have hmul := mul_le_mul_of_nonneg_right (Duration.secs_mono hsince) hrate
    simp only [BucketState.level]
    exact min_le_min (by linarith) le_rfl

theorem tokenBucket_countdown {capacity : ℕ} (hrange : capacity ≤ u64Max) {refillRate : ℚ}
    (hrate : 0 ≤ refillRate) :
    Countdown (tokenBucketView capacity refillRate) (bucketLeft capacity refillRate) where
  mono h := Nat.floor_mono (level_mono hrate h _)
  le_none t e := Nat.floor_mono (BucketState.level_le capacity refillRate t e)
  runs _ _ := Option.some_ne_none _
  body {now b e} hb := by
    obtain rfl := Option.some.inj hb
    have hcap := BucketState.level_le capacity refillRate now e
    simp only [bucketLeft, MemoryStore.tokenBucketBody, BucketState.acquire_rat hrate]
    by_cases hone : 1 ≤ BucketState.level capacity refillRate now e
    · rw [if_pos hone]
      have hrest : BucketState.level capacity refillRate now e - 1 ≤ capacity := by linarith
      have hle : ⌊BucketState.level capacity refillRate now e - 1⌋₊ ≤ u64Max :=
        (Nat.floor_le_of_le hrest).trans hrange
      refine .inl ⟨Nat.floor_pos.mpr hone, ?_, ?_⟩
      · rw [F64.toU64_rat, Int.floor_toNat, min_eq_left hle, Nat.floor_sub_one]
      · rw [level_now hrest, Nat.floor_sub_one]
    · rw [if_neg hone]
      have hzero : ⌊BucketState.level capacity refillRate now e⌋₊ = 0 :=
        Nat.floor_eq_zero.mpr (not_le.mp hone)
      refine .inr ⟨hzero, rfl, ?_⟩
      rw [level_now hcap, hzero]

/-! ### Every algorithm -/

theorem exists_countdown {algorithm : Algorithm ℚ} (hvalid : algorithm.Valid)
    (hrange : algorithm.InRange) :
    ∃ (β : Type) (view : MapView algorithm β) (left : ℤ → Option β → ℕ),
      view.ActsOnStore ∧ view.KeepsEntries ∧ Countdown view left := by
  cases algorithm with
  | tokenBucket capacity refillRate =>
    have hrate : 0 < refillRate := not_le.mp (of_decide_eq_false hvalid.2.2)
    exact ⟨_, _, _, tokenBucketView_actsOnStore capacity refillRate,
      tokenBucketView_keepsEntries capacity refillRate, tokenBucket_countdown hrange hrate.le⟩
  | slidingWindowLog maxRequests window =>
    exact ⟨_, _, _, slidingWindowView_actsOnStore maxRequests window,
      slidingWindowView_keepsEntries maxRequests window,
      slidingWindow_countdown maxRequests window⟩
  | fixedWindow maxRequests window =>
    exact ⟨_, _, _, fixedWindowView_actsOnStore maxRequests window,
      fun env s key => (lookup_cleanup env s key).2.2,
      fixedWindow_countdown maxRequests hvalid.2⟩

/-! ## What a response says -/

section
variable {ν σ : Type} [F64 ν]

theorem RateLimiter.resultOf_remaining {algorithm : Algorithm ν} {unix : ℤ} {allowed : Bool}
    {remaining : ℕ} {result : RateLimitCheckResult}
    (h : resultOf algorithm unix (allowed, remaining) = .ok result) :
    result.allowed = allowed ∧ result.remaining = if allowed then remaining else 0 := by
  have hallows := resultOf_says algorithm unix (allowed, remaining)
  rw [h] at hallows
  refine ⟨hallows, ?_⟩
  cases algorithm with
  | tokenBucket capacity refillRate =>
    simp only [resultOf, tokenBucketResult] at h
    split at h
    · cases h
    · split at h
      · rename_i hallowed
        obtain rfl := Except.ok.inj h
        simp only [RateLimitCheckResult.allow, show allowed = true from hallowed, if_true]
      · rename_i hallowed
        have hremaining : result.remaining = 0 := by
          split at h
          · split at h
            · obtain rfl := Except.ok.inj h
              rfl
            · cases h
          · obtain rfl := Except.ok.inj h
            rfl
        rw [hremaining, if_neg hallowed]
  | slidingWindowLog maxRequests window =>
    simp only [resultOf, slidingWindowResult] at h
    split at h
    · cases h
    · split at h
      · cases h
      · cases allowed <;> obtain rfl := Except.ok.inj h <;> rfl
  | fixedWindow maxRequests window =>
    simp only [resultOf, fixedWindowResult] at h
    split at h
    · cases h
    · cases allowed <;> obtain rfl := Except.ok.inj h <;> rfl

omit [F64 ν] in
theorem RateLimitMiddleware.respond_remaining {M : RateLimitMiddleware ν}
    {result : RateLimitCheckResult} {h : RateLimitHeaders}
    (hheaders : (M.respond result).headers = some h) :
    h.remaining = if result.allowed then result.remaining else 0 := by
  simp only [respond] at hheaders
  split_ifs at hheaders ⊢ <;> cases hheaders <;> rfl

/-- The headers say what the store answered. -/
theorem RateLimitMiddleware.headers_remaining {M : RateLimitMiddleware ν} {algorithm : Algorithm ν}
    {unix : ℤ} {allowed : Bool} {remaining : ℕ} {s : MiddlewareState σ}
    {response : RateLimitCheckResponse} {h : RateLimitHeaders}
    (hresponse : (M.settle ((Except.ok (allowed, remaining) : Outcome (Bool × ℕ)) >>=
      RateLimiter.resultOf algorithm unix) s).1 = .ok response)
    (hheaders : response.headers = some h) :
    h.remaining = if allowed then remaining else 0 := by
  change (M.settle (RateLimiter.resultOf algorithm unix (allowed, remaining)) s).1 =
    .ok response at hresponse
  rcases RateLimiter.resultOf_cases algorithm unix allowed remaining with ⟨result, hresult, -, -⟩ |
    ⟨hpanic, -⟩
  · obtain ⟨hallowed, hremaining⟩ := RateLimiter.resultOf_remaining hresult
    rw [hresult] at hresponse
    obtain rfl := Except.ok.inj hresponse
    have hh := respond_remaining hheaders
    rw [hh, hallowed, hremaining]
    cases allowed <;> rfl
  · rw [hpanic] at hresponse
    cases hresponse

end

/-! ## Services -/

/-- The event is a request, or a reset of another key. -/
def ServiceEvent.Spares {Req : Type} (key : String) (e : ServiceEvent Req) : Prop :=
  (∃ req, e.action = .request req) ∨ ∃ k, e.action = .reset k ∧ k ≠ key

namespace Service

variable {Req ρ E ω : Type} {S : Service ℚ Req ρ E ω}

section
variable {β : Type} {view : MapView S.middleware.algorithm β} {left : ℤ → Option β → ℕ}
  {key : String}

/-- Only a request under the key takes from what is left. -/
theorem left_step (hleft : Countdown view left) (hacts : view.ActsOnStore)
    (hkeeps : view.KeepsEntries) (hkey : S.middleware.bypasses S.keyDigest key = false)
    (e : ServiceEvent Req) (s : ServiceState ℚ Req ω) :
    left e.now (entry view key s) ≤
      left e.now (entry view key (S.step e s).2) + (S.asks key e).toNat := by
  rcases entry_cases hacts hkeeps hkey e s with ⟨hsame, -, -⟩ | ⟨hgone, -, -⟩ |
    ⟨b, hb, hnext, hasks, -⟩
  · rw [hsame]
    exact Nat.le_add_right _ _
  · rw [hgone]
    exact (hleft.le_none _ _).trans (Nat.le_add_right _ _)
  · rw [hnext, hasks, Bool.toNat_true]
    rcases hleft.body (e := entry view key s) hb with ⟨-, -, hone⟩ | ⟨hzero, -, -⟩ <;> omega

/-- A request under the key is let through while there is something left. -/
theorem receives_of_left (hleft : Countdown view left) (hacts : view.ActsOnStore)
    (hkeeps : view.KeepsEntries) (hkey : S.middleware.bypasses S.keyDigest key = false)
    {e : ServiceEvent Req} {s : ServiceState ℚ Req ω} (hruns : view.body e.now ≠ none)
    (hasks : S.asks key e = true) (hreports : S.middleware.algorithm.ReportsAt e.unix)
    (hpos : 0 < left e.now (entry view key s)) : S.receives key e s = true := by
  rcases entry_cases hacts hkeeps hkey e s with ⟨-, -, hnone⟩ | ⟨-, -, hno⟩ |
    ⟨b, hb, -, -, hreceives⟩
  · exact absurd (hnone hasks) hruns
  · rw [hasks] at hno
    cases hno
  · rcases hleft.body (e := entry view key s) hb with ⟨-, hanswer, -⟩ | ⟨hzero, -, -⟩
    · rw [hreceives, hanswer, decide_eq_true hreports]
      rfl
    · omega

/-- What the headers of a response say is what is left after it. -/
theorem left_of_headers (hleft : Countdown view left) (hacts : view.ActsOnStore)
    (hkey : S.middleware.bypasses S.keyDigest key = false) {e : ServiceEvent Req} {req : Req}
    (he : e.action = .request req) (hreq : S.keyOf req = some key) {s : ServiceState ℚ Req ω}
    {response : RateLimitCheckResponse} {h : RateLimitHeaders}
    (hresponse : (S.middleware.serve S.keyDigest MemoryStore.backend (S.asRequest e req)
      s.middleware).1 = .ok response)
    (hheaders : response.headers = some h) :
    view.body e.now ≠ none ∧ left e.now (entry view key (S.step e s).2) = h.remaining := by
  have hconsulted : S.middleware.consulted S.keyDigest (S.asRequest e req) = some key :=
    RateLimitMiddleware.consulted_eq_some.mpr ⟨hreq, hkey⟩
  have hconsult : RateLimiter.consult MemoryStore.backend (S.asRequest e req).env key
      S.middleware.algorithm s.middleware.store =
        MemoryStore.checkWith S.middleware.algorithm e.env key s.middleware.store := by
    cases S.middleware.algorithm <;> rfl
  rw [RateLimitMiddleware.serve_of_consulted hconsulted, hconsult, hacts] at hresponse
  have hnow : view.body e.env.now = view.body e.now := rfl
  rw [hnow] at hresponse
  have hasks : S.asks key e = true := by simp [asks, he, hreq]
  rcases entry_request hacts hkey he s with ⟨-, -, hnone⟩ | ⟨b, hb, hnext, -, -⟩
  · rw [hnone hasks] at hresponse
    cases hresponse
  · rw [hb] at hresponse
    have hremaining : h.remaining = if (b (entry view key s)).1.1 then _ else 0 :=
      RateLimitMiddleware.headers_remaining hresponse hheaders
    refine ⟨by rw [hb]; exact Option.some_ne_none b, ?_⟩
    rw [hnext, hremaining]
    rcases hleft.body (e := entry view key s) hb with ⟨-, hanswer, hone⟩ |
      ⟨-, hanswer, hzero⟩
    · rw [hone, hanswer, if_pos rfl]
      exact congrArg Prod.snd hanswer.symm
    · rw [hzero, hanswer, if_neg Bool.false_ne_true]

/-- What a request takes is taken from what is left. -/
theorem left_spent (hleft : Countdown view left) (hacts : view.ActsOnStore)
    (hkey : S.middleware.bypasses S.keyDigest key = false) {e : ServiceEvent Req}
    (hspares : e.Spares key) (s : ServiceState ℚ Req ω) :
    left e.now (entry view key (S.step e s).2) + (S.receives key e s).toNat ≤
      left e.now (entry view key s) := by
  rcases hspares with ⟨req, he⟩ | ⟨k, he, hk⟩
  · rcases entry_request hacts hkey he s with ⟨hsame, hno, -⟩ | ⟨b, hb, hnext, -, hreceives⟩
    · rw [hsame, hno, Bool.toNat_false, Nat.add_zero]
    · rw [hnext, hreceives]
      rcases hleft.body (e := entry view key s) hb with ⟨hpos, hanswer, hone⟩ |
        ⟨hzero, hanswer, hnone⟩
      · rw [hanswer, hone, Bool.true_and]
        have hle := Bool.toNat_le (decide (S.middleware.algorithm.ReportsAt e.unix))
        omega
      · rw [hanswer, hnone, hzero]
        rfl
  · have hno : S.receives key e s = false := by simp only [receives, he]
    have hsame : entry view key (S.step e s).2 = entry view key s := by
      simp only [entry, step, he, view.get_reset, KeyMap.lookup_erase_eq_ite, if_neg (Ne.symm hk)]
    rw [hsame, hno, Bool.toNat_false, Nat.add_zero]

/-- What is left is let through as it is asked for. -/
theorem left_le_tally (hleft : Countdown view left) (hacts : view.ActsOnStore)
    (hkeeps : view.KeepsEntries) (hkey : S.middleware.bypasses S.keyDigest key = false) {t : ℤ}
    (hruns : view.body t ≠ none) {later : List (ServiceEvent Req)}
    (hord : later.Pairwise fun e e' => e.now ≤ e'.now) (ht : ∀ e ∈ later, t ≤ e.now)
    (hreports : ∀ e ∈ later, S.asks key e = true → S.middleware.algorithm.ReportsAt e.unix)
    (s : ServiceState ℚ Req ω) :
    min (left t (entry view key s)) (later.countP (S.asks key)) ≤
      tally S.step (S.receives key) s later := by
  refine min_le_tally ServiceEvent.now (fun t s => left t (entry view key s)) hleft.mono ?_ ?_
    hord ht
  · intro e he s' hasks hpos
    exact receives_of_left hleft hacts hkeeps hkey (hleft.runs (ht e he) hruns) hasks
      (hreports e he hasks) hpos
  · intro e _ s'
    exact left_step hleft hacts hkeeps hkey e s'

end

theorem receivedUnder_run (key : String) (s : ServiceState ℚ Req ω)
    (evs : List (ServiceEvent Req)) :
    S.receivedUnder key (run S.step s evs) =
      S.receivedUnder key s + tally S.step (S.receives key) s evs :=
  run_eq_add_tally (S.receivedUnder key) (fun e s _ => receivedUnder_step key e s)
    (Nat.lt_succ_self _)

/-! ## What remains is let through, and nothing else -/

section
variable {key : String} {e : ServiceEvent Req} {req : Req} {s : ServiceState ℚ Req ω}
  {response : RateLimitCheckResponse} {h : RateLimitHeaders}

/-- **The promise of the headers.**  Of the requests under a key that come after
    a response, whenever they come and whatever else happens, as many are let
    through as the response says that remain. -/
theorem service_promise (hvalid : S.middleware.algorithm.Valid)
    (hrange : S.middleware.algorithm.InRange)
    (hkey : S.middleware.bypasses S.keyDigest key = false)
    (he : e.action = .request req) (hreq : S.keyOf req = some key)
    (hresponse : (S.middleware.check S.keyDigest MemoryStore.backend e.env e.unix
      (S.middleware.requestInfo S.framework req) s.middleware).1 = .ok response)
    (hheaders : response.headers = some h) {later : List (ServiceEvent Req)}
    (hord : (e :: later).Pairwise fun e e' => e.now ≤ e'.now)
    (hreports : ∀ e' ∈ later, S.asks key e' = true → S.middleware.algorithm.ReportsAt e'.unix) :
    S.receivedUnder key (S.step e s).2 + min h.remaining (later.countP (S.asks key)) ≤
      S.receivedUnder key (run S.step (S.step e s).2 later) := by
  obtain ⟨β, view, left, hacts, hkeeps, hleft⟩ := exists_countdown hvalid hrange
  obtain ⟨hruns, hremaining⟩ := left_of_headers hleft hacts hkey he hreq hresponse hheaders
  rw [List.pairwise_cons] at hord
  rw [receivedUnder_run, ← hremaining]
  exact Nat.add_le_add_left
    (left_le_tally hleft hacts hkeeps hkey hruns hord.2 hord.1 hreports _) _

/-- The sample, with three requests in a minute. -/
def threeAMinute : Service ℚ (Option String) (ℕ × List (String × String)) Unit Unit :=
  { sampleService with
    middleware := { sampleService.middleware with
      algorithm := .slidingWindowLog 3 (Duration.fromSecs 60) } }

theorem threeAMinute_keyOf : threeAMinute.keyOf (some "client") = some "client" := by
  decide +kernel

/-- A first visit, after which two remain. -/
theorem threeAMinute_first :
    (threeAMinute.middleware.check threeAMinute.keyDigest MemoryStore.backend (visitAt 0).env
        (visitAt 0).unix (threeAMinute.middleware.requestInfo threeAMinute.framework
          (some "client")) (.new .new)).1 =
      .ok (.allowed (some (.allow 3 2 60))) := by
  decide +kernel

theorem threeAMinute_valid : threeAMinute.middleware.algorithm.Valid := ⟨by decide, by decide⟩

theorem threeAMinute_client :
    threeAMinute.middleware.bypasses threeAMinute.keyDigest "client" = false := by
  decide +kernel

theorem service_promise_visits :
    threeAMinute.receivedUnder "client"
          (threeAMinute.step (visitAt 0) ⟨.new .new, ⟨(), []⟩⟩).2 +
        min 2 ([visitAt 10, ⟨⟨Duration.fromSecs 20, .stored⟩, 0, .prune⟩, visitAt 30,
          visitAt 40].countP (threeAMinute.asks "client")) ≤
      threeAMinute.receivedUnder "client" (run threeAMinute.step
        (threeAMinute.step (visitAt 0) ⟨.new .new, ⟨(), []⟩⟩).2
          [visitAt 10, ⟨⟨Duration.fromSecs 20, .stored⟩, 0, .prune⟩, visitAt 30, visitAt 40]) := by
  refine service_promise (e := visitAt 0) (s := ⟨.new .new, ⟨(), []⟩⟩) (h := .allow 3 2 60)
    threeAMinute_valid (by decide) threeAMinute_client rfl threeAMinute_keyOf threeAMinute_first
    rfl ?_ ?_
  · simp only [visitAt, ServiceEvent.now]
    decide
  · simp only [visitAt]
    decide +kernel

/-- **The headers are exact.**  Of a burst at the instant of a response, as many
    are let through as the response says that remain, and no others. -/
theorem service_burst (hvalid : S.middleware.algorithm.Valid)
    (hrange : S.middleware.algorithm.InRange)
    (hkey : S.middleware.bypasses S.keyDigest key = false)
    (he : e.action = .request req) (hreq : S.keyOf req = some key)
    (hresponse : (S.middleware.check S.keyDigest MemoryStore.backend e.env e.unix
      (S.middleware.requestInfo S.framework req) s.middleware).1 = .ok response)
    (hheaders : response.headers = some h) {burst : List (ServiceEvent Req)}
    (hburst : ∀ e' ∈ burst, e'.now = e.now ∧ e'.Spares key)
    (hreports : ∀ e' ∈ burst, S.asks key e' = true → S.middleware.algorithm.ReportsAt e'.unix) :
    S.receivedUnder key (run S.step (S.step e s).2 burst) =
      S.receivedUnder key (S.step e s).2 + min h.remaining (burst.countP (S.asks key)) := by
  obtain ⟨β, view, left, hacts, hkeeps, hleft⟩ := exists_countdown hvalid hrange
  obtain ⟨hruns, hremaining⟩ := left_of_headers hleft hacts hkey he hreq hresponse hheaders
  have hat : ∀ e' ∈ burst, e'.now = e.now := fun e' he' => (hburst e' he').1
  have hord : burst.Pairwise fun e e' => e.now ≤ e'.now :=
    List.pairwise_of_forall_mem_list fun a ha b hb => ((hat a ha).trans (hat b hb).symm).le
  have hserved : min (left e.now (entry view key (S.step e s).2)) (burst.countP (S.asks key)) ≤
      tally S.step (S.receives key) (S.step e s).2 burst :=
    left_le_tally hleft hacts hkeeps hkey hruns hord (fun e' he' => (hat e' he').ge) hreports _
  have hbound : tally S.step (S.receives key) (S.step e s).2 burst ≤
      min (left e.now (entry view key (S.step e s).2)) (burst.countP (S.asks key)) := by
    refine tally_le_left (fun s => left e.now (entry view key s))
      (fun e s => asks_of_receives (e := e) (s := s)) ?_ _
    intro e' he' s'
    rw [← hat e' he']
    exact left_spent hleft hacts hkey (hburst e' he').2 s'
  rw [receivedUnder_run, ← hremaining, le_antisymm hbound hserved]

theorem service_burst_visits :
    threeAMinute.receivedUnder "client" (run threeAMinute.step
        (threeAMinute.step (visitAt 0) ⟨.new .new, ⟨(), []⟩⟩).2
          [visitAt 0, visitAt 0, visitAt 0]) =
      threeAMinute.receivedUnder "client"
          (threeAMinute.step (visitAt 0) ⟨.new .new, ⟨(), []⟩⟩).2 +
        min 2 ([visitAt 0, visitAt 0, visitAt 0].countP (threeAMinute.asks "client")) := by
  refine service_burst (e := visitAt 0) (s := ⟨.new .new, ⟨(), []⟩⟩) (h := .allow 3 2 60)
    threeAMinute_valid (by decide) threeAMinute_client rfl threeAMinute_keyOf threeAMinute_first
    rfl ?_ ?_
  · intro e he
    obtain rfl : e = visitAt 0 := by simpa using he
    exact ⟨rfl, .inl ⟨_, rfl⟩⟩
  · simp only [visitAt]
    decide +kernel

end

end Service

end ArmatureRatelimit
