/-
  How long the middleware tells a denied client to wait under the sliding
  window.

  `Retry-After` is the window less its part below a second.  A denial leaves the
  requests that it counted in the log, as many as the limit allows, and a later
  request is admitted once the front of the log has left the window.  So the
  advertised delay is long enough exactly when the front was, at the denial, at
  least as old as the part that is cut off (`retryHeader_suffices_iff`).
-/
import ArmatureRatelimit.Proof.Accounting
import ArmatureRatelimit.MemoryRuns

open Lib

namespace ArmatureRatelimit

/-! ## Logs -/

/-- Pruning shortens a log whose front is before the cutoff, and only such. -/
theorem pruneLog_length_lt_iff {cutoff : ℤ} {log : List ℤ} :
    (pruneLog cutoff log).length < log.length ↔ ∃ x, log.head? = some x ∧ x < cutoff := by
  cases log with
  | nil => simp [pruneLog]
  | cons x log =>
    by_cases hx : x < cutoff
    · have hlen := pruneLog_length_le cutoff log
      simp only [pruneLog, List.dropWhile_cons, hx, decide_true, if_true, List.length_cons,
        List.head?_cons, Option.some.injEq, exists_eq_left', iff_true]
      exact Nat.lt_succ_of_le hlen
    · simp [pruneLog, hx]

theorem recordRequest_of_full {maxRequests : ℕ} {now : ℤ} {log : List ℤ}
    (h : ¬ log.length < maxRequests) : recordRequest maxRequests now log = ((false, 0), log) := by
  simp only [recordRequest, h, if_false]

/-! ## The store -/

section
variable {ν : Type}

/-- The requests that a check of the key counts. -/
def MemoryStore.counted (window : ℕ) (key : String) (now : ℤ) (s : MemoryStore ν) : List ℤ :=
  pruneLog (now - window) ((s.slidingLogs.lookup key).getD .empty).log

variable [F64 ν] {maxRequests window : ℕ} {key : String} {env : MemoryEnv}

/-- No log grows beyond the limit. -/
theorem log_length_le {start : MemoryStore ν} (hstart : start.slidingLogs = ∅)
    (history : List Event) {x : SlidingWindowState}
    (hx : (run (MemoryStore.step (.slidingWindowLog maxRequests window)) start
      history).slidingLogs.lookup key = some x) : x.log.length ≤ maxRequests := by
  refine (slidingWindowView maxRequests window).entry_inv (slidingWindowView_keepsEntries _ _)
    (P := fun x => x.log.length ≤ maxRequests) ?_ hstart key x hx
  rintro ev - b e hb he
  obtain ⟨cutoff, -, rfl⟩ := Option.map_eq_some_iff.mp hb
  have hlog : (e.getD .empty).log.length ≤ maxRequests := by
    cases e with
    | none => exact Nat.zero_le _
    | some x => exact he x rfl
  exact recordRequest_length_le ((pruneLog_length_le _ _).trans hlog)

theorem counted_length_le {start : MemoryStore ν} (hstart : start.slidingLogs = ∅)
    (history : List Event) (now : ℤ) :
    ((run (MemoryStore.step (.slidingWindowLog maxRequests window)) start history).counted window
      key now).length ≤ maxRequests := by
  refine (pruneLog_length_le _ _).trans ?_
  cases hx : (run (MemoryStore.step (.slidingWindowLog maxRequests window)) start
      history).slidingLogs.lookup key with
  | none => exact Nat.zero_le _
  | some x => exact log_length_le hstart history hx

theorem consult_slidingWindow {s : MemoryStore ν} (hrep : instantMin ≤ env.now - window) :
    RateLimiter.consult MemoryStore.backend env key (.slidingWindowLog maxRequests window) s =
      (.ok (recordRequest maxRequests env.now (s.counted window key env.now)).1,
        { s with slidingLogs := (s.slidingLogs.access (MemoryStore.slidingWindowBody maxRequests
          window env.now (env.now - window)) key).2 }) := by
  have hcutoff : instantSub env.now window = some (env.now - window) := if_pos hrep
  simp only [RateLimiter.consult, MemoryStore.backend, MemoryStore.slidingWindowCheck_eq hcutoff]
  rfl

/-- A denial leaves the requests that it counted, as many as the limit allows. -/
theorem consult_denied {s : MemoryStore ν} {remaining : ℕ}
    (hlen : (s.counted window key env.now).length ≤ maxRequests)
    (h : (RateLimiter.consult MemoryStore.backend env key
      (.slidingWindowLog maxRequests window) s).1 = .ok (false, remaining)) :
    instantMin ≤ env.now - window ∧ (s.counted window key env.now).length = maxRequests ∧
      (RateLimiter.consult MemoryStore.backend env key
        (.slidingWindowLog maxRequests window) s).2.slidingLogs.lookup key =
        some ⟨s.counted window key env.now, maxRequests, window⟩ := by
  by_cases hrep : instantMin ≤ env.now - window
  · rw [consult_slidingWindow hrep] at h ⊢
    have hfull : ¬ (s.counted window key env.now).length < maxRequests := by
      intro hlt
      simp [recordRequest, hlt] at h
    refine ⟨hrep, le_antisymm hlen (not_lt.mp hfull), ?_⟩
    rw [KeyMap.access_lookup_self]
    show some (SlidingWindowState.mk (recordRequest maxRequests env.now
      (s.counted window key env.now)).2 maxRequests window) = _
    rw [recordRequest_of_full hfull]
  · have hcutoff : instantSub env.now window = none := if_neg hrep
    simp [RateLimiter.consult, MemoryStore.backend, MemoryStore.slidingWindowCheck, hcutoff] at h

/-- Requests of the past are counted as such. -/
theorem counted_le {start : MemoryStore ν} (hstart : start.slidingLogs = ∅)
    {history : List Event} {t : ℤ} (hpast : ∀ e ∈ history, e.now ≤ t) :
    ∀ x ∈ (run (MemoryStore.step (.slidingWindowLog maxRequests window)) start history).counted
      window key t, x ≤ t := by
  intro x hx
  have hsub := (List.dropWhile_sublist _).subset hx
  cases hentry : (run (MemoryStore.step (.slidingWindowLog maxRequests window)) start
      history).slidingLogs.lookup key with
  | none =>
    rw [hentry] at hsub
    exact absurd hsub List.not_mem_nil
  | some y =>
    rw [hentry] at hsub
    refine (slidingWindowView maxRequests window).entry_inv (slidingWindowView_keepsEntries _ _)
      (P := fun y => ∀ z ∈ y.log, z ≤ t) ?_ hstart key y hentry x hsub
    rintro ev hev b e hb he z hz
    obtain ⟨cutoff, -, rfl⟩ := Option.map_eq_some_iff.mp hb
    have hlog : ∀ z ∈ pruneLog cutoff (e.getD .empty).log, z ≤ t := by
      intro z hz
      have hz' := (List.dropWhile_sublist _).subset hz
      cases e with
      | none => exact absurd hz' List.not_mem_nil
      | some y => exact he y rfl z hz'
    simp only [MemoryStore.slidingWindowBody, recordRequest] at hz
    split_ifs at hz
    · rcases List.mem_append.mp hz with hz | hz
      · exact hlog z hz
      · rw [List.mem_singleton.mp hz]; exact hpast ev hev
    · exact hlog z hz

/-- A window of whole seconds has no part below a second. -/
theorem aged_of_wholeSeconds (hwhole : window % 1000000000 = 0) {start : MemoryStore ν}
    (hstart : start.slidingLogs = ∅) {history : List Event} {t : ℤ}
    (hpast : ∀ e ∈ history, e.now ≤ t) {x : ℤ}
    (hx : ((run (MemoryStore.step (.slidingWindowLog maxRequests window)) start history).counted
      window key t).head? = some x) : x + (window % 1000000000 : ℕ) ≤ t := by
  have hle := counted_le hstart hpast x (List.mem_of_mem_head? hx)
  rw [hwhole]
  omega

/-- A key whose log is full is admitted once the front has left the window. -/
theorem consult_full {s : MemoryStore ν} {x : SlidingWindowState}
    (hx : s.slidingLogs.lookup key = some x) (hfull : x.log.length = maxRequests)
    (hrep : instantMin ≤ env.now - window) :
    isAdmitted (RateLimiter.consult MemoryStore.backend env key
        (.slidingWindowLog maxRequests window) s).1 = true ↔
      ∃ y, x.log.head? = some y ∧ y < env.now - window := by
  have hcounted : s.counted window key env.now = pruneLog (env.now - window) x.log := by
    simp only [MemoryStore.counted, hx, Option.getD_some]
  rw [consult_slidingWindow hrep, hcounted, ← pruneLog_length_lt_iff, hfull]
  simp only [recordRequest]
  split_ifs with hlt <;> simp [isAdmitted, hlt]

/-- **After a denial.**  Whatever happens to other keys, the key is admitted once
    the front of the requests that the denial counted has left the window. -/
theorem consult_after_denied {s : MemoryStore ν} {remaining : ℕ}
    (hlen : (s.counted window key env.now).length ≤ maxRequests)
    (h : (RateLimiter.consult MemoryStore.backend env key
      (.slidingWindowLog maxRequests window) s).1 = .ok (false, remaining))
    {others : List Event} (hothers : ∀ e ∈ others, e.Spares key) {later : MemoryEnv}
    (hlater : env.now ≤ later.now) :
    isAdmitted (RateLimiter.consult MemoryStore.backend later key
        (.slidingWindowLog maxRequests window)
        (run (MemoryStore.step (.slidingWindowLog maxRequests window))
          (RateLimiter.consult MemoryStore.backend env key
            (.slidingWindowLog maxRequests window) s).2 others)).1 = true ↔
      ∃ y, (s.counted window key env.now).head? = some y ∧ y < later.now - window := by
  obtain ⟨hrep, hfull, hentry⟩ := consult_denied hlen h
  have hframe := (lookup_run_of_spares (slidingWindowView maxRequests window) hothers _).trans
    hentry
  exact consult_full hframe hfull (by omega)

end

/-! ## The middleware -/

theorem slidingWindowResult_denied {maxRequests window : ℕ} {unix : ℤ} {remaining : ℕ}
    {result : RateLimitCheckResult}
    (h : RateLimiter.slidingWindowResult maxRequests window unix (false, remaining) = .ok result) :
    result.retryAfter = some window := by
  simp only [RateLimiter.slidingWindowResult] at h
  cases hd : sinceEpoch unix with
  | none => simp [hd] at h
  | some d =>
    simp only [hd, Bool.false_eq_true, if_false] at h
    split_ifs at h
    obtain rfl := Except.ok.inj h
    rfl

namespace RateLimitMiddleware

section
variable {ν ε σ : Type} [F64 ν] {self : RateLimitMiddleware ν} {keyDigest : String → String}
  {store : RateLimitStore ν ε σ} {r : Request ε} {s s' : MiddlewareState σ} {key : String}

omit [F64 ν] in
/-- A response that names a delay is made of a denial of the limiter. -/
theorem settle_limited {result : Outcome RateLimitCheckResult}
    {headers : Option RateLimitHeaders} {message : String} {n : ℕ}
    (h : self.settle result s = (.ok (.limited headers message (some n)), s')) :
    s' = s ∧ ∃ x, result = .ok x ∧ x.allowed = false ∧
      x.retryAfter.map Duration.asSecs = some n := by
  cases result with
  | error failure =>
    cases failure with
    | panic => cases h
    | err e =>
      simp only [settle] at h
      split_ifs at h <;> cases h
  | ok x =>
    have hresponse : self.respond x = .limited headers message (some n) :=
      Except.ok.inj (congrArg Prod.fst h)
    have hstate : s' = s := (congrArg Prod.snd h).symm
    cases ha : x.allowed with
    | true => simp [respond, ha] at hresponse
    | false =>
      simp only [respond, ha, Bool.false_eq_true, if_false,
        RateLimitCheckResponse.limited.injEq] at hresponse
      exact ⟨hstate, x, rfl, ha, hresponse.2.2⟩

/-- A denial with a delay is one of the store. -/
theorem serve_limited (hkey : self.keyExtractor.extract keyDigest r.info = some key)
    {headers : Option RateLimitHeaders} {message : String} {n : ℕ}
    (h : self.serve keyDigest store r s = (.ok (.limited headers message (some n)), s')) :
    self.bypasses keyDigest key = false ∧
      s'.store = (RateLimiter.consult store r.env key self.algorithm s.store).2 ∧
      ∃ remaining result,
        (RateLimiter.consult store r.env key self.algorithm s.store).1 = .ok (false, remaining) ∧
        RateLimiter.resultOf self.algorithm r.unix (false, remaining) = .ok result ∧
        result.retryAfter.map Duration.asSecs = some n := by
  cases hb : self.bypasses keyDigest key with
  | true => simp [serve_bypassed hkey hb] at h
  | false =>
    rw [serve_of_consulted (consulted_eq_some.mpr ⟨hkey, hb⟩)] at h
    obtain ⟨rfl, x, hx, hdenied, hretry⟩ := settle_limited h
    refine ⟨rfl, rfl, ?_⟩
    cases hanswer : (RateLimiter.consult store r.env key self.algorithm s.store).1 with
    | error failure =>
      rw [hanswer] at hx
      cases hx
    | ok answer =>
      obtain ⟨allowed, remaining⟩ := answer
      rw [hanswer] at hx
      change RateLimiter.resultOf self.algorithm r.unix (allowed, remaining) = .ok x at hx
      rcases RateLimiter.resultOf_cases self.algorithm r.unix allowed remaining with
        ⟨result, hresult, hallowed, -⟩ | ⟨hresult, -⟩
      · obtain rfl := Except.ok.inj (hresult.symm.trans hx)
        obtain rfl : allowed = false := hallowed.symm.trans hdenied
        exact ⟨remaining, result, rfl, hx, hretry⟩
      · cases hresult.symm.trans hx

omit [F64 ν] in
theorem isStoreAdmitted_of_consulted {db : σ} (h : self.consulted keyDigest r = some key) :
    self.isStoreAdmitted keyDigest store r db =
      isAdmitted (RateLimiter.consult store r.env key self.algorithm db).1 := by
  simp [isStoreAdmitted, storeAnswer, h]

/-- What the store admits is let through, unless its check panics. -/
theorem serve_admitted (hconsulted : self.consulted keyDigest r = some key)
    (h : isAdmitted (RateLimiter.consult store r.env key self.algorithm s.store).1 = true) :
    self.isStoreAdmitted keyDigest store r s.store = true ∧
      (self.algorithm.ReportsAt r.unix →
        isAllowedResponse (self.serve keyDigest store r s).1 = true) := by
  constructor
  · rw [isStoreAdmitted_of_consulted hconsulted]; exact h
  · intro hreports
    obtain ⟨result, hresult, hallowed⟩ := RateLimiter.check_of_admitted hreports h
    rw [RateLimiter.check_eq_answer] at hresult
    simp only [RateLimiter.answer] at hresult
    rw [serve_of_consulted hconsulted]
    simp only [hresult]
    exact (isAllowed_respond result).trans hallowed

end

/-! ## The exact condition -/

section
variable {ν : Type} [F64 ν] (self : RateLimitMiddleware ν) (keyDigest : String → String)

/-- Whatever happens to other keys after `s`, a request with the key that is made
    more than `n` seconds after `t` is admitted. -/
def AdmitsAfter (key : String) (t : ℤ) (n : ℕ) (s : MiddlewareState (MemoryStore ν)) : Prop :=
  ∀ others : List Event, (∀ e ∈ others, e.Spares key) →
    ∀ later : MiddlewareState (MemoryStore ν),
      later.store = run (MemoryStore.step self.algorithm) s.store others →
      ∀ r : Request MemoryEnv, self.keyExtractor.extract keyDigest r.info = some key →
        t + Duration.fromSecs n < r.env.now →
        self.isStoreAdmitted keyDigest MemoryStore.backend r later.store = true ∧
          (self.algorithm.ReportsAt r.unix →
            isAllowedResponse (self.serve keyDigest MemoryStore.backend r later).1 = true)

variable {self keyDigest} {maxRequests window : ℕ}

/-- **The delay that the middleware advertises.**  After any history on the store
    of a sliding window limiter, the whole seconds of a denial's `Retry-After`
    are long enough if and only if the front of the requests that the denial
    counted was, by then, as old as the part of the window below a second. -/
theorem retryHeader_suffices_iff
    (hlimiter : self.algorithm = .slidingWindowLog maxRequests window) (hmax : 1 ≤ maxRequests)
    {start : MemoryStore ν} (hstart : start.slidingLogs = ∅) (history : List Event)
    {s s' : MiddlewareState (MemoryStore ν)}
    (hs : s.store = run (MemoryStore.step self.algorithm) start history)
    {r : Request MemoryEnv} {key : String}
    (hkey : self.keyExtractor.extract keyDigest r.info = some key)
    {headers : Option RateLimitHeaders} {message : String} {n : ℕ}
    (hdenied : self.serve keyDigest MemoryStore.backend r s =
      (.ok (.limited headers message (some n)), s')) :
    self.AdmitsAfter keyDigest key r.env.now n s' ↔
      ∀ x, (s.store.counted window key r.env.now).head? = some x →
        x + (window % 1000000000 : ℕ) ≤ r.env.now := by
  obtain ⟨hb, hstore, remaining, result, hanswer, hresult, hretry⟩ := serve_limited hkey hdenied
  rw [hlimiter] at hs hstore hanswer hresult
  -- the advertised seconds
  have hn : n = Duration.asSecs window := by
    rw [slidingWindowResult_denied hresult] at hretry
    exact (Option.some.inj hretry).symm
  have hlen : (s.store.counted window key r.env.now).length ≤ maxRequests := by
    rw [hs]; exact counted_length_le hstart history r.env.now
  obtain ⟨-, hfull, -⟩ := consult_denied hlen hanswer
  obtain ⟨y, hy⟩ : ∃ y, (s.store.counted window key r.env.now).head? = some y := by
    rw [← Option.isSome_iff_exists, List.isSome_head?]
    intro hnil
    rw [hnil, List.length_nil] at hfull
    omega
  simp only [Duration.asSecs] at hn
  constructor
  · intro h x hx
    obtain rfl := Option.some.inj (hy.symm.trans hx)
    -- the same request again, just after the advertised delay
    obtain ⟨again, hinfo, hnow⟩ : ∃ again : Request MemoryEnv, again.info = r.info ∧
        again.env.now = r.env.now + Duration.fromSecs n + 1 :=
      ⟨⟨r.info, ⟨r.env.now + Duration.fromSecs n + 1, r.env.order⟩, r.unix⟩, rfl, rfl⟩
    simp only [Duration.fromSecs] at hnow
    have hkey' : self.keyExtractor.extract keyDigest again.info = some key := hinfo ▸ hkey
    have hlate : r.env.now + Duration.fromSecs n < again.env.now := by
      simp only [Duration.fromSecs]; omega
    have hadm := (h [] (by simp) s' rfl again hkey' hlate).1
    rw [isStoreAdmitted_of_consulted (consulted_eq_some.mpr ⟨hkey', hb⟩)] at hadm
    rw [hlimiter, hstore] at hadm
    have hnone : ∀ e ∈ ([] : List Event), e.Spares key := by simp
    obtain ⟨z, hz, hleft⟩ := (consult_after_denied hlen hanswer hnone (by omega)).mp hadm
    obtain rfl := Option.some.inj (hy.symm.trans hz)
    omega
  · intro h others hothers later hlaterStore r' hkey' ht'
    have hyle := h y hy
    simp only [Duration.fromSecs] at ht'
    refine serve_admitted (consulted_eq_some.mpr ⟨hkey', hb⟩) ?_
    rw [hlaterStore, hlimiter, hstore]
    exact (consult_after_denied hlen hanswer hothers (by omega)).mpr ⟨y, hy, by omega⟩

end

/-! ### A window of a second and a half -/

/-- One request of the key, at the start of the clock. -/
def onceServed : MiddlewareState (MemoryStore ℚ) :=
  .new (run (MemoryStore.step (.slidingWindowLog 1 1500000000)) .new
    [⟨⟨0, .stored⟩, 1700000000000000000, .check "client"⟩])

def requestAt (t : ℤ) : Request MemoryEnv :=
  ⟨⟨none, "/", some "client", []⟩, ⟨t, .stored⟩, 1700000000000000000 + t⟩

/-- Denied a second later, the client is told to wait for one second, which is
    half a second more than it needs. -/
theorem retryHeader_suffices_late :
    (sampleMiddleware 1500000000).AdmitsAfter sampleDigest "client" 1000000000 1
      ((sampleMiddleware 1500000000).serve sampleDigest MemoryStore.backend
        (requestAt 1000000000) onceServed).2 :=
  have hdenied : (sampleMiddleware 1500000000).serve sampleDigest MemoryStore.backend
      (requestAt 1000000000) onceServed =
      (.ok (.limited (some (.deny 1 1700000002 1)) "Rate limit exceeded" (some 1)),
        ((sampleMiddleware 1500000000).serve sampleDigest MemoryStore.backend
          (requestAt 1000000000) onceServed).2) :=
    Prod.ext (by decide) rfl
  have hempty : (.new : MemoryStore ℚ).slidingLogs = ∅ := rfl
  (retryHeader_suffices_iff rfl (by decide) hempty _ rfl rfl hdenied).mpr (by decide)

/-- Denied after 0.4 s, the client is told to wait for one second; the request at
    1.45 s is denied again. -/
theorem retryHeader_short :
    (sampleMiddleware 1500000000).algorithm.Valid ∧
    ((sampleMiddleware 1500000000).serve sampleDigest MemoryStore.backend
      (requestAt 400000000) onceServed).1 =
      .ok (.limited (some (.deny 1 1700000001 1)) "Rate limit exceeded" (some 1)) ∧
    ¬ (sampleMiddleware 1500000000).AdmitsAfter sampleDigest "client" 400000000 1
      ((sampleMiddleware 1500000000).serve sampleDigest MemoryStore.backend
        (requestAt 400000000) onceServed).2 := by
  refine ⟨⟨by decide, by decide⟩, by decide, ?_⟩
  intro h
  have hadmitted := (h [] (by simp) _ rfl (requestAt 1450000000) rfl (by decide)).1
  revert hadmitted
  decide

end RateLimitMiddleware

end ArmatureRatelimit
