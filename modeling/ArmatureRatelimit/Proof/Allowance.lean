/-
  How many requests under one key the handler of a service can receive.

  `service_allowance`: what the handler receives during any part of a run is at
  most what the algorithm allows for the time it takes and the number of times
  that the key is restarted in it, that is, loses an entry that was used to a
  reset or to a pass of the prune task.

  An event leaves the entry of a key as it is, takes it away or is a check of it
  (`entry_cases`), so the meter of the algorithm accounts for the run.
-/
import ArmatureRatelimit.Lib.Amortised
import ArmatureRatelimit.Service
import ArmatureRatelimit.Proof.Accounting
import ArmatureRatelimit.Proof.Meters

open Lib

namespace ArmatureRatelimit

/-! ## One event of a service -/

/-- What the store answers is let through if it is an admission, and reported. -/
theorem RateLimitMiddleware.allowed_of_answer {ν σ : Type} [F64 ν] {M : RateLimitMiddleware ν}
    {algorithm : Algorithm ν} {unix : ℤ} (result : Bool × ℕ) (s : MiddlewareState σ) :
    isAllowedResponse (M.settle ((Except.ok result : Outcome (Bool × ℕ)) >>=
        RateLimiter.resultOf algorithm unix) s).1 =
      (result.1 && decide (algorithm.ReportsAt unix)) := by
  obtain ⟨admitted, remaining⟩ := result
  have hbalance : (isAllowedResponse (M.settle ((Except.ok (admitted, remaining) :
      Outcome (Bool × ℕ)) >>= RateLimiter.resultOf algorithm unix) s).1).toNat + _ = _ :=
    settle_allowed algorithm unix (.ok (admitted, remaining)) s
  simp only [isAdmitted, isErr, Bool.and_false, Bool.toNat_false, add_zero] at hbalance
  generalize isAllowedResponse _ = allowed at hbalance ⊢
  cases allowed <;> cases admitted <;> cases hreports : decide (algorithm.ReportsAt unix) <;>
    simp_all

namespace Service

variable {ν Req ρ E ω : Type} [F64 ν] (S : Service ν Req ρ E ω)

/-- A request as the accounts of the middleware have it. -/
def asRequest (e : ServiceEvent Req) (req : Req) : Request MemoryEnv :=
  ⟨S.middleware.requestInfo S.framework req, e.env, e.unix⟩

/-- The handler receives a request under this key. -/
def receives (key : String) (e : ServiceEvent Req) (s : ServiceState ν Req ω) : Bool :=
  match e.action with
  | .request req => S.keyOf req == some key && RateLimitMiddleware.isAllowedResponse
      (S.middleware.serve S.keyDigest MemoryStore.backend (S.asRequest e req) s.middleware).1
  | _ => false

/-- A request under this key. -/
def asks (key : String) (e : ServiceEvent Req) : Bool :=
  match e.action with
  | .request req => S.keyOf req == some key
  | _ => false

variable {S}

/-- Over any store, the handler gets a request exactly if the check says so. -/
theorem handle_noted {ε σ : Type} (S : Service ν Req ρ E ω) (store : RateLimitStore ν ε σ)
    (env : ε) (unix : ℤ) (req : Req) (s : MiddlewareState σ) (received : Received Req ω) :
    let r := S.middleware.handle S.framework S.keyDigest store S.noted env unix req s received
    let x := S.middleware.serve S.keyDigest store
      ⟨S.middleware.requestInfo S.framework req, env, unix⟩ s
    r.2.1 = x.2 ∧ r.2.2.requests = received.requests ++
      if RateLimitMiddleware.isAllowedResponse x.1 then [req] else [] := by
  simp only [RateLimitMiddleware.handle, RateLimitMiddleware.serve]
  split
  · rename_i hr
    simp [hr, RateLimitMiddleware.isAllowedResponse, RateLimitCheckResponse.isAllowed, noted]
  · rename_i hr
    simp [hr, RateLimitMiddleware.isAllowedResponse, RateLimitCheckResponse.isAllowed]
  · rename_i hr
    simp [hr, RateLimitMiddleware.isAllowedResponse]

theorem step_request {e : ServiceEvent Req} {req : Req} (he : e.action = .request req)
    (s : ServiceState ν Req ω) :
    (S.step e s).2.middleware =
        (S.middleware.serve S.keyDigest MemoryStore.backend (S.asRequest e req) s.middleware).2 ∧
      (S.step e s).2.received.requests = s.received.requests ++
        if RateLimitMiddleware.isAllowedResponse (S.middleware.serve S.keyDigest
          MemoryStore.backend (S.asRequest e req) s.middleware).1 then [req] else [] := by
  simp only [step, he]
  exact handle_noted S MemoryStore.backend e.env e.unix req s.middleware s.received

theorem receivedUnder_step (key : String) (e : ServiceEvent Req) (s : ServiceState ν Req ω) :
    S.receivedUnder key (S.step e s).2 = S.receivedUnder key s + (S.receives key e s).toNat := by
  unfold receivedUnder receives
  cases ha : e.action with
  | request req =>
    rw [(step_request ha s).2, List.countP_append]
    cases hkey : S.keyOf req == some key <;>
      cases hallowed : RateLimitMiddleware.isAllowedResponse (S.middleware.serve S.keyDigest
        MemoryStore.backend (S.asRequest e req) s.middleware).1 <;>
      simp [hkey, hallowed]
  | reset key' => simp [step, ha]
  | prune => simp [step, ha]

theorem asks_of_receives {key : String} {e : ServiceEvent Req} {s : ServiceState ν Req ω}
    (h : S.receives key e s = true) : S.asks key e = true := by
  unfold receives at h
  unfold asks
  cases ha : e.action with
  | request req =>
    rw [ha] at h
    exact (Bool.and_eq_true_iff.mp h).1
  | reset key' => rw [ha] at h; cases h
  | prune => rw [ha] at h; cases h

/-! ## The entry of a key -/

section
variable {β : Type}

/-- What a view shows of the store of a service under a key. -/
def entry (view : MapView S.middleware.algorithm β) (key : String) (s : ServiceState ν Req ω) :
    Option β :=
  (view.get s.middleware.store).lookup key

/-- A request under this key is a check of its entry, or its check panics. -/
theorem entry_request {view : MapView S.middleware.algorithm β} (hacts : view.ActsOnStore)
    {key : String} (hkey : S.middleware.bypasses S.keyDigest key = false)
    {e : ServiceEvent Req} {req : Req} (he : e.action = .request req) (s : ServiceState ν Req ω) :
    (entry view key (S.step e s).2 = entry view key s ∧ S.receives key e s = false ∧
        (S.asks key e = true → view.body e.now = none)) ∨
      ∃ b, view.body e.now = some b ∧
        entry view key (S.step e s).2 = some (b (entry view key s)).2 ∧ S.asks key e = true ∧
        S.receives key e s =
          ((b (entry view key s)).1.1 && decide (S.middleware.algorithm.ReportsAt e.unix)) := by
  simp only [entry, (step_request he s).1, receives, asks, he]
  rcases RateLimitMiddleware.request_cases S.middleware S.keyDigest (S.asRequest e req) with
    hnone | ⟨k, hk, hbypass⟩ | ⟨k, hconsulted⟩
  · have hkeyOf : S.keyOf req = none := hnone
    rw [RateLimitMiddleware.serve_unkeyed hnone, hkeyOf]
    exact .inl ⟨by cases S.middleware.unkeyedPolicy <;> rfl, rfl, by simp⟩
  · have hkeyOf : S.keyOf req = some k := hk
    have hne : k ≠ key := by
      rintro rfl
      rw [hbypass] at hkey
      cases hkey
    rw [RateLimitMiddleware.serve_bypassed hk hbypass, hkeyOf]
    exact .inl ⟨rfl, by simp [hne], by simp [hne]⟩
  · have hkeyOf : S.keyOf req = some k := (RateLimitMiddleware.consulted_eq_some.mp hconsulted).1
    have hconsult : RateLimiter.consult MemoryStore.backend (S.asRequest e req).env k
        S.middleware.algorithm s.middleware.store =
          MemoryStore.checkWith S.middleware.algorithm e.env k s.middleware.store := by
      cases S.middleware.algorithm <;> rfl
    rw [RateLimitMiddleware.serve_of_consulted hconsulted, hkeyOf, hconsult, hacts]
    simp only [RateLimitMiddleware.settle_store]
    have hnow : view.body e.env.now = view.body e.now := rfl
    rw [hnow]
    cases hb : view.body e.now with
    | none =>
      refine .inl ⟨rfl, ?_, fun _ => rfl⟩
      simp [bind, Except.bind, RateLimitMiddleware.settle, RateLimitMiddleware.isAllowedResponse]
    | some b =>
      by_cases hk : k = key
      · subst hk
        refine .inr ⟨b, rfl, ?_, by simp, ?_⟩
        · simp only [view.get_set, KeyMap.access_lookup_self]
        · rw [RateLimitMiddleware.allowed_of_answer, beq_self_eq_true, Bool.true_and]
          rfl
      · refine .inl ⟨?_, by simp [hk], by simp [hk]⟩
        simp only [view.get_set, KeyMap.access_lookup_ne b (Ne.symm hk)]

/-- **What an event does to the entry of a key**: nothing, or it takes the entry
    away, or it is a check. -/
theorem entry_cases {view : MapView S.middleware.algorithm β} (hacts : view.ActsOnStore)
    (hkeeps : view.KeepsEntries) {key : String}
    (hkey : S.middleware.bypasses S.keyDigest key = false) (e : ServiceEvent Req)
    (s : ServiceState ν Req ω) :
    (entry view key (S.step e s).2 = entry view key s ∧ S.receives key e s = false ∧
        (S.asks key e = true → view.body e.now = none)) ∨
      (entry view key (S.step e s).2 = none ∧ S.receives key e s = false ∧
        S.asks key e = false) ∨
      ∃ b, view.body e.now = some b ∧
        entry view key (S.step e s).2 = some (b (entry view key s)).2 ∧ S.asks key e = true ∧
        S.receives key e s =
          ((b (entry view key s)).1.1 && decide (S.middleware.algorithm.ReportsAt e.unix)) := by
  cases ha : e.action with
  | request req => exact (entry_request hacts hkey ha s).imp_right .inr
  | reset k =>
    have hreceives : S.receives key e s = false := by simp only [receives, ha]
    have hasks : S.asks key e = false := by simp only [asks, ha]
    have hentry : entry view key (S.step e s).2 = if key = k then none else entry view key s := by
      simp only [entry, step, ha, view.get_reset, KeyMap.lookup_erase_eq_ite]
    by_cases hk : key = k
    · exact .inr (.inl ⟨by rw [hentry, if_pos hk], hreceives, hasks⟩)
    · exact .inl ⟨by rw [hentry, if_neg hk], hreceives, by simp [hasks]⟩
  | prune =>
    have hreceives : S.receives key e s = false := by simp only [receives, ha]
    have hasks : S.asks key e = false := by simp only [asks, ha]
    cases hentry : entry view key (S.step e s).2 with
    | none => exact .inr (.inl ⟨rfl, hreceives, hasks⟩)
    | some x =>
      have hlookup : (view.get (s.middleware.store.cleanup e.env)).lookup key = some x := by
        simpa only [entry, step, ha] using hentry
      exact .inl ⟨(hkeeps _ _ _ _ hlookup).symm, hreceives, by simp [hasks]⟩

end

/-! ## The account of a key -/

section
variable {Req ρ E ω : Type} {S : Service ℚ Req ρ E ω}

/-- The event takes away the entry of a key that has used a part of its
    allowance. -/
def isRestart (S : Service ℚ Req ρ E ω) (key : String) (e : ServiceEvent Req)
    (s : ServiceState ℚ Req ω) : Bool :=
  s.middleware.store.isUsed S.middleware.algorithm key e.now &&
    !(S.step e s).2.middleware.store.isUsed S.middleware.algorithm key e.now

def restarts (S : Service ℚ Req ρ E ω) (key : String) (s : ServiceState ℚ Req ω)
    (evs : List (ServiceEvent Req)) : ℕ :=
  tally S.step (S.isRestart key) s evs

variable {lo hi : ℤ} (M : Metered S.middleware.algorithm lo hi)

def GoodAt (key : String) (t : ℤ) (s : ServiceState ℚ Req ω) : Prop :=
  ∀ x, entry M.view key s = some x → M.good t x

variable {M} {key : String}

theorem GoodAt.mono {t u : ℤ} {s : ServiceState ℚ Req ω} (htu : t ≤ u) (h : GoodAt M key t s) :
    GoodAt M key u s := fun x hx => M.meter.good_mono htu (h x hx)

theorem GoodAt.empty {s : ServiceState ℚ Req ω} (h : s.middleware.store.keyCount = 0) (t : ℤ) :
    GoodAt M key t s := by
  intro x hx
  rw [entry, M.get_empty h] at hx
  cases hx

/-- What the meter asks of an entry is kept. -/
theorem GoodAt.step (hkey : S.middleware.bypasses S.keyDigest key = false) {e : ServiceEvent Req}
    {s : ServiceState ℚ Req ω} (h : GoodAt M key e.now s) : GoodAt M key e.now (S.step e s).2 := by
  intro x hx
  rcases entry_cases M.actsOnStore M.keepsEntries hkey e s with ⟨hsame, -⟩ | ⟨hgone, -⟩ |
    ⟨b, hb, hnext, -, -⟩
  · exact h x (hsame ▸ hx)
  · rw [hgone] at hx
    cases hx
  · rw [hnext] at hx
    obtain rfl := Option.some.inj hx
    exact M.meter.good_body hb h

/-- **A meter accounts for what the handler receives.** -/
theorem account (M : Metered S.middleware.algorithm lo hi)
    (hkey : S.middleware.bypasses S.keyDigest key = false) :
    Account S.step ServiceEvent.now (S.receives key) (S.isRestart key) M.burst
      (fun t s => lo ≤ t ∧ GoodAt M key t s) (fun t s => M.reading t (entry M.view key s)) where
  good_mono htu hs := ⟨hs.1.trans htu, hs.2.mono htu⟩
  balance_mono htu hs := M.meter.reading_mono hs.1 htu hs.2
  good_step hs := ⟨hs.1, hs.2.step hkey⟩
  balance_step {e s} hs := by
    have hloss : 0 ≤ M.burst * ((S.isRestart key e s).toNat : ℚ) :=
      mul_nonneg M.burst_nonneg (Nat.cast_nonneg _)
    rcases entry_cases M.actsOnStore M.keepsEntries hkey e s with ⟨hsame, hno, -⟩ |
      ⟨hgone, hno, -⟩ | ⟨b, hb, hnext, -, hreceives⟩
    · rw [hsame, hno]
      simpa using hloss
    · rw [hgone, hno]
      simp only [Bool.toNat_false, Nat.cast_zero, add_zero]
      cases hentry : entry M.view key s with
      | none => simpa using hloss
      | some x =>
        cases hused : M.used e.now x with
        | false =>
          have hfresh := M.meter.reading_unused hs.1 (hs.2 x hentry) hused
          linarith
        | true =>
          have hrestart : S.isRestart key e s = true := by
            simp only [isRestart, M.isUsed_eq]
            simp only [entry] at hentry hgone
            simp [hentry, hgone, hused]
          have hfall := M.meter.reading_used hs.1 (hs.2 x hentry)
          simpa [hrestart] using hfall
    · have hbody := M.meter.reading_body hs.1 hb hs.2
      have hgain : ((S.receives key e s).toNat : ℚ) ≤
          ((b (entry M.view key s)).1.1.toNat : ℚ) := by
        rw [hreceives]
        cases (b (entry M.view key s)).1.1 <;>
          cases decide (S.middleware.algorithm.ReportsAt e.unix) <;> simp
      rw [hnext]
      linarith

/-! ## The law -/

theorem first_le {e : ServiceEvent Req} {evs : List (ServiceEvent Req)}
    (hord : (e :: evs).Pairwise fun e e' => e.now ≤ e'.now) : ∀ i ∈ e :: evs, e.now ≤ i.now := by
  intro i hi
  rcases List.mem_cons.mp hi with rfl | hi
  · exact le_rfl
  · exact (List.pairwise_cons.mp hord).1 i hi

theorem service_allowance (hvalid : S.middleware.algorithm.Valid) {s : ServiceState ℚ Req ω}
    (hempty : s.middleware.store.keyCount = 0)
    (hkey : S.middleware.bypasses S.keyDigest key = false) {before evs : List (ServiceEvent Req)}
    (hord : (before ++ evs).Pairwise fun e e' => e.now ≤ e'.now)
    (hevs : ∀ e ∈ evs, lo ≤ e.now ∧ e.now ≤ hi) :
    (S.receivedUnder key (run S.step s (before ++ evs)) : ℚ) ≤
      S.receivedUnder key (run S.step s before) + S.middleware.algorithm.allowance
        (durationSince hi lo) (S.restarts key (run S.step s before) evs) := by
  have M := S.middleware.algorithm.metered lo hi hvalid
  rw [run_append, ← M.allowance_eq]
  have hgood : ∀ e ∈ evs, GoodAt M key e.now (run S.step s before) := by
    intro e he
    have hbefore := (List.pairwise_append.mp hord).1
    have hcross := (List.pairwise_append.mp hord).2.2
    cases before with
    | nil => exact .empty hempty _
    | cons e' before =>
      exact run_inv_at (GoodAt M key) GoodAt.mono (GoodAt.step hkey) hbefore (first_le hbefore)
        (fun i hi => hcross i hi e he) (hcross e' (by simp) e he) (.empty hempty _)
  have hrest := (List.pairwise_append.mp hord).2.1
  generalize run S.step s before = mid at hgood
  have hgrow : (S.receivedUnder key (run S.step mid evs) : ℚ) ≤
      S.receivedUnder key mid + tally S.step (S.receives key) mid evs := by
    exact_mod_cast run_le_add_tally (S.receivedUnder key)
      (fun e s => (receivedUnder_step key e s).le) mid evs
  cases evs with
  | nil =>
    have hbound := M.bound_nonneg
    simp only [tally, restarts, Nat.cast_zero, mul_zero, add_zero] at hgrow ⊢
    linarith
  | cons e evs =>
    obtain ⟨hlo, hhi⟩ := hevs e (by simp)
    have hhere := hgood e (by simp)
    have haccount := (account M hkey).tally_le hrest (first_le hrest) (fun i hi => (hevs i hi).2)
      hhi ⟨hlo, hhere⟩
    have hstart := M.reading_nonneg hlo hhere
    have hend : GoodAt M key hi (run S.step mid (e :: evs)) :=
      run_inv_at (GoodAt M key) GoodAt.mono (GoodAt.step hkey) hrest (first_le hrest)
        (fun i hi => (hevs i hi).2) hhi hhere
    have hreading := M.reading_le (hlo.trans hhi) hend
    simp only [restarts]
    linarith

end

open RateLimitMiddleware in
/-- Requests are their user, who has the requests of the sample in a minute. -/
def sampleService : Service ℚ (Option String) (ℕ × List (String × String)) Unit Unit where
  middleware := sampleMiddleware (Duration.fromSecs 60)
  framework := sampleFramework
  keyDigest := sampleDigest
  next _ world := (.ok (200, []), world)

def visitAt (seconds : ℕ) : ServiceEvent (Option String) :=
  ⟨⟨Duration.fromSecs seconds, .stored⟩, Duration.fromSecs seconds, .request (some "client")⟩

/-- Two visits, and two more after a reset. -/
def visits : List (ServiceEvent (Option String)) :=
  [visitAt 0, visitAt 10, ⟨⟨Duration.fromSecs 20, .stored⟩, 0, .reset "client"⟩, visitAt 30,
    visitAt 40]

theorem service_allowance_visits :
    (sampleService.receivedUnder "client"
        (run sampleService.step ⟨.new .new, ⟨(), []⟩⟩ ([] ++ visits)) : ℚ) ≤
      sampleService.receivedUnder "client" (run sampleService.step ⟨.new .new, ⟨(), []⟩⟩ []) +
        sampleService.middleware.algorithm.allowance
          (durationSince (Duration.fromSecs 40 : ℕ) (0 : ℤ))
          (sampleService.restarts "client" (run sampleService.step ⟨.new .new, ⟨(), []⟩⟩ [])
            visits) := by
  have hvalid : sampleService.middleware.algorithm.Valid := ⟨by decide, by decide⟩
  refine service_allowance hvalid rfl (by decide +kernel) ?_ ?_
  · simp only [visits, visitAt, List.nil_append, ServiceEvent.now]
    decide
  · simp only [visits, visitAt, ServiceEvent.now]
    decide

/-- One reset in between, and the handler receives a request on either side of it. -/
example : sampleService.restarts "client" ⟨.new .new, ⟨(), []⟩⟩ visits = 1 ∧
    sampleService.receivedUnder "client"
      (run sampleService.step ⟨.new .new, ⟨(), []⟩⟩ visits) = 2 := by
  decide +kernel

end Service

end ArmatureRatelimit
