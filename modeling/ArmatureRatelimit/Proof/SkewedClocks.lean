/-
  The sliding window of the Redis store under skewed clocks (`stores/redis.rs`).

  An instance stamps a request by its own clock, so the stamps of a fleet need
  not come in order, and a clock that runs ahead prunes too early.  With clocks
  within `skew` of the server's no stamp is pruned before its time less twice the
  skew, so the limit holds for every stretch of the server's clock that is
  shorter than the window by that much (`redisWindow_skewed`).
-/
import ArmatureRatelimit.Proof.TenantFleet
import ArmatureRatelimit.Proof.WindowTrace
import ArmatureRatelimit.Lib.Counting

open Lib Lib.Redis

namespace ArmatureRatelimit

open RedisStore

/-! ## Fleets -/

/-- A fleet whose tenant is checked by a sliding window. -/
structure WindowFleet (ν : Type) extends TenantFleet ν where
  maxRequests : ℕ
  window : ℕ
  isWindow : algorithm = .slidingWindowLog maxRequests window

namespace WindowFleet

variable {ν : Type} [F64 ν]

section
variable (F : WindowFleet ν)

def keys : WindowKeys := windowKeys ⟨F.keyPrefix, 0⟩ F.digest

end

/-! ### The trace -/

open TenantFleet

variable {F : WindowFleet ν}

theorem check_cases (F : WindowFleet ν) (n : ℕ) (env : RedisEnv)
    (hq : F.requestAt n = some env) :
    (stateAt F.step F.start F.calls (n + 1) = stateAt F.step F.start F.calls n ∧
      F.admits n = false) ∨
    (stateAt F.step F.start F.calls (n + 1) =
        (sentScript F.keys F.maxRequests F.window env (stateAt F.step F.start F.calls n)).2 ∧
      (F.admits n = true → 0 ≤ env.unix ∧ Granted
        (sentScript F.keys F.maxRequests F.window env (stateAt F.step F.start F.calls n)).1)) := by
  obtain ⟨timeout, key, hkey, hstate, hadmits⟩ := F.step_request hq
  rw [hstate, hadmits, F.isWindow]
  have hcases := slidingWindowCheck_executes ⟨F.keyPrefix, timeout⟩ (keyDigest F.sha256) env key
    F.maxRequests F.window (stateAt F.step F.start F.calls n)
  rw [hkey] at hcases
  exact hcases

/-- Another call leaves the keys of the stamps and of the counter as they are. -/
theorem other_keeps (F : WindowFleet ν) (n : ℕ) (hn : F.requestAt n = none) :
    F.admits n = false ∧
      (stateAt F.step F.start F.calls (n + 1)).lookup F.keys.key =
        (stateAt F.step F.start F.calls n).lookup F.keys.key ∧
      (stateAt F.step F.start F.calls (n + 1)).lookup F.keys.seqkey =
        (stateAt F.step F.start F.calls n).lookup F.keys.seqkey := by
  refine ⟨?_, F.other_leaves hn (r := .sw) ?_ _, F.other_leaves hn (r := .swseq) ?_ _⟩
  · rw [admits, hn]
    rfl
  · rw [F.isWindow]
    exact .inl rfl
  · rw [F.isWindow]
    exact .inr rfl

omit [F64 ν] in
theorem missing_key (F : WindowFleet ν) : F.start.lookup F.keys.key = none :=
  F.missing .sw (by rw [F.isWindow]; exact .inl rfl)

omit [F64 ν] in
theorem missing_seq (F : WindowFleet ν) : F.start.lookup F.keys.seqkey = none :=
  F.missing .swseq (by rw [F.isWindow]; exact .inr rfl)

/-- The calls of a fleet as a trace of the tenant's keys. -/
def trace (F : WindowFleet ν) : WindowTrace ν where
  keys := F.keys
  maxRequests := F.maxRequests
  window := F.window
  state := stateAt F.step F.start F.calls
  request := F.requestAt
  admits := F.admits
  fresh_key := F.missing_key
  fresh_seq := F.missing_seq
  check := F.check_cases
  other := F.other_keeps
  inOrder _ _ _ _ := server_mono

theorem deadlineAt_eq {n : ℕ} {env : RedisEnv} (hq : F.requestAt n = some env) :
    F.trace.deadlineAt n = env.server + 1000 * slidingTtl (Duration.asSecs F.window) :=
  WindowTrace.deadlineAt_eq (T := F.trace) hq

/-! ### The limit -/

variable {skew : ℕ}

/-- **A check that comes before the window, less twice the skew, is over keeps
    the stamp.** -/
theorem keeps_of_span (hskew : F.Skewed skew) (hwindow : Duration.asMillis F.window ≤ 2 ^ 63 - 1)
    (hslack : 2 * skew < Duration.asMillis F.window) {i j k : ℕ} (hexact : F.ExactTo i)
    (hi : F.admits i = true) (hj : F.admits j = true) (hjk : j ≤ k) (hki : k ≤ i)
    {env : RedisEnv} (hq : F.requestAt k = some env)
    (hspan : F.serverAt i + 2 * skew < F.serverAt j + Duration.asMillis F.window) :
    F.trace.Keeps env j := by
  obtain ⟨envi, hqi⟩ := requestAt_of_admits hi
  obtain ⟨envj, hqj⟩ := requestAt_of_admits hj
  have hrj := (hexact j (hjk.trans hki) envj hqj).1
  have hrk := (hexact k hki env hq).1
  have hneari := abs_le.mp (hskew.millis hqi)
  have hnearj := abs_le.mp (hskew.millis hqj)
  have hneark := abs_le.mp (hskew.millis hq)
  have hserver := server_mono hki hq hqi
  have hwin := Duration.asMillis_lt F.window
  have hvalid := (WindowTrace.admits_count (T := F.trace)
    (fun l hl m hm => hexact m (hm.trans hl.le)) hqi hi).2.1
  rw [deadlineAt_eq hqi, int64Max] at hvalid
  rw [serverAt_eq hqi, serverAt_eq hqj] at hspan
  rw [WindowTrace.Keeps, deadlineAt_eq hqj, WindowTrace.stampAt_eq (T := F.trace) hqj,
    sentStamp_exact hrj, sentStamp_eq hrj, sentStamp_eq hrk]
  have hsecs := slidingTtl_ge (Int.natCast_nonneg (Duration.asSecs F.window)) (by omega)
  have hcutoff : (Duration.asMillis env.unix.toNat : ℤ) <
      Duration.asMillis envj.unix.toNat + Duration.asMillis F.window := by omega
  have hdeadline : env.server ≤
      envj.server + 1000 * slidingTtl (Duration.asSecs F.window) := by omega
  have hasI64 : asI64 (Duration.asMillis F.trace.window) = Duration.asMillis F.window :=
    asI64_of_lt (n := Duration.asMillis F.window) (by omega)
  rw [hasI64]
  exact ⟨hdeadline, luaInt_lt hrj (sub_lt_iff_lt_add.mpr hcutoff)⟩

/-- Admitted requests whose executions span less than the window less twice the
    skew keep to the limit. -/
theorem card_le (hskew : F.Skewed skew) (hwindow : Duration.asMillis F.window ≤ 2 ^ 63 - 1)
    (hslack : 2 * skew < Duration.asMillis F.window) {S : Finset ℕ}
    (hS : ∀ n ∈ S, F.admits n = true) (hexact : ∀ n ∈ S, F.ExactTo n)
    (hspan : ∀ m ∈ S, ∀ n ∈ S,
      F.serverAt n < F.serverAt m + (Duration.asMillis F.window - 2 * skew : ℕ)) :
    S.card ≤ F.maxRequests := by
  refine WindowTrace.card_le (T := F.trace) hS hexact ?_
  intro i hi j hj _ k env hjk hki hq
  refine keeps_of_span hskew hwindow hslack (hexact i hi) (hS i hi) (hS j hj) hjk.le hki hq ?_
  have hlt := hspan j hj i hi
  push_cast [hslack.le] at hlt
  omega

/-- Two instances take turns every ten seconds, one of them 300 ms fast and the
    other one 300 ms slow. -/
def twoClocks : WindowFleet ℚ where
  toTenantFleet := turns (.slidingWindowLog 2 (Duration.fromSecs 60)) 10000
    fun n => if n % 2 = 0 then 1300 else 700
  maxRequests := 2
  window := Duration.fromSecs 60
  isWindow := rfl

theorem twoClocks_skewed : twoClocks.Skewed 300 := by
  refine turns_skewed fun n => ?_
  split_ifs <;> decide

end WindowFleet

end ArmatureRatelimit
