/-
  The standalone window limiters and the memory store.

  Both keep logs and windows of their own.  Two logs of a key count the same
  from `t` on if they agree after the prune of every later check (`SameLog`),
  which a `remaining` query in between does not change, although it prunes the
  log and inserts an empty one where there is none.
-/
import ArmatureRatelimit.Operations

open Lib

namespace ArmatureRatelimit

/-! ## Logs -/

/-- Popping up to a later cutoff makes up for popping up to an earlier one. -/
theorem pruneLog_pruneLog {c c' : ℤ} (h : c ≤ c') (log : List ℤ) :
    pruneLog c' (pruneLog c log) = pruneLog c' log := by
  unfold pruneLog
  induction log with
  | nil => rfl
  | cons x log ih =>
    by_cases hx : x < c
    · have hx' : x < c' := hx.trans_le h
      simp only [List.dropWhile_cons, hx, hx', decide_true, if_true]
      exact ih
    · simp only [List.dropWhile_cons, hx, decide_false, Bool.false_eq_true, if_false]

/-- No check from `t` on tells the logs apart. -/
def SameLog (window : ℕ) (t : ℤ) (log log' : List ℤ) : Prop :=
  ∀ u, t ≤ u → pruneLog (u - window) log = pruneLog (u - window) log'

theorem SameLog.mono {window : ℕ} {t u : ℤ} {log log' : List ℤ} (htu : t ≤ u)
    (h : SameLog window t log log') : SameLog window u log log' := fun v hv => h v (htu.trans hv)

theorem SameLog.prune {window : ℕ} {t : ℤ} {log log' : List ℤ} (h : SameLog window t log log') :
    SameLog window t (pruneLog (t - window) log) log' := by
  intro u hu
  rw [pruneLog_pruneLog (by omega), h u hu]

namespace SlidingWindowLog

/-- A check of a new key finds room for it. -/
def HasRoom (e : Operation) (limiter : SlidingWindowLog) : Prop :=
  ∀ key, e.op = .check key →
    ¬ (limiter.logs.lookup key = none ∧ limiter.maxKeys ≤ limiter.logs.size)

end SlidingWindowLog

variable {ν : Type} [F64 ν]

/-- The limiter and the store at time `t`. -/
structure SlidingRel (maxRequests window : ℕ) (t : ℤ) (limiter : SlidingWindowLog)
    (s : MemoryStore ν) : Prop where
  maxRequests_eq : limiter.maxRequests = maxRequests
  window_eq : limiter.window = window
  same : ∀ k, SameLog window t ((limiter.logs.lookup k).getD [])
    ((s.slidingLogs.lookup k).getD .empty).log

section
variable {maxRequests window : ℕ} {limiter : SlidingWindowLog} {s : MemoryStore ν}

theorem SlidingRel.check {e : Operation} (h : SlidingRel maxRequests window e.now limiter s)
    {key : String} (hop : e.op = .check key) (hroom : SlidingWindowLog.HasRoom e limiter) :
    (SlidingWindowLog.operate e limiter).1 =
        (MemoryStore.operate (.slidingWindowLog maxRequests window) e s).1 ∧
      SlidingRel maxRequests window e.now (SlidingWindowLog.operate e limiter).2
        (MemoryStore.operate (.slidingWindowLog maxRequests window) e s).2 := by
  obtain ⟨op, now, inserted, sel⟩ := e
  obtain rfl : op = .check key := hop
  obtain ⟨hmax, hwin, hsame⟩ := h
  have hmake := makeRoom_of_not sel SlidingWindowLog.lastActive (hroom key rfl)
  simp only [SlidingWindowLog.operate, SlidingWindowLog.tryAcquire, MemoryStore.operate,
    MemoryStore.checkWith, MemoryStore.backend, MemoryStore.slidingWindowCheck, hwin, hmake]
  cases hc : instantSub now window with
  | none => exact ⟨rfl, hmax, hwin, hsame⟩
  | some cutoff =>
    obtain ⟨-, rfl⟩ := instantSub_some.mp hc
    have heq : recordRequest maxRequests now (pruneLog (now - window)
        ((limiter.logs.lookup key).getD [])) = recordRequest maxRequests now
        (pruneLog (now - window) ((s.slidingLogs.lookup key).getD .empty).log) := by
      rw [hsame key now le_rfl]
    refine ⟨?_, hmax, rfl, ?_⟩
    · simp only [KeyMap.access, SlidingWindowLog.acquire, MemoryStore.slidingWindowBody, hmax, heq]
    · intro k
      simp only [KeyMap.access, KeyMap.lookup_insert_eq_ite]
      split_ifs with hk
      · simp only [Option.getD_some, SlidingWindowLog.acquire, MemoryStore.slidingWindowBody,
          hmax, heq]
        exact fun _ _ => rfl
      · exact hsame k

omit [F64 ν] in
theorem SlidingRel.reset {now : ℤ} (h : SlidingRel maxRequests window now limiter s)
    (key : String) : SlidingRel maxRequests window now (limiter.reset key) (s.reset key) := by
  refine ⟨h.maxRequests_eq, h.window_eq, ?_⟩
  intro k
  show SameLog window now (((limiter.logs.erase key).lookup k).getD [])
    (((s.slidingLogs.erase key).lookup k).getD .empty).log
  rw [KeyMap.lookup_erase_eq_ite, KeyMap.lookup_erase_eq_ite]
  split_ifs
  · exact fun _ _ => rfl
  · exact h.same k

omit [F64 ν] in
/-- A query prunes the log of its key. -/
theorem SlidingRel.remaining {now : ℤ} (h : SlidingRel maxRequests window now limiter s)
    (key : String) : SlidingRel maxRequests window now (limiter.remaining key now).2 s := by
  obtain ⟨hmax, hwin, hsame⟩ := h
  simp only [SlidingWindowLog.remaining, SlidingWindowLog.cleanAndCount, hwin]
  cases hc : instantSub now window with
  | none => exact ⟨hmax, hwin, hsame⟩
  | some cutoff =>
    obtain ⟨-, rfl⟩ := instantSub_some.mp hc
    refine ⟨hmax, rfl, ?_⟩
    intro k
    simp only [KeyMap.access, KeyMap.lookup_insert_eq_ite]
    split_ifs with hk
    · subst hk
      exact (hsame k).prune
    · exact hsame k

end

theorem slidingWindow_sim (maxRequests window : ℕ) :
    Sim SlidingWindowLog.operate
      (MemoryStore.operate (.slidingWindowLog maxRequests window : Algorithm ν))
      (fun e => !e.isRemaining) Operation.now SlidingWindowLog.HasRoom
      (SlidingRel maxRequests window) where
  mono htu h := ⟨h.maxRequests_eq, h.window_eq, fun k => (h.same k).mono htu⟩
  visible_step {e limiter s} hv hroom h := by
    obtain ⟨op, now, inserted, sel⟩ := e
    cases op with
    | check key => exact h.check rfl hroom
    | reset key => exact ⟨rfl, h.reset key⟩
    | remaining key => cases hv
  silent_step {e limiter s} hv _ h := by
    obtain ⟨op, now, inserted, sel⟩ := e
    cases op with
    | check key => cases hv
    | reset key => cases hv
    | remaining key => exact h.remaining key

/-! ## Windows -/

namespace FixedWindow

/-- A check of a new key finds room for it. -/
def HasRoom (e : Operation) (limiter : FixedWindow) : Prop :=
  ∀ key, e.op = .check key →
    ¬ (limiter.windows.lookup key = none ∧ limiter.maxKeys ≤ limiter.windows.size)

end FixedWindow

/-- The limiter and the store hold the same windows. -/
structure FixedRel (maxRequests window : ℕ) (limiter : FixedWindow) (s : MemoryStore ν) :
    Prop where
  maxRequests_eq : limiter.maxRequests = maxRequests
  window_eq : limiter.window = window
  same : ∀ k, limiter.windows.lookup k = (s.fixedWindows.lookup k).map (·.toWindowState)

theorem fixedWindow_sim (maxRequests window : ℕ) :
    Sim FixedWindow.operate (MemoryStore.operate (.fixedWindow maxRequests window : Algorithm ν))
      (fun e => !e.isRemaining) Operation.now FixedWindow.HasRoom
      (fun _ => FixedRel maxRequests window) where
  mono _ h := h
  visible_step {e limiter s} hv hroom h := by
    obtain ⟨op, now, inserted, sel⟩ := e
    obtain ⟨hmax, hwin, hsame⟩ := h
    cases op with
    | check key =>
      have hmake := makeRoom_of_not sel FixedWindow.lastActive (hroom key rfl)
      simp only [FixedWindow.operate, FixedWindow.tryAcquire, MemoryStore.operate,
        MemoryStore.checkWith, MemoryStore.backend, MemoryStore.fixedWindowCheck, hmake]
      refine ⟨?_, hmax, hwin, ?_⟩
      · simp only [KeyMap.access, MemoryStore.fixedWindowBody, hmax, hwin, hsame key]
      · intro k
        simp only [KeyMap.access, KeyMap.lookup_insert_eq_ite]
        split_ifs with hk
        · simp only [MemoryStore.fixedWindowBody, Option.map_some, hmax, hwin, hsame key]
        · exact hsame k
    | reset key =>
      refine ⟨rfl, hmax, hwin, ?_⟩
      intro k
      show (limiter.windows.erase key).lookup k =
        ((s.fixedWindows.erase key).lookup k).map (·.toWindowState)
      rw [KeyMap.lookup_erase_eq_ite, KeyMap.lookup_erase_eq_ite]
      split_ifs
      · rfl
      · exact hsame k
    | remaining key => cases hv
  silent_step {e limiter s} hv _ h := by
    obtain ⟨op, now, inserted, sel⟩ := e
    cases op with
    | check key => cases hv
    | reset key => cases hv
    | remaining key => exact h

/-! ## Runs -/

theorem InTurn.first_le {e : Operation} {ops : List Operation} (h : InTurn (e :: ops)) :
    ∀ i ∈ e :: ops, e.now ≤ i.now := by
  intro i hi
  rcases List.mem_cons.mp hi with rfl | hi
  · exact le_rfl
  · exact (List.pairwise_cons.mp h).1 i hi

/-- **The standalone window limiters match the memory store.**  As long as no
    check of a new key meets a full map, a run of operations on a new limiter
    gives the decisions of the store, to which no `remaining` query is sent. -/
theorem standalone_matches_store (maxRequests window maxKeys : ℕ) {s : MemoryStore ν}
    (hlogs : s.slidingLogs = ∅) (hwindows : s.fixedWindows = ∅) {ops : List Operation}
    (hord : InTurn ops) :
    (∀ limiter, SlidingWindowLog.new maxRequests window = some limiter →
      Allowed SlidingWindowLog.operate SlidingWindowLog.HasRoom (limiter.withMaxKeys maxKeys) ops →
      trace SlidingWindowLog.operate (fun e => !e.isRemaining) (limiter.withMaxKeys maxKeys) ops =
        outputs (MemoryStore.operate (.slidingWindowLog maxRequests window)) s
          (ops.filter fun e => !e.isRemaining)) ∧
    (∀ limiter, FixedWindow.new maxRequests window = some limiter →
      Allowed FixedWindow.operate FixedWindow.HasRoom (limiter.withMaxKeys maxKeys) ops →
      trace FixedWindow.operate (fun e => !e.isRemaining) (limiter.withMaxKeys maxKeys) ops =
        outputs (MemoryStore.operate (.fixedWindow maxRequests window)) s
          (ops.filter fun e => !e.isRemaining)) := by
  have hvisible : ∀ {σ : Type} (step : Operation → σ → OpReply × σ) (s : σ),
      trace step (fun e => !e.isRemaining) s (ops.filter fun e => !e.isRemaining) =
        outputs step s (ops.filter fun e => !e.isRemaining) := fun step s =>
    trace_congr fun e he => (List.mem_filter.mp he).2
  cases ops with
  | nil => exact ⟨fun _ _ _ => rfl, fun _ _ _ => rfl⟩
  | cons e ops =>
    constructor
    · intro limiter hnew hroom
      unfold SlidingWindowLog.new at hnew
      split_ifs at hnew
      obtain rfl := Option.some.inj hnew
      rw [← hvisible]
      refine (slidingWindow_sim maxRequests window).trace_eq hroom hord hord.first_le ⟨rfl, rfl, ?_⟩
      intro k
      rw [hlogs]
      exact fun _ _ => rfl
    · intro limiter hnew hroom
      unfold FixedWindow.new at hnew
      split_ifs at hnew
      obtain rfl := Option.some.inj hnew
      rw [← hvisible]
      refine (fixedWindow_sim maxRequests window).trace_eq (t := e.now) hroom hord hord.first_le
        ⟨rfl, rfl, ?_⟩
      intro k
      rw [hwindows]
      rfl

/-- Two checks of a client and a query between them, at a limit of one in ten
    seconds. -/
def queried : List Operation :=
  [⟨.check "client", 0, 0, .sorting⟩, ⟨.remaining "client", 5000000000, 0, .sorting⟩,
    ⟨.check "client", 9000000000, 0, .sorting⟩]

theorem standalone_matches_store_queried :
    (trace SlidingWindowLog.operate (fun e => !e.isRemaining)
        (SlidingWindowLog.withMaxKeys ⟨1, 10000000000, ∅, defaultMaxKeys⟩ 1) queried =
      outputs (MemoryStore.operate (.slidingWindowLog 1 10000000000)) (.new : MemoryStore ℚ)
        (queried.filter fun e => !e.isRemaining)) ∧
    trace FixedWindow.operate (fun e => !e.isRemaining)
        (FixedWindow.withMaxKeys ⟨1, 10000000000, ∅, defaultMaxKeys⟩ 1) queried =
      outputs (MemoryStore.operate (.fixedWindow 1 10000000000)) (.new : MemoryStore ℚ)
        (queried.filter fun e => !e.isRemaining) := by
  have hord : InTurn queried := by simp [InTurn, queried]
  obtain ⟨hsliding, hfixed⟩ := standalone_matches_store 1 10000000000 1
    (s := (.new : MemoryStore ℚ)) rfl rfl hord
  refine ⟨hsliding _ rfl ⟨?_, ?_, ?_, trivial⟩, hfixed _ rfl ⟨?_, ?_, ?_, trivial⟩⟩
  all_goals rintro key ⟨⟩
  all_goals decide

end ArmatureRatelimit
