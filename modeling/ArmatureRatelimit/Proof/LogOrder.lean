/-
  Sliding logs under concurrent callers (`stores/memory.rs`,
  `algorithms/sliding_window.rs`).

  A call reads the clock before it gets the lock, while a log is pruned at the
  front only and its back is taken for the newest stamp.  Both are right of a
  log in order (`logInOrder_iff`).  The logs stay in order exactly as long as no
  call appends a reading to later stamps (`slidingLogs_inOrder_iff`), as it is
  when the calls of a key get the lock in the order of their readings
  (`locksMeet_of_inTurn`).
-/
import ArmatureRatelimit.Stores.Memory
import ArmatureRatelimit.Lib.Sampled

open Lib

namespace ArmatureRatelimit

/-! ## One log -/

/-- Pruning leaves nothing from before a cutoff, and the back is the newest
    stamp. -/
structure LogInOrder (log : List ℤ) : Prop where
  sorted : log.Pairwise (· ≤ ·)
  pruned : ∀ cutoff, ∀ x ∈ pruneLog cutoff log, cutoff ≤ x
  newest : ∀ last, log.getLast? = some last → ∀ x ∈ log, x ≤ last

theorem logInOrder_iff {log : List ℤ} : LogInOrder log ↔ log.Pairwise (· ≤ ·) := by
  refine ⟨LogInOrder.sorted, fun h => ⟨h, ?_, ?_⟩⟩
  · intro cutoff x hx
    rw [pruneLog_eq_filter h, List.mem_filter] at hx
    exact of_decide_eq_true hx.2
  · intro last hlast x hx
    obtain ⟨front, rfl⟩ := List.getLast?_eq_some_iff.mp hlast
    rcases List.mem_append.mp hx with hx | hx
    · exact (List.pairwise_append.mp h).2.2 x hx last (by simp)
    · exact (List.mem_singleton.mp hx).le

/-- There is no room in the log, or nothing later than the reading. -/
def AppendsLast (maxRequests : ℕ) (now : ℤ) (log : List ℤ) : Prop :=
  log.length < maxRequests → ∀ x ∈ log, x ≤ now

theorem recordRequest_inOrder_iff {maxRequests : ℕ} {now cutoff : ℤ} {log : List ℤ}
    (h : LogInOrder log) :
    LogInOrder (recordRequest maxRequests now (pruneLog cutoff log)).2 ↔
      AppendsLast maxRequests now (pruneLog cutoff log) := by
  have hsorted : (pruneLog cutoff log).Pairwise (· ≤ ·) :=
    h.sorted.sublist (List.dropWhile_sublist _)
  generalize pruneLog cutoff log = pruned at hsorted
  unfold recordRequest AppendsLast
  rw [logInOrder_iff]
  by_cases hroom : pruned.length < maxRequests
  · simp only [if_pos hroom, List.pairwise_append, hsorted, List.pairwise_singleton, true_and,
      List.mem_singleton, forall_eq]
    exact ⟨fun hle _ => hle, fun hle => hle hroom⟩
  · simp only [if_neg hroom]
    exact iff_of_true hsorted fun hlt => absurd hlt hroom

theorem mem_recordRequest {maxRequests : ℕ} {now cutoff x : ℤ} {log : List ℤ}
    (h : x ∈ (recordRequest maxRequests now (pruneLog cutoff log)).2) : x ∈ log ∨ x = now := by
  have hsub : pruneLog cutoff log ⊆ log := (List.dropWhile_sublist _).subset
  unfold recordRequest at h
  simp only at h
  split_ifs at h
  · rcases List.mem_append.mp h with h | h
    · exact .inl (hsub h)
    · exact .inr (List.mem_singleton.mp h)
  · exact .inl (hsub h)

/-! ## Calls -/

/-- All logs of a map are in order. -/
def LogsInOrder {β : Type} (logOf : β → List ℤ) (m : KeyMap String β) : Prop :=
  ∀ key x, m.lookup key = some x → LogInOrder (logOf x)

/-- A call of `sliding_window_check`. -/
structure WindowCheck where
  key : String
  maxRequests : ℕ
  window : ℕ

/-- A call of `try_acquire`, with the behaviour of an eviction that it may
    cause. -/
structure WindowAcquire where
  key : String
  sel : Selection

section
variable {ν : Type}

/-- The locked body of a call of the store, with the caller's reading. -/
def windowCheckCall (c : WindowCheck × ℤ) (s : MemoryStore ν) :
    Outcome (Bool × ℕ) × MemoryStore ν :=
  s.slidingWindowCheck c.1.key c.1.maxRequests c.1.window c.2

/-- The call appends to what it counts of its log at the back. -/
def CheckAppendsLast (c : WindowCheck × ℤ) (s : MemoryStore ν) : Prop :=
  ∀ cutoff, instantSub c.2 c.1.window = some cutoff →
    AppendsLast c.1.maxRequests c.2
      (pruneLog cutoff ((s.slidingLogs.lookup c.1.key).getD .empty).log)

/-- The locked body of a call of the limiter. -/
def windowAcquireCall (c : WindowAcquire × ℤ) (self : SlidingWindowLog) :
    Outcome (Bool × ℕ) × SlidingWindowLog :=
  self.tryAcquire c.1.sel c.1.key c.2

def AcquireAppendsLast (c : WindowAcquire × ℤ) (self : SlidingWindowLog) : Prop :=
  ∀ cutoff, instantSub c.2 self.window = some cutoff →
    AppendsLast self.maxRequests c.2 (pruneLog cutoff ((self.logs.lookup c.1.key).getD []))

/-- **The step of the store.** -/
theorem windowCheckCall_inOrder_iff (c : WindowCheck × ℤ) {s : MemoryStore ν}
    (h : LogsInOrder (·.log) s.slidingLogs) :
    LogsInOrder (·.log) (windowCheckCall c s).2.slidingLogs ↔ CheckAppendsLast c s := by
  unfold windowCheckCall CheckAppendsLast
  rcases s.slidingWindowCheck_cases c.1.key c.1.maxRequests c.1.window c.2 with
    ⟨hcutoff, heq⟩ | ⟨cutoff, hcutoff, heq⟩
  · rw [heq, hcutoff]
    exact iff_of_true h nofun
  · rw [heq, hcutoff]
    have hlog : LogInOrder ((s.slidingLogs.lookup c.1.key).getD .empty).log := by
      cases hkey : s.slidingLogs.lookup c.1.key with
      | none => exact logInOrder_iff.mpr List.Pairwise.nil
      | some x => exact h c.1.key x hkey
    refine (KeyMap.forall_access_iff h _ _).trans ((recordRequest_inOrder_iff hlog).trans ?_)
    simp only [Option.some.injEq, forall_eq']

/-- **The step of the limiter.**  An eviction takes whole logs away, none of them
    of the key. -/
theorem windowAcquireCall_inOrder_iff (c : WindowAcquire × ℤ) {self : SlidingWindowLog}
    (h : LogsInOrder id self.logs) :
    LogsInOrder id (windowAcquireCall c self).2.logs ↔ AcquireAppendsLast c self := by
  unfold windowAcquireCall AcquireAppendsLast
  rcases self.tryAcquire_cases c.1.sel c.1.key c.2 with ⟨hcutoff, heq⟩ | ⟨cutoff, hcutoff, heq⟩
  · rw [heq, hcutoff]
    exact iff_of_true h nofun
  · rw [heq, hcutoff]
    have hlog : LogInOrder ((self.logs.lookup c.1.key).getD []) := by
      cases hkey : self.logs.lookup c.1.key with
      | none => exact logInOrder_iff.mpr List.Pairwise.nil
      | some x => exact h c.1.key x hkey
    have hroom : LogsInOrder id (makeRoom c.1.sel SlidingWindowLog.lastActive self.maxKeys c.1.key
        self.logs) := fun _ _ => makeRoom_forall c.1.sel SlidingWindowLog.lastActive h
    refine (KeyMap.forall_access_iff hroom _ _).trans ?_
    rw [makeRoom_lookup_self]
    refine (recordRequest_inOrder_iff hlog).trans ?_
    simp only [Option.some.injEq, forall_eq']

/-- **When the logs stay in order.**  In an interleaving of calls, from a store or
    a limiter without logs, every log is in order in every state reached exactly
    if no call that finds room counts a stamp later than its own reading. -/
theorem slidingLogs_inOrder_iff (clock : ℤ) :
    (∀ (s : MemoryStore ν) (acts : List (SampledAct WindowCheck)),
      (∀ reached, reached <+: acts → LogsInOrder (·.log) (interleave windowCheckCall clock
          { s with slidingLogs := ∅ } reached).shared.slidingLogs) ↔
        LocksMeet windowCheckCall CheckAppendsLast clock { s with slidingLogs := ∅ } acts) ∧
    ∀ (limiter : SlidingWindowLog) (acts : List (SampledAct WindowAcquire)),
      (∀ reached, reached <+: acts → LogsInOrder id (interleave windowAcquireCall clock
          { limiter with logs := ∅ } reached).shared.logs) ↔
        LocksMeet windowAcquireCall AcquireAppendsLast clock { limiter with logs := ∅ } acts := by
  constructor
  · intro s acts
    refine interleave_inv_iff (P := fun s : MemoryStore ν => LogsInOrder (·.log) s.slidingLogs)
      ?_ fun c s h => windowCheckCall_inOrder_iff c h
    intro key x hx
    cases hx
  · intro limiter acts
    refine interleave_inv_iff (P := fun l : SlidingWindowLog => LogsInOrder id l.logs)
      ?_ fun c l h => windowAcquireCall_inOrder_iff c h
    intro key x hx
    cases hx

end

/-! ## Calls in turn -/

/-- Calls of one key come in the order of their readings. -/
def InTurnOn {κ : Type} (keyOf : κ → String) (c c' : κ × ℤ) : Prop :=
  keyOf c.1 = keyOf c'.1 → c.2 ≤ c'.2

/-- The stamps of a log are readings of calls of its key. -/
def LoggedBy {κ β : Type} (keyOf : κ → String) (logOf : β → List ℤ) (calls : List (κ × ℤ))
    (m : KeyMap String β) : Prop :=
  ∀ key x, m.lookup key = some x → ∀ t ∈ logOf x, ∃ c ∈ calls, keyOf c.1 = key ∧ c.2 = t

section
variable {κ β ω : Type} {keyOf : κ → String} {logOf : β → List ℤ} {calls : List (κ × ℤ)}
  {m : KeyMap String β}

theorem LoggedBy.append (h : LoggedBy keyOf logOf calls m) (call : κ × ℤ) :
    LoggedBy keyOf logOf (calls ++ [call]) m := by
  intro key x hx t ht
  obtain ⟨c, hc, hkey, hnow⟩ := h key x hx t ht
  exact ⟨c, by simp [hc], hkey, hnow⟩

/-- An access by a body that adds nothing but the reading to the log. -/
theorem LoggedBy.access (h : LoggedBy keyOf logOf calls m) (call : κ × ℤ)
    {body : Option β → ω × β}
    (hbody : ∀ e, ∀ t ∈ logOf (body e).2, (∃ x, e = some x ∧ t ∈ logOf x) ∨ t = call.2) :
    LoggedBy keyOf logOf (calls ++ [call]) (m.access body (keyOf call.1)).2 := by
  intro key x hx t ht
  by_cases hkey : key = keyOf call.1
  · subst hkey
    rw [KeyMap.access_lookup_self] at hx
    obtain rfl := Option.some.inj hx
    rcases hbody _ t ht with ⟨x', hx', ht'⟩ | rfl
    · exact h.append call _ x' hx' t ht'
    · exact ⟨call, by simp, rfl, rfl⟩
  · rw [KeyMap.access_lookup_ne body hkey] at hx
    exact h.append call key x hx t ht

/-- Calls in turn append to what they count. -/
theorem LoggedBy.le_of_inTurn (h : LoggedBy keyOf logOf calls m) {call : κ × ℤ}
    (hturn : ∀ c ∈ calls, InTurnOn keyOf c call) {x : β}
    (hx : m.lookup (keyOf call.1) = some x) : ∀ t ∈ logOf x, t ≤ call.2 := by
  intro t ht
  obtain ⟨c, hc, hkey, rfl⟩ := h _ x hx t ht
  exact hturn c hc hkey

end

theorem appendsLast_pruneLog {maxRequests : ℕ} {now : ℤ} {log : List ℤ} (h : ∀ x ∈ log, x ≤ now)
    (cutoff : ℤ) : AppendsLast maxRequests now (pruneLog cutoff log) :=
  fun _ x hx => h x ((List.dropWhile_sublist _).subset hx)

/-- **Calls in turn.**  If the calls of each key get the lock in the order of
    their readings, all of them append to what they count. -/
theorem locksMeet_of_inTurn {ν : Type} (clock : ℤ) :
    (∀ (s : MemoryStore ν) (acts : List (SampledAct WindowCheck)),
      ((interleave windowCheckCall clock { s with slidingLogs := ∅ } acts).executed.map
        Prod.fst).Pairwise (InTurnOn (·.key)) →
      LocksMeet windowCheckCall CheckAppendsLast clock { s with slidingLogs := ∅ } acts) ∧
    ∀ (limiter : SlidingWindowLog) (acts : List (SampledAct WindowAcquire)),
      ((interleave windowAcquireCall clock { limiter with logs := ∅ } acts).executed.map
        Prod.fst).Pairwise (InTurnOn (·.key)) →
      LocksMeet windowAcquireCall AcquireAppendsLast clock { limiter with logs := ∅ } acts := by
  constructor
  · intro s acts
    refine locksMeet_of_pairwise
      (Q := fun calls s => LoggedBy (·.key) (·.log) calls s.slidingLogs) ?_ ?_ ?_
    · intro key x hx
      cases hx
    · intro calls call s h
      unfold windowCheckCall
      rcases s.slidingWindowCheck_cases call.1.key call.1.maxRequests call.1.window call.2 with
        ⟨-, heq⟩ | ⟨cutoff, -, heq⟩
      · rw [heq]
        exact h.append call
      · rw [heq]
        refine h.access call fun e t ht => ?_
        cases e with
        | none => exact (mem_recordRequest ht).imp_left fun hnil => absurd hnil List.not_mem_nil
        | some x => exact (mem_recordRequest ht).imp_left fun hx => ⟨x, rfl, hx⟩
    · intro calls call s h hturn cutoff _
      refine appendsLast_pruneLog ?_ cutoff
      cases hkey : s.slidingLogs.lookup call.1.key with
      | none => exact fun x hx => absurd hx List.not_mem_nil
      | some x => exact h.le_of_inTurn hturn hkey
  · intro limiter acts
    refine locksMeet_of_pairwise
      (Q := fun calls (l : SlidingWindowLog) => LoggedBy (·.key) id calls l.logs) ?_ ?_ ?_
    · intro key x hx
      cases hx
    · intro calls call self h
      unfold windowAcquireCall
      rcases self.tryAcquire_cases call.1.sel call.1.key call.2 with ⟨-, heq⟩ | ⟨cutoff, -, heq⟩
      · rw [heq]
        exact h.append call
      · rw [heq]
        have hroom : LoggedBy (·.key) id calls (makeRoom call.1.sel SlidingWindowLog.lastActive
            self.maxKeys call.1.key self.logs) := fun key x hx =>
          h key x (of_kept_or_gone (makeRoom_lookup _ _ _ _ key _) hx)
        refine hroom.access call fun e t ht => ?_
        cases e with
        | none => exact (mem_recordRequest ht).imp_left fun hnil => absurd hnil List.not_mem_nil
        | some x => exact (mem_recordRequest ht).imp_left fun hx => ⟨x, rfl, hx⟩
    · intro calls call self h hturn cutoff _
      refine appendsLast_pruneLog ?_ cutoff
      cases hkey : self.logs.lookup call.1.key with
      | none => exact fun x hx => absurd hx List.not_mem_nil
      | some x => exact h.le_of_inTurn hturn hkey

/-! ## Callers out of turn -/

/-- A caller that reads the clock first and gets the lock last. -/
def overtaken {κ : Type} (c : κ) : List (SampledAct κ) :=
  [.sample c, .tick 1000000000, .sample c, .lock 1, .lock 0]

/-- The store and the limiter after two requests of one client. -/
def overtakenStore : MemoryStore ℚ :=
  (interleave windowCheckCall 0 .new (overtaken ⟨"client", 2, 10000000000⟩)).shared

def overtakenLimiter : SlidingWindowLog :=
  (interleave windowAcquireCall 0 ⟨2, 10000000000, ∅, defaultMaxKeys⟩
    (overtaken ⟨"client", .sorting⟩)).shared

/-- Both leave a log out of order: a cutoff between the two stamps prunes neither,
    and the back is the older one. -/
theorem slidingLogs_outOfOrder :
    overtakenStore.slidingLogs.lookup "client" = some ⟨[1000000000, 0], 2, 10000000000⟩ ∧
      overtakenLimiter.logs.lookup "client" = some [1000000000, 0] ∧
      ¬ LogsInOrder (·.log) overtakenStore.slidingLogs ∧ ¬ LogsInOrder id overtakenLimiter.logs ∧
      pruneLog 500000000 [1000000000, 0] = [1000000000, 0] := by
  have hstore : overtakenStore.slidingLogs.lookup "client" =
      some ⟨[1000000000, 0], 2, 10000000000⟩ := by decide
  have hlimiter : overtakenLimiter.logs.lookup "client" = some [1000000000, 0] := by decide
  refine ⟨hstore, hlimiter, fun h => ?_, fun h => ?_, by decide⟩
  · exact absurd (h "client" _ hstore).sorted (by decide)
  · exact absurd (h "client" _ hlimiter).sorted (by decide)

end ArmatureRatelimit
