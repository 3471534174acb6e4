/-
  Calls in two atomic steps: a call first reads the clock and later, under a
  lock, runs its body on the shared state with that reading.

  The clock never goes back, but the steps of different calls interleave in any
  order, so bodies may run with readings that are out of order.
  `interleave_sequential`: whatever the interleaving, the shared state and the
  replies are those of the bodies run one after the other in the order of their
  locks.  `interleave_inv_iff`: an invariant of the shared state that a body
  keeps under a condition, and only then, holds in every state reached exactly
  if every call meets the condition when it gets the lock.

  `lockedAt` is the call that gets the lock at a step, which it does no earlier
  than its reading (`reading_le_clock`) and, in an interleaving that
  `LocksWithin` a delay, not much later either.
-/
import ArmatureRatelimit.Lib.Runs

namespace Lib

variable {κ ω σ : Type}

/-- The clock moves on, a call (`c`) reads it, or the call that has waited at
    position `i` gets the lock. -/
inductive SampledAct (κ : Type)
  | tick (d : ℕ)
  | sample (c : κ)
  | lock (i : ℕ)

structure SampledState (κ ω σ : Type) where
  clock : ℤ
  /-- calls that have read the clock and not got the lock yet -/
  waiting : List (κ × ℤ)
  shared : σ
  /-- the bodies that ran, in the order of their locks -/
  executed : List ((κ × ℤ) × ω)

section
variable (body : κ × ℤ → σ → ω × σ)

def SampledState.act (st : SampledState κ ω σ) : SampledAct κ → SampledState κ ω σ
  | .tick d => { st with clock := st.clock + d }
  | .sample c => { st with waiting := st.waiting ++ [(c, st.clock)] }
  | .lock i =>
    match st.waiting[i]? with
    | none => st
    | some call =>
      { st with
        waiting := st.waiting.eraseIdx i
        shared := (body call st.shared).2
        executed := st.executed ++ [(call, (body call st.shared).1)] }

/-- The state after an interleaving, from a clock and a shared state. -/
def interleave (clock : ℤ) (s : σ) (acts : List (SampledAct κ)) : SampledState κ ω σ :=
  acts.foldl (SampledState.act body) ⟨clock, [], s, []⟩

/-- Every call of an interleaving gets the lock in a state that `ok` allows. -/
def LocksMeet (ok : κ × ℤ → σ → Prop) (clock : ℤ) (s : σ) (acts : List (SampledAct κ)) : Prop :=
  ∀ before i after call, acts = before ++ .lock i :: after →
    (interleave body clock s before).waiting[i]? = some call →
    ok call (interleave body clock s before).shared

end

theorem interleave_append (body : κ × ℤ → σ → ω × σ) (clock : ℤ) (s : σ)
    (acts : List (SampledAct κ)) (a : SampledAct κ) :
    interleave body clock s (acts ++ [a]) = (interleave body clock s acts).act body a := by
  simp only [interleave, List.foldl_append, List.foldl_cons, List.foldl_nil]

/-- **Interleavings are sequential.**  The bodies act as if run one after the
    other, in the order of their locks. -/
theorem interleave_sequential (body : κ × ℤ → σ → ω × σ) (clock : ℤ) (s : σ)
    (acts : List (SampledAct κ)) :
    (interleave body clock s acts).shared =
        run body s ((interleave body clock s acts).executed.map Prod.fst) ∧
      (interleave body clock s acts).executed =
        history body s ((interleave body clock s acts).executed.map Prod.fst) := by
  induction acts using List.reverseRecOn with
  | nil => exact ⟨rfl, rfl⟩
  | append_singleton acts a ih =>
    rw [interleave_append]
    generalize interleave body clock s acts = st at ih ⊢
    obtain ⟨hshared, hexec⟩ := ih
    cases a with
    | tick d => exact ⟨hshared, hexec⟩
    | sample c => exact ⟨hshared, hexec⟩
    | lock i =>
      simp only [SampledState.act]
      cases st.waiting[i]? with
      | none => exact ⟨hshared, hexec⟩
      | some call =>
        simp only [List.map_append, List.map_cons, List.map_nil, run_append, history_append,
          run_cons, run_nil, history, ← hshared, ← hexec, and_self]

section
variable {body : κ × ℤ → σ → ω × σ} {ok : κ × ℤ → σ → Prop} {clock : ℤ} {s : σ}
  {acts : List (SampledAct κ)}

/-- A call that gets the lock runs its body. -/
theorem interleave_lock {i : ℕ} {call : κ × ℤ}
    (h : (interleave body clock s acts).waiting[i]? = some call) :
    (interleave body clock s (acts ++ [.lock i])).shared =
        (body call (interleave body clock s acts).shared).2 ∧
      (interleave body clock s (acts ++ [.lock i])).executed =
        (interleave body clock s acts).executed ++
          [(call, (body call (interleave body clock s acts).shared).1)] := by
  rw [interleave_append]
  simp only [SampledState.act, h, and_self]

theorem executed_prefix {reached : List (SampledAct κ)} (h : reached <+: acts) :
    (interleave body clock s reached).executed <+: (interleave body clock s acts).executed := by
  obtain ⟨rest, rfl⟩ := h
  induction rest using List.reverseRecOn with
  | nil => rw [List.append_nil]
  | append_singleton rest a ih =>
    refine ih.trans ?_
    rw [← List.append_assoc, interleave_append]
    generalize interleave body clock s (reached ++ rest) = st
    cases a with
    | tick d => exact List.prefix_rfl
    | sample c => exact List.prefix_rfl
    | lock i =>
      simp only [SampledState.act]
      split
      · exact List.prefix_rfl
      · exact List.prefix_append _ _

/-- **When an invariant holds in every state reached.** -/
theorem interleave_inv_iff {P : σ → Prop} (h0 : P s)
    (hs : ∀ call s, P s → (P (body call s).2 ↔ ok call s)) :
    (∀ reached, reached <+: acts → P (interleave body clock s reached).shared) ↔
      LocksMeet body ok clock s acts := by
  constructor
  · rintro h before i after call rfl hcall
    have hbefore := h before (List.prefix_append _ _)
    have hafter := h (before ++ [.lock i]) ⟨after, by simp⟩
    rw [(interleave_lock hcall).1] at hafter
    exact (hs call _ hbefore).mp hafter
  · intro h reached hreached
    induction reached using List.reverseRecOn with
    | nil => exact h0
    | append_singleton reached a ih =>
      obtain ⟨rest, rfl⟩ := hreached
      have hprev := ih ⟨a :: rest, by simp⟩
      cases a with
      | tick d => rwa [interleave_append]
      | sample c => rwa [interleave_append]
      | lock i =>
        cases hcall : (interleave body clock s reached).waiting[i]? with
        | none =>
          rw [interleave_append]
          simpa only [SampledState.act, hcall] using hprev
        | some call =>
          rw [(interleave_lock hcall).1]
          exact (hs call _ hprev).mpr (h reached i rest call (by simp) hcall)

/-- If the bodies run in the order of `R`, a call meets its condition for what
    the bodies before it have made of the shared state (`Q`). -/
theorem locksMeet_of_pairwise {R : κ × ℤ → κ × ℤ → Prop} {Q : List (κ × ℤ) → σ → Prop}
    (h0 : Q [] s) (hs : ∀ calls call s, Q calls s → Q (calls ++ [call]) (body call s).2)
    (hok : ∀ calls call s, Q calls s → (∀ c ∈ calls, R c call) → ok call s)
    (hR : ((interleave body clock s acts).executed.map Prod.fst).Pairwise R) :
    LocksMeet body ok clock s acts := by
  have hrun : ∀ calls, Q calls (run body s calls) := by
    intro calls
    induction calls using List.reverseRecOn with
    | nil => exact h0
    | append_singleton calls call ih =>
      rw [run_append, run_cons, run_nil]
      exact hs calls call _ ih
  rintro before i after call rfl hcall
  have hbefore := hrun ((interleave body clock s before).executed.map Prod.fst)
  rw [← (interleave_sequential body clock s before).1] at hbefore
  refine hok _ call _ hbefore fun c hc => ?_
  have hran : (interleave body clock s (before ++ [.lock i])).executed <+:
      (interleave body clock s (before ++ .lock i :: after)).executed :=
    executed_prefix ⟨after, by simp⟩
  have hpairs := hR.sublist (hran.map Prod.fst).sublist
  rw [(interleave_lock hcall).2, List.map_append] at hpairs
  exact (List.pairwise_append.mp hpairs).2.2 c hc call (by simp)

end

/-! ## Step by step -/

section
variable (body : κ × ℤ → σ → ω × σ) (clock : ℤ) (s : σ) (acts : List (SampledAct κ))

/-- The state before step `n`. -/
abbrev interleaveAt (n : ℕ) : SampledState κ ω σ := interleave body clock s (acts.take n)

/-- The call that gets the lock at step `n`. -/
def lockedAt (n : ℕ) : Option (κ × ℤ) :=
  match acts[n]? with
  | some (.lock i) => (interleaveAt body clock s acts n).waiting[i]?
  | _ => none

/-- The calls of `on` get the lock at most `delay` after their reading. -/
def LocksWithin (delay : ℕ) (on : κ → Prop) : Prop :=
  ∀ n call, lockedAt body clock s acts n = some call → on call.1 →
    (interleaveAt body clock s acts n).clock ≤ call.2 + delay

variable {body clock s acts}

theorem lt_of_lockedAt {n : ℕ} {call : κ × ℤ} (h : lockedAt body clock s acts n = some call) :
    n < acts.length := by
  by_contra hn
  rw [lockedAt, List.getElem?_eq_none (not_lt.mp hn)] at h
  cases h

theorem interleaveAt_succ (n : ℕ) : interleaveAt body clock s acts (n + 1) =
    match acts[n]? with
    | some a => (interleaveAt body clock s acts n).act body a
    | none => interleaveAt body clock s acts n := by
  rw [interleaveAt, List.take_add_one]
  cases acts[n]? with
  | none => rw [Option.toList_none, List.append_nil]
  | some a => exact interleave_append body clock s (acts.take n) a

/-- A step runs the body of the call that gets the lock, if one does. -/
theorem shared_succ (n : ℕ) : (interleaveAt body clock s acts (n + 1)).shared =
    match lockedAt body clock s acts n with
    | some call => (body call (interleaveAt body clock s acts n).shared).2
    | none => (interleaveAt body clock s acts n).shared := by
  rw [interleaveAt_succ, lockedAt]
  generalize interleaveAt body clock s acts n = st
  cases acts[n]? with
  | none => rfl
  | some a =>
    cases a with
    | tick d => rfl
    | sample c => rfl
    | lock i =>
      simp only [SampledState.act]
      cases st.waiting[i]? <;> rfl

theorem clock_mono {m n : ℕ} (h : m ≤ n) :
    (interleaveAt body clock s acts m).clock ≤ (interleaveAt body clock s acts n).clock := by
  induction n, h using Nat.le_induction with
  | base => exact le_rfl
  | succ n _ ih =>
    refine ih.trans ?_
    rw [interleaveAt_succ]
    generalize interleaveAt body clock s acts n = st
    cases acts[n]? with
    | none => exact le_rfl
    | some a =>
      cases a with
      | tick d => exact le_add_of_nonneg_right (Int.natCast_nonneg d)
      | sample c => exact le_rfl
      | lock i =>
        simp only [SampledState.act]
        split <;> exact le_rfl

theorem waiting_le_clock (acts : List (SampledAct κ)) :
    ∀ call ∈ (interleave body clock s acts).waiting,
      call.2 ≤ (interleave body clock s acts).clock := by
  induction acts using List.reverseRecOn with
  | nil => exact fun call hcall => absurd hcall List.not_mem_nil
  | append_singleton acts a ih =>
    rw [interleave_append]
    generalize interleave body clock s acts = st at ih ⊢
    cases a with
    | tick d =>
      intro call hcall
      exact (ih call hcall).trans (le_add_of_nonneg_right (Int.natCast_nonneg d))
    | sample c =>
      intro call hcall
      rcases List.mem_append.mp hcall with hcall | hcall
      · exact ih call hcall
      · rw [List.mem_singleton.mp hcall]
        exact le_rfl
    | lock i =>
      simp only [SampledState.act]
      split
      · exact ih
      · exact fun call hcall => ih call (List.mem_of_mem_eraseIdx hcall)

/-- No call gets the lock before it has read the clock. -/
theorem reading_le_clock {n : ℕ} {call : κ × ℤ} (h : lockedAt body clock s acts n = some call) :
    call.2 ≤ (interleaveAt body clock s acts n).clock := by
  rw [lockedAt] at h
  split at h
  · exact waiting_le_clock _ call (List.mem_of_getElem? h)
  · cases h

end

end Lib
