/-
  What `remaining` tells about the next check.

  A check that finds `left` requests left answers `answerOf left`, whichever the
  algorithm, so a query foretells the check exactly if it returns `left`
  (`foretells_answerOf`).  The entries of one key along a run of the store are
  described by what the checks of the key and the passes do to them
  (`entries_inv`).
-/
import ArmatureRatelimit.Proof.KeyIsolation

open Lib

namespace ArmatureRatelimit

/-! ## Forecasts -/

/-- The answer of a query tells the decision of a check: it is admitted if
    something is left, and then one less is left. -/
def Foretells (n : ℕ) (decision : Outcome (Bool × ℕ)) : Prop :=
  ∃ admitted left, decision = .ok (admitted, left) ∧ (admitted = true ↔ 0 < n) ∧
    (admitted = true → left = n - 1)

/-- The answer of a check that finds `left` requests left. -/
def answerOf (left : ℕ) : Bool × ℕ := if 0 < left then (true, left - 1) else (false, 0)

theorem foretells_answerOf {n left : ℕ} : Foretells n (.ok (answerOf left)) ↔ n = left := by
  unfold Foretells answerOf
  constructor
  · rintro ⟨admitted, m, hanswer, hadmitted, hleft⟩
    split_ifs at hanswer with hpos
    · obtain ⟨rfl, rfl⟩ := Prod.mk.inj (Except.ok.inj hanswer)
      have hn := hadmitted.mp rfl
      have := hleft rfl
      omega
    · obtain ⟨rfl, rfl⟩ := Prod.mk.inj (Except.ok.inj hanswer)
      have hn : ¬ 0 < n := fun h => absurd (hadmitted.mpr h) (by decide)
      omega
  · rintro rfl
    split_ifs with hpos
    · exact ⟨true, n - 1, rfl, by simp [hpos], fun _ => rfl⟩
    · exact ⟨false, 0, rfl, by simp [hpos], fun h => by cases h⟩

theorem not_foretells_admitted {n : ℕ} {decision : Outcome (Bool × ℕ)} (left : ℕ) (hn : n = 0)
    (h : decision = .ok (true, left)) : ¬ Foretells n decision := by
  rintro ⟨admitted, m, heq, hiff, -⟩
  obtain ⟨rfl, -⟩ := Prod.mk.inj (Except.ok.inj (h.symm.trans heq))
  exact absurd (hiff.mp rfl) (by omega)

theorem not_foretells_denied {n : ℕ} {decision : Outcome (Bool × ℕ)} (left : ℕ) (hn : 0 < n)
    (h : decision = .ok (false, left)) : ¬ Foretells n decision := by
  rintro ⟨admitted, m, heq, hiff, -⟩
  obtain ⟨rfl, -⟩ := Prod.mk.inj (Except.ok.inj (h.symm.trans heq))
  exact absurd (hiff.mpr hn) (by decide)

/-! ### One log, one window, one bucket -/

theorem recordRequest_fst (maxRequests : ℕ) (now : ℤ) (log : List ℤ) :
    (recordRequest maxRequests now log).1 = answerOf (maxRequests - log.length) := by
  simp only [recordRequest, answerOf, Nat.sub_pos_iff_lt]
  split_ifs <;> rfl

/-- What a window has left at `now`. -/
def WindowState.left (maxRequests window : ℕ) (now : ℤ) : Option WindowState → ℕ
  | some state =>
    if window ≤ durationSince now state.windowStart then maxRequests
    else maxRequests - state.count
  | none => maxRequests

theorem WindowState.acquire_fst (maxRequests window : ℕ) (now : ℤ) (entry : Option WindowState) :
    (acquire maxRequests window now entry).1 = answerOf (left maxRequests window now entry) := by
  have hincrement : ∀ state : WindowState,
      (state.increment maxRequests).1 = answerOf (maxRequests - state.count) := by
    intro state
    simp only [increment, answerOf, Nat.sub_pos_iff_lt]
    split_ifs <;> rfl
  rw [acquire, hincrement]
  cases entry with
  | none =>
    simp only [left, roll, Option.getD_none]
    split_ifs <;> rfl
  | some state =>
    simp only [left, roll, Option.getD_some]
    split_ifs <;> rfl

theorem FixedWindow.tryAcquire_fst (s : FixedWindow) (sel : Selection) (key : String) (now : ℤ) :
    (s.tryAcquire sel key now).1 =
      answerOf (WindowState.left s.maxRequests s.window now (s.windows.lookup key)) := by
  rw [← WindowState.acquire_fst]
  exact (makeRoom_access_self sel lastActive s.maxKeys _ key s.windows).1

/-- The whole tokens of a bucket after its refill. -/
theorem BucketState.acquire_some_fst {capacity : ℕ} (hcap : capacity ≤ u64Max) (refillRate : ℚ)
    (inserted now : ℤ) (b : BucketState ℚ) :
    (acquire capacity refillRate inserted now (some b)).1 =
      answerOf ⌊level capacity refillRate now (some b)⌋₊ := by
  have hrefill : ((some b).getD (full capacity inserted)).refill capacity refillRate now =
      ⟨level capacity refillRate now (some b), now⟩ := by
    simp only [refill, level, Option.getD_some, F64.min_rat, F64.ofDuration_rat, F64.ofInt_rat,
      Int.cast_natCast]
  have hle := level_le capacity refillRate now (some b)
  generalize level capacity refillRate now (some b) = x at hrefill hle ⊢
  have hfloor : ⌊x⌋₊ ≤ capacity := Nat.floor_le_of_le hle
  simp only [acquire, hrefill, consume, F64.le_rat, F64.ofInt_rat, Int.cast_one, answerOf,
    Nat.floor_pos, decide_eq_true_eq]
  split_ifs with hone
  · have hsub : ⌊x - 1⌋₊ = ⌊x⌋₊ - 1 := Nat.floor_sub_one x
    have hread : F64.toU64 (x - 1) = min ⌊x - 1⌋₊ u64Max := rfl
    rw [hread, hsub, Nat.min_eq_left (by omega)]
  · rfl

/-! ## The entries of a key along a run -/

variable {ν : Type}

/-- Each of the entries is as it was, or gone. -/
structure Sheds (ks ks' : KeyState ν) : Prop where
  bucket : ks'.bucket = ks.bucket ∨ ks'.bucket = none
  log : ks'.log = ks.log ∨ ks'.log = none
  fixedWindow : ks'.fixedWindow = ks.fixedWindow ∨ ks'.fixedWindow = none

theorem sheds_cleanup (env : MemoryEnv) (s : MemoryStore ν) (key : String) :
    Sheds (s.entriesOf key) ((s.cleanup env).entriesOf key) := by
  have hlookup : ∀ {β : Type} {m m' : KeyMap String β},
      (∀ x, m'.lookup key = some x → m.lookup key = some x) →
        m'.lookup key = m.lookup key ∨ m'.lookup key = none := by
    intro β m m' h
    cases hx : m'.lookup key with
    | none => exact .inr rfl
    | some x => exact .inl (h x hx).symm
  have hkept := lookup_cleanup env s key
  exact ⟨hlookup hkept.1, hlookup hkept.2.1, hlookup hkept.2.2⟩

variable [F64 ν]

/-- **The rule for one key.**  What the checks of a key establish, and what its
    entries keep when some of them go and time passes, holds at the end of every
    run under a clock that does not run backwards. -/
theorem entries_inv {P : ℤ → KeyState ν → Prop} {key : String}
    (hmono : ∀ t t' ks, t ≤ t' → P t ks → P t' ks)
    (hsheds : ∀ t ks ks', Sheds ks ks' → P t ks → P t ks') {calls : List (StoreCall ν)}
    (hcheck : ∀ c ∈ calls, ∀ algorithm, c.op = .check key algorithm → ∀ idleTtl ks,
      P c.env.now ks → P c.env.now (KeyState.step idleTtl ⟨c.env.now, .check algorithm⟩ ks).2)
    {s : MemoryStore ν} (h0 : ∀ t, P t (s.entriesOf key))
    (hturn : calls.Pairwise fun c c' => c.env.now ≤ c'.env.now) {t : ℤ}
    (ht : ∀ c ∈ calls, c.env.now ≤ t) : P t ((run MemoryStore.call s calls).entriesOf key) := by
  induction calls using List.reverseRecOn generalizing t with
  | nil => exact h0 t
  | append_singleton calls c ih =>
    obtain ⟨hbefore, -, hlast⟩ := List.pairwise_append.mp hturn
    have hprev : P c.env.now ((run MemoryStore.call s calls).entriesOf key) :=
      ih (fun c' hc' => hcheck c' (by simp [hc'])) hbefore fun c' hc' => hlast c' hc' c (by simp)
    refine hmono c.env.now t _ (ht c (by simp)) ?_
    rw [run_append, run_cons, run_nil]
    generalize run MemoryStore.call s calls = s' at hprev ⊢
    have hcheck := hcheck c (by simp)
    have hentries : EntriesAre key s'.idleTtl s' (s'.entriesOf key) := ⟨rfl, rfl⟩
    obtain ⟨env, op⟩ := c
    cases op with
    | check k algorithm =>
      by_cases hk : k = key
      · subst hk
        rw [(hentries.check env algorithm).2.entries]
        exact hcheck algorithm rfl _ _ hprev
      · exact (hentries.check_ne hk env algorithm).entries ▸ hprev
    | remaining k => exact hprev
    | reset k =>
      by_cases hk : k = key
      · subst hk
        have hnone : (s'.reset k).entriesOf k = ⟨none, none, none⟩ := hentries.reset.entries
        have hgone : Sheds (s'.entriesOf k) ((s'.reset k).entriesOf k) := by
          rw [hnone]
          exact ⟨.inr rfl, .inr rfl, .inr rfl⟩
        exact hsheds _ _ _ hgone hprev
      · exact (hentries.reset_ne hk).entries ▸ hprev
    | cleanup => exact hsheds _ _ _ (sheds_cleanup env s' key) hprev

/-- A run of the store in which a key, which has no entries at first, is checked
    under one algorithm; `t` is not before the last call. -/
structure KeyRun (key : String) (algorithm : Algorithm ν) (s : MemoryStore ν)
    (calls : List (StoreCall ν)) (t : ℤ) : Prop where
  fresh : s.entriesOf key = ⟨none, none, none⟩
  only : ∀ c ∈ calls, ∀ a, c.op = .check key a → a = algorithm
  inTurn : calls.Pairwise fun c c' => c.env.now ≤ c'.env.now
  notAfter : ∀ c ∈ calls, c.env.now ≤ t

theorem KeyRun.entries {key : String} {algorithm : Algorithm ν} {s : MemoryStore ν}
    {calls : List (StoreCall ν)} {t : ℤ} (h : KeyRun key algorithm s calls t)
    {P : ℤ → KeyState ν → Prop} (hmono : ∀ t t' ks, t ≤ t' → P t ks → P t' ks)
    (hsheds : ∀ t ks ks', Sheds ks ks' → P t ks → P t ks') (h0 : ∀ t, P t ⟨none, none, none⟩)
    (hcheck : ∀ now idleTtl ks, P now ks →
      P now (KeyState.step idleTtl ⟨now, .check algorithm⟩ ks).2) :
    P t ((run MemoryStore.call s calls).entriesOf key) := by
  refine entries_inv hmono hsheds ?_ (h.fresh ▸ h0) h.inTurn h.notAfter
  intro c hc a ha idleTtl ks hks
  obtain rfl := h.only c hc a ha
  exact hcheck _ _ _ hks

omit [F64 ν] in
/-- A new store after one check. -/
theorem keyRun_single (key : String) (algorithm : Algorithm ν) {env : MemoryEnv} {t : ℤ}
    (ht : env.now ≤ t) : KeyRun key algorithm .new [⟨env, .check key algorithm⟩] t := by
  refine ⟨rfl, ?_, List.pairwise_singleton _ _, ?_⟩
  · rintro c hc a ha
    obtain rfl := List.mem_singleton.mp hc
    exact (StoreOp.check.inj ha).2.symm
  · rintro c hc
    obtain rfl := List.mem_singleton.mp hc
    exact ht

end ArmatureRatelimit
