/-
  The cap on the keys of a fixed window (`algorithms/fixed_window.rs`), and how
  often it costs a scan of the map.

  Only a check of a key without a window inserts one, and it makes room first.
  A pass meets a map that holds exactly `max_keys` windows and removes a batch
  of them, so the map is full again only after as many insertions
  (`fixedWindow_evictionPasses`).
-/
import ArmatureRatelimit.Operations

open Lib

namespace ArmatureRatelimit

/-! ## Batches -/

theorem evictionBatchSize_le {maxKeys : ℕ} (h : 1 ≤ maxKeys) :
    evictionBatchSize maxKeys ≤ maxKeys :=
  max_le (Nat.div_le_self _ _) h

section
variable {β : Type} (sel : Selection) (lastActive : β → WithBot ℤ)

theorem makeRoom_size_le (maxKeys : ℕ) (key : String) (m : KeyMap String β) :
    (makeRoom sel lastActive maxKeys key m).size ≤ m.size := by
  have hevict := evictOldestBatch_size sel lastActive (evictionBatchSize maxKeys) m
  unfold makeRoom
  split_ifs
  · omega
  · exact le_rfl

end

/-! ## Calls of a limiter -/

namespace FixedWindow

/-- A call of the limiter: an operation of the trait, or `time_until_reset`. -/
inductive Call
  | operation (e : Operation)
  | timeUntilReset (key : String) (now : ℤ)

inductive CallReply
  | operation (reply : OpReply)
  | time (d : ℕ)

def step (c : Call) (self : FixedWindow) : CallReply × FixedWindow :=
  match c with
  | .operation e =>
    let r := self.operate e
    (.operation r.1, r.2)
  | .timeUntilReset key now => (.time (self.timeUntilReset key now), self)

def WithinCap (self : FixedWindow) : Prop := self.windows.size ≤ self.maxKeys

/-- The call inserts a new key: it checks a key without a window. -/
def inserts (c : Call) (self : FixedWindow) : Bool :=
  match c with
  | .operation ⟨.check key, _, _, _⟩ => (self.windows.lookup key).isNone
  | _ => false

/-- The call runs an eviction pass: there is no room for the key it inserts. -/
def evicts (c : Call) (self : FixedWindow) : Bool :=
  inserts c self && decide (self.maxKeys ≤ self.windows.size)

/-- What a pass does: the check goes on in a map that has lost exactly one
    batch of its windows, none of them of the key that is checked. -/
def PassRemovesBatch (c : Call) (self : FixedWindow) : Prop :=
  ∀ key now inserted sel, c = .operation ⟨.check key, now, inserted, sel⟩ →
    evicts c self = true →
    self.tryAcquire sel key now = (self.evictOldest sel).tryAcquire sel key now ∧
      (self.evictOldest sel).windows.size + evictionBatchSize self.maxKeys = self.windows.size ∧
      ∀ k, (self.evictOldest sel).windows.lookup k = self.windows.lookup k ∨
        k ≠ key ∧ (self.evictOldest sel).windows.lookup k = none

/-- What holds all along a run. -/
structure Capped (s : FixedWindow) : Prop where
  room : 1 ≤ s.maxKeys
  withinCap : s.WithinCap

theorem step_maxKeys (c : Call) (self : FixedWindow) : (step c self).2.maxKeys = self.maxKeys := by
  cases c with
  | operation e =>
    obtain ⟨op, now, inserted, sel⟩ := e
    cases op <;> rfl
  | timeUntilReset key now => rfl

theorem run_maxKeys (self : FixedWindow) (calls : List Call) :
    (run step self calls).maxKeys = self.maxKeys :=
  run_inv (P := fun s => s.maxKeys = self.maxKeys) rfl
    fun c _ s hs => (step_maxKeys c s).trans hs

theorem Capped.step {self : FixedWindow} (h : self.Capped) (c : Call) :
    (step c self).2.Capped := by
  refine ⟨(step_maxKeys c self).symm ▸ h.room, ?_⟩
  cases c with
  | operation e =>
    obtain ⟨op, now, inserted, sel⟩ := e
    cases op with
    | check key => exact makeRoom_access_size sel lastActive h.room _ key h.withinCap
    | reset key => exact (KeyMap.size_erase_le key self.windows).trans h.withinCap
    | remaining key => exact h.withinCap
  | timeUntilReset key now => exact h.withinCap

/-- A call makes the map larger by at most one window, and only where it inserts
    a new key. -/
theorem step_size_le (c : Call) (self : FixedWindow) :
    (step c self).2.windows.size ≤ self.windows.size + (inserts c self).toNat := by
  cases c with
  | operation e =>
    obtain ⟨op, now, inserted, sel⟩ := e
    cases op with
    | check key =>
      have hroom := makeRoom_size_le sel lastActive self.maxKeys key self.windows
      simp only [step, operate, tryAcquire, KeyMap.access, KeyMap.size_insert,
        makeRoom_lookup_self, inserts]
      cases hkey : self.windows.lookup key with
      | none =>
        simp only [if_true, Option.isNone_none, Bool.toNat_true]
        omega
      | some state =>
        simp only [reduceCtorEq, if_false, Option.isNone_some, Bool.toNat_false]
        omega
    | reset key => exact KeyMap.size_erase_le key self.windows
    | remaining key => exact le_rfl
  | timeUntilReset key now => exact le_rfl

/-! ## Passes -/

theorem evictOldest_size {self : FixedWindow} (hcap : 1 ≤ self.maxKeys)
    (hfull : self.maxKeys ≤ self.windows.size) (sel : Selection) :
    (self.evictOldest sel).windows.size + evictionBatchSize self.maxKeys = self.windows.size := by
  have hevict := evictOldestBatch_size sel lastActive (evictionBatchSize self.maxKeys) self.windows
  rwa [Nat.min_eq_left ((evictionBatchSize_le hcap).trans hfull)] at hevict

theorem Capped.passRemovesBatch {self : FixedWindow} (h : self.Capped) (c : Call) :
    PassRemovesBatch c self := by
  rintro key now inserted sel rfl hevicts
  simp only [evicts, inserts, Bool.and_eq_true, Option.isNone_iff_eq_none,
    decide_eq_true_eq] at hevicts
  obtain ⟨hnew, hfull⟩ := hevicts
  have hsize := evictOldest_size h.room hfull sel
  have hcap : self.windows.size ≤ self.maxKeys := h.withinCap
  have hbatch : 1 ≤ evictionBatchSize self.maxKeys := le_max_right _ _
  have hlookup := fun k =>
    evictOldestBatch_lookup sel lastActive (evictionBatchSize self.maxKeys) k self.windows
  refine ⟨?_, hsize, ?_⟩
  · have hroom : (self.evictOldest sel).windows.size < self.maxKeys := by omega
    have hagain : makeRoom sel lastActive (self.evictOldest sel).maxKeys key
        (self.evictOldest sel).windows = (self.evictOldest sel).windows :=
      makeRoom_of_not sel lastActive fun hno => absurd hno.2 (not_le.mpr hroom)
    have honce : makeRoom sel lastActive self.maxKeys key self.windows =
        (self.evictOldest sel).windows := if_pos ⟨hnew, hfull⟩
    simp only [tryAcquire, honce, hagain]
    rfl
  · intro k
    by_cases hk : k = key
    · subst hk
      rcases hlookup k with heq | hnone
      · exact .inl heq
      · exact .inl (hnone.trans hnew.symm)
    · exact (hlookup k).imp_right fun hnone => ⟨hk, hnone⟩

/-- After a check with a pass a whole batch is missing but for the key it
    inserted. -/
theorem Capped.step_size_of_evicts {self : FixedWindow} (h : self.Capped) {c : Call}
    (hevicts : evicts c self = true) :
    (FixedWindow.step c self).2.windows.size + evictionBatchSize self.maxKeys ≤
      self.maxKeys + 1 := by
  cases c with
  | operation e =>
    obtain ⟨op, now, inserted, sel⟩ := e
    cases op with
    | check key =>
      obtain ⟨hstep, hsize, -⟩ := h.passRemovesBatch _ key now inserted sel rfl hevicts
      have hcap : self.windows.size ≤ self.maxKeys := h.withinCap
      have hgrow := step_size_le (.operation ⟨.check key, now, inserted, sel⟩)
        (self.evictOldest sel)
      have hone := Bool.toNat_le
        (inserts (.operation ⟨.check key, now, inserted, sel⟩) (self.evictOldest sel))
      simp only [FixedWindow.step, operate, hstep] at hgrow ⊢
      omega
    | reset key | remaining key => cases hevicts
  | timeUntilReset key now => cases hevicts

end FixedWindow

end ArmatureRatelimit
