/-
  The prune task as silent steps of a run.

  An entry is stale when a check at any later time makes of it what it makes of
  a missing entry.  If `cleanup` only drops stale entries (`Fading`), then the
  replies of a run are those of the run without its passes
  (`Fading.trace_filter`), of the limiter and of the store that is asked without
  one: both act on the map by the body of the view (`MapView.ActsBy`).
-/
import ArmatureRatelimit.MemoryRuns

open Lib

namespace ArmatureRatelimit

variable {ν : Type} [F64 ν] {algorithm : Algorithm ν} {β : Type}

/-! ## Fading entries -/

/-- Under this view `cleanup` with idle TTL `idleTtl` only drops entries that
    are stale; `good` is what every reachable entry satisfies. -/
structure Fading (view : MapView algorithm β) (idleTtl : ℕ) (good stale : ℤ → β → Prop) :
    Prop where
  good_mono : ∀ {t u x}, t ≤ u → good t x → good u x
  stale_mono : ∀ {t u x}, t ≤ u → stale t x → stale u x
  good_body : ∀ {now b e}, view.body now = some b → (∀ x, e = some x → good now x) →
    good now (b e).2
  stale_body : ∀ {now b x}, view.body now = some b → good now x → stale now x →
    b (some x) = b none
  stale_of_dropped : ∀ {now x}, good now x → view.keep idleTtl now x = false → stale now x

/-- The store with passes and the store without, at time `t`. -/
structure PruneRel (view : MapView algorithm β) (idleTtl : ℕ) (good stale : ℤ → β → Prop)
    (t : ℤ) (s s' : MemoryStore ν) : Prop where
  idleTtl_eq : s.idleTtl = idleTtl
  good_entry : ∀ k x, (view.get s').lookup k = some x → good t x
  faded : KeyMap.Faded (fun x => good t x ∧ stale t x) (view.get s) (view.get s')

section
variable {view : MapView algorithm β} {idleTtl : ℕ} {good stale : ℤ → β → Prop}
  {step : Event → MemoryStore ν → Reply × MemoryStore ν} {answer : ℤ → Bool × ℕ → Reply}

theorem Fading.mono (hf : Fading view idleTtl good stale) {t u : ℤ} {s s' : MemoryStore ν}
    (htu : t ≤ u) (h : PruneRel view idleTtl good stale t s s') :
    PruneRel view idleTtl good stale u s s' where
  idleTtl_eq := h.idleTtl_eq
  good_entry k x hx := hf.good_mono htu (h.good_entry k x hx)
  faded := h.faded.mono fun _ _ _ hx => ⟨hf.good_mono htu hx.1, hf.stale_mono htu hx.2⟩

/-- The body of a check sees no difference and makes none. -/
theorem Fading.access (hf : Fading view idleTtl good stale) {now : ℤ} {s s' : MemoryStore ν}
    (h : PruneRel view idleTtl good stale now s s') {b : Option β → (Bool × ℕ) × β}
    (hb : view.body now = some b) (key : String) :
    b ((view.get s).lookup key) = b ((view.get s').lookup key) ∧
      PruneRel view idleTtl good stale now (view.set ((view.get s).access b key).2 s)
        (view.set ((view.get s').access b key).2 s') := by
  have heq : b ((view.get s).lookup key) = b ((view.get s').lookup key) :=
    h.faded.body_eq (fun x hx => hf.stale_body hb hx.1 hx.2) key
  refine ⟨heq, ?_, ?_, ?_⟩
  · simp only [view.idleTtl_set, h.idleTtl_eq]
  · intro k x hx
    simp only [view.get_set, KeyMap.access, KeyMap.lookup_insert_eq_ite] at hx
    split_ifs at hx with hk
    · obtain rfl := Option.some.inj hx
      exact hf.good_body hb (fun y hy => h.good_entry key y hy)
    · exact h.good_entry k x hx
  · simp only [view.get_set, KeyMap.access, heq]
    exact h.faded.insert key _

/-- A check sees no difference and makes none. -/
theorem Fading.check (hf : Fading view idleTtl good stale) (hacts : view.ActsBy step answer)
    {env : MemoryEnv} {s s' : MemoryStore ν} (h : PruneRel view idleTtl good stale env.now s s')
    (unix : ℤ) (key : String) :
    (step ⟨env, unix, .check key⟩ s).1 = (step ⟨env, unix, .check key⟩ s').1 ∧
      PruneRel view idleTtl good stale env.now (step ⟨env, unix, .check key⟩ s).2
        (step ⟨env, unix, .check key⟩ s').2 := by
  rw [hacts.check_eq, hacts.check_eq]
  cases hb : view.body env.now with
  | none => exact ⟨rfl, h⟩
  | some b =>
    obtain ⟨heq, hrel⟩ := hf.access h hb key
    exact ⟨by simp only [heq], hrel⟩

theorem Fading.reset {t : ℤ} {s s' : MemoryStore ν}
    (h : PruneRel view idleTtl good stale t s s') (key : String) :
    PruneRel view idleTtl good stale t (s.reset key) (s'.reset key) where
  idleTtl_eq := h.idleTtl_eq
  good_entry k x hx := by
    rw [view.get_reset, KeyMap.lookup_erase_eq_ite] at hx
    split_ifs at hx
    exact h.good_entry k x hx
  faded := by
    rw [view.get_reset, view.get_reset]
    exact h.faded.erase key

/-- A pass leaves the relation as it is. -/
theorem Fading.prune (hf : Fading view idleTtl good stale) {env : MemoryEnv}
    {s s' : MemoryStore ν} (hcap : s.WithinCap)
    (h : PruneRel view idleTtl good stale env.now s s') :
    PruneRel view idleTtl good stale env.now (s.cleanup env) s' := by
  rw [cleanup_eq_evictIdle env hcap]
  refine ⟨h.idleTtl_eq, h.good_entry, ?_⟩
  rw [view.get_evictIdle, h.idleTtl_eq]
  refine h.faded.retain ?_
  intro k x hx hk
  have hg := h.good_entry k x hx
  exact ⟨hg, hf.stale_of_dropped hg hk⟩

/-- The passes are silent steps, for the limiter and for the store alike. -/
theorem Fading.silentSim (hf : Fading view idleTtl good stale) (hacts : view.ActsBy step answer) :
    SilentSim step (fun e => !e.isPrune) Event.now MemoryStore.WithinCap
      (PruneRel view idleTtl good stale) where
  mono := hf.mono
  visible_step {e s s'} hv h := by
    obtain ⟨env, unix, action⟩ := e
    cases action with
    | check key => exact hf.check hacts h unix key
    | reset key =>
      rw [hacts.reset_eq, hacts.reset_eq]
      exact ⟨rfl, Fading.reset h key⟩
    | prune => cases hv
  silent_step {e s s'} hv hcap h := by
    obtain ⟨env, unix, action⟩ := e
    cases action with
    | check key => cases hv
    | reset key => cases hv
    | prune =>
      rw [hacts.prune_eq]
      exact hf.prune hcap h

/-- **Pruning goes unnoticed.**  From an empty map on, every check replies as
    in the run without the passes of the prune task. -/
theorem Fading.trace_filter (hf : Fading view idleTtl good stale)
    (hacts : view.ActsBy step answer) {s : MemoryStore ν} (httl : s.idleTtl = idleTtl)
    (hempty : view.get s = ∅) {evs : List Event} (hord : InOrder evs)
    (hcap : Along step MemoryStore.WithinCap s evs) :
    trace step (fun e => !e.isPrune) s evs =
      trace step (fun e => !e.isPrune) s (evs.filter fun e => !e.isPrune) := by
  cases evs with
  | nil => rfl
  | cons e evs =>
    refine (hf.silentSim hacts).trace_filter (t := e.now) hcap hord ?_ ⟨httl, ?_, .refl _⟩
    · intro i hi
      rcases List.mem_cons.mp hi with rfl | hi
      · exact le_rfl
      · exact (List.pairwise_cons.mp hord).1 i hi
    · intro k x hx
      rw [hempty] at hx
      cases hx

end

end ArmatureRatelimit
