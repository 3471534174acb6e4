/-
  What a cleanup leaves (`MemoryStore::cleanup` in `stores/memory.rs`).

  A cleanup drops the entries that have no stamp or an idle one, and then, above
  the cap, the oldest of the others.  The number of entries that the cap removes
  is the length of the map less the cap, while the list that they are taken from
  skips entries without a stamp; after the first pass there are none of these
  (`Stamped`), so the count is right whatever the maps held before
  (`cleanup_cleans`).
-/
import ArmatureRatelimit.MemoryRuns
import ArmatureRatelimit.Lib.Oldest

open Lib

namespace ArmatureRatelimit

section
variable {β : Type}

/-- An entry that has a stamp, which is less than `idleTtl` old. -/
def isLive (stamp : β → Option ℤ) (idleTtl : ℕ) (now : ℤ) (x : β) : Bool :=
  (stamp x).any fun t => decide (durationSince now t < idleTtl)

/-- What a map was (`m`) and what is left of it (`m'`). -/
structure Cleaned (stamp : β → Option ℤ) (idleTtl : ℕ) (now : ℤ) (maxKeys : Option ℕ)
    (m m' : KeyMap String β) : Prop where
  /-- an entry that is left is as it was -/
  unchanged : ∀ key x, m'.lookup key = some x → m.lookup key = some x
  live : ∀ key x, m'.lookup key = some x →
    ∃ t, stamp x = some t ∧ durationSince now t < idleTtl
  size : m'.size =
    let lives := m.entries.countP fun e => isLive stamp idleTtl now e.2
    match maxKeys with
    | some max => min max lives
    | none => lives
  /-- without a cap every live entry is left -/
  all : maxKeys = none → ∀ key x, m.lookup key = some x → isLive stamp idleTtl now x = true →
    m'.lookup key = some x
  /-- no live entry that the cap removed is newer than one that is left -/
  oldest : ∀ key x key' x' t t', m.lookup key = some x → isLive stamp idleTtl now x = true →
    m'.lookup key = none → m'.lookup key' = some x' → stamp x = some t → stamp x' = some t' →
    t ≤ t'

variable {stamp : β → Option ℤ} {m : KeyMap String β}

/-! ## The cap -/

/-- Every entry has a stamp. -/
def Stamped (stamp : β → Option ℤ) (m : KeyMap String β) : Prop :=
  ∀ e ∈ m.entries, (stamp e.2).isSome

/-- The entries with their stamps, as the cap collects them. -/
def stampedEntries (stamp : β → Option ℤ) (m : KeyMap String β) : List (String × ℤ) :=
  m.entries.filterMap fun e => (stamp e.2).map (e.1, ·)

theorem mem_stampedEntries {key : String} {t : ℤ} :
    (key, t) ∈ stampedEntries stamp m ↔ ∃ x, m.lookup key = some x ∧ stamp x = some t := by
  simp only [stampedEntries, List.mem_filterMap, Option.map_eq_some_iff]
  constructor
  · rintro ⟨⟨k, x⟩, hmem, t', ht, heq⟩
    obtain ⟨rfl, rfl⟩ := Prod.mk.inj heq
    exact ⟨x, KeyMap.lookup_eq_some.mpr hmem, ht⟩
  · rintro ⟨x, hx, ht⟩
    exact ⟨⟨key, x⟩, KeyMap.lookup_eq_some.mp hx, t, ht, rfl⟩

theorem listsStamps_stampedEntries : ListsStamps stamp m (stampedEntries stamp m) := by
  refine ⟨fun _ _ => mem_stampedEntries, ?_⟩
  have hnodup := m.keys_nodup
  unfold AList.keys List.keys at hnodup
  unfold stampedEntries
  rw [List.map_filterMap]
  refine (List.pairwise_map.mp hnodup).filterMap _ ?_
  rintro e e' hne b hb b' hb'
  simp only [Option.map_map, Option.map_eq_some_iff] at hb hb'
  obtain ⟨t, -, rfl⟩ := hb
  obtain ⟨t', -, rfl⟩ := hb'
  exact hne

theorem Stamped.keys (h : Stamped stamp m) : (stampedEntries stamp m).map Prod.fst = m.keys := by
  unfold Stamped at h
  unfold stampedEntries AList.keys
  generalize m.entries = entries at h
  induction entries with
  | nil => rfl
  | cons e entries ih =>
    obtain ⟨t, ht⟩ := Option.isSome_iff_exists.mp (h e (by simp))
    rw [List.filterMap_cons_some (by rw [ht]; rfl), List.map_cons,
      ih fun e' he' => h e' (by simp [he'])]
    rfl

theorem Stamped.lookup (h : Stamped stamp m) {key : String} {x : β} (hx : m.lookup key = some x) :
    ∃ t, stamp x = some t :=
  Option.isSome_iff_exists.mp (h _ (KeyMap.lookup_eq_some.mp hx))

/-- The entries sorted by their stamps. -/
def sortedEntries (order : IterOrder) (stamp : β → Option ℤ) (m : KeyMap String β) :
    List (String × ℤ) :=
  (order.run (stampedEntries stamp m)).mergeSort fun a b => a.2 ≤ b.2

theorem sortedEntries_perm (order : IterOrder) :
    (sortedEntries order stamp m).Perm (stampedEntries stamp m) :=
  (List.mergeSort_perm _ _).trans (order.perm _)

theorem sortedEntries_sorted (order : IterOrder) :
    (sortedEntries order stamp m).Pairwise fun a b => a.2 ≤ b.2 := by
  have hsorted := @List.pairwise_mergeSort (String × ℤ) (fun a b => decide (a.2 ≤ b.2))
    (fun a b c hab hbc => by simpa using le_trans (of_decide_eq_true hab) (of_decide_eq_true hbc))
    (fun a b => by simpa using le_total a.2 b.2) (order.run (stampedEntries stamp m))
  simp only [decide_eq_true_eq] at hsorted
  exact hsorted

theorem sortedEntries_oldestFirst (order : IterOrder) (n : ℕ) :
    OldestFirst n (sortedEntries order stamp m) := by
  have hsorted := @sortedEntries_sorted _ stamp m order
  rw [← List.take_append_drop n (sortedEntries order stamp m)] at hsorted
  exact (List.pairwise_append.mp hsorted).2.2

/-- The first of the sorted entries are removed, as many as there are above the
    cap. -/
theorem capOldest_eq (order : IterOrder) (max : ℕ) :
    MemoryStore.capOldest order stamp max m =
      removeFirst (m.size - max) (sortedEntries order stamp m) m := by
  unfold MemoryStore.capOldest
  split_ifs with hmax
  · rw [Nat.sub_eq_zero_of_le hmax]
    rfl
  · rfl

theorem Stamped.size_capOldest (h : Stamped stamp m) (order : IterOrder) (max : ℕ) :
    (MemoryStore.capOldest order stamp max m).size = min max m.size := by
  have hperm := (@sortedEntries_perm _ stamp m order).map Prod.fst
  rw [h.keys] at hperm
  have hlen : (sortedEntries order stamp m).length = m.size := by
    rw [KeyMap.size_eq_keys, ← hperm.length_eq, List.length_map]
  have hsize := size_removeAll_take hperm (n := m.size - max) (by omega)
  rw [capOldest_eq, removeFirst]
  omega

/-- What the cap removes is no newer than what it leaves. -/
theorem capOldest_oldest (order : IterOrder) {max : ℕ} {key key' : String} {x x' : β}
    {t t' : ℤ} (hx : m.lookup key = some x)
    (hgone : (MemoryStore.capOldest order stamp max m).lookup key = none)
    (hleft : (MemoryStore.capOldest order stamp max m).lookup key' = some x')
    (ht : stamp x = some t) (ht' : stamp x' = some t') : t ≤ t' := by
  have hlists := (@listsStamps_stampedEntries _ stamp m).perm (sortedEntries_perm order)
  rw [capOldest_eq] at hgone hleft
  exact sortedEntries_oldestFirst order _ _ ((hlists.gone_iff hx ht).mp hgone) _
    ((hlists.kept_iff ht').mp hleft).2

/-! ## Both passes -/

theorem isLive_iff {idleTtl : ℕ} {now : ℤ} {x : β} : isLive stamp idleTtl now x = true ↔
    ∃ t, stamp x = some t ∧ durationSince now t < idleTtl := by
  simp [isLive, Option.any_eq_true]

theorem stamped_retain (idleTtl : ℕ) (now : ℤ) :
    Stamped stamp (m.retain (isLive stamp idleTtl now)) := by
  intro e he
  obtain ⟨t, ht, -⟩ := isLive_iff.mp (List.mem_filter.mp he).2
  rw [ht]
  rfl

theorem size_retain (p : β → Bool) : (m.retain p).size = m.entries.countP fun e => p e.2 :=
  List.countP_eq_length_filter.symm

/-- What the first pass leaves is live, and was there before. -/
theorem lookup_retain_live {idleTtl : ℕ} {now : ℤ} {key : String} {x : β} :
    (m.retain (isLive stamp idleTtl now)).lookup key = some x ↔
      m.lookup key = some x ∧ isLive stamp idleTtl now x = true := by
  rw [KeyMap.lookup_retain, Option.filter_eq_some_iff]

theorem cleaned_retain (idleTtl : ℕ) (now : ℤ) :
    Cleaned stamp idleTtl now none m (m.retain (isLive stamp idleTtl now)) where
  unchanged key x h := (lookup_retain_live.mp h).1
  live key x h := isLive_iff.mp (lookup_retain_live.mp h).2
  size := size_retain _
  all _ key x h hlive := lookup_retain_live.mpr ⟨h, hlive⟩
  oldest key x key' x' t t' h hlive hgone := by
    rw [lookup_retain_live.mpr ⟨h, hlive⟩] at hgone
    cases hgone

theorem cleaned_capOldest (order : IterOrder) (idleTtl : ℕ) (now : ℤ) (max : ℕ) :
    Cleaned stamp idleTtl now (some max) m
      (MemoryStore.capOldest order stamp max (m.retain (isLive stamp idleTtl now))) where
  unchanged key x h := (lookup_retain_live.mp (lookup_capOldest h)).1
  live key x h := isLive_iff.mp (lookup_retain_live.mp (lookup_capOldest h)).2
  size := by
    rw [(stamped_retain idleTtl now).size_capOldest, size_retain]
  all h := by cases h
  oldest key x key' x' t t' h hlive hgone hleft ht ht' :=
    capOldest_oldest order (lookup_retain_live.mpr ⟨h, hlive⟩) hgone hleft ht ht'

end

section
variable {ν : Type}

/-- The first pass, one notion of age for each map. -/
theorem evictIdle_eq (now : ℤ) (s : MemoryStore ν) : s.evictIdle now =
    { s with
      tokenBuckets := s.tokenBuckets.retain (isLive (fun x => some x.lastRefill) s.idleTtl now)
      slidingLogs := s.slidingLogs.retain (isLive (fun x => x.log.getLast?) s.idleTtl now)
      fixedWindows :=
        s.fixedWindows.retain (isLive (fun x => some x.windowStart) s.idleTtl now) } := by
  have hlive : ∀ last, (!MemoryStore.isIdle s.idleTtl now last) =
      decide (durationSince now last < s.idleTtl) := by
    intro last
    rw [MemoryStore.isIdle, ← decide_not, decide_eq_decide, not_le]
  have hlog : MemoryStore.keepLog s.idleTtl now =
      isLive (fun x : SlidingWindowState => x.log.getLast?) s.idleTtl now := by
    funext x
    unfold MemoryStore.keepLog isLive
    simp only
    cases x.log.getLast? with
    | none => rfl
    | some last => exact hlive last
  unfold MemoryStore.evictIdle isLive
  rw [hlog]
  simp only [hlive]
  rfl

/-- **What a cleanup leaves.**  Whatever the maps hold, every map keeps its live
    entries as they were, and above the cap as many of them as the cap allows,
    of which none is older than one that is removed. -/
theorem cleanup_cleans (env : MemoryEnv) (s : MemoryStore ν) :
    Cleaned (fun x => some x.lastRefill) s.idleTtl env.now s.maxKeys s.tokenBuckets
        (s.cleanup env).tokenBuckets ∧
      Cleaned (fun x => x.log.getLast?) s.idleTtl env.now s.maxKeys s.slidingLogs
        (s.cleanup env).slidingLogs ∧
      Cleaned (fun x => some x.windowStart) s.idleTtl env.now s.maxKeys s.fixedWindows
        (s.cleanup env).fixedWindows := by
  simp only [MemoryStore.cleanup, evictIdle_eq]
  cases hmax : s.maxKeys with
  | none => exact ⟨cleaned_retain _ _, cleaned_retain _ _, cleaned_retain _ _⟩
  | some max =>
    exact ⟨cleaned_capOldest _ _ _ _, cleaned_capOldest _ _ _ _, cleaned_capOldest _ _ _ _⟩

end

end ArmatureRatelimit
