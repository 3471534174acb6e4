/-
  The algorithm configuration, and what the standalone algorithms share
  (`algorithms/mod.rs`): the eviction of a batch of least recently active
  entries when a new key meets a full map.

  `slice::select_nth_unstable_by_key` leaves both parts of the slice in an
  order of its own, and `DashMap` iterates in any order; a `Selection` is one
  such behaviour.  A call of an algorithm takes one as an argument, and a
  statement about every call is about every behaviour.
-/
import ArmatureRatelimit.Base
import ArmatureRatelimit.Lib.KeyMap

open Lib

namespace ArmatureRatelimit

/-- `Algorithm`: windows are durations, in nanoseconds. -/
inductive Algorithm (ν : Type)
  | tokenBucket (capacity : ℕ) (refillRate : ν)
  | slidingWindowLog (maxRequests window : ℕ)
  | fixedWindow (maxRequests window : ℕ)

namespace Algorithm

variable {ν : Type}

def limit : Algorithm ν → ℕ
  | tokenBucket capacity _ => capacity
  | slidingWindowLog maxRequests _ | fixedWindow maxRequests _ => maxRequests

/-- The fields are in the range of their Rust types, `u64` and `Duration`. -/
def InRange : Algorithm ν → Prop
  | tokenBucket capacity _ => capacity ≤ u64Max
  | slidingWindowLog maxRequests window | fixedWindow maxRequests window =>
    maxRequests ≤ u64Max ∧ Duration.asSecs window ≤ u64Max

instance : DecidablePred (InRange (ν := ν))
  | tokenBucket capacity _ => Nat.decLe capacity u64Max
  | slidingWindowLog maxRequests window | fixedWindow maxRequests window =>
    inferInstanceAs (Decidable (maxRequests ≤ u64Max ∧ Duration.asSecs window ≤ u64Max))

end Algorithm

/-! ## Eviction -/

/-- The entries that an eviction scans: keys with their last activity, where no
    activity (`⊥`) is older than any instant. -/
abbrev Candidates := List (String × WithBot ℤ)

/-- A behaviour of `select_nth_unstable_by_key(i, |(_, t)| *t)`: the slice is
    permuted so that nothing up to index `i` is later than anything after it. -/
structure Selection where
  run : Candidates → ℕ → Candidates
  perm : ∀ l i, (run l i).Perm l
  split : ∀ l i, i < l.length → ∀ a ∈ (run l i).take (i + 1), ∀ b ∈ (run l i).drop (i + 1),
    a.2 ≤ b.2

/-- `a ≤ b`, evaluated. -/
def noLater : WithBot ℤ → WithBot ℤ → Bool
  | ⊥, _ => true
  | (_ : ℤ), ⊥ => false
  | (a : ℤ), (b : ℤ) => decide (a ≤ b)

theorem noLater_iff : ∀ {a b : WithBot ℤ}, noLater a b = true ↔ a ≤ b
  | ⊥, _ => by simp [noLater]
  | (a : ℤ), ⊥ => by simp [noLater]
  | (a : ℤ), (b : ℤ) => by simp [noLater]

/-- Sorting the whole slice is one such behaviour. -/
def Selection.sorting : Selection where
  run l _ := l.mergeSort fun a b => noLater a.2 b.2
  perm l _ := List.mergeSort_perm l _
  split l i _ a ha b hb := by
    have htrans : ∀ a b c : String × WithBot ℤ, noLater a.2 b.2 = true → noLater b.2 c.2 = true →
        noLater a.2 c.2 = true := fun a b c => by
      simp only [noLater_iff]; exact le_trans
    have htotal : ∀ a b : String × WithBot ℤ, (noLater a.2 b.2 || noLater b.2 a.2) = true :=
      fun a b => by
        rw [Bool.or_eq_true, noLater_iff, noLater_iff]
        exact le_total a.2 b.2
    have hsorted := List.pairwise_mergeSort htrans htotal l
    rw [← List.take_append_drop (i + 1) (l.mergeSort _)] at hsorted
    exact noLater_iff.mp ((List.pairwise_append.mp hsorted).2.2 a ha b hb)

def evictionBatchDivisor : ℕ := 64

def evictionBatchSize (maxKeys : ℕ) : ℕ := max (maxKeys / evictionBatchDivisor) 1

section
variable {β : Type} (sel : Selection) (lastActive : β → WithBot ℤ)

def evictOldestBatch (batch : ℕ) (m : KeyMap String β) : KeyMap String β :=
  if batch = 0 then m
  else
    let entries : Candidates := m.entries.map fun e => (e.1, lastActive e.2)
    if entries.isEmpty then m
    else
      let batch := min batch entries.length
      let entries := if batch < entries.length then sel.run entries (batch - 1) else entries
      m.removeAll ((entries.take batch).map Prod.fst)

/-- Make room for `key`: `if !map.contains_key(key) && map.len() >= max_keys`
    the oldest batch is evicted. -/
def makeRoom (maxKeys : ℕ) (key : String) (m : KeyMap String β) : KeyMap String β :=
  if m.lookup key = none ∧ maxKeys ≤ m.size then
    evictOldestBatch sel lastActive (evictionBatchSize maxKeys) m
  else m

theorem evictOldestBatch_lookup (batch : ℕ) (k : String) (m : KeyMap String β) :
    (evictOldestBatch sel lastActive batch m).lookup k = m.lookup k ∨
      (evictOldestBatch sel lastActive batch m).lookup k = none := by
  simp only [evictOldestBatch]
  split_ifs
  · exact .inl rfl
  · exact .inl rfl
  all_goals
    rw [KeyMap.lookup_removeAll]
    split_ifs
    · exact .inr rfl
    · exact .inl rfl

omit sel lastActive in
/-- Removing the first `n` of the candidates, in whatever order they are. -/
theorem size_removeAll_take {γ : Type} {m : KeyMap String β} {c : List (String × γ)}
    (hperm : (c.map Prod.fst).Perm m.keys) {n : ℕ} (hn : n ≤ c.length) :
    (m.removeAll ((c.take n).map Prod.fst)).size + n = m.size := by
  have hsub : ((c.take n).map Prod.fst).Sublist (c.map Prod.fst) := (List.take_sublist _ _).map _
  have hnodup : (c.map Prod.fst).Nodup := hperm.nodup_iff.mpr m.keys_nodup
  have hsize := KeyMap.size_removeAll (hnodup.sublist hsub) fun k hk =>
    hperm.subset (hsub.subset hk)
  rwa [List.length_map, List.length_take, Nat.min_eq_left hn] at hsize

/-- An eviction removes a whole batch, or all there is. -/
theorem evictOldestBatch_size (batch : ℕ) (m : KeyMap String β) :
    (evictOldestBatch sel lastActive batch m).size + min batch m.size = m.size := by
  have hlength : (m.entries.map fun e => (e.1, lastActive e.2)).length = m.size :=
    List.length_map _
  have hkeys : (m.entries.map fun e => (e.1, lastActive e.2)).map Prod.fst = m.keys := by
    rw [List.map_map]
    rfl
  simp only [evictOldestBatch]
  generalize (m.entries.map fun e => (e.1, lastActive e.2)) = entries at hlength hkeys ⊢
  rw [← hlength]
  split_ifs with hzero hempty hbatch
  · rw [hzero, Nat.zero_min, hlength]
    rfl
  · rw [List.isEmpty_iff] at hempty
    rw [hlength, ← hlength, hempty]
    simp
  · have hsel := sel.perm entries (min batch entries.length - 1)
    have hperm : ((sel.run entries (min batch entries.length - 1)).map Prod.fst).Perm m.keys :=
      hkeys ▸ hsel.map Prod.fst
    refine (size_removeAll_take hperm ?_).trans hlength.symm
    rw [hsel.length_eq]
    exact Nat.min_le_right _ _
  · refine (size_removeAll_take ?_ (Nat.min_le_right _ _)).trans hlength.symm
    rw [hkeys]

/-- Making room can only take another key away. -/
theorem makeRoom_lookup (maxKeys : ℕ) (key k : String) (m : KeyMap String β) :
    (makeRoom sel lastActive maxKeys key m).lookup k = m.lookup k ∨
      (makeRoom sel lastActive maxKeys key m).lookup k = none := by
  simp only [makeRoom]
  split_ifs
  · exact evictOldestBatch_lookup sel lastActive _ k m
  · exact .inl rfl

theorem makeRoom_lookup_self (maxKeys : ℕ) (key : String) (m : KeyMap String β) :
    (makeRoom sel lastActive maxKeys key m).lookup key = m.lookup key := by
  simp only [makeRoom]
  split_ifs with h
  · rcases evictOldestBatch_lookup sel lastActive (evictionBatchSize maxKeys) key m with he | he
    · exact he
    · rw [he, h.1]
  · rfl

theorem makeRoom_of_not {maxKeys : ℕ} {key : String} {m : KeyMap String β}
    (h : ¬ (m.lookup key = none ∧ maxKeys ≤ m.size)) :
    makeRoom sel lastActive maxKeys key m = m := if_neg h

/-- A map within the cap has room for a new key once room has been made. -/
theorem makeRoom_access_size {ω : Type} {maxKeys : ℕ} (hcap : 1 ≤ maxKeys)
    (body : Option β → ω × β) (key : String) {m : KeyMap String β} (h : m.size ≤ maxKeys) :
    ((makeRoom sel lastActive maxKeys key m).access body key).2.size ≤ maxKeys := by
  have hsize := KeyMap.size_insert key
    (body ((makeRoom sel lastActive maxKeys key m).lookup key)).2
    (makeRoom sel lastActive maxKeys key m)
  unfold KeyMap.access
  simp only
  rw [hsize, makeRoom_lookup_self]
  by_cases hfull : m.lookup key = none ∧ maxKeys ≤ m.size
  · have hevict := evictOldestBatch_size sel lastActive (evictionBatchSize maxKeys) m
    have hbatch : 1 ≤ evictionBatchSize maxKeys := le_max_right _ _
    rw [if_pos hfull.1, makeRoom, if_pos hfull]
    omega
  · rw [makeRoom_of_not sel lastActive hfull]
    split_ifs with hnone
    · have : ¬ maxKeys ≤ m.size := fun hle => hfull ⟨hnone, hle⟩
      omega
    · exact h

/-- An access after making room: the key itself is accessed as in the map
    before, and another key keeps its entry or loses it. -/
theorem makeRoom_access_self {ω : Type} (maxKeys : ℕ) (body : Option β → ω × β) (key : String)
    (m : KeyMap String β) :
    ((makeRoom sel lastActive maxKeys key m).access body key).1 = (body (m.lookup key)).1 ∧
      ((makeRoom sel lastActive maxKeys key m).access body key).2.lookup key =
        some (body (m.lookup key)).2 := by
  rw [KeyMap.access_lookup_self, KeyMap.access, makeRoom_lookup_self]
  exact ⟨rfl, rfl⟩

theorem makeRoom_access_ne {ω : Type} (maxKeys : ℕ) (body : Option β → ω × β) {key k : String}
    (h : k ≠ key) (m : KeyMap String β) :
    ((makeRoom sel lastActive maxKeys key m).access body key).2.lookup k = m.lookup k ∨
      ((makeRoom sel lastActive maxKeys key m).access body key).2.lookup k = none := by
  rw [KeyMap.access_lookup_ne body h]
  exact makeRoom_lookup sel lastActive maxKeys key k m

theorem of_kept_or_gone {x y : Option β} {b : β} (h : y = x ∨ y = none) (hb : y = some b) :
    x = some b := by
  rcases h with rfl | rfl
  · exact hb
  · cases hb

/-- What holds of every entry holds of every entry that making room leaves. -/
theorem makeRoom_forall {P : β → Prop} {maxKeys : ℕ} {key : String} {m : KeyMap String β}
    (h : ∀ k x, m.lookup k = some x → P x) {k : String} {x : β}
    (hx : (makeRoom sel lastActive maxKeys key m).lookup k = some x) : P x :=
  h k x (of_kept_or_gone (makeRoom_lookup sel lastActive maxKeys key k m) hx)

/-- What holds of every entry, and of what the body makes of one, holds of every
    entry after an access. -/
theorem makeRoom_access_forall {ω : Type} {P : β → Prop} {body : Option β → ω × β}
    (hbody : ∀ e, (∀ x, e = some x → P x) → P (body e).2) (maxKeys : ℕ) (key : String)
    {m : KeyMap String β} (h : ∀ k x, m.lookup k = some x → P x) {k : String} {x : β}
    (hx : ((makeRoom sel lastActive maxKeys key m).access body key).2.lookup k = some x) :
    P x := by
  have hroom : ∀ k x, (makeRoom sel lastActive maxKeys key m).lookup k = some x → P x :=
    fun _ _ => makeRoom_forall sel lastActive h
  exact (KeyMap.forall_access_iff hroom body key).mpr (hbody _ (hroom key)) k x hx

end

end ArmatureRatelimit
