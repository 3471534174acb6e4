/-
  Finite maps with the operations of a concurrent hash map: an in-place update
  of the entry at a key, `retain`, and the removal of a list of keys.

  `Faded` relates two such maps that differ only in entries which no longer
  matter: entries that the first map has lost and that are stale in the second.
  A pass that drops stale entries keeps two maps related, and so does every
  access, as long as an access cannot tell a stale entry from a missing one.
-/
import Mathlib

namespace Lib

abbrev KeyMap (κ β : Type) := AList (fun _ : κ => β)

namespace KeyMap

variable {κ β ω τ : Type} [DecidableEq κ]

def size (m : KeyMap κ β) : ℕ := m.entries.length

/-- The entry at `k`, created if missing, is replaced by what `body` makes of
    it; the other result of `body` is returned. -/
def access (body : Option β → ω × β) (k : κ) (m : KeyMap κ β) : ω × KeyMap κ β :=
  ((body (m.lookup k)).1, m.insert k (body (m.lookup k)).2)

/-- Keep the entries that satisfy `p`. -/
def retain (p : β → Bool) (m : KeyMap κ β) : KeyMap κ β :=
  ⟨m.entries.filter (fun e => p e.2), m.nodupKeys.sublist List.filter_sublist⟩

def removeAll (ks : List κ) (m : KeyMap κ β) : KeyMap κ β := ks.foldl (fun m k => m.erase k) m

omit [DecidableEq κ] in
/-- Replace every value. -/
def mapValues {γ : Type} (f : β → γ) (m : KeyMap κ β) : KeyMap κ γ where
  entries := m.entries.map fun e => ⟨e.1, f e.2⟩
  nodupKeys := by
    have h := m.nodupKeys
    unfold List.NodupKeys List.keys at h ⊢
    rwa [List.map_map]

/-! ## Lookups -/

theorem lookup_insert_eq_ite (k k' : κ) (v : β) (m : KeyMap κ β) :
    (m.insert k v).lookup k' = if k' = k then some v else m.lookup k' := by
  split_ifs with h
  · subst h; exact AList.lookup_insert m
  · exact AList.lookup_insert_ne h

theorem lookup_erase_eq_ite (k k' : κ) (m : KeyMap κ β) :
    (m.erase k).lookup k' = if k' = k then none else m.lookup k' := by
  split_ifs with h
  · subst h; exact AList.lookup_erase k' m
  · exact AList.lookup_erase_ne h

theorem lookup_eq_some {k : κ} {v : β} {m : KeyMap κ β} :
    m.lookup k = some v ↔ (⟨k, v⟩ : Sigma fun _ : κ => β) ∈ m.entries := by
  rw [← AList.mem_lookup_iff]; rfl

theorem lookup_retain (p : β → Bool) (k : κ) (m : KeyMap κ β) :
    (m.retain p).lookup k = (m.lookup k).filter p := by
  ext v
  rw [lookup_eq_some, Option.filter_eq_some_iff, lookup_eq_some]
  simp [retain]

theorem lookup_mapValues {γ : Type} (f : β → γ) (k : κ) (m : KeyMap κ β) :
    (m.mapValues f).lookup k = (m.lookup k).map f := by
  ext v
  rw [lookup_eq_some, Option.map_eq_some_iff]
  simp only [mapValues, List.mem_map, Sigma.mk.injEq, lookup_eq_some]
  constructor
  · rintro ⟨⟨k', x⟩, hmem, rfl, hv⟩
    exact ⟨x, hmem, eq_of_heq hv⟩
  · rintro ⟨x, hmem, rfl⟩
    exact ⟨⟨k, x⟩, hmem, rfl, HEq.rfl⟩

theorem lookup_removeAll (ks : List κ) (k : κ) (m : KeyMap κ β) :
    (m.removeAll ks).lookup k = if k ∈ ks then none else m.lookup k := by
  induction ks generalizing m with
  | nil => simp [removeAll]
  | cons k' ks ih =>
    show ((removeAll ks (m.erase k')).lookup k) = _
    rw [ih, lookup_erase_eq_ite]
    by_cases hk : k = k' <;> simp [hk]

@[simp] theorem access_lookup_self (body : Option β → ω × β) (k : κ) (m : KeyMap κ β) :
    (m.access body k).2.lookup k = some (body (m.lookup k)).2 := AList.lookup_insert m

theorem access_lookup_ne (body : Option β → ω × β) {k k' : κ} (h : k' ≠ k) (m : KeyMap κ β) :
    (m.access body k).2.lookup k' = m.lookup k' := AList.lookup_insert_ne h

/-- An access keeps what holds of every value exactly if the body's result has
    it. -/
theorem forall_access_iff {P : β → Prop} {m : KeyMap κ β}
    (h : ∀ k v, m.lookup k = some v → P v) (body : Option β → ω × β) (k : κ) :
    (∀ k' v, (m.access body k).2.lookup k' = some v → P v) ↔ P (body (m.lookup k)).2 := by
  constructor
  · exact fun hall => hall k _ (access_lookup_self body k m)
  · intro hbody k' v hv
    by_cases hk : k' = k
    · subst hk
      rw [access_lookup_self] at hv
      exact Option.some.inj hv ▸ hbody
    · rw [access_lookup_ne body hk] at hv
      exact h k' v hv

/-! ## Stale entries -/

section
variable (stale : β → Prop)

/-- `m` is `m'` less some of its stale entries. -/
def Faded (m m' : KeyMap κ β) : Prop :=
  ∀ k, m.lookup k = m'.lookup k ∨ m.lookup k = none ∧ ∃ v, m'.lookup k = some v ∧ stale v

variable {stale}

theorem Faded.refl (m : KeyMap κ β) : Faded stale m m := fun _ => .inl rfl

theorem Faded.mono {stale' : β → Prop} {m m' : KeyMap κ β} (h : Faded stale m m')
    (hs : ∀ k v, m'.lookup k = some v → stale v → stale' v) : Faded stale' m m' := by
  intro k
  rcases h k with heq | ⟨hn, v, hv, hst⟩
  · exact .inl heq
  · exact .inr ⟨hn, v, hv, hs k v hv hst⟩

/-- What a body that cannot tell a stale entry from a missing one returns. -/
theorem Faded.body_eq {m m' : KeyMap κ β} (h : Faded stale m m') {body : Option β → ω}
    (hb : ∀ v, stale v → body (some v) = body none) (k : κ) :
    body (m.lookup k) = body (m'.lookup k) := by
  rcases h k with heq | ⟨hn, v, hv, hst⟩
  · rw [heq]
  · rw [hn, hv, hb v hst]

theorem Faded.insert {m m' : KeyMap κ β} (h : Faded stale m m') (k : κ) (v : β) :
    Faded stale (m.insert k v) (m'.insert k v) := by
  intro k'
  simp only [lookup_insert_eq_ite]
  split_ifs
  · exact .inl rfl
  · exact h k'

theorem Faded.erase {m m' : KeyMap κ β} (h : Faded stale m m') (k : κ) :
    Faded stale (m.erase k) (m'.erase k) := by
  intro k'
  simp only [lookup_erase_eq_ite]
  split_ifs
  · exact .inl rfl
  · exact h k'

/-- **A pass that drops only stale entries goes unnoticed.** -/
theorem Faded.retain {m m' : KeyMap κ β} (h : Faded stale m m') {p : β → Bool}
    (hp : ∀ k v, m'.lookup k = some v → p v = false → stale v) :
    Faded stale (m.retain p) m' := by
  intro k
  rw [lookup_retain]
  rcases h k with heq | ⟨hn, hst⟩
  · cases hv : m'.lookup k with
    | none => exact .inl (by rw [heq, hv]; rfl)
    | some v =>
      cases hpv : p v with
      | true => exact .inl (by rw [heq, hv]; simp [hpv])
      | false => exact .inr ⟨by rw [heq, hv]; simp [hpv], v, rfl, hp k v hv hpv⟩
  · exact .inr ⟨by rw [hn]; rfl, hst⟩

end

/-! ## Sizes -/

omit [DecidableEq κ] in
theorem size_retain_le (p : β → Bool) (m : KeyMap κ β) : (m.retain p).size ≤ m.size :=
  List.length_filter_le _ _

/-- Nothing is dropped exactly if every value satisfies the predicate. -/
theorem size_retain_eq_iff {p : β → Bool} {m : KeyMap κ β} :
    (m.retain p).size = m.size ↔ ∀ k v, m.lookup k = some v → p v = true := by
  refine List.length_filter_eq_length_iff.trans ?_
  constructor
  · exact fun h k v hv => h ⟨k, v⟩ (lookup_eq_some.mp hv)
  · rintro h ⟨k, v⟩ hmem
    exact h k v (lookup_eq_some.mpr hmem)

theorem retain_eq_self {p : β → Bool} {m : KeyMap κ β}
    (h : ∀ k v, m.lookup k = some v → p v = true) : m.retain p = m :=
  AList.ext (List.filter_eq_self.mpr fun e he => h e.1 e.2 (lookup_eq_some.mpr he))

omit [DecidableEq κ] in
theorem size_eq_keys (m : KeyMap κ β) : m.size = m.keys.length := (List.length_map _).symm

theorem lookup_eq_none_iff {k : κ} {m : KeyMap κ β} : m.lookup k = none ↔ k ∉ m.keys :=
  AList.lookup_eq_none.trans (not_congr AList.mem_keys)

omit [DecidableEq κ] in
theorem eq_empty_of_size {m : KeyMap κ β} (h : m.size = 0) : m = ∅ :=
  AList.ext (List.length_eq_zero_iff.mp h)

theorem mem_keys_iff {k : κ} {m : KeyMap κ β} : k ∈ m.keys ↔ ∃ v, m.lookup k = some v := by
  rw [← AList.mem_keys, ← AList.lookup_isSome, Option.isSome_iff_exists]

/-- A map is no larger than a set that has its keys. -/
theorem size_le_card {m : KeyMap κ β} {s : Finset κ} (h : ∀ k ∈ m.keys, k ∈ s) :
    m.size ≤ s.card := by
  rw [size_eq_keys, ← List.toFinset_card_of_nodup m.keys_nodup]
  exact Finset.card_le_card fun k hk => h k (List.mem_toFinset.mp hk)

theorem card_keys_le (m : KeyMap κ β) : m.keys.toFinset.card ≤ m.size := by
  rw [size_eq_keys]
  exact List.toFinset_card_le _

/-- Only a new key makes the map larger. -/
theorem size_insert (k : κ) (v : β) (m : KeyMap κ β) :
    size (m.insert k v) = if m.lookup k = none then m.size + 1 else m.size := by
  rw [size_eq_keys, size_eq_keys, AList.keys_insert, List.length_cons]
  split_ifs with h
  · rw [List.erase_of_not_mem (lookup_eq_none_iff.mp h)]
  · have hmem : k ∈ m.keys := not_not.mp (mt lookup_eq_none_iff.mpr h)
    rw [List.length_erase_of_mem hmem]
    have := List.length_pos_of_mem hmem
    omega

theorem size_erase_le (k : κ) (m : KeyMap κ β) : size (m.erase k) ≤ m.size := by
  rw [size_eq_keys, size_eq_keys, AList.keys_erase]
  exact List.length_erase_le

/-- Distinct keys of the map are removed one by one. -/
theorem size_removeAll {ks : List κ} (hnodup : ks.Nodup) {m : KeyMap κ β}
    (hks : ∀ k ∈ ks, k ∈ m.keys) : (m.removeAll ks).size + ks.length = m.size := by
  induction ks generalizing m with
  | nil => rfl
  | cons k ks ih =>
    obtain ⟨hk, hnodup⟩ := List.nodup_cons.mp hnodup
    have hmem : k ∈ m.keys := hks k (by simp)
    have hrest : ∀ k' ∈ ks, k' ∈ (m.erase k).keys := by
      intro k' hk'
      have hne : k' ≠ k := by
        rintro rfl
        exact hk hk'
      rw [AList.keys_erase, List.mem_erase_of_ne hne]
      exact hks k' (by simp [hk'])
    have hsize : size (m.erase k) + 1 = m.size := by
      rw [size_eq_keys, size_eq_keys, AList.keys_erase, List.length_erase_of_mem hmem]
      have := List.length_pos_of_mem hmem
      omega
    show (removeAll ks (m.erase k)).size + (ks.length + 1) = m.size
    rw [← hsize, ← ih hnodup hrest]
    ring

end KeyMap

end Lib
