/-
  Databases that operations cannot tell apart.

  A relation between databases that reads agree on (`Shows`) and writes keep
  (`Kept`) is respected by every command, and by every script of such commands:
  it answers alike on related databases and leaves them related.  Two relations
  of this kind are `Agree`, for operations that stay within some keys, and
  `SameFrom`, for operations from some moment on, which do not see what has
  expired by then.
-/
import ArmatureRatelimit.Lib.Redis

namespace Lib.Redis

variable {ν α β : Type} {R : Db ν → Db ν → Prop}

/-- Writes keep the relation. -/
structure Kept (R : Db ν → Db ν → Prop) : Prop where
  insert : ∀ {db db'}, R db db' → ∀ key e, R (db.insert key e) (db'.insert key e)
  erase : ∀ {db db'}, R db db' → ∀ key, R (db.erase key) (db'.erase key)

/-- Related databases show the same at `key`. -/
def Shows (R : Db ν → Db ν → Prop) (now : ℤ) (key : String) : Prop :=
  ∀ db db', R db db' → find now key db = find now key db'

/-- Related databases are the same to the operation. -/
def Respects (R : Db ν → Db ν → Prop) (f : Db ν → α × Db ν) : Prop :=
  ∀ db db', R db db' → (f db).1 = (f db').1 ∧ R (f db).2 (f db').2

theorem Respects.runs {f : Db ν → α × Db ν} (hf : Respects R f) {db db' : Db ν} (h : R db db') :
    ∃ r db₁ db₁', f db = (r, db₁) ∧ f db' = (r, db₁') ∧ R db₁ db₁' := by
  obtain ⟨hreply, hrel⟩ := hf db db' h
  exact ⟨(f db).1, (f db).2, (f db').2, rfl, by rw [hreply], hrel⟩

/-! ## Scripts -/

namespace Respects

theorem pure (a : α) : Respects R (Pure.pure a : Script ν α) := fun _ _ h => ⟨rfl, h⟩

theorem ofExcept (r : Except String α) : Respects R (Script.ofExcept r : Script ν α) :=
  fun _ _ h => ⟨rfl, h⟩

theorem bind {x : Script ν α} {f : α → Script ν β} (hx : Respects R x)
    (hf : ∀ a, Respects R (f a)) : Respects R (x >>= f) := by
  intro db db' h
  obtain ⟨r, db₁, db₁', hrun, hrun', hrel⟩ := hx.runs h
  cases r with
  | ok a =>
    rw [Script.bind_ok hrun, Script.bind_ok hrun']
    exact hf a db₁ db₁' hrel
  | error msg =>
    rw [Script.bind_error hrun, Script.bind_error hrun']
    exact ⟨rfl, hrel⟩

theorem ite {p : Prop} [Decidable p] {x y : Db ν → α × Db ν} (hx : Respects R x)
    (hy : Respects R y) : Respects R (if p then x else y) := by
  split_ifs
  · exact hx
  · exact hy

end Respects

/-! ## Commands -/

section
variable (hR : Kept R) {now : ℤ} {key : String} (hkey : Shows R now key)

section
include hkey

theorem hmget_respects (fields : List String) : Respects R (hmget now key fields) := by
  intro db db' h
  simp only [hmget, hkey db db' h]
  split <;> exact ⟨rfl, h⟩

theorem hget_respects (field : String) : Respects R (hget now key field) := by
  intro db db' h
  simp only [hget, hkey db db' h]
  split <;> exact ⟨rfl, h⟩

theorem get_respects : Respects R (get now key) := by
  intro db db' h
  simp only [get, hkey db db' h]
  split <;> exact ⟨rfl, h⟩

theorem zcard_respects : Respects R (zcard now key) := by
  intro db db' h
  simp only [zcard, hkey db db' h]
  split <;> exact ⟨rfl, h⟩

end

theorem mget_respects {keys : List String} (hkeys : ∀ key ∈ keys, Shows R now key) :
    Respects R (mget now keys) := by
  intro db db' h
  refine ⟨?_, h⟩
  simp only [mget, Except.ok.injEq]
  refine List.map_congr_left fun key hmem => ?_
  rw [hkeys key hmem db db' h]

include hR

theorem setEx_respects (now : ℤ) (key : String) (v : Value ν) (ttl : Option ℤ) :
    Respects R (setEx now key v ttl) := by
  intro db db' h
  simp only [setEx]
  split
  · exact ⟨rfl, h⟩
  · split_ifs
    · exact ⟨rfl, h⟩
    · exact ⟨rfl, hR.insert h _ _⟩

theorem unlink_respects (keys : List String) : Respects R (unlink keys) := by
  intro db db' h
  refine ⟨rfl, ?_⟩
  show R (db.removeAll keys) (db'.removeAll keys)
  induction keys generalizing db db' with
  | nil => exact h
  | cons key keys ih => exact ih _ _ (hR.erase h key)

include hkey

theorem hmset_respects (pairs : List (String × ν)) : Respects R (hmset now key pairs) := by
  intro db db' h
  simp only [hmset, hkey db db' h]
  split
  · exact ⟨rfl, hR.insert h _ _⟩
  · exact ⟨rfl, hR.insert h _ _⟩
  · exact ⟨rfl, h⟩

theorem expire_respects (ttl : Option ℤ) : Respects R (expire now key ttl) := by
  intro db db' h
  simp only [expire, hkey db db' h]
  split
  · exact ⟨rfl, h⟩
  · split
    · exact ⟨rfl, h⟩
    · refine ⟨rfl, ?_⟩
      simp only
      split_ifs
      · exact hR.erase h _
      · exact hR.insert h _ _

theorem incr_respects : Respects R (incr now key) := by
  intro db db' h
  simp only [incr, hkey db db' h]
  split
  · exact ⟨rfl, hR.insert h _ _⟩
  · split_ifs
    · exact ⟨rfl, h⟩
    · exact ⟨rfl, hR.insert h _ _⟩
  · exact ⟨rfl, h⟩
  · exact ⟨rfl, h⟩

theorem zremrangebyscore_respects (lo hi : ℤ) : Respects R (zremrangebyscore now key lo hi) := by
  intro db db' h
  simp only [zremrangebyscore, hkey db db' h]
  split
  · exact ⟨rfl, h⟩
  · refine ⟨rfl, ?_⟩
    simp only
    split_ifs
    · exact hR.erase h _
    · exact hR.insert h _ _
  · exact ⟨rfl, h⟩

theorem zadd_respects (score : ℤ) (member : String) :
    Respects R (zadd now key score member) := by
  intro db db' h
  simp only [zadd, hkey db db' h]
  split
  · exact ⟨rfl, hR.insert h _ _⟩
  · exact ⟨rfl, hR.insert h _ _⟩
  · exact ⟨rfl, h⟩

end

/-! ## Some keys -/

/-- The databases hold the same under the keys of `K`. -/
def Agree (K : String → Prop) (db db' : Db ν) : Prop := ∀ k, K k → db.lookup k = db'.lookup k

theorem agree_kept (K : String → Prop) : Kept (Agree (ν := ν) K) where
  insert h key e := by
    intro k hk
    rw [KeyMap.lookup_insert_eq_ite, KeyMap.lookup_insert_eq_ite, h k hk]
  erase h key := by
    intro k hk
    rw [KeyMap.lookup_erase_eq_ite, KeyMap.lookup_erase_eq_ite, h k hk]

theorem agree_shows {K : String → Prop} {key : String} (hkey : K key) (now : ℤ) :
    Shows (Agree (ν := ν) K) now key := fun _ _ h => find_congr (h key hkey)

/-! ## From some moment on -/

/-- From `t` on the databases look the same. -/
def SameFrom (t : ℤ) (db db' : Db ν) : Prop :=
  ∀ now, t ≤ now → ∀ key, find now key db = find now key db'

theorem find_insert (now : ℤ) (key k : String) (e : Entry ν) (db : Db ν) :
    find now k (db.insert key e) =
      if k = key then (some e).filter (Entry.live now) else find now k db := by
  rw [find, KeyMap.lookup_insert_eq_ite]
  split_ifs <;> rfl

theorem find_erase (now : ℤ) (key k : String) (db : Db ν) :
    find now k (db.erase key) = if k = key then none else find now k db := by
  rw [find, KeyMap.lookup_erase_eq_ite]
  split_ifs <;> rfl

theorem sameFrom_kept (t : ℤ) : Kept (SameFrom (ν := ν) t) where
  insert h key e := by
    intro now hnow k
    rw [find_insert, find_insert, h now hnow]
  erase h key := by
    intro now hnow k
    rw [find_erase, find_erase, h now hnow]

theorem sameFrom_shows {t now : ℤ} (h : t ≤ now) (key : String) :
    Shows (SameFrom (ν := ν) t) now key := fun _ _ hsame => hsame now h key

end Lib.Redis
