/-
  The Redis keys that a check touches (`stores/redis.rs`).

  A check touches a key if it writes it in some state of the server, or if what
  it does on the other keys depends on this one.  It touches none but those it
  names (`RedisCall.Touches.mem_names`), so that checks of different prefixes,
  rate-limit keys or algorithms never meet (`redisNames_collisionFree`).
-/
import ArmatureRatelimit.RedisFleet

open Lib Lib.Redis

namespace ArmatureRatelimit

section
variable {ν : Type} [F64 ν] {keyDigest : String → String} {store : RedisStore}
  {c : RedisCall ν} {name : String}

/-- The check writes the key, or reads it: two states of the server that differ
    in this key alone are not the same to it. -/
def RedisCall.Touches (keyDigest : String → String) (store : RedisStore) (c : RedisCall ν)
    (name : String) : Prop :=
  (∃ db, (store.serve keyDigest c db).2.lookup name ≠ db.lookup name) ∨
    ¬ Respects (Agree (· ≠ name)) (store.serve keyDigest c)

/-- A check touches the keys that it names and no others. -/
theorem RedisCall.Touches.mem_names (h : c.Touches keyDigest store name)
    (hcheck : c.op.isReset = false) : name ∈ c.names keyDigest store := by
  by_contra hnot
  rcases h with ⟨db, hwrites⟩ | hreads
  · exact hwrites (RedisStore.serve_leaves hcheck hnot db)
  · refine hreads (RedisStore.serve_respects (agree_kept _) fun r hr => ?_)
    refine agree_shows ?_ _
    rintro rfl
    exact hnot (List.mem_map.mpr ⟨r, hr, rfl⟩)

end

/-- **Key names never collide.**  Two stores with any prefixes build the same
    name for two rate-limit keys, which their digests tell apart, only if the
    prefixes, the keys and the roles are the same.  So checks of stores with
    different prefixes, or of different keys or algorithms, name no key in
    common, and touch none. -/
theorem redisNames_collisionFree {ν : Type} [F64 ν] {sha256 : String → Vector (BitVec 8) 32}
    (store store' : RedisStore) {k k' : String} (hsha : sha256 k = sha256 k' → k = k') :
    (∀ r r', store.roleKey (keyDigest sha256 k) r = store'.roleKey (keyDigest sha256 k') r' →
      store.keyPrefix = store'.keyPrefix ∧ k = k' ∧ r = r') ∧
    ∀ c c' : RedisCall ν, c.op.key = k → c'.op.key = k' →
      (store.keyPrefix ≠ store'.keyPrefix ∨ k ≠ k' ∨ c.op.kind ≠ c'.op.kind) →
      (∀ name ∈ c.names (keyDigest sha256) store, name ∉ c'.names (keyDigest sha256) store') ∧
      (c.op.isReset = false → c'.op.isReset = false → ∀ name,
        c.Touches (keyDigest sha256) store name →
          ¬ c'.Touches (keyDigest sha256) store' name) := by
  have hroles : ∀ r r',
      store.roleKey (keyDigest sha256 k) r = store'.roleKey (keyDigest sha256 k') r' →
        store.keyPrefix = store'.keyPrefix ∧ k = k' ∧ r = r' := by
    intro r r' h
    obtain ⟨hsame, hdigest, hrole⟩ := roleKey_inj h
    exact ⟨hsame, hsha (keyDigest_inj hdigest), hrole⟩
  refine ⟨hroles, ?_⟩
  rintro c c' rfl rfl hdiff
  have hnames : ∀ name ∈ c.names (keyDigest sha256) store,
      name ∉ c'.names (keyDigest sha256) store' := by
    intro name hname hname'
    obtain ⟨r, hr, rfl⟩ := List.mem_map.mp hname
    obtain ⟨r', hr', heq⟩ := List.mem_map.mp hname'
    obtain ⟨hsame, hkey, rfl⟩ := hroles r r' heq.symm
    rcases hdiff with hne | hne | hne
    · exact hne hsame
    · exact hne hkey
    · exact hne (RedisCall.kind_of_role hr hr')
  refine ⟨hnames, ?_⟩
  intro hcheck hcheck' name htouches htouches'
  exact hnames name (htouches.mem_names hcheck) (htouches'.mem_names hcheck')

/-- The checks of two limiters, one of which has a colon in its prefix. -/
theorem redisNames_collisionFree_prefixes :
    (∀ r r', RedisStore.roleKey ⟨"app", 0⟩ (keyDigest sampleSha256 "client") r =
        RedisStore.roleKey ⟨"app:fw", 0⟩ (keyDigest sampleSha256 "visitor") r' →
      ("app" : String) = "app:fw" ∧ ("client" : String) = "visitor" ∧ r = r') ∧
    (∀ name ∈ (minuteCheck "client").names (keyDigest sampleSha256) ⟨"app", 0⟩,
      name ∉ (minuteCheck "visitor").names (keyDigest sampleSha256) ⟨"app:fw", 0⟩) ∧
    ∀ name, (minuteCheck "client").Touches (keyDigest sampleSha256) ⟨"app", 0⟩ name →
      ¬ (minuteCheck "visitor").Touches (keyDigest sampleSha256) ⟨"app:fw", 0⟩ name :=
  have hcollisionFree := redisNames_collisionFree (ν := ℚ) ⟨"app", 0⟩ ⟨"app:fw", 0⟩
    (by decide : sampleSha256 "client" = sampleSha256 "visitor" → "client" = "visitor")
  have happart := hcollisionFree.2 (minuteCheck "client") (minuteCheck "visitor") rfl rfl
    (.inl (by decide))
  ⟨hcollisionFree.1, happart.1, happart.2 rfl rfl⟩

end ArmatureRatelimit
