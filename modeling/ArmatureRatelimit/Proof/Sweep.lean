/-
  What `RedisStore::reset` deletes (`stores/redis.rs`).

  `SCAN` matches names, as bytes, against a glob pattern; whether the bytes of a
  range are compared as signed or unsigned is up to the server's platform (`le`).
  A reset that completes without concurrent writers has deleted the keys that it
  builds, and every key that the pattern of its sweep matches (`reset_lookup`).
-/
import ArmatureRatelimit.Proof.KeyNames
import ArmatureRatelimit.Lib.Glob

open Lib Lib.Redis

namespace ArmatureRatelimit

/-! ## Scanning -/

/-- The characters with a meaning in a pattern of Redis: `*?[]^-\`. -/
def redisMarks : Glob.Marks UInt8 where
  star := 42
  any := 63
  opening := 91
  closing := 93
  negate := 94
  dash := 45
  escape := 92

/-- A name matches a pattern. -/
def globMatch (le : UInt8 → UInt8 → Bool) (pattern name : String) : Bool :=
  Glob.accepts le (Glob.parse redisMarks (Texts.utf8 pattern)) (Texts.utf8 name)

example : globMatch (fun a b => decide (a ≤ b)) "h[a-c]l*\\?" "hallo?" = true := by decide

variable {ν : Type}

/-- A full iteration with a pattern, from the keys `db`: only matching keys are
    returned, and every matching key that is there throughout.  A key that is
    there at the start stays, unless a turn returns it and it is unlinked. -/
structure FullScan (le : UInt8 → UInt8 → Bool) (pattern : String) (turns : List SweepTurn)
    (db : Db ν) : Prop where
  matching : ∀ turn ∈ turns, ∀ k ∈ turn.keys, globMatch le pattern k = true
  complete : ∀ k, db.lookup k ≠ none → globMatch le pattern k = true →
    ∃ turn ∈ turns, k ∈ turn.keys

/-- One turn that returns all matching keys. -/
def scanAtOnce (le : UInt8 → UInt8 → Bool) (db : Db ν) (pattern : String) : List SweepTurn :=
  [⟨.answered 0, db.keys.filter (globMatch le pattern), .answered 0⟩]

theorem scanAtOnce_full (le : UInt8 → UInt8 → Bool) {db db' : Db ν} (pattern : String)
    (hsub : ∀ k, db'.lookup k ≠ none → db.lookup k ≠ none) :
    FullScan le pattern (scanAtOnce le db pattern) db' where
  matching turn hturn k hk := by
    obtain rfl := List.mem_singleton.mp hturn
    exact (List.mem_filter.mp hk).2
  complete k hk hmatch := by
    refine ⟨_, List.mem_singleton_self _, List.mem_filter.mpr ⟨?_, hmatch⟩⟩
    by_contra hmem
    exact hsub k hk (KeyMap.lookup_eq_none_iff.mpr hmem)

/-! ## The sweep -/

section
variable {store : RedisStore} {env : RedisEnv}

/-- A sweep that completes has unlinked everything that `SCAN` returned. -/
theorem sweep_lookup {turns : List SweepTurn} {db : Db ν}
    (h : (store.sweep env turns db).1 = .ok ()) (k : String) :
    ((∃ turn ∈ turns, k ∈ turn.keys) → (store.sweep env turns db).2.lookup k = none) ∧
      ((∀ turn ∈ turns, k ∉ turn.keys) →
        (store.sweep env turns db).2.lookup k = db.lookup k) := by
  induction turns generalizing db with
  | nil => exact ⟨fun ⟨_, hmem, _⟩ => absurd hmem List.not_mem_nil, fun _ => rfl⟩
  | cons turn turns ih =>
    rw [RedisStore.sweep] at h ⊢
    cases hscan : store.withOpTimeout { env with delivery := turn.scan }
        (pure turn.keys : Script ν (List String)) db with
    | mk r db₁ =>
      rw [hscan] at h
      cases r with
      | error e => cases h
      | ok keys =>
        obtain ⟨hkeys, hdb⟩ := RedisStore.withOpTimeout_ok (congrArg Prod.fst hscan)
        rw [hscan] at hdb
        obtain rfl : turn.keys = keys := Except.ok.inj hkeys
        obtain rfl : db₁ = db := hdb
        simp only at h ⊢
        split_ifs at h ⊢ with hempty
        · rw [List.isEmpty_iff] at hempty
          have hrest := ih h
          simpa [hempty] using hrest
        · cases hunlink : store.withOpTimeout { env with delivery := turn.unlink }
              (Lib.Redis.unlink turn.keys) db₁ with
          | mk r' db₂ =>
            rw [hunlink] at h
            cases r' with
            | error e => cases h
            | ok u =>
              obtain ⟨-, hdb₂⟩ := RedisStore.withOpTimeout_ok (congrArg Prod.fst hunlink)
              rw [hunlink] at hdb₂
              have hlookup : db₂.lookup k = if k ∈ turn.keys then none else db₁.lookup k := by
                rw [show db₂ = db₁.removeAll turn.keys from hdb₂, KeyMap.lookup_removeAll]
              obtain ⟨hgone, hstays⟩ := ih h
              constructor
              · rintro ⟨t, ht, hk⟩
                by_cases hlater : ∃ t ∈ turns, k ∈ t.keys
                · exact hgone hlater
                · rcases List.mem_cons.mp ht with rfl | ht
                  · have hnot : ∀ t' ∈ turns, k ∉ t'.keys := fun t' ht' hk' =>
                      hlater ⟨t', ht', hk'⟩
                    exact (hstays hnot).trans (hlookup.trans (if_pos hk))
                  · exact absurd ⟨t, ht, hk⟩ hlater
              · intro hnone
                have hhead : k ∉ turn.keys := hnone turn (by simp)
                exact (hstays fun t ht => hnone t (by simp [ht])).trans
                  (hlookup.trans (if_neg hhead))

variable {keyDigest : String → String} {le : UInt8 → UInt8 → Bool}

/-- **What a reset deletes.** -/
theorem reset_lookup {scan : String → List SweepTurn} {key : String} {db : Db ν}
    (hscan : FullScan le (store.sweepPattern keyDigest key)
      (scan (store.sweepPattern keyDigest key)) (db.removeAll (store.fixedKeys keyDigest key)))
    (h : (store.reset keyDigest env scan key db).1 = .ok ()) (k : String) :
    (store.reset keyDigest env scan key db).2.lookup k =
      if k ∈ store.fixedKeys keyDigest key ∨
        globMatch le (store.sweepPattern keyDigest key) k = true then none else db.lookup k := by
  rw [RedisStore.reset] at h ⊢
  cases hunlink : store.withOpTimeout env
      (Lib.Redis.unlink (store.fixedKeys keyDigest key)) db with
  | mk r db' =>
    rw [hunlink] at h
    cases r with
    | error e => cases h
    | ok u =>
      obtain ⟨-, hdb⟩ := RedisStore.withOpTimeout_ok (congrArg Prod.fst hunlink)
      rw [hunlink] at hdb
      obtain rfl : db' = db.removeAll (store.fixedKeys keyDigest key) := hdb
      obtain ⟨hgone, hstays⟩ := sweep_lookup h k
      have hfixed := KeyMap.lookup_removeAll (store.fixedKeys keyDigest key) k db
      by_cases hturn : ∃ turn ∈ scan (store.sweepPattern keyDigest key), k ∈ turn.keys
      · obtain ⟨turn, hmem, hk⟩ := hturn
        rw [if_pos (.inr (hscan.matching turn hmem k hk))]
        exact hgone ⟨turn, hmem, hk⟩
      · have hnot : ∀ turn ∈ scan (store.sweepPattern keyDigest key), k ∉ turn.keys :=
          fun turn hmem hk => hturn ⟨turn, hmem, hk⟩
        refine (hstays hnot).trans ?_
        by_cases hmatch : globMatch le (store.sweepPattern keyDigest key) k = true
        · rw [if_pos (.inr hmatch)]
          by_contra hthere
          exact hturn (hscan.complete k hthere hmatch)
        · rw [hfixed]
          simp only [hmatch, Bool.false_eq_true, or_false]

/-- With every answer in time a reset completes. -/
theorem reset_completes (key : String) (db : Db ν) (unix server : ℤ) :
    (store.reset keyDigest ⟨unix, server, .answered 0⟩ (scanAtOnce le db) key db).1 = .ok () := by
  have hanswer : ∀ {α : Type} (x : Script ν α) (db : Db ν) {a : α} {db' : Db ν},
      x db = (.ok a, db') →
      store.withOpTimeout ⟨unix, server, .answered 0⟩ x db = (.ok a, db') := by
    intro α x db a db' hx
    simp only [RedisStore.withOpTimeout, Nat.zero_le, if_true, hx]
  simp only [RedisStore.reset, scanAtOnce, RedisStore.sweep]
  rw [hanswer _ _ (show Lib.Redis.unlink (store.fixedKeys keyDigest key) db = _ from rfl)]
  simp only
  rw [hanswer _ _ (show (pure _ : Script ν (List String)) _ = _ from rfl)]
  simp only
  split_ifs
  · rfl
  · rw [hanswer _ _ (show Lib.Redis.unlink _ _ = _ from rfl)]

end

end ArmatureRatelimit
