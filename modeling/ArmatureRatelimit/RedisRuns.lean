/-
  Runs of the Redis store: checks of any algorithm and resets, by any number of
  instances, in the order in which the server executes them.

  `serve_counter`: the counter of a window changes only by the fixed window
  checks of its digest in that window, and by resets.
-/
import ArmatureRatelimit.Scripts.FixedWindow
import ArmatureRatelimit.Lib.Runs

open Lib Lib.Redis

namespace ArmatureRatelimit

/-! ## Calls -/

inductive RedisOp (ν : Type)
  | tokenBucket (key : String) (capacity : ℕ) (refillRate : ν)
  | slidingWindow (key : String) (maxRequests window : ℕ)
  | fixedWindow (key : String) (maxRequests window : ℕ)
  | reset (key : String) (scan : String → List SweepTurn)

structure RedisCall (ν : Type) where
  env : RedisEnv
  op : RedisOp ν

def RedisOp.isReset {ν : Type} : RedisOp ν → Bool
  | .reset _ _ => true
  | _ => false

/-- The milliseconds of a window, in the width and with the minimum of the store. -/
def windowMillis (window : ℕ) : ℕ := max (asU64 (Duration.asMillis window)) 1

/-- The id of the window that a fixed window check counts in. -/
def windowIdAt (window : ℕ) (unix : ℤ) : ℕ :=
  asU64 (Duration.asMillis unix.toNat) / windowMillis window

/-- Seconds after which the keys of a window expire. -/
def fixedTtl (window : ℕ) : ℕ := max ((windowMillis window + 999) / 1000) 1 + 10

open RedisStore in
/-- The script reads it as a double, which is no less than the ten seconds. -/
theorem luaInt_fixedTtl_pos (window : ℕ) : 0 < luaInt (fixedTtl window) := by
  have hten : luaInt 10 = 10 := luaInt_eq (by decide)
  have hle : (10 : ℤ) ≤ fixedTtl window := by
    unfold fixedTtl
    omega
  have := luaInt_mono hle
  omega

open RedisStore in
/-- It is exact for windows of up to 146 million years. -/
theorem luaInt_fixedTtl {window : ℕ} (h : Duration.asMillis window < 2 ^ 62) :
    luaInt (fixedTtl window) = fixedTtl window := by
  refine luaInt_eq ?_
  rw [Int.natAbs_natCast]
  unfold fixedTtl windowMillis
  rw [asU64_of_lt (by omega)]
  omega

theorem asI64_fixedTtl (window : ℕ) : asI64 (fixedTtl window) = fixedTtl window := by
  have hmillis : windowMillis window ≤ 2 ^ 64 := by
    unfold windowMillis asU64
    omega
  unfold fixedTtl
  exact asI64_of_lt (by omega)

/-- What the store makes of a count. -/
def fixedDecision (maxRequests : ℕ) (result : ℤ) : Bool × ℕ :=
  if asU64 result ≤ maxRequests then (true, maxRequests - asU64 result) else (false, 0)

/-- The digest and the window that a fixed window check counts in. -/
def RedisCall.window? {ν : Type} (keyDigest : String → String) (c : RedisCall ν) :
    Option (String × ℕ) :=
  match c.op with
  | .fixedWindow key _ window => some (keyDigest key, windowIdAt window c.env.unix)
  | _ => none

namespace RedisStore

section
variable {ν : Type} [F64 ν] (keyDigest : String → String)

/-- A call; a reset decides nothing. -/
def serve (self : RedisStore) (c : RedisCall ν) (db : Db ν) :
    Outcome (Option (Bool × ℕ)) × Db ν :=
  match c.op with
  | .tokenBucket key capacity refillRate =>
    let r := self.tokenBucketCheck keyDigest c.env key capacity refillRate db
    (r.1.map some, r.2)
  | .slidingWindow key maxRequests window =>
    let r := self.slidingWindowCheck keyDigest c.env key maxRequests window db
    (r.1.map some, r.2)
  | .fixedWindow key maxRequests window =>
    let r := self.fixedWindowCheck keyDigest c.env key maxRequests window db
    (r.1.map some, r.2)
  | .reset key scan =>
    let r := self.reset keyDigest c.env scan key db
    (r.1.map fun _ => none, r.2)

end

variable {ν : Type}

/-! ## What an operation leaves alone -/

theorem withOpTimeout_inv {store : RedisStore} {α : Type} {x : Script ν α} {P : Db ν → Prop}
    {db : Db ν} (h : P db) (hx : P (x db).2) (env : RedisEnv) :
    P (store.withOpTimeout env x db).2 := by
  rcases withOpTimeout_snd env x db with hdb | hdb
  · rwa [hdb]
  · rwa [hdb]

theorem withOpTimeout_leaves (store : RedisStore) {α : Type} {k : String} {x : Script ν α}
    (h : Script.Leaves k x) (env : RedisEnv) (db : Db ν) :
    (store.withOpTimeout env x db).2.lookup k = db.lookup k :=
  withOpTimeout_inv (P := fun db' : Db ν => db'.lookup k = db.lookup k) rfl (h db) env

/-! ### Resets -/

section
variable {store : RedisStore} {keyDigest : String → String} {k key : String} {P : Db ν → Prop}

/-- What unlinking the returned keys preserves holds after a sweep. -/
theorem sweep_inv (env : RedisEnv) {turns : List SweepTurn} {db : Db ν} (h : P db)
    (hs : ∀ turn ∈ turns, ∀ db : Db ν, P db → P (db.removeAll turn.keys)) :
    P (store.sweep env turns db).2 := by
  induction turns generalizing db with
  | nil => exact h
  | cons turn turns ih =>
    have hrest : ∀ db : Db ν, P db → P (store.sweep env turns db).2 := fun db hdb =>
      ih hdb fun t ht => hs t (by simp [ht])
    have hscan : P (store.withOpTimeout { env with delivery := turn.scan }
        (pure turn.keys : Script ν (List String)) db).2 := withOpTimeout_inv h h _
    rw [sweep]
    split
    · rename_i db' hrun
      rwa [hrun] at hscan
    · rename_i keys db' hrun
      obtain rfl := Except.ok.inj (withOpTimeout_ok (congrArg Prod.fst hrun)).1
      rw [hrun] at hscan
      split_ifs
      · exact hrest db' hscan
      · have hunlink : P (store.withOpTimeout { env with delivery := turn.unlink }
            (Lib.Redis.unlink turn.keys) db').2 :=
          withOpTimeout_inv hscan (hs turn (by simp) db' hscan) _
        split
        · rename_i db'' hrun'
          rwa [hrun'] at hunlink
        · rename_i db'' hrun'
          rw [hrun'] at hunlink
          exact hrest db'' hunlink

/-- What holds after the first `UNLINK`, and is preserved by the others, holds
    after a reset. -/
theorem reset_inv {env : RedisEnv} {scan : String → List SweepTurn} {db : Db ν}
    (h : P (store.withOpTimeout env (Lib.Redis.unlink (store.fixedKeys keyDigest key)) db).2)
    (hs : ∀ turn ∈ scan (store.sweepPattern keyDigest key), ∀ db : Db ν, P db →
      P (db.removeAll turn.keys)) : P (store.reset keyDigest env scan key db).2 := by
  rw [reset]
  split
  · rename_i db' hrun
    rwa [hrun] at h
  · rename_i db' hrun
    rw [hrun] at h
    exact sweep_inv env h hs

theorem removeAll_missing {db : Db ν} (h : db.lookup k = none) (keys : List String) :
    (db.removeAll keys).lookup k = none := by
  rw [KeyMap.lookup_removeAll, h, ite_self]

theorem reset_missing (env : RedisEnv) (scan : String → List SweepTurn) (key : String) {db : Db ν}
    (h : db.lookup k = none) : (store.reset keyDigest env scan key db).2.lookup k = none := by
  refine reset_inv (P := fun db : Db ν => db.lookup k = none) ?_ fun turn _ _ hdb =>
    removeAll_missing hdb turn.keys
  exact withOpTimeout_inv (P := fun db : Db ν => db.lookup k = none) h (removeAll_missing h _) env

/-- A reset whose first `UNLINK` the server executes removes the keys that it
    builds. -/
theorem reset_removes {env : RedisEnv} (hexecuted : env.delivery.executed = true)
    (hfixed : k ∈ store.fixedKeys keyDigest key) (scan : String → List SweepTurn) (db : Db ν) :
    (store.reset keyDigest env scan key db).2.lookup k = none := by
  refine reset_inv (P := fun db : Db ν => db.lookup k = none) ?_ fun turn _ _ hdb =>
    removeAll_missing hdb turn.keys
  rw [withOpTimeout_executed hexecuted]
  exact (KeyMap.lookup_removeAll _ k db).trans (if_pos hfixed)

/-- A reset touches the keys that it builds and those that `SCAN` returned. -/
theorem reset_leaves (env : RedisEnv) {scan : String → List SweepTurn}
    (hfixed : k ∉ store.fixedKeys keyDigest key)
    (hscan : ∀ turn ∈ scan (store.sweepPattern keyDigest key), k ∉ turn.keys) (db : Db ν) :
    (store.reset keyDigest env scan key db).2.lookup k = db.lookup k := by
  have hleaves : ∀ (keys : List String) (db : Db ν), k ∉ keys →
      (db.removeAll keys).lookup k = db.lookup k := fun keys db hk =>
    (KeyMap.lookup_removeAll keys k db).trans (if_neg hk)
  refine reset_inv (P := fun db' : Db ν => db'.lookup k = db.lookup k) ?_ ?_
  · exact withOpTimeout_inv (P := fun db' : Db ν => db'.lookup k = db.lookup k) rfl
      (hleaves _ db hfixed) env
  · intro turn hturn db' hdb
    exact (hleaves _ db' (hscan turn hturn)).trans hdb

end

section
variable {keyDigest : String → String} {store : RedisStore}

/-- The script of a check. -/
def checkScript (store : RedisStore) (digest : String) (maxRequests window : ℕ) (env : RedisEnv) :
    Script ν ℤ :=
  fixedWindowScript env.server (store.counterKey digest (windowIdAt window env.unix))
    (store.key ("fwmax:" ++ digest)) (store.key ("fwcur:" ++ digest)) maxRequests
    (windowIdAt window env.unix) (asI64 (fixedTtl window))

theorem fixedWindowCheck_eq {env : RedisEnv} (hunix : 0 ≤ env.unix) (key : String)
    (maxRequests window : ℕ) (db : Db ν) :
    store.fixedWindowCheck keyDigest env key maxRequests window db =
      let r := store.withOpTimeout env (store.checkScript (keyDigest key) maxRequests window env) db
      (r.1.map (fixedDecision maxRequests), r.2) := by
  unfold fixedWindowCheck
  simp only [sinceEpoch, hunix, if_true]
  rfl

theorem checkScript_leaves {k digest : String} {window : ℕ} {env : RedisEnv}
    (hkey : k ≠ store.counterKey digest (windowIdAt window env.unix))
    (hmax : k ≠ store.key ("fwmax:" ++ digest)) (hcur : k ≠ store.key ("fwcur:" ++ digest))
    (maxRequests : ℕ) :
    Script.Leaves k (store.checkScript digest maxRequests window env : Script ν ℤ) :=
  fixedWindowScript_leaves _ _ _ hkey hmax hcur

variable [F64 ν]

/-- The key is none of those that a check passes to its script. -/
def Avoids (store : RedisStore) (keyDigest : String → String) (k : String) (c : RedisCall ν) :
    Prop :=
  match c.op with
  | .tokenBucket key _ _ => k ≠ store.key ("tb:" ++ keyDigest key)
  | .slidingWindow key _ _ =>
    k ≠ store.key ("sw:" ++ keyDigest key) ∧ k ≠ store.key ("swmax:" ++ keyDigest key) ∧
      k ≠ store.key ("swseq:" ++ keyDigest key)
  | .fixedWindow key _ window =>
    k ≠ store.counterKey (keyDigest key) (windowIdAt window c.env.unix) ∧
      k ≠ store.key ("fwmax:" ++ keyDigest key) ∧ k ≠ store.key ("fwcur:" ++ keyDigest key)
  | .reset _ _ => False

/-- **A check leaves every other key as it is.** -/
theorem serve_of_avoids {k : String} {c : RedisCall ν} (h : store.Avoids keyDigest k c)
    (db : Db ν) : (store.serve keyDigest c db).2.lookup k = db.lookup k := by
  obtain ⟨env, op⟩ := c
  cases op with
  | tokenBucket key capacity refillRate =>
    simp only [serve, tokenBucketCheck]
    cases sinceEpoch env.unix with
    | none => rfl
    | some d => exact withOpTimeout_leaves _ (tokenBucketScript_leaves h _ _ _) _ _
  | slidingWindow key maxRequests window =>
    obtain ⟨hsw, hmax, hseq⟩ := h
    simp only [serve, slidingWindowCheck]
    cases sinceEpoch env.unix with
    | none => rfl
    | some d =>
      simp only
      split_ifs
      · rfl
      · exact withOpTimeout_leaves _ (slidingWindowScript_leaves hsw hmax hseq _ _ _ _) _ _
  | fixedWindow key maxRequests window =>
    obtain ⟨hfw, hmax, hcur⟩ := h
    simp only [serve]
    by_cases hunix : 0 ≤ env.unix
    · rw [fixedWindowCheck_eq hunix]
      exact withOpTimeout_leaves _ (checkScript_leaves hfw hmax hcur _) _ _
    · simp only [fixedWindowCheck, sinceEpoch, hunix, if_false]
  | reset key scan => exact h.elim

theorem serve_counter {digest : String} {q : ℕ} {c : RedisCall ν}
    (hreset : c.op.isReset = false) (hother : c.window? keyDigest ≠ some (digest, q)) (db : Db ν) :
    (store.serve keyDigest c db).2.lookup (store.counterKey digest q) =
      db.lookup (store.counterKey digest q) := by
  refine serve_of_avoids ?_ db
  obtain ⟨env, op⟩ := c
  cases op with
  | tokenBucket key capacity refillRate =>
    exact counterKey_ne store (by decide) (by decide) digest q _
  | slidingWindow key maxRequests window =>
    refine ⟨?_, ?_, ?_⟩
    · exact counterKey_ne store (by decide) (by decide) digest q _
    · exact counterKey_ne store (by decide) (by decide) digest q _
    · exact counterKey_ne store (by decide) (by decide) digest q _
  | fixedWindow key maxRequests window =>
    refine ⟨?_, counterKey_ne_companions store digest q _⟩
    intro heq
    obtain ⟨hdigest, hid⟩ := counterKey_inj heq
    exact hother (by rw [hdigest, hid]; rfl)
  | reset key scan => cases hreset

/-- A counter that is missing stays missing, also under resets. -/
theorem serve_counter_missing {digest : String} {q : ℕ} {c : RedisCall ν}
    (hother : c.window? keyDigest ≠ some (digest, q)) {db : Db ν}
    (h : db.lookup (store.counterKey digest q) = none) :
    (store.serve keyDigest c db).2.lookup (store.counterKey digest q) = none := by
  cases hreset : c.op.isReset with
  | false => rw [serve_counter hreset hother, h]
  | true =>
    obtain ⟨env, op⟩ := c
    cases op with
    | reset key scan => exact reset_missing env scan key h
    | tokenBucket | slidingWindow | fixedWindow => cases hreset

end

end RedisStore

end ArmatureRatelimit
