/-
  What the fixed window script of the Redis store does to the counter of its
  window.

  The first execution creates the counter with a deadline, and the others leave
  the deadline as it is (`Counts.script`).  The count that the script returns is
  a double, so the store decides on it as on the count itself if the limit is
  below `2 ^ 53` (`luaInt_decides`).
-/
import ArmatureRatelimit.Scripts.Numbers

open Lib Lib.Redis

namespace ArmatureRatelimit

namespace RedisStore

/-! ## Counts -/

/-- A later count is not taken for the first one. -/
theorem luaInt_ne_one {c : ℕ} (hpos : 0 < c) : luaInt ((c + 1 : ℕ) : ℤ) ≠ 1 := by
  by_cases hsmall : c + 1 < 2 ^ 53
  · rw [luaInt_eq (by omega)]
    omega
  · have := le_luaInt (n := ((c + 1 : ℕ) : ℤ)) (by omega)
    omega

/-- What the store makes of a count, below the bound of the doubles. -/
theorem luaInt_decides {maxRequests : ℕ} (hmax : maxRequests < 2 ^ 53) {k : ℕ}
    (hk : (k : ℤ) ≤ int64Max) :
    (asU64 (luaInt k) ≤ maxRequests ↔ k ≤ maxRequests) ∧
      (k ≤ maxRequests → asU64 (luaInt k) = k) := by
  by_cases hsmall : k < 2 ^ 53
  · have hcount : asU64 (luaInt k) = k := by
      rw [luaInt_eq (by simpa using hsmall)]
      exact asU64_of_lt (by omega)
    rw [hcount]
    exact ⟨Iff.rfl, fun _ => rfl⟩
  · have hlow := le_luaInt (n := k) (by omega)
    have hhigh := luaInt_le (n := k) (by omega) hk
    have hcount : 2 ^ 53 ≤ asU64 (luaInt k) := by
      unfold asU64
      omega
    exact ⟨by omega, by omega⟩

/-! ## Keys -/

/-- The counter of a window. -/
def counterKey (self : RedisStore) (digest : String) (windowId : ℕ) : String :=
  self.key ("fw:" ++ digest ++ ":" ++ toString windowId)

theorem counterKey_inj {store : RedisStore} {digest digest' : String} {q q' : ℕ}
    (h : store.counterKey digest q = store.counterKey digest' q') : digest = digest' ∧ q = q' := by
  have htext : ∀ (d : String) (k : ℕ),
      (d ++ (":" ++ toString k)).toList = d.toList ++ ':' :: (Nat.repr k).toList := by
    intro d k
    rw [String.toList_append, String.toList_append]
    rfl
  simp only [counterKey, String.append_assoc] at h
  have hlist := congrArg String.toList (key_inj (by decide) (by decide) h).2
  rw [htext, htext] at hlist
  obtain ⟨hdigest, hid⟩ := Texts.numbered_inj (by decide) hlist
  exact ⟨String.toList_injective hdigest, hid⟩

/-- A counter is no key of another kind. -/
theorem counterKey_ne (store : RedisStore) {kind : String} (hkind : IsKind kind)
    (hne : "fw:" ≠ kind) (digest : String) (q : ℕ) (x : String) :
    store.counterKey digest q ≠ store.key (kind ++ x) := by
  simp only [counterKey, String.append_assoc]
  exact key_ne (by decide) hkind hne

theorem counterKey_ne_companions (store : RedisStore) (digest : String) (q : ℕ) (x : String) :
    store.counterKey digest q ≠ store.key ("fwmax:" ++ x) ∧
      store.counterKey digest q ≠ store.key ("fwcur:" ++ x) :=
  ⟨counterKey_ne store (by decide) (by decide) digest q x,
    counterKey_ne store (by decide) (by decide) digest q x⟩

/-! ## Frames -/

variable {ν : Type}

theorem tokenBucketScript_leaves [F64 ν] {server : ℤ} {key k : String} (h : k ≠ key)
    (capacity refillRate now : ν) :
    Script.Leaves k (tokenBucketScript server key capacity refillRate now) := by
  unfold tokenBucketScript
  refine .bind (hmget_leaves _) fun data => ?_
  refine .ite ?_ ?_
  all_goals
    refine .bind (hmset_leaves h _) fun _ => ?_
    exact .bind (expire_leaves h _) fun _ => .pure _

theorem slidingWindowScript_leaves {server : ℤ} {key maxkey seqkey k : String} (hkey : k ≠ key)
    (hmax : k ≠ maxkey) (hseq : k ≠ seqkey) (maxRequests now cutoff windowSecs : ℤ) :
    Script.Leaves k (slidingWindowScript server key maxkey seqkey maxRequests now cutoff
      windowSecs : Script ν _) := by
  unfold slidingWindowScript
  refine .bind (setEx_leaves hmax _ _) fun _ => ?_
  refine .bind (zremrangebyscore_leaves hkey _ _) fun _ => ?_
  refine .bind zcard_leaves fun count => ?_
  refine .ite ?_ (.pure _)
  refine .bind (incr_leaves hseq) fun seq => ?_
  refine .bind (expire_leaves hseq _) fun _ => ?_
  refine .bind (zadd_leaves hkey _ _) fun _ => ?_
  exact .bind (expire_leaves hkey _) fun _ => .pure _

section
variable {server : ℤ} {key fwmax fwcur k : String} (maxRequests windowId ttl : ℤ)

theorem fixedWindowScript_leaves (hkey : k ≠ key) (hmax : k ≠ fwmax) (hcur : k ≠ fwcur) :
    Script.Leaves k (fixedWindowScript server key fwmax fwcur maxRequests windowId ttl :
      Script ν _) := by
  unfold fixedWindowScript
  refine .bind (incr_leaves hkey) fun count => ?_
  refine .ite ?_ (.pure _)
  refine .bind (expire_leaves hkey _) fun _ => ?_
  refine .bind (setEx_leaves hmax _ _) fun _ => ?_
  exact .bind (setEx_leaves hcur _ _) fun _ => .pure _

end

/-! ## The counter -/

/-- A counter after `c` executions: missing before the first one, and then there
    until `last` at least.  `INCR` stops at the largest integer. -/
inductive Counts (last : ℤ) : ℕ → Option (Entry ν) → Prop
  | missing : Counts last 0 none
  | present {c : ℕ} {deadline : ℤ} (pos : 0 < c) (keeps : last ≤ deadline) :
      Counts last c (some ⟨.int (min c int64Max), some deadline⟩)

section
variable {server last ttl : ℤ} {key fwmax fwcur : String} {c : ℕ} {db : Db ν}

/-- The first execution of a window writes all three keys. -/
theorem fixedWindowScript_first (hfind : find server key db = none) (httl : 0 < luaInt ttl)
    (hvalid : server + 1000 * luaInt ttl ≤ int64Max) (maxRequests windowId : ℤ) :
    fixedWindowScript server key fwmax fwcur maxRequests windowId ttl db =
      (.ok 1, (((db.insert key ⟨.int 1, none⟩).insert key
          ⟨.int 1, some (server + 1000 * luaInt ttl)⟩).insert fwmax
            ⟨.int maxRequests, some (server + 1000 * luaInt ttl)⟩).insert fwcur
              ⟨.int windowId, some (server + 1000 * luaInt ttl)⟩) := by
  have hincr : incr server key db = (.ok 1, db.insert key ⟨.int 1, none⟩) := by
    simp only [incr, hfind]
  have hone : luaInt 1 = 1 := luaInt_eq (by decide)
  have hexp := expire_insert (e := ⟨.int 1, none⟩) rfl httl hvalid key db
  rw [fixedWindowScript, Script.bind_ok hincr]
  simp only [hone, if_true]
  rw [Script.bind_ok hexp, Script.bind_ok (setEx_valid httl hvalid fwmax (.int maxRequests) _),
    Script.bind_ok (setEx_valid httl hvalid fwcur (.int windowId) _)]
  rfl

/-- The first execution of a window fails if its deadline is not accepted, and then
    leaves a counter without one. -/
theorem fixedWindowScript_refused_eq (fwmax fwcur : String) (hfind : find server key db = none)
    (hinvalid : int64Max < server + 1000 * luaInt ttl) (maxRequests windowId : ℤ) : ∃ msg,
      fixedWindowScript server key fwmax fwcur maxRequests windowId ttl db =
        (.error msg, db.insert key ⟨.int 1, none⟩) := by
  have hincr : incr server key db = (.ok 1, db.insert key ⟨.int 1, none⟩) := by
    simp only [incr, hfind]
  have hone : luaInt 1 = 1 := luaInt_eq (by decide)
  have hrefused : ¬ ValidTtl server (some (luaInt ttl)) := by
    rintro ⟨t, ht, hle⟩
    obtain rfl := Option.some.inj ht
    omega
  obtain ⟨msg, hmsg⟩ := deadlineOf_invalid hrefused "expire"
  refine ⟨msg, ?_⟩
  rw [fixedWindowScript, Script.bind_ok hincr]
  simp only [hone, if_true]
  rw [Script.bind_error (expire_error hmsg key _)]

theorem fixedWindowScript_refused (hfind : find server key db = none)
    (hinvalid : int64Max < server + 1000 * luaInt ttl) (maxRequests windowId : ℤ) : ∃ msg,
      (fixedWindowScript server key fwmax fwcur maxRequests windowId ttl db).1 = .error msg := by
  obtain ⟨msg, hmsg⟩ := fixedWindowScript_refused_eq fwmax fwcur hfind hinvalid maxRequests windowId
  exact ⟨msg, congrArg Prod.fst hmsg⟩

/-- A later execution: the counter goes up, and keeps its deadline. -/
theorem fixedWindowScript_next {d : Option ℤ} (hpos : 0 < c) (hc : (c : ℤ) < int64Max)
    (hview : intAt server key db = some ((c : ℤ), d)) (maxRequests windowId : ℤ) :
    fixedWindowScript server key fwmax fwcur maxRequests windowId ttl db =
      (.ok (luaInt ((c + 1 : ℕ) : ℤ)), db.insert key ⟨.int ((c + 1 : ℕ) : ℤ), d⟩) := by
  have hincr := incr_intAt hview hc.ne
  have hnext : ((c : ℤ) + 1) = ((c + 1 : ℕ) : ℤ) := by push_cast; rfl
  rw [hnext] at hincr
  rw [fixedWindowScript, Script.bind_ok hincr]
  simp only [luaInt_ne_one hpos, if_false]
  rfl

/-- **One execution.** -/
theorem Counts.script (h : Counts last c (db.lookup key)) (hmax : key ≠ fwmax)
    (hcur : key ≠ fwcur) (hserver : server ≤ last) (httl : 0 < luaInt ttl)
    (hvalid : server + 1000 * luaInt ttl ≤ int64Max) (hlast : last ≤ server + 1000 * luaInt ttl)
    (maxRequests windowId : ℤ) : ∃ r db',
      fixedWindowScript server key fwmax fwcur maxRequests windowId ttl db = (r, db') ∧
      (((c + 1 : ℕ) : ℤ) ≤ int64Max → r = .ok (luaInt ((c + 1 : ℕ) : ℤ))) ∧
      (int64Max < ((c + 1 : ℕ) : ℤ) → ∃ msg, r = .error msg) ∧
      Counts last (c + 1) (db'.lookup key) := by
  generalize he : db.lookup key = e at h
  cases h with
  | missing =>
    have hfind : find server key db = none := by rw [find, he]; rfl
    refine ⟨_, _, fixedWindowScript_first hfind httl hvalid maxRequests windowId, ?_, ?_, ?_⟩
    · intro _
      rw [luaInt_eq (by decide)]
      rfl
    · intro hlt
      exact absurd hlt (by decide)
    · rw [AList.lookup_insert_ne hcur, AList.lookup_insert_ne hmax, AList.lookup_insert]
      exact .present one_pos hlast
  | @present _ deadline pos keeps =>
    have hview : intAt server key db = some (min (c : ℤ) int64Max, some deadline) := by
      refine viewAt_some (v := .int (min (c : ℤ) int64Max)) ?_ rfl
      rw [find, he, Option.filter_some]
      exact if_pos (decide_eq_true (hserver.trans keeps))
    by_cases hover : (c : ℤ) < int64Max
    · rw [min_eq_left hover.le] at hview
      refine ⟨_, _, fixedWindowScript_next pos hover hview maxRequests windowId, fun _ => rfl,
        fun hlt => by omega, ?_⟩
      have hmin : ((c + 1 : ℕ) : ℤ) = min ((c + 1 : ℕ) : ℤ) int64Max :=
        (min_eq_left (by omega)).symm
      rw [AList.lookup_insert, hmin]
      exact .present c.succ_pos keeps
    · rw [min_eq_right (not_lt.mp hover)] at hview
      obtain ⟨msg, hmsg⟩ := incr_overflow hview
      refine ⟨.error msg, db, Script.bind_error hmsg _, ?_, fun _ => ⟨msg, rfl⟩, ?_⟩
      · intro hle
        omega
      · rw [he]
        have hmin : min (c : ℤ) int64Max = min ((c + 1 : ℕ) : ℤ) int64Max := by omega
        rw [hmin]
        exact .present c.succ_pos keeps

end

end RedisStore

end ArmatureRatelimit
