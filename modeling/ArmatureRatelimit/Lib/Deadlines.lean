/-
  Triples of scripts, and the deadlines of the keys that they write.

  A `Triple` says what a script makes of the database, when it ends and when one
  of its commands fails.  `ExpiresBy` says that every key has a deadline, at the
  latest `bound`; in the middle of a script one key may still be without
  (`but`), and `EXPIRE` gives it one.
-/
import ArmatureRatelimit.Lib.Congruence

namespace Lib.Redis

variable {ν α β : Type}

/-! ## Triples -/

/-- From `P` on the script ends in `Q`, or fails in `E`. -/
def Triple (P : Db ν → Prop) (x : Script ν α) (Q : α → Db ν → Prop) (E : Db ν → Prop) : Prop :=
  ∀ db, P db → (∀ a, (x db).1 = .ok a → Q a (x db).2) ∧
    ∀ msg, (x db).1 = .error msg → E (x db).2

namespace Triple

variable {P P' : Db ν → Prop} {Q : β → Db ν → Prop} {E : Db ν → Prop}

theorem pure (Q : α → Db ν → Prop) (a : α) : Triple (Q a) (Pure.pure a : Script ν α) Q E := by
  intro db h
  refine ⟨?_, nofun⟩
  rintro a' ⟨⟩
  exact h

theorem bind {x : Script ν α} {f : α → Script ν β} {M : α → Db ν → Prop} (hx : Triple P x M E)
    (hf : ∀ a, Triple (M a) (f a) Q E) : Triple P (x >>= f) Q E := by
  intro db h
  obtain ⟨hok, herror⟩ := hx db h
  cases hrun : x db with
  | mk r db' =>
    rw [hrun] at hok herror
    cases r with
    | ok a =>
      rw [Script.bind_ok hrun]
      exact hf a db' (hok a rfl)
    | error msg =>
      rw [Script.bind_error hrun]
      exact ⟨nofun, fun _ _ => herror msg rfl⟩

theorem ite {p : Prop} [Decidable p] {x y : Script ν β} (hx : p → Triple P x Q E)
    (hy : ¬ p → Triple P y Q E) : Triple P (if p then x else y) Q E := by
  split_ifs with h
  · exact hx h
  · exact hy h

theorem conseq {x : Script ν β} (h : Triple P x Q E) (hle : ∀ db, P' db → P db) :
    Triple P' x Q E := fun db hdb => h db (hle db hdb)

/-- A script that keeps `P` also when it fails. -/
theorem keeps {x : Script ν β} (h : Triple P x (fun _ => P) P) (db : Db ν) (hdb : P db) :
    P (x db).2 := by
  obtain ⟨hok, herror⟩ := h db hdb
  cases hr : (x db).1 with
  | ok a => exact hok a hr
  | error msg => exact herror msg hr

end Triple

/-! ## Deadlines -/

/-- Every key but one has a deadline, at the latest `bound`. -/
def ExpiresBy (bound : ℤ) (but : Option String) (db : Db ν) : Prop :=
  ∀ k e, db.lookup k = some e → but ≠ some k → ∃ d ≤ bound, e.deadline = some d

namespace ExpiresBy

variable {bound : ℤ} {key : String} {db : Db ν}

theorem empty (bound : ℤ) : ExpiresBy bound none (∅ : Db ν) := by
  intro k e he
  rw [AList.lookup_empty] at he
  cases he

theorem weaken (h : ExpiresBy bound none db) (key : String) : ExpiresBy bound (some key) db :=
  fun k e he _ => h k e he nofun

theorem insert (h : ExpiresBy bound none db) (key : String) (e : Entry ν) :
    ExpiresBy bound (some key) (db.insert key e) := by
  intro k e' he hk
  rw [KeyMap.lookup_insert_eq_ite, if_neg fun heq => hk (congrArg some heq.symm)] at he
  exact h k e' he nofun

/-- The key gets a deadline. -/
theorem insert_due (h : ExpiresBy bound (some key) db) {d : ℤ} (hd : d ≤ bound) (v : Value ν) :
    ExpiresBy bound none (db.insert key ⟨v, some d⟩) := by
  intro k e he _
  rw [KeyMap.lookup_insert_eq_ite] at he
  split_ifs at he with hk
  · obtain rfl := Option.some.inj he
    exact ⟨d, hd, rfl⟩
  · exact h k e he fun heq => hk (Option.some.inj heq).symm

theorem erase (h : ExpiresBy bound (some key) db) : ExpiresBy bound none (db.erase key) := by
  intro k e he _
  rw [KeyMap.lookup_erase_eq_ite] at he
  split_ifs at he with hk
  exact h k e he fun heq => hk (Option.some.inj heq).symm

theorem removeAll (h : ExpiresBy bound none db) (keys : List String) :
    ExpiresBy bound none (db.removeAll keys) := by
  intro k e he hk
  rw [KeyMap.lookup_removeAll] at he
  split_ifs at he
  exact h k e he hk

theorem find (h : ExpiresBy bound none db) {now : ℤ} {e : Entry ν}
    (he : Redis.find now key db = some e) : ∃ d ≤ bound, e.deadline = some d :=
  h key e (Option.filter_eq_some_iff.mp he).1 nofun

/-- **After the bound nothing is left.** -/
theorem expired (h : ExpiresBy bound none db) {now : ℤ} (hnow : bound < now) (key : String) :
    Redis.find now key db = none := by
  cases he : Redis.find now key db with
  | none => rfl
  | some e =>
    obtain ⟨d, hd, hdeadline⟩ := h.find he
    have hlive := (Option.filter_eq_some_iff.mp he).2
    rw [Entry.live, hdeadline, Option.all_some, decide_eq_true_eq] at hlive
    omega

theorem sameFrom_empty (h : ExpiresBy bound none db) {t : ℤ} (ht : bound < t) :
    SameFrom t db ∅ := by
  intro now hnow key
  rw [h.expired (ht.trans_le hnow), Redis.find, AList.lookup_empty, Option.filter_none]

end ExpiresBy

/-! ## Commands -/

section
variable {bound now : ℤ} {key : String}

theorem hmget_expires (P : Db ν → Prop) (fields : List String) :
    Triple P (hmget now key fields) (fun _ => P) P := by
  intro db h
  unfold hmget
  split <;> exact ⟨fun _ _ => h, fun _ _ => h⟩

theorem zcard_expires (P : Db ν → Prop) : Triple P (zcard now key) (fun _ => P) P := by
  intro db h
  unfold zcard
  split <;> exact ⟨fun _ _ => h, fun _ _ => h⟩

theorem hmset_expires (pairs : List (String × ν)) : Triple (ExpiresBy bound none)
    (hmset now key pairs) (fun _ => ExpiresBy bound (some key)) (ExpiresBy bound none) := by
  intro db h
  unfold hmset
  split
  · exact ⟨fun _ _ => h.insert _ _, nofun⟩
  · exact ⟨fun _ _ => h.insert _ _, nofun⟩
  · exact ⟨nofun, fun _ _ => h⟩

/-- A key that is there gets the deadline, and one that has expired had one. -/
theorem expire_expires {t : ℤ} (hnow : now ≤ bound) (ht : now + 1000 * t ≤ bound)
    (hvalid : now + 1000 * t ≤ int64Max) {E : Db ν → Prop} : Triple (ExpiresBy bound (some key))
    (expire now key (some t)) (fun _ => ExpiresBy bound none) E := by
  intro db h
  simp only [expire, deadlineOf_valid hvalid]
  cases hfind : find now key db with
  | some e =>
    refine ⟨fun _ _ => ?_, by rintro _ ⟨⟩⟩
    simp only
    split_ifs
    · exact h.erase
    · exact h.insert_due ht _
  | none =>
    refine ⟨fun _ _ => ?_, by rintro _ ⟨⟩⟩
    intro k e he _
    by_cases hk : k = key
    · subst hk
      rw [find, he, Option.filter_eq_none_iff] at hfind
      have hdead := hfind e rfl
      cases hdeadline : e.deadline with
      | none => simp [Entry.live, hdeadline] at hdead
      | some d =>
        simp only [Entry.live, hdeadline, Option.all_some, decide_eq_true_eq] at hdead
        exact ⟨d, by omega, rfl⟩
    · exact h k e he fun heq => hk (Option.some.inj heq).symm

theorem setEx_expires {t : ℤ} (ht : now + 1000 * t ≤ bound) (v : Value ν) :
    Triple (ExpiresBy bound none) (setEx now key v (some t)) (fun _ => ExpiresBy bound none)
      (ExpiresBy bound none) := by
  intro db h
  by_cases hvalid : now + 1000 * t ≤ int64Max
  · simp only [setEx, deadlineOf_valid hvalid]
    split_ifs
    · exact ⟨by rintro _ ⟨⟩, fun _ _ => h⟩
    · exact ⟨fun _ _ => (h.weaken key).insert_due ht _, by rintro _ ⟨⟩⟩
  · have hinvalid : ¬ ValidTtl now (some t) := by
      rintro ⟨t', heq, hle⟩
      obtain rfl := Option.some.inj heq
      exact hvalid hle
    obtain ⟨msg, hmsg⟩ := deadlineOf_invalid hinvalid "set"
    simp only [setEx, hmsg]
    exact ⟨by rintro _ ⟨⟩, fun _ _ => h⟩

/-- Only a counter that starts has no deadline yet. -/
theorem incr_expires : Triple (ExpiresBy bound none) (incr (ν := ν) now key)
    (fun n db => ExpiresBy bound (some key) db ∧ (n ≠ 1 → ExpiresBy bound none db))
    (ExpiresBy bound none) := by
  intro db h
  unfold incr
  split
  · refine ⟨?_, nofun⟩
    rintro n ⟨⟩
    exact ⟨h.insert _ _, fun hn => absurd rfl hn⟩
  · rename_i n d hfind
    obtain ⟨dl, hdl, hdeadline⟩ := h.find hfind
    obtain rfl : d = some dl := hdeadline
    split_ifs
    · exact ⟨nofun, fun _ _ => h⟩
    · exact ⟨fun _ _ => ⟨h.insert _ _, fun _ => (h.weaken key).insert_due hdl _⟩, nofun⟩
  · exact ⟨nofun, fun _ _ => h⟩
  · exact ⟨nofun, fun _ _ => h⟩

theorem zremrangebyscore_expires (lo hi : ℤ) : Triple (ExpiresBy bound none)
    (zremrangebyscore (ν := ν) now key lo hi) (fun _ => ExpiresBy bound none)
    (ExpiresBy bound none) := by
  intro db h
  unfold zremrangebyscore
  split
  · exact ⟨fun _ _ => h, nofun⟩
  · rename_i z d hfind
    obtain ⟨dl, hdl, hdeadline⟩ := h.find hfind
    obtain rfl : d = some dl := hdeadline
    refine ⟨fun _ _ => ?_, nofun⟩
    simp only
    split_ifs
    · exact (h.weaken key).erase
    · exact (h.weaken key).insert_due hdl _
  · exact ⟨nofun, fun _ _ => h⟩

theorem zadd_expires (score : ℤ) (member : String) : Triple (ExpiresBy bound none)
    (zadd (ν := ν) now key score member) (fun _ => ExpiresBy bound (some key))
    (ExpiresBy bound none) := by
  intro db h
  unfold zadd
  split
  · exact ⟨fun _ _ => h.insert _ _, nofun⟩
  · exact ⟨fun _ _ => h.insert _ _, nofun⟩
  · exact ⟨nofun, fun _ _ => h⟩

end

end Lib.Redis
