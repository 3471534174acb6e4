/-
  The names of the Redis keys (`stores/redis.rs`).

  A name is `prefix:role:digest`, and the counters of the fixed windows have the
  window id after that.  The prefix is any text, so a name is read from its end:
  a digest has 64 characters, a window id of a `u64` at most 20, and neither has
  a colon (`roleKey_inj`).
-/
import ArmatureRatelimit.RedisRuns
import ArmatureRatelimit.Extractor

open Lib Lib.Redis

namespace ArmatureRatelimit

/-! ## Roles -/

/-- What a Redis key of the store is for. -/
inductive KeyRole
  | tb
  | sw
  | swmax
  | swseq
  | fwmax
  | fwcur
  | fw (windowId : Fin (2 ^ 64))
  deriving DecidableEq

namespace KeyRole

def tag : KeyRole → String
  | tb => "tb"
  | sw => "sw"
  | swmax => "swmax"
  | swseq => "swseq"
  | fwmax => "fwmax"
  | fwcur => "fwcur"
  | fw _ => "fw"

/-- What stands in a name after the digest. -/
def suffix : KeyRole → List Char
  | fw windowId => ':' :: (Nat.repr windowId).toList
  | _ => []

theorem tag_sep (r : KeyRole) : ':' ∉ r.tag.toList := by
  cases r with
  | fw q => exact (by decide : ':' ∉ "fw".toList)
  | _ => decide

/-- Two roles are the same if they have the same tag and window id. -/
theorem eq_of_tag {r r' : KeyRole} (htag : r.tag = r'.tag) (hsuffix : r.suffix = r'.suffix) :
    r = r' := by
  cases r with
  | fw q =>
    cases r' with
    | fw q' =>
      simp only [suffix, List.cons.injEq, true_and] at hsuffix
      rw [Fin.ext (Nat.repr_injective (String.toList_injective hsuffix))]
    | _ => cases hsuffix
  | _ =>
    cases r' with
    | fw q' => cases hsuffix
    | _ => first | rfl | exact absurd htag (by decide)

end KeyRole

namespace RedisStore

/-- The name of the key in a role. -/
def roleKey (self : RedisStore) (digest : String) : KeyRole → String
  | .tb => self.key ("tb:" ++ digest)
  | .sw => self.key ("sw:" ++ digest)
  | .swmax => self.key ("swmax:" ++ digest)
  | .swseq => self.key ("swseq:" ++ digest)
  | .fwmax => self.key ("fwmax:" ++ digest)
  | .fwcur => self.key ("fwcur:" ++ digest)
  | .fw windowId => self.counterKey digest windowId

theorem roleKey_toList (self : RedisStore) (digest : String) (r : KeyRole) :
    (self.roleKey digest r).toList =
      (self.keyPrefix.toList ++ ':' :: r.tag.toList) ++ ':' :: (digest.toList ++ r.suffix) := by
  cases r with
  | fw q =>
    simp only [roleKey, counterKey, key, KeyRole.tag, KeyRole.suffix, String.toList_append,
      List.append_assoc, List.cons_append]
    rfl
  | _ =>
    simp only [roleKey, key, KeyRole.tag, KeyRole.suffix, String.toList_append, List.append_nil,
      List.append_assoc, List.cons_append]
    rfl

theorem roleKey_eq (self : RedisStore) (digest : String) (r : KeyRole) :
    self.roleKey digest r =
      self.key ((r.tag ++ ":") ++ (digest ++ String.ofList r.suffix)) := by
  refine String.toList_injective ?_
  simp only [roleKey_toList, key, String.toList_append, String.toList_ofList, List.append_assoc,
    List.cons_append]
  rfl

theorem isKind_tag (r : KeyRole) : IsKind (r.tag ++ ":") := by
  cases r with
  | fw q => exact (by decide : IsKind ("fw" ++ ":"))
  | _ => decide

/-- In one store a name tells its digest and its role, whatever the digests. -/
theorem roleKey_digest_inj {store : RedisStore} {d d' : String} {r r' : KeyRole}
    (h : store.roleKey d r = store.roleKey d' r') : d = d' ∧ r = r' := by
  rw [roleKey_eq, roleKey_eq] at h
  obtain ⟨htag, hrest⟩ := key_inj (isKind_tag r) (isKind_tag r') h
  have htags := congrArg String.toList htag
  simp only [String.toList_append] at htags
  replace htag := String.toList_injective (List.append_cancel_right htags)
  have hlist := congrArg String.toList hrest
  simp only [String.toList_append, String.toList_ofList] at hlist
  have hboth : d = d' ∧ r.suffix = r'.suffix := by
    cases r with
    | fw q =>
      cases r' with
      | fw q' =>
        obtain ⟨hd, hid⟩ := Texts.numbered_inj (by decide) hlist
        exact ⟨String.toList_injective hd, by rw [KeyRole.suffix, KeyRole.suffix, hid]⟩
      | _ => exact absurd htag (by simp [KeyRole.tag])
    | _ =>
      cases r' with
      | fw q' => exact absurd htag (by simp [KeyRole.tag])
      | _ =>
        simp only [KeyRole.suffix, List.append_nil] at hlist
        exact ⟨String.toList_injective hlist, rfl⟩
  exact ⟨hboth.1, KeyRole.eq_of_tag htag hboth.2⟩

end RedisStore

/-! ## The keys of a check -/

theorem windowIdAt_lt (window : ℕ) (unix : ℤ) : windowIdAt window unix < 2 ^ 64 := by
  have hms : asU64 (Duration.asMillis unix.toNat : ℕ) < 2 ^ 64 := by
    unfold asU64
    omega
  exact (Nat.div_le_self _ _).trans_lt hms

namespace RedisOp

variable {ν : Type}

inductive Kind
  | tokenBucket
  | slidingWindow
  | fixedWindow
  | reset
  deriving DecidableEq

def kind : RedisOp ν → Kind
  | .tokenBucket .. => .tokenBucket
  | .slidingWindow .. => .slidingWindow
  | .fixedWindow .. => .fixedWindow
  | .reset .. => .reset

/-- The rate-limit key. -/
def key : RedisOp ν → String
  | .tokenBucket key _ _ | .slidingWindow key _ _ | .fixedWindow key _ _ | .reset key _ => key

end RedisOp

section
variable {ν : Type}

/-- The roles of the keys that a check passes to its script. -/
def RedisCall.roles (c : RedisCall ν) : List KeyRole :=
  match c.op with
  | .tokenBucket .. => [.tb]
  | .slidingWindow .. => [.sw, .swmax, .swseq]
  | .fixedWindow _ _ window =>
    [.fw ⟨windowIdAt window c.env.unix, windowIdAt_lt window c.env.unix⟩, .fwmax, .fwcur]
  | .reset .. => []

/-- The names of these keys. -/
def RedisCall.names (keyDigest : String → String) (store : RedisStore) (c : RedisCall ν) :
    List String :=
  c.roles.map (store.roleKey (keyDigest c.op.key))

/-- Checks of different algorithms have no role in common. -/
theorem RedisCall.kind_of_role {c c' : RedisCall ν} {r : KeyRole} (h : r ∈ c.roles)
    (h' : r ∈ c'.roles) : c.op.kind = c'.op.kind := by
  obtain ⟨env, op⟩ := c
  obtain ⟨env', op'⟩ := c'
  cases op <;> cases op' <;>
    simp only [RedisCall.roles, List.mem_cons, List.not_mem_nil, or_false] at h h' <;>
    first
    | rfl
    | rcases h with rfl | rfl | rfl <;> simp at h'

/-- A check leaves the keys that it does not name as they are. -/
theorem RedisStore.serve_leaves [F64 ν] {keyDigest : String → String} {store : RedisStore}
    {c : RedisCall ν} (hcheck : c.op.isReset = false) {k : String}
    (hk : k ∉ c.names keyDigest store) (db : Db ν) :
    (store.serve keyDigest c db).2.lookup k = db.lookup k := by
  refine serve_of_avoids ?_ db
  obtain ⟨env, op⟩ := c
  cases op with
  | reset key scan => cases hcheck
  | _ =>
    simp only [RedisCall.names, RedisCall.roles, RedisOp.key, List.map_cons, List.map_nil,
      List.mem_cons, List.not_mem_nil, or_false, not_or] at hk
    exact hk

end

/-! ## Reading a name -/

section
variable {sha256 : String → Vector (BitVec 8) 32}

theorem keyDigest_sep (k : String) : ':' ∉ (keyDigest sha256 k).toList := by
  intro h
  exact absurd (mem_keyDigest h) (by decide)

theorem windowId_length (q : Fin (2 ^ 64)) : (Nat.repr q).toList.length ≤ 20 := by
  have hq := q.isLt
  exact Nat.repr_length q 20 (by decide) (by omega)

/-- No digest is a window id. -/
theorem keyDigest_ne_windowId (k : String) (q : Fin (2 ^ 64)) :
    (keyDigest sha256 k).toList ≠ (Nat.repr q).toList := by
  intro h
  have hlength : (keyDigest sha256 k).toList.length = 64 := keyDigest_length k
  have hle := windowId_length q
  rw [h] at hlength
  omega

/-- Two names that end alike after the digest: the window id is read off first. -/
theorem suffix_inj {xs ys : List Char} {k k' : String} {r r' : KeyRole}
    (h : xs ++ ':' :: ((keyDigest sha256 k).toList ++ r.suffix) =
      ys ++ ':' :: ((keyDigest sha256 k').toList ++ r'.suffix)) :
    xs = ys ∧ keyDigest sha256 k = keyDigest sha256 k' ∧ r.suffix = r'.suffix := by
  have hsep : ∀ k, ':' ∉ (keyDigest sha256 k).toList := keyDigest_sep
  have hplain : ∀ {xs ys : List Char} {k k' : String},
      xs ++ ':' :: (keyDigest sha256 k).toList = ys ++ ':' :: (keyDigest sha256 k').toList →
        xs = ys ∧ keyDigest sha256 k = keyDigest sha256 k' := by
    intro xs ys k k' h
    obtain ⟨hxs, hdigest⟩ := Texts.append_sep_inj (hsep k) (hsep k') h
    exact ⟨hxs, String.toList_injective hdigest⟩
  -- a name with a window id ends with the id, another one with the digest
  have hmixed : ∀ {xs ys : List Char} {k k' : String} {q : Fin (2 ^ 64)},
      xs ++ ':' :: ((keyDigest sha256 k).toList ++ ':' :: (Nat.repr q).toList) ≠
        ys ++ ':' :: (keyDigest sha256 k').toList := by
    intro xs ys k k' q h
    rw [← List.cons_append, ← List.append_assoc] at h
    obtain ⟨-, hid⟩ := Texts.append_sep_inj (Texts.not_mem_repr (by decide) q) (hsep k') h
    exact keyDigest_ne_windowId k' q hid.symm
  cases r with
  | fw q =>
    cases r' with
    | fw q' =>
      simp only [KeyRole.suffix] at h
      rw [← List.cons_append, ← List.append_assoc, ← List.cons_append, ← List.append_assoc] at h
      obtain ⟨hhead, hid⟩ := Texts.numbered_inj (by decide) h
      obtain ⟨hxs, hdigest⟩ := hplain hhead
      exact ⟨hxs, hdigest, by simp only [KeyRole.suffix, hid]⟩
    | _ => exact absurd (by simpa [KeyRole.suffix] using h) hmixed
  | _ =>
    cases r' with
    | fw q' => exact absurd (by simpa [KeyRole.suffix] using h.symm) hmixed
    | _ =>
      simp only [KeyRole.suffix, List.append_nil] at h
      obtain ⟨hxs, hdigest⟩ := hplain h
      exact ⟨hxs, hdigest, rfl⟩

/-- **A name tells what it is made of.** -/
theorem roleKey_inj {store store' : RedisStore} {k k' : String} {r r' : KeyRole}
    (h : store.roleKey (keyDigest sha256 k) r = store'.roleKey (keyDigest sha256 k') r') :
    store.keyPrefix = store'.keyPrefix ∧ keyDigest sha256 k = keyDigest sha256 k' ∧ r = r' := by
  have hlist := congrArg String.toList h
  rw [RedisStore.roleKey_toList, RedisStore.roleKey_toList] at hlist
  obtain ⟨hhead, hdigest, hsuffix⟩ := suffix_inj hlist
  obtain ⟨hsame, htag⟩ := Texts.append_sep_inj r.tag_sep r'.tag_sep hhead
  exact ⟨String.toList_injective hsame, hdigest,
    KeyRole.eq_of_tag (String.toList_injective htag) hsuffix⟩

end

/-- The bytes of a number, the highest first. -/
def bytesOf (n : BitVec 256) : Vector (BitVec 8) 32 :=
  Vector.ofFn fun i => n.extractLsb' (8 * (31 - i)) 8

/-- SHA-256 of two keys. -/
def sampleSha256 (key : String) : Vector (BitVec 8) 32 :=
  bytesOf
    (if key = "client" then 0x948fe603f61dc036b5c596dc09fe3ce3f3d30dc90f024c85f3c82db2ccab679d
    else if key = "visitor" then
      0x5f14f9e6d80f802a65269804f2552ef9889f2c7ccec5067214e58a1e48e0b3ff
    else 0)

example : keyDigest sampleSha256 "client" =
    "948fe603f61dc036b5c596dc09fe3ce3f3d30dc90f024c85f3c82db2ccab679d" := by
  decide

/-- A check of ten requests a minute. -/
def minuteCheck (key : String) : RedisCall ℚ :=
  ⟨⟨1700000000000000000, 1700000000000, .answered 0⟩,
    .fixedWindow key 10 (Duration.fromSecs 60)⟩

end ArmatureRatelimit
