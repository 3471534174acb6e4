/-
  Which prefixes `RedisStore::reset` is exact for (`stores/redis.rs`).

  The pattern of its sweep is `prefix:fw:digest:*`, with the prefix as it is, so
  Redis reads the prefix and its colon as a glob pattern.  A prefix without
  pattern characters stands for itself.  In general the reset is exact if and
  only if the prefix closes its classes, stands for itself, for no other prefix
  of letters, digits, `-` and `_`, and for no beginning of itself that goes on
  with the digest of a key (`resetExact_iff`).
-/
import ArmatureRatelimit.Proof.Sweep

open Lib Lib.Redis
open Lib.Texts (utf8)

namespace ArmatureRatelimit

variable {ν : Type} {sha256 : String → Vector (BitVec 8) 32} {le : UInt8 → UInt8 → Bool}

/-! ## Exact resets -/

/-- Letters, digits, `-` and `_`. -/
def PlainPrefix (w : String) : Prop := ∀ c ∈ w.toList, c.isAlphanum = true ∨ c = '-' ∨ c = '_'

/-- What a reset of a key should do: its keys are gone, and the keys of other
    rate-limit keys, and of stores with another plain prefix, are as before. -/
structure ExactlyReset (sha256 : String → Vector (BitVec 8) 32) (store : RedisStore) (key : String)
    (before after : Db ν) : Prop where
  own : ∀ r, after.lookup (store.roleKey (keyDigest sha256 key) r) = none
  others : ∀ key' r, keyDigest sha256 key' ≠ keyDigest sha256 key →
    after.lookup (store.roleKey (keyDigest sha256 key') r) =
      before.lookup (store.roleKey (keyDigest sha256 key') r)
  foreign : ∀ (store' : RedisStore) key' r, PlainPrefix store'.keyPrefix →
    store'.keyPrefix ≠ store.keyPrefix →
    after.lookup (store'.roleKey (keyDigest sha256 key') r) =
      before.lookup (store'.roleKey (keyDigest sha256 key') r)

/-- Every reset of the store that completes, from any content and with any
    behaviour of `SCAN`, is exact. -/
def ResetExact (ν : Type) (sha256 : String → Vector (BitVec 8) 32) (le : UInt8 → UInt8 → Bool)
    (store : RedisStore) : Prop :=
  ∀ (key : String) (env : RedisEnv) (scan : String → List SweepTurn) (db : Db ν),
    FullScan le (store.sweepPattern (keyDigest sha256) key)
      (scan (store.sweepPattern (keyDigest sha256) key))
      (db.removeAll (store.fixedKeys (keyDigest sha256) key)) →
    (store.reset (keyDigest sha256) env scan key db).1 = .ok () →
    ExactlyReset sha256 store key db (store.reset (keyDigest sha256) env scan key db).2

/-! ## Names as bytes -/

/-- The byte of a colon. -/
abbrev colon : UInt8 := 58

/-- What stands in the names of a key's windows after the prefix. -/
def middle (digest : String) : List UInt8 := utf8 "fw" ++ colon :: (utf8 digest ++ [colon])

/-- What stands in a name after the prefix. -/
def ending (digest : String) (r : KeyRole) : List UInt8 :=
  utf8 r.tag ++ colon :: (utf8 digest ++ r.suffix.flatMap String.utf8EncodeChar)

theorem middle_append (digest : String) (v : List UInt8) :
    middle digest ++ v = utf8 "fw" ++ colon :: (utf8 digest ++ colon :: v) := by
  simp [middle]

theorem ending_fw (digest : String) (q : Fin (2 ^ 64)) :
    ending digest (.fw q) = middle digest ++ utf8 (Nat.repr q) := by
  rw [middle_append]
  rfl

theorem utf8_roleKey (store : RedisStore) (digest : String) (r : KeyRole) :
    utf8 (store.roleKey digest r) = (utf8 store.keyPrefix ++ [colon]) ++ ending digest r := by
  have hcolon : String.utf8EncodeChar ':' = [colon] := by decide
  rw [utf8, RedisStore.roleKey_toList]
  simp only [List.flatMap_append, List.flatMap_cons, hcolon, ending, utf8, List.append_assoc,
    List.cons_append, List.nil_append]

theorem utf8_sweepPattern (store : RedisStore) (key : String) :
    utf8 (store.sweepPattern (keyDigest sha256) key) =
      (utf8 store.keyPrefix ++ [colon]) ++
        (middle (keyDigest sha256 key) ++ [redisMarks.star]) := by
  have hcolon : utf8 ":" = [colon] := by decide
  have hfw : utf8 "fw:" = utf8 "fw" ++ [colon] := by decide
  have hend : utf8 ":*" = [colon, redisMarks.star] := by decide
  simp only [RedisStore.sweepPattern, RedisStore.key, Texts.utf8_append, middle, hcolon, hfw, hend,
    List.append_assoc, List.cons_append, List.nil_append]

theorem digest_ascii (k : String) : ∀ c ∈ (keyDigest sha256 k).toList, c.val ≤ 127 ∧ c ≠ ':' := by
  have hall : (Texts.hexDigits.all fun c => decide (c.val ≤ 127 ∧ c ≠ ':')) = true := by
    decide
  exact fun c hc => of_decide_eq_true (List.all_eq_true.mp hall c (mem_keyDigest hc))

theorem colon_not_mem_digest (k : String) : colon ∉ utf8 (keyDigest sha256 k) :=
  Texts.not_mem_utf8 (a := ':') (by decide) (digest_ascii k)

theorem utf8_digest_length (k : String) : (utf8 (keyDigest sha256 k)).length = 64 := by
  rw [Texts.utf8_ascii fun c hc => (digest_ascii k c hc).1, List.length_map, keyDigest_length]

theorem colon_not_mem_fw : colon ∉ utf8 "fw" := by decide

theorem tag_bytes (r : KeyRole) : colon ∉ utf8 r.tag ∧ (utf8 r.tag).length < 64 := by
  cases r with
  | fw q => exact (by decide : colon ∉ utf8 "fw" ∧ (utf8 "fw").length < 64)
  | _ => decide

theorem digest_ne_tag (k : String) (r : KeyRole) : utf8 (keyDigest sha256 k) ≠ utf8 r.tag := by
  intro h
  have hlength : (utf8 (keyDigest sha256 k)).length = 64 := utf8_digest_length k
  have htag := (tag_bytes r).2
  rw [h] at hlength
  omega

theorem alphanum_ascii {c : Char} (h : c.isAlphanum = true) : c.val ≤ 127 := by
  have hZ : 'Z'.val.toNat = 90 := rfl
  have hz : 'z'.val.toNat = 122 := rfl
  have hnine : '9'.val.toNat = 57 := rfl
  simp only [Char.isAlphanum, Char.isAlpha, Char.isUpper, Char.isLower, Char.isDigit,
    Bool.or_eq_true, Bool.and_eq_true, decide_eq_true_eq, UInt32.le_iff_toNat_le, ge_iff_le] at h
  show c.val.toNat ≤ 127
  omega

theorem suffix_bytes (r : KeyRole) : r.suffix.flatMap String.utf8EncodeChar = [] ∨
    ∃ q, colon ∉ q ∧ r.suffix.flatMap String.utf8EncodeChar = colon :: q := by
  cases r with
  | fw q =>
    refine .inr ⟨utf8 (Nat.repr q), ?_, rfl⟩
    refine Texts.not_mem_utf8 (a := ':') (by decide) fun c hc => ?_
    have hdigit := Texts.isDigit_of_mem_repr hc
    refine ⟨alphanum_ascii (by simp [Char.isAlphanum, hdigit]), ?_⟩
    rintro rfl
    exact absurd hdigit (by decide)
  | _ => exact .inl rfl

theorem not_mem_plain {w : String} (h : PlainPrefix w) {a : Char} (ha : a.val ≤ 127)
    (hnot : ¬ (a.isAlphanum = true ∨ a = '-' ∨ a = '_')) : a.val.toUInt8 ∉ utf8 w := by
  refine Texts.not_mem_utf8 ha fun c hc => ?_
  constructor
  · rcases h c hc with halnum | rfl | rfl
    · exact alphanum_ascii halnum
    · decide
    · decide
  · rintro rfl
    exact hnot (h c hc)

theorem colon_not_mem_plain {w : String} (h : PlainPrefix w) : colon ∉ utf8 w :=
  not_mem_plain (a := ':') h (by decide) (by decide)

/-- Nothing after the prefix has a meaning in a pattern. -/
theorem middle_ordinary (k : String) : ∀ c ∈ middle (keyDigest sha256 k),
    Glob.Ordinary redisMarks c ∧ c ≠ redisMarks.closing := by
  have hdigits : (Texts.hexDigits.all fun c => decide (Glob.Ordinary redisMarks c.val.toUInt8 ∧
      c.val.toUInt8 ≠ redisMarks.closing)) = true := by decide
  have hfw : ((utf8 "fw" ++ [colon]).all fun c => decide (Glob.Ordinary redisMarks c ∧
      c ≠ redisMarks.closing)) = true := by decide
  rw [List.all_eq_true] at hdigits hfw
  intro c hc
  simp only [middle, List.mem_append, List.mem_cons, List.not_mem_nil, or_false] at hc
  rcases hc with hc | rfl | hc | rfl
  · exact of_decide_eq_true (hfw c (List.mem_append_left _ hc))
  · exact of_decide_eq_true (hfw colon (by simp))
  · rw [Texts.utf8_ascii fun c hc => (digest_ascii k c hc).1] at hc
    obtain ⟨d, hd, rfl⟩ := List.mem_map.mp hc
    exact of_decide_eq_true (hdigits d (mem_keyDigest hd))
  · exact of_decide_eq_true (hfw colon (by simp))

/-! ## The prefix as a pattern -/

/-- The tokens of a prefix and its colon, and how they leave the reader. -/
def prefixRead (p : String) : List (Glob.Token UInt8) × Glob.Mode UInt8 :=
  Glob.read redisMarks .plain (utf8 p ++ [colon])

/-- The prefixes that a reset is exact for. -/
structure ExactPrefix (sha256 : String → Vector (BitVec 8) 32) (le : UInt8 → UInt8 → Bool)
    (p : String) : Prop where
  /-- every class is closed -/
  closed : (prefixRead p).2 = .plain
  /-- it stands for itself -/
  self : Glob.accepts le (prefixRead p).1 (utf8 p ++ [colon]) = true
  /-- and for no other plain prefix -/
  alone : ∀ w, PlainPrefix w → Glob.accepts le (prefixRead p).1 (utf8 w ++ [colon]) = true → w = p
  /-- nor for a beginning of itself that goes on with a digest -/
  whole : ∀ key u v, utf8 p ++ [colon] = u ++ (middle (keyDigest sha256 key) ++ v) →
    Glob.accepts le (prefixRead p).1 u = false

section
variable {store : RedisStore}

/-- With its classes closed, the prefix is one part of the pattern. -/
theorem globMatch_iff (hclosed : (prefixRead store.keyPrefix).2 = .plain) (key name : String) :
    globMatch le (store.sweepPattern (keyDigest sha256) key) name = true ↔
      ∃ u v, utf8 name = u ++ (middle (keyDigest sha256 key) ++ v) ∧
        Glob.accepts le (prefixRead store.keyPrefix).1 u = true := by
  rw [globMatch, utf8_sweepPattern, Glob.parse_ordinary_star hclosed
    fun c hc => (middle_ordinary key c hc).1, Glob.accepts_literal_star]
  rfl

theorem colon_ordinary : Glob.Ordinary redisMarks colon ∧ colon ≠ redisMarks.closing := by decide

/-- What the prefix stands for ends with a colon. -/
theorem accepts_prefix_ends {p : String} (hclosed : (prefixRead p).2 = .plain) {u : List UInt8}
    (h : Glob.accepts le (prefixRead p).1 u = true) : ∃ u', u = u' ++ [colon] := by
  rcases Glob.read_concat colon_ordinary.1 colon_ordinary.2 (utf8 p) with ⟨ts, hread⟩ | hset
  · rw [prefixRead, hread] at h
    obtain ⟨u', c, rfl, -, hc⟩ := Glob.accepts_append.mp h
    have hcolon : c = [colon] := Glob.accepts_literal.mp hc
    exact ⟨u', by rw [hcolon]⟩
  · rw [prefixRead] at hclosed
    rw [hclosed] at hset
    exact hset.elim

/-- Where a name that the pattern matches has the digest of the pattern. -/
theorem globMatch_name {key key' p : String} {r : KeyRole} {u v : List UInt8}
    (h : (utf8 p ++ [colon]) ++ ending (keyDigest sha256 key') r =
      (u ++ [colon]) ++ (middle (keyDigest sha256 key) ++ v)) :
    (u = utf8 p ∧ keyDigest sha256 key' = keyDigest sha256 key) ∨
      ∃ w, utf8 p ++ [colon] = (u ++ [colon]) ++ (middle (keyDigest sha256 key) ++ w) := by
  simp only [middle_append, ending] at h ⊢
  rcases Texts.marked_digest colon_not_mem_fw (colon_not_mem_digest key) (tag_bytes r).1
    (colon_not_mem_digest key') (digest_ne_tag key r) (suffix_bytes r) h with
    ⟨hu, -, hdigest⟩ | hhead
  · exact .inl ⟨hu, Texts.utf8_injective hdigest⟩
  · exact .inr hhead

/-- A name that the pattern of a key matches has the key's digest and a prefix
    that the pattern's prefix stands for, or a prefix that goes on with the
    digest. -/
theorem globMatch_roleKey (hclosed : (prefixRead store.keyPrefix).2 = .plain)
    {store' : RedisStore} {key key' : String} {r : KeyRole}
    (h : globMatch le (store.sweepPattern (keyDigest sha256) key)
      (store'.roleKey (keyDigest sha256 key') r) = true) :
    (keyDigest sha256 key' = keyDigest sha256 key ∧ Glob.accepts le
      (prefixRead store.keyPrefix).1 (utf8 store'.keyPrefix ++ [colon]) = true) ∨
    ∃ u w, utf8 store'.keyPrefix ++ [colon] = u ++ (middle (keyDigest sha256 key) ++ w) ∧
      Glob.accepts le (prefixRead store.keyPrefix).1 u = true := by
  obtain ⟨u, v, hname, hu⟩ := (globMatch_iff hclosed _ _).mp h
  obtain ⟨u', rfl⟩ := accepts_prefix_ends hclosed hu
  rw [utf8_roleKey] at hname
  rcases globMatch_name hname with ⟨rfl, hdigest⟩ | ⟨w, hw⟩
  · exact .inl ⟨hdigest, hu⟩
  · exact .inr ⟨_, w, hw, hu⟩

/-- With a class left open, the pattern matches what the prefix stands for and
    one more byte. -/
theorem globMatch_of_isSet (hset : (prefixRead store.keyPrefix).2.IsSet) (key : String) :
    ∃ p : Glob.Single UInt8, ∀ name,
      globMatch le (store.sweepPattern (keyDigest sha256) key) name = true ↔
        ∃ u c, utf8 name = u ++ [c] ∧ Glob.accepts le (prefixRead store.keyPrefix).1 u = true ∧
          p.takes le c = true := by
  have hstar : redisMarks.star ≠ redisMarks.closing ∧
      redisMarks.star ≠ redisMarks.escape := by decide
  have hrest : ∀ c ∈ middle (keyDigest sha256 key) ++ [redisMarks.star],
      c ≠ redisMarks.closing ∧ c ≠ redisMarks.escape := by
    intro c hc
    rcases List.mem_append.mp hc with hc | hc
    · have hordinary := middle_ordinary key c hc
      exact ⟨hordinary.2, hordinary.1.2.2.2⟩
    · rw [List.mem_singleton.mp hc]
      exact hstar
  obtain ⟨p, hp⟩ := Glob.parse_isSet hset hrest
  refine ⟨p, fun name => ?_⟩
  rw [globMatch, utf8_sweepPattern, hp, Glob.accepts_append]
  constructor
  · rintro ⟨u, v, hname, hu, hv⟩
    obtain ⟨c, rfl, hc⟩ := Glob.accepts_single.mp hv
    exact ⟨u, c, hname, hu, hc⟩
  · rintro ⟨u, c, hname, hu, hc⟩
    exact ⟨u, [c], hname, hu, Glob.accepts_single.mpr ⟨c, rfl, hc⟩⟩

/-! ## Exact prefixes -/

theorem fixedKeys_eq (store : RedisStore) (key : String) :
    store.fixedKeys (keyDigest sha256) key =
      [KeyRole.tb, .sw, .swmax, .swseq, .fwmax, .fwcur].map
        (store.roleKey (keyDigest sha256 key)) := rfl

theorem mem_fixedKeys {store' : RedisStore} {key key' : String} {r : KeyRole}
    (h : store'.roleKey (keyDigest sha256 key') r ∈ store.fixedKeys (keyDigest sha256) key) :
    store'.keyPrefix = store.keyPrefix ∧ keyDigest sha256 key' = keyDigest sha256 key := by
  rw [fixedKeys_eq] at h
  obtain ⟨r', -, heq⟩ := List.mem_map.mp h
  obtain ⟨hsame, hdigest, -⟩ := roleKey_inj heq.symm
  exact ⟨hsame, hdigest⟩

namespace ExactPrefix

variable (h : ExactPrefix sha256 le store.keyPrefix)
include h

theorem matches_own (key : String) (q : Fin (2 ^ 64)) :
    globMatch le (store.sweepPattern (keyDigest sha256) key)
      (store.roleKey (keyDigest sha256 key) (.fw q)) = true := by
  rw [globMatch_iff h.closed]
  exact ⟨_, _, by rw [utf8_roleKey, ending_fw], h.self⟩

theorem ignores_others {key key' : String} (r : KeyRole)
    (hne : keyDigest sha256 key' ≠ keyDigest sha256 key) :
    globMatch le (store.sweepPattern (keyDigest sha256) key)
      (store.roleKey (keyDigest sha256 key') r) = false := by
  rw [Bool.eq_false_iff]
  intro hmatch
  rcases globMatch_roleKey h.closed hmatch with ⟨hdigest, -⟩ | ⟨u, w, hw, hu⟩
  · exact hne hdigest
  · rw [h.whole key u w hw] at hu
    cases hu

theorem ignores_foreign {store' : RedisStore} {key key' : String} (r : KeyRole)
    (hplain : PlainPrefix store'.keyPrefix) (hne : store'.keyPrefix ≠ store.keyPrefix) :
    globMatch le (store.sweepPattern (keyDigest sha256) key)
      (store'.roleKey (keyDigest sha256 key') r) = false := by
  rw [Bool.eq_false_iff]
  intro hmatch
  rcases globMatch_roleKey h.closed hmatch with ⟨-, hu⟩ | ⟨u, w, hw, hu⟩
  · exact hne (h.alone _ hplain hu)
  · -- a plain prefix has no colon of its own
    obtain ⟨u', rfl⟩ := accepts_prefix_ends h.closed hu
    have hcount := congrArg (List.count colon) hw
    simp only [List.count_append, middle, List.count_cons_self,
      List.count_eq_zero_of_not_mem (colon_not_mem_plain hplain)] at hcount
    omega

theorem resetExact : ResetExact ν sha256 le store := by
  intro key env scan db hscan hok
  have hlookup := reset_lookup hscan hok
  refine ⟨?_, ?_, ?_⟩
  · intro r
    rw [hlookup]
    refine if_pos ?_
    cases r with
    | fw q => exact .inr (h.matches_own key q)
    | _ =>
      refine .inl ?_
      rw [fixedKeys_eq]
      exact List.mem_map_of_mem (by decide)
  · intro key' r hne
    rw [hlookup]
    refine if_neg ?_
    rintro (hfixed | hmatch)
    · exact hne (mem_fixedKeys hfixed).2
    · rw [h.ignores_others r hne] at hmatch
      cases hmatch
  · intro store' key' r hplain hne
    rw [hlookup]
    refine if_neg ?_
    rintro (hfixed | hmatch)
    · exact hne (mem_fixedKeys hfixed).1
    · rw [h.ignores_foreign r hplain hne] at hmatch
      cases hmatch

end ExactPrefix

/-! ## Exact resets -/

namespace ResetExact

variable (h : ResetExact ν sha256 le store)
include h

/-- A reset of a content that has one given key. -/
theorem of_name (key name : String) : ∃ before after : Db ν,
    ExactlyReset sha256 store key before after ∧ before.lookup name ≠ none ∧
      after.lookup name = if name ∈ store.fixedKeys (keyDigest sha256) key ∨
        globMatch le (store.sweepPattern (keyDigest sha256) key) name = true then none
        else before.lookup name := by
  obtain ⟨db, hdb⟩ : ∃ db : Db ν, db = AList.insert name ⟨.int 1, none⟩ ∅ := ⟨_, rfl⟩
  have hscan : FullScan le (store.sweepPattern (keyDigest sha256) key)
      (scanAtOnce le db (store.sweepPattern (keyDigest sha256) key))
      (db.removeAll (store.fixedKeys (keyDigest sha256) key)) := by
    refine scanAtOnce_full le _ fun k hk hnone => hk ?_
    exact RedisStore.removeAll_missing hnone _
  have hok : (store.reset (keyDigest sha256) ⟨0, 0, .answered 0⟩ (scanAtOnce le db) key db).1 =
      .ok () := reset_completes key db 0 0
  refine ⟨db, _, h key _ _ db hscan hok, ?_, reset_lookup hscan hok name⟩
  rw [hdb, AList.lookup_insert]
  simp

theorem matches_own (key : String) (q : Fin (2 ^ 64)) :
    globMatch le (store.sweepPattern (keyDigest sha256) key)
      (store.roleKey (keyDigest sha256 key) (.fw q)) = true := by
  obtain ⟨before, after, hexact, hthere, hlookup⟩ :=
    h.of_name key (store.roleKey (keyDigest sha256 key) (.fw q))
  rw [hexact.own] at hlookup
  split_ifs at hlookup with hgone
  · rcases hgone with hfixed | hmatch
    · rw [fixedKeys_eq] at hfixed
      obtain ⟨r, hr, heq⟩ := List.mem_map.mp hfixed
      obtain ⟨-, -, rfl⟩ := roleKey_inj heq
      simp at hr
    · exact hmatch
  · exact absurd hlookup.symm hthere

/-- The pattern does not match what an exact reset keeps. -/
theorem ignores_of_kept {key name : String}
    (hkept : ∀ before after : Db ν, ExactlyReset sha256 store key before after →
      after.lookup name = before.lookup name) :
    globMatch le (store.sweepPattern (keyDigest sha256) key) name = false := by
  obtain ⟨before, after, hexact, hthere, hlookup⟩ := h.of_name key name
  rw [hkept before after hexact] at hlookup
  rw [Bool.eq_false_iff]
  intro hmatch
  rw [if_pos (.inr hmatch)] at hlookup
  exact hthere hlookup

theorem ignores_others {key key' : String} (r : KeyRole)
    (hne : keyDigest sha256 key' ≠ keyDigest sha256 key) :
    globMatch le (store.sweepPattern (keyDigest sha256) key)
      (store.roleKey (keyDigest sha256 key') r) = false :=
  h.ignores_of_kept fun _ _ hexact => hexact.others key' r hne

theorem ignores_foreign {store' : RedisStore} {key key' : String} (r : KeyRole)
    (hplain : PlainPrefix store'.keyPrefix) (hne : store'.keyPrefix ≠ store.keyPrefix) :
    globMatch le (store.sweepPattern (keyDigest sha256) key)
      (store'.roleKey (keyDigest sha256 key') r) = false :=
  h.ignores_of_kept fun _ _ hexact => hexact.foreign store' key' r hplain hne

/-- An open class would run on to the end of the pattern, and what it stands for
    there does not tell two digests apart. -/
theorem closed (htwo : ∃ k k', sha256 k ≠ sha256 k') : (prefixRead store.keyPrefix).2 = .plain := by
  rcases Glob.read_concat colon_ordinary.1 colon_ordinary.2 (utf8 store.keyPrefix) with
    ⟨ts, hread⟩ | hset
  · rw [prefixRead, hread]
  · obtain ⟨k, k', hne⟩ := htwo
    -- the name of the first window ends with one digit
    have hname : ∀ key, utf8 (store.roleKey (keyDigest sha256 key) (.fw 0)) =
        ((utf8 store.keyPrefix ++ [colon]) ++ middle (keyDigest sha256 key)) ++ [48] := by
      intro key
      have hzero : utf8 (Nat.repr (0 : Fin (2 ^ 64))) = [48] := by decide
      rw [utf8_roleKey, ending_fw, hzero, List.append_assoc _ (middle _)]
    have hown : ∀ key, Glob.accepts le (prefixRead store.keyPrefix).1
        ((utf8 store.keyPrefix ++ [colon]) ++ middle (keyDigest sha256 key)) = true := by
      intro key
      obtain ⟨p, hp⟩ := globMatch_of_isSet hset key
      obtain ⟨u, c, heq, hu, -⟩ := (hp _).mp (h.matches_own key 0)
      rw [hname] at heq
      rwa [(List.append_inj' heq rfl).1]
    obtain ⟨p, hp⟩ := globMatch_of_isSet hset k
    obtain ⟨u, c, heq, -, hc⟩ := (hp _).mp (h.matches_own k 0)
    rw [hname] at heq
    obtain rfl := List.singleton_inj.mp (List.append_inj' heq rfl).2
    have hdigest : keyDigest sha256 k' ≠ keyDigest sha256 k := fun hd => hne (keyDigest_inj hd.symm)
    have hnot := h.ignores_others (.fw 0) hdigest
    rw [(hp _).mpr ⟨_, 48, hname k', hown k', hc⟩] at hnot
    cases hnot

theorem exactPrefix (htwo : ∃ k k', sha256 k ≠ sha256 k') :
    ExactPrefix sha256 le store.keyPrefix := by
  have hclosed := h.closed htwo
  have hwhole : ∀ key u v,
      utf8 store.keyPrefix ++ [colon] = u ++ (middle (keyDigest sha256 key) ++ v) →
        Glob.accepts le (prefixRead store.keyPrefix).1 u = false := by
    intro key u v hhead
    rw [Bool.eq_false_iff]
    intro hu
    -- the pattern would match the keys of any other digest
    obtain ⟨key', hne⟩ : ∃ key', keyDigest sha256 key' ≠ keyDigest sha256 key := by
      obtain ⟨k, k', hk⟩ := htwo
      by_cases hfirst : keyDigest sha256 k = keyDigest sha256 key
      · exact ⟨k', fun hsecond => hk (keyDigest_inj (hfirst.trans hsecond.symm))⟩
      · exact ⟨k, hfirst⟩
    have hnot := h.ignores_others .tb hne
    rw [Bool.eq_false_iff, ne_eq, globMatch_iff hclosed] at hnot
    refine hnot ⟨u, v ++ ending (keyDigest sha256 key') .tb, ?_, hu⟩
    rw [utf8_roleKey, hhead, List.append_assoc, List.append_assoc]
  refine ⟨hclosed, ?_, ?_, hwhole⟩
  · rcases globMatch_roleKey hclosed (h.matches_own "" 0) with ⟨-, hu⟩ | ⟨u, w, hw, hu⟩
    · exact hu
    · rw [hwhole "" u w hw] at hu
      cases hu
  · intro w hplain haccepts
    by_contra hne
    have hnot : globMatch le (store.sweepPattern (keyDigest sha256) "")
        (RedisStore.roleKey ⟨w, 0⟩ (keyDigest sha256 "") (.fw 0)) = false :=
      h.ignores_foreign (.fw 0) hplain hne
    rw [Bool.eq_false_iff, ne_eq, globMatch_iff hclosed] at hnot
    exact hnot ⟨_, _, by rw [utf8_roleKey, ending_fw], haccepts⟩

end ResetExact

end

/-- A prefix without pattern characters is exact. -/
theorem exactPrefix_of_ordinary {p : String}
    (h : ∀ c ∈ utf8 p, Glob.Ordinary redisMarks c) : ExactPrefix sha256 le p := by
  have hread : prefixRead p = (Glob.literal (utf8 p ++ [colon]), .plain) := by
    refine Glob.read_ordinary fun c hc => ?_
    rcases List.mem_append.mp hc with hc | hc
    · exact h c hc
    · rw [List.mem_singleton.mp hc]
      exact colon_ordinary.1
  refine ⟨by rw [hread], ?_, ?_, ?_⟩
  · rw [hread, Glob.accepts_literal]
  · intro w _ haccepts
    rw [hread, Glob.accepts_literal] at haccepts
    exact Texts.utf8_injective (List.append_inj' haccepts rfl).1
  · intro key u v hhead
    rw [hread, Bool.eq_false_iff, ne_eq, Glob.accepts_literal]
    rintro rfl
    have hlength := congrArg List.length hhead
    simp only [middle, List.length_append, List.length_cons] at hlength
    omega

/-- So a plain one is. -/
theorem PlainPrefix.exact {p : String} (h : PlainPrefix p) : ExactPrefix sha256 le p := by
  refine exactPrefix_of_ordinary fun c hc => ⟨?_, ?_, ?_, ?_⟩
  · rintro rfl
    exact not_mem_plain (a := '*') h (by decide) (by decide) hc
  · rintro rfl
    exact not_mem_plain (a := '?') h (by decide) (by decide) hc
  · rintro rfl
    exact not_mem_plain (a := '[') h (by decide) (by decide) hc
  · rintro rfl
    exact not_mem_plain (a := '\\') h (by decide) (by decide) hc

/-- A server that compares bytes as unsigned numbers. -/
def unsignedLe (a b : UInt8) : Bool := decide (a ≤ b)

theorem plainPrefix_app : PlainPrefix "app" := by
  have hplain : ("app".toList.all fun c => c.isAlphanum || c == '-' || c == '_') = true := by
    decide
  intro c hc
  simpa [or_assoc] using List.all_eq_true.mp hplain c hc

/-- **When a reset is exact.**  The resets of a store are exact if and only if
    its prefix, with its colon read as a glob pattern, closes its classes and
    stands for itself, for no other plain prefix, and for no beginning of itself
    that goes on with a digest. -/
theorem resetExact_iff (htwo : ∃ k k', sha256 k ≠ sha256 k') (store : RedisStore) :
    ResetExact ν sha256 le store ↔ ExactPrefix sha256 le store.keyPrefix :=
  ⟨fun h => h.exactPrefix htwo, fun h => h.resetExact⟩

theorem resetExact_app : ResetExact ℚ sampleSha256 unsignedLe ⟨"app", 3000000000⟩ :=
  (resetExact_iff ⟨"client", "visitor", by decide⟩ _).mpr plainPrefix_app.exact

/-- The pattern of the prefix `[prod]` does not match its own counters. -/
theorem resetExact_not_brackets :
    ¬ ResetExact ℚ sampleSha256 unsignedLe ⟨"[prod]", 3000000000⟩ := by
  intro h
  exact absurd (h.matches_own "client" 0) (by decide)

end ArmatureRatelimit
