/-
  Texts that are put together from parts, as lists of characters: when the parts
  can be told from the whole.

  A separator that one of two parts does not contain tells where that part ends
  (`append_sep_inj`, `sep_append_inj`).  The decimal text of a natural number has
  digits only, so any other character sets it apart (`numbered_inj`).  Parts that
  do not contain the separator between them can be read back (`intercalate_inj`).
  Bytes are written in hexadecimal with two digits each, so their text tells them
  (`hexText_injective`); a natural number takes as many digits as it needs
  (`toDigits_injective`).  `utf8` is a text as bytes.
-/
import Mathlib

namespace Lib.Texts

variable {α : Type}

/-- The last separator splits the whole. -/
theorem append_sep_inj {sep : α} {xs ys us vs : List α} (hu : sep ∉ us) (hv : sep ∉ vs)
    (h : xs ++ sep :: us = ys ++ sep :: vs) : xs = ys ∧ us = vs := by
  rcases List.append_eq_append_iff.mp h with ⟨as, rfl, htail⟩ | ⟨bs, rfl, htail⟩
  · cases as with
    | nil =>
      obtain ⟨-, rfl⟩ := List.cons.inj htail
      exact ⟨(List.append_nil _).symm, rfl⟩
    | cons a as =>
      obtain ⟨-, rfl⟩ := List.cons.inj htail
      exact absurd (by simp) hu
  · cases bs with
    | nil =>
      obtain ⟨-, rfl⟩ := List.cons.inj htail
      exact ⟨List.append_nil _, rfl⟩
    | cons b bs =>
      obtain ⟨-, rfl⟩ := List.cons.inj htail
      exact absurd (by simp) hv

/-- The first separator splits the whole. -/
theorem sep_append_inj {sep : α} {xs ys us vs : List α} (hx : sep ∉ xs) (hy : sep ∉ ys)
    (h : xs ++ sep :: us = ys ++ sep :: vs) : xs = ys ∧ us = vs := by
  have hrev : us.reverse ++ sep :: xs.reverse = vs.reverse ++ sep :: ys.reverse := by
    simpa using congrArg List.reverse h
  obtain ⟨htail, hhead⟩ := append_sep_inj (by simpa using hx) (by simpa using hy) hrev
  exact ⟨List.reverse_injective hhead, List.reverse_injective htail⟩

/-- A first part ends with the whole's first separator. -/
theorem sep_prefix {sep : α} {a b r t : List α} (ha : sep ∉ a)
    (h : a ++ sep :: r = b ++ sep :: t) : ∃ c, b ++ [sep] = a ++ sep :: c ∧ r = c ++ t := by
  rcases List.append_eq_append_iff.mp h with ⟨c, rfl, hc⟩ | ⟨c, rfl, hc⟩
  · cases c with
    | nil =>
      obtain ⟨-, rfl⟩ := List.cons.inj hc
      exact ⟨[], by simp, rfl⟩
    | cons x c =>
      obtain ⟨rfl, rfl⟩ := List.cons.inj hc
      exact ⟨c ++ [sep], by simp, by simp⟩
  · cases c with
    | nil =>
      obtain ⟨-, rfl⟩ := List.cons.inj hc
      exact ⟨[], by simp, rfl⟩
    | cons x c =>
      obtain ⟨rfl, -⟩ := List.cons.inj hc
      exact absurd (by simp) ha

/-- What is left of a part that ends with a separator ends with it too. -/
theorem concat_of_append {sep : α} {a b c : List α} (h : a ++ [sep] = b ++ c) (hc : c ≠ []) :
    ∃ c', c = c' ++ [sep] := by
  rcases List.eq_nil_or_concat c with rfl | ⟨c', x, rfl⟩
  · exact absurd rfl hc
  · rw [List.concat_eq_append, ← List.append_assoc] at h
    obtain ⟨-, hx⟩ := List.append_inj' h rfl
    obtain rfl := List.singleton_inj.mp hx
    exact ⟨c', List.concat_eq_append⟩

section
variable [DecidableEq α] {sep : α} {head u mark digest tag digest' suffix v : List α}

/-- **Where a marked digest can be.**  A whole is a head, a tag, a digest and
    perhaps one more part, with separators between them.  Where another
    decomposition of it has a mark and a digest in the middle, these are the
    whole's own tag and digest, or they are in its head. -/
theorem marked_digest (hmark : sep ∉ mark) (hdigest : sep ∉ digest) (htag : sep ∉ tag)
    (hdigest' : sep ∉ digest') (hne : digest ≠ tag)
    (hsuffix : suffix = [] ∨ ∃ q, sep ∉ q ∧ suffix = sep :: q)
    (h : (head ++ [sep]) ++ (tag ++ sep :: (digest' ++ suffix)) =
      (u ++ [sep]) ++ (mark ++ sep :: (digest ++ sep :: v))) :
    (u = head ∧ tag = mark ∧ digest' = digest) ∨
      ∃ w, head ++ [sep] = (u ++ [sep]) ++ (mark ++ sep :: (digest ++ sep :: w)) := by
  have hown : tag ++ sep :: (digest' ++ suffix) = mark ++ sep :: (digest ++ sep :: v) →
      tag = mark ∧ digest' = digest := by
    intro heq
    obtain ⟨hm, hrest⟩ := sep_append_inj htag hmark heq
    refine ⟨hm, ?_⟩
    rcases hsuffix with rfl | ⟨q, -, rfl⟩
    · rw [List.append_nil] at hrest
      exact absurd (hrest ▸ by simp) hdigest'
    · exact (sep_append_inj hdigest' hdigest hrest).1
  rcases List.append_eq_append_iff.mp h with ⟨as, hu, heq⟩ | ⟨bs, hhead, heq⟩
  · by_cases has : as = []
    · subst has
      rw [List.append_nil] at hu
      exact .inl ⟨(List.append_inj' hu rfl).1, hown heq⟩
    · -- too many separators
      obtain ⟨as', rfl⟩ := concat_of_append hu has
      have hcount := congrArg (List.count sep) heq
      have hsuffix' : List.count sep suffix ≤ 1 := by
        rcases hsuffix with rfl | ⟨q, hq, rfl⟩
        · simp
        · simp [List.count_eq_zero_of_not_mem hq]
      simp only [List.count_append, List.count_cons_self, List.count_nil,
        List.count_eq_zero_of_not_mem htag, List.count_eq_zero_of_not_mem hdigest'] at hcount
      omega
  · by_cases hbs : bs = []
    · subst hbs
      rw [List.append_nil] at hhead
      exact .inl ⟨(List.append_inj' hhead rfl).1.symm, hown heq.symm⟩
    · obtain ⟨bs', rfl⟩ := concat_of_append hhead hbs
      rw [List.append_assoc] at heq
      obtain ⟨c, hc, hrest⟩ := sep_prefix hmark heq
      by_cases hcnil : c = []
      · subst hcnil
        exact absurd (sep_append_inj hdigest htag hrest).1 hne
      · have hends : bs' ++ [sep] = (mark ++ [sep]) ++ c := by rw [hc]; simp
        obtain ⟨c', rfl⟩ := concat_of_append hends hcnil
        rw [List.append_assoc] at hrest
        obtain ⟨w, hw, -⟩ := sep_prefix hdigest hrest
        exact .inr ⟨w, by rw [hhead, hc, hw]⟩

end

/-! ## Numbers -/

theorem isDigit_of_mem_repr {n : ℕ} {c : Char} (h : c ∈ (Nat.repr n).toList) :
    c.isDigit = true := by
  refine Nat.isDigit_of_mem_toDigits (b := 10) (n := n) (by decide) le_rfl ?_
  simpa [Nat.repr] using h

theorem not_mem_repr {sep : Char} (hsep : sep.isDigit = false) (n : ℕ) :
    sep ∉ (Nat.repr n).toList := by
  intro h
  rw [isDigit_of_mem_repr h] at hsep
  cases hsep

/-- A text that ends with a number. -/
theorem numbered_inj {sep : Char} (hsep : sep.isDigit = false) {xs ys : List Char} {m n : ℕ}
    (h : xs ++ sep :: (Nat.repr m).toList = ys ++ sep :: (Nat.repr n).toList) :
    xs = ys ∧ m = n := by
  obtain ⟨hhead, htail⟩ := append_sep_inj (not_mem_repr hsep m) (not_mem_repr hsep n) h
  exact ⟨hhead, Nat.repr_injective (String.toList_injective htail)⟩

/-! ## Joined parts -/

section
variable [DecidableEq α] {sep : α} {xs ys : List (List α)}

theorem intercalate_inj (hx : ∀ x ∈ xs, sep ∉ x) (hy : ∀ y ∈ ys, sep ∉ y) (hxs : xs ≠ [])
    (hys : ys ≠ []) (h : [sep].intercalate xs = [sep].intercalate ys) : xs = ys := by
  rw [← List.splitOn_intercalate sep hx hxs, h, List.splitOn_intercalate sep hy hys]

omit [DecidableEq α] in
theorem intercalate_ne_nil (hxs : xs ≠ []) (hx : ∀ x ∈ xs, x ≠ []) :
    [sep].intercalate xs ≠ [] := by
  rcases xs with _ | ⟨x, xs⟩
  · exact absurd rfl hxs
  · have hhead : x ≠ [] := hx x (by simp)
    cases xs with
    | nil => simpa using hhead
    | cons y ys => simp [List.intercalate, hhead]

/-- Parts that are not empty can be read back even where there may be none. -/
theorem intercalate_inj_of_ne_nil (hx : ∀ x ∈ xs, sep ∉ x ∧ x ≠ [])
    (hy : ∀ y ∈ ys, sep ∉ y ∧ y ≠ []) (h : [sep].intercalate xs = [sep].intercalate ys) :
    xs = ys := by
  by_cases hxs : xs = []
  · by_cases hys : ys = []
    · rw [hxs, hys]
    · subst hxs
      exact absurd h.symm (intercalate_ne_nil hys fun y h => (hy y h).2)
  · by_cases hys : ys = []
    · subst hys
      exact absurd h (intercalate_ne_nil hxs fun x h => (hx x h).2)
    · exact intercalate_inj (fun x h => (hx x h).1) (fun y h => (hy y h).1) hxs hys h

omit [DecidableEq α] in
theorem mem_intercalate {c : α} (h : c ∈ [sep].intercalate xs) : c = sep ∨ ∃ x ∈ xs, c ∈ x := by
  induction xs with
  | nil => cases h
  | cons x xs ih =>
    cases xs with
    | nil => exact .inr ⟨x, by simp, by simpa using h⟩
    | cons y ys =>
      have hparts : c ∈ x ∨ c = sep ∨ c ∈ [sep].intercalate (y :: ys) := by
        simpa [List.intercalate] using h
      rcases hparts with hc | hc | hc
      · exact .inr ⟨x, by simp, hc⟩
      · exact .inl hc
      · exact (ih hc).imp id fun ⟨z, hz, hcz⟩ => ⟨z, by simp [hz], hcz⟩

end

/-! ## Bytes in hexadecimal -/

def hexDigits : List Char := "0123456789abcdef".toList

def hexByte (byte : BitVec 8) : List Char :=
  [Nat.digitChar (byte.toNat / 16), Nat.digitChar (byte.toNat % 16)]

def hexText (bytes : List (BitVec 8)) : List Char := bytes.flatMap hexByte

theorem digitChar_mem_hexDigits : ∀ n < 16, Nat.digitChar n ∈ hexDigits := by decide

theorem digitChar_inj : ∀ m < 16, ∀ n < 16, Nat.digitChar m = Nat.digitChar n → m = n := by decide

theorem length_hexText (bytes : List (BitVec 8)) : (hexText bytes).length = 2 * bytes.length := by
  induction bytes with
  | nil => rfl
  | cons byte bytes ih =>
    show (hexByte byte ++ hexText bytes).length = _
    rw [List.length_append, ih, List.length_cons]
    simp only [hexByte, List.length_cons, List.length_nil]
    ring

theorem mem_hexText {bytes : List (BitVec 8)} {c : Char} (h : c ∈ hexText bytes) :
    c ∈ hexDigits := by
  obtain ⟨byte, -, hc⟩ := List.mem_flatMap.mp h
  have hbyte := byte.isLt
  simp only [hexByte, List.mem_cons, List.not_mem_nil, or_false] at hc
  rcases hc with rfl | rfl
  · exact digitChar_mem_hexDigits _ (by omega)
  · exact digitChar_mem_hexDigits _ (by omega)

theorem hexByte_inj {a b : BitVec 8} (h : hexByte a = hexByte b) : a = b := by
  have ha := a.isLt
  have hb := b.isLt
  simp only [hexByte, List.cons.injEq, and_true] at h
  have hhigh := digitChar_inj _ (by omega) _ (by omega) h.1
  have hlow := digitChar_inj _ (by omega) _ (by omega) h.2
  exact BitVec.eq_of_toNat_eq (by omega)

theorem hexText_injective : Function.Injective hexText := by
  intro as bs h
  induction as generalizing bs with
  | nil =>
    cases bs with
    | nil => rfl
    | cons b bs => cases h
  | cons a as ih =>
    cases bs with
    | nil => cases h
    | cons b bs =>
      obtain ⟨hbyte, hrest⟩ := List.append_inj (show hexByte a ++ hexText as =
        hexByte b ++ hexText bs from h) rfl
      rw [hexByte_inj hbyte, ih hrest]

/-! ## Numbers in hexadecimal -/

theorem mem_toDigits {n : ℕ} {c : Char} (h : c ∈ Nat.toDigits 16 n) : c ∈ hexDigits := by
  induction n using Nat.strong_induction_on with
  | _ n ih =>
    rw [Nat.toDigits_eq_if (by decide)] at h
    split_ifs at h with hn
    · obtain rfl := List.mem_singleton.mp h
      exact digitChar_mem_hexDigits n hn
    · rcases List.mem_append.mp h with h | h
      · exact ih (n / 16) (by omega) h
      · obtain rfl := List.mem_singleton.mp h
        exact digitChar_mem_hexDigits _ (Nat.mod_lt _ (by decide))

theorem toDigits_injective : Function.Injective (Nat.toDigits 16) := by
  intro m
  induction m using Nat.strong_induction_on with
  | _ m ih =>
    intro n h
    rw [Nat.toDigits_eq_if (by decide), Nat.toDigits_eq_if (n := n) (by decide)] at h
    -- the last digits are the same, and so are the digits before them
    split_ifs at h with hm hn hn
    · exact digitChar_inj m hm n hn (List.singleton_inj.mp h)
    · obtain ⟨hinit, -⟩ := List.append_inj' (show [] ++ [Nat.digitChar m] = _ from h) rfl
      exact absurd hinit.symm Nat.toDigits_ne_nil
    · obtain ⟨hinit, -⟩ := List.append_inj' (show _ = [] ++ [Nat.digitChar n] from h) rfl
      exact absurd hinit Nat.toDigits_ne_nil
    · obtain ⟨hinit, hlast⟩ := List.append_inj' h rfl
      have hhigh := ih (m / 16) (by omega) hinit
      have hlow := digitChar_inj _ (Nat.mod_lt m (by decide)) _ (Nat.mod_lt n (by decide))
        (List.singleton_inj.mp hlast)
      omega

/-! ## Texts as bytes -/

def utf8 (s : String) : List UInt8 := s.toList.flatMap String.utf8EncodeChar

theorem utf8_append (s t : String) : utf8 (s ++ t) = utf8 s ++ utf8 t := by
  rw [utf8, String.toList_append, List.flatMap_append]
  rfl

theorem utf8_injective : Function.Injective utf8 := by
  intro s t h
  have hbytes : s.toList.utf8Encode = t.toList.utf8Encode := congrArg List.toByteArray h
  rwa [String.utf8Encode_toList, String.utf8Encode_toList, String.toByteArray_inj] at hbytes

/-- ASCII texts have one byte for each character. -/
theorem utf8_ascii {s : String} (h : ∀ c ∈ s.toList, c.val ≤ 127) :
    utf8 s = s.toList.map fun c => c.val.toUInt8 := by
  have hchars : ∀ cs : List Char, (∀ c ∈ cs, c.val ≤ 127) →
      cs.flatMap String.utf8EncodeChar = cs.map fun c => c.val.toUInt8 := by
    intro cs hcs
    induction cs with
    | nil => rfl
    | cons c cs ih =>
      have hc := String.utf8EncodeChar_eq_singleton
        (Char.utf8Size_eq_one_iff.mpr (hcs c (by simp)))
      rw [List.flatMap_cons, hc, ih fun c' hc' => hcs c' (by simp [hc'])]
      rfl
  exact hchars s.toList h

theorem toUInt8_inj {a c : Char} (ha : a.val ≤ 127) (hc : c.val ≤ 127)
    (h : c.val.toUInt8 = a.val.toUInt8) : c = a := by
  have hnat : c.val.toNat % 2 ^ 8 = a.val.toNat % 2 ^ 8 := congrArg UInt8.toNat h
  have ha' : a.val.toNat ≤ 127 := ha
  have hc' : c.val.toNat ≤ 127 := hc
  exact Char.ext (UInt32.toNat_inj.mp (by omega))

/-- The byte of a character that an ASCII text does not contain. -/
theorem not_mem_utf8 {s : String} {a : Char} (ha : a.val ≤ 127)
    (h : ∀ c ∈ s.toList, c.val ≤ 127 ∧ c ≠ a) : a.val.toUInt8 ∉ utf8 s := by
  rw [utf8_ascii fun c hc => (h c hc).1]
  intro hmem
  obtain ⟨c, hc, heq⟩ := List.mem_map.mp hmem
  exact (h c hc).2 (toUInt8_inj ha (h c hc).1 heq)

end Lib.Texts
