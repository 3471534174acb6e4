/-
  Keys of a client and a path (`KeyExtractor::IpAndPath` in `extractor.rs`).

  An address is counted as the IPv4 address that it is or carries, and otherwise
  by its upper 64 bits.  The text of the address tells which (`ipBucket_eq_iff`).
  In a key the text is followed by a colon and a path: an IPv4 text has dots
  before the first colon, and an IPv6 text ends with the first slash.
-/
import ArmatureRatelimit.Proof.NormalPath

open Lib

namespace ArmatureRatelimit

/-! ## Texts of IPv4 addresses -/

namespace Ipv4Addr

/-- The octets as they are written. -/
def octetTexts (addr : Ipv4Addr) : List (List Char) :=
  [24, 16, 8, 0].map fun i => (Nat.repr (addr.extractLsb' i 8).toNat).toList

theorem toText_toList (addr : Ipv4Addr) :
    addr.toText.toList = ['.'].intercalate addr.octetTexts := by
  rw [toText, String.toList_intercalate]
  rfl

theorem mem_octetTexts {addr : Ipv4Addr} {octet : List Char} (h : octet ∈ addr.octetTexts) :
    ∃ n, octet = (Nat.repr n).toList := by
  obtain ⟨i, -, rfl⟩ := List.mem_map.mp h
  exact ⟨_, rfl⟩

/-- Digits and dots. -/
theorem mem_toText {addr : Ipv4Addr} {c : Char} (h : c ∈ addr.toText.toList) :
    c = '.' ∨ c.isDigit = true := by
  rw [toText_toList] at h
  rcases Texts.mem_intercalate h with rfl | ⟨octet, hoctet, hc⟩
  · exact .inl rfl
  · obtain ⟨n, rfl⟩ := mem_octetTexts hoctet
    exact .inr (Texts.isDigit_of_mem_repr hc)

theorem dot_mem_toText (addr : Ipv4Addr) : '.' ∈ addr.toText.toList := by
  rw [toText_toList]
  simp [octetTexts, List.intercalate]

theorem toText_injective : Function.Injective toText := by
  intro a b h
  have hlist : ['.'].intercalate a.octetTexts = ['.'].intercalate b.octetTexts := by
    rw [← toText_toList, ← toText_toList, h]
  have hsep : ∀ addr : Ipv4Addr, ∀ octet ∈ addr.octetTexts, '.' ∉ octet := by
    intro addr octet hoctet
    obtain ⟨n, rfl⟩ := mem_octetTexts hoctet
    exact Texts.not_mem_repr (by decide) n
  have hoctets := Texts.intercalate_inj (hsep a) (hsep b) (by simp [octetTexts])
    (by simp [octetTexts]) hlist
  have hread : ∀ {m n : ℕ}, (Nat.repr m).toList = (Nat.repr n).toList → m = n :=
    fun h => Nat.repr_injective (String.toList_injective h)
  simp only [octetTexts, List.map_cons, List.map_nil, List.cons.injEq, and_true] at hoctets
  obtain ⟨h₃, h₂, h₁, h₀⟩ := hoctets
  replace h₃ := hread h₃
  replace h₂ := hread h₂
  replace h₁ := hread h₁
  replace h₀ := hread h₀
  simp only [BitVec.extractLsb'_toNat, Nat.shiftRight_eq_div_pow] at h₃ h₂ h₁ h₀
  have ha := a.isLt
  have hb := b.isLt
  exact BitVec.eq_of_toNat_eq (by omega)

end Ipv4Addr

/-! ## Texts of IPv6 prefixes -/

namespace Ipv6Addr

/-- The upper half of an address. -/
def upper (addr : Ipv6Addr) : BitVec 64 := addr.extractLsb' 64 64

theorem masked_eq (addr : Ipv6Addr) :
    addr &&& (BitVec.allOnes 128 <<< 64) = (addr.upper ++ 0#64 : BitVec 128) := by
  refine BitVec.eq_of_getLsbD_eq fun i hi => ?_
  rw [BitVec.getLsbD_and, BitVec.getLsbD_shiftLeft, BitVec.getLsbD_allOnes, BitVec.getLsbD_append,
    upper, BitVec.getLsbD_extractLsb', BitVec.getLsbD_zero]
  by_cases hlow : i < 64
  · simp [hlow]
  · have hsub : i - 64 < 64 := by omega
    have hadd : 64 + (i - 64) = i := by omega
    simp [hlow, hi, hsub, hadd]
    omega

/-- The segments of the upper half. -/
def upperSegments (hi : BitVec 64) : List ℕ :=
  [48, 32, 16, 0].map fun i => (hi.extractLsb' i 16).toNat

theorem toNat_append_zero (hi : BitVec 64) :
    (hi ++ 0#64 : BitVec 128).toNat = hi.toNat * 2 ^ 64 := by
  rw [BitVec.toNat_append]
  simp [Nat.shiftLeft_eq]

theorem segments_append_zero (hi : BitVec 64) :
    segments (hi ++ 0#64 : BitVec 128) = upperSegments hi ++ [0, 0, 0, 0] := by
  have hbound := hi.isLt
  simp only [segments, upperSegments, List.map_cons, List.map_nil, List.cons_append,
    List.nil_append, BitVec.extractLsb'_toNat, toNat_append_zero, Nat.shiftRight_eq_div_pow,
    List.cons.injEq, and_true]
  omega

theorem upperSegments_injective : Function.Injective upperSegments := by
  intro a b h
  simp only [upperSegments, List.map_cons, List.map_nil, List.cons.injEq, and_true,
    BitVec.extractLsb'_toNat, Nat.shiftRight_eq_div_pow] at h
  have ha := a.isLt
  have hb := b.isLt
  exact BitVec.eq_of_toNat_eq (by omega)

theorem toIpv4Mapped_append_zero (hi : BitVec 64) :
    toIpv4Mapped (hi ++ 0#64 : BitVec 128) = none := by
  unfold toIpv4Mapped
  refine if_neg fun h => ?_
  have hnat := congrArg BitVec.toNat h
  rw [BitVec.extractLsb'_toNat, toNat_append_zero, Nat.shiftRight_eq_div_pow] at hnat
  have hconst : (0xffff : BitVec 96).toNat = 65535 := rfl
  omega

/-- The zeroes of a prefix are all that ends it. -/
theorem zeroes_append_zero (a b c d : ℕ) :
    ∃ k ≤ 4, zeroes [a, b, c, d, 0, 0, 0, 0] = (k, 8 - k) ∧
      [a, b, c, d] = [a, b, c, d].take k ++ List.replicate (4 - k) 0 := by
  by_cases hd : d = 0
  · by_cases hc : c = 0
    · by_cases hb : b = 0
      · by_cases ha : a = 0
        · exact ⟨0, by decide, by simp [zeroes, List.zipIdx, ha, hb, hc, hd],
            by simp [ha, hb, hc, hd]⟩
        · exact ⟨1, by decide, by simp [zeroes, List.zipIdx, ha, hb, hc, hd],
            by simp [hb, hc, hd]⟩
      · refine ⟨2, by decide, ?_, by simp [hc, hd]⟩
        by_cases ha : a = 0 <;> simp [zeroes, List.zipIdx, ha, hb, hc, hd]
    · refine ⟨3, by decide, ?_, by simp [hd]⟩
      by_cases ha : a = 0 <;> by_cases hb : b = 0 <;> simp [zeroes, List.zipIdx, ha, hb, hc, hd]
  · refine ⟨4, by decide, ?_, by simp⟩
    by_cases ha : a = 0 <;> by_cases hb : b = 0 <;> by_cases hc : c = 0 <;>
      simp [zeroes, List.zipIdx, ha, hb, hc, hd]

@[simp] theorem hexText_nil : hexText [] = "" := by
  rw [hexText, List.map_nil, String.intercalate_nil]

theorem hexText_toList (segments : List ℕ) :
    (hexText segments).toList = [':'].intercalate (segments.map (Nat.toDigits 16)) := by
  rw [hexText, String.toList_intercalate, List.map_map]
  congr 1
  exact List.map_congr_left fun s _ => String.toList_ofList

/-- Hexadecimal digits and colons. -/
theorem mem_hexText {segments : List ℕ} {c : Char} (h : c ∈ (hexText segments).toList) :
    c = ':' ∨ c ∈ Texts.hexDigits := by
  rw [hexText_toList] at h
  rcases Texts.mem_intercalate h with rfl | ⟨s, hs, hc⟩
  · exact .inl rfl
  · obtain ⟨n, -, rfl⟩ := List.mem_map.mp hs
    exact .inr (Texts.mem_toDigits hc)

theorem hexText_injective : Function.Injective hexText := by
  intro xs ys h
  have hlist := congrArg String.toList h
  rw [hexText_toList, hexText_toList] at hlist
  have hparts : ∀ segments : List ℕ, ∀ s ∈ segments.map (Nat.toDigits 16), ':' ∉ s ∧ s ≠ [] := by
    intro segments s hs
    obtain ⟨n, -, rfl⟩ := List.mem_map.mp hs
    exact ⟨fun hc => absurd (Texts.mem_toDigits hc) (by decide), Nat.toDigits_ne_nil⟩
  exact List.map_injective_iff.mpr Texts.toDigits_injective
    (Texts.intercalate_inj_of_ne_nil (hparts xs) (hparts ys) hlist)

/-- What an address of a prefix is written as: the segments before its zeroes,
    and two colons. -/
theorem toText_append_zero (hi : BitVec 64) : ∃ k ≤ 4,
    toText (hi ++ 0#64 : BitVec 128) = hexText ((upperSegments hi).take k) ++ "::" ∧
      upperSegments hi = (upperSegments hi).take k ++ List.replicate (4 - k) 0 := by
  obtain ⟨k, hk, hzeroes, htake⟩ := zeroes_append_zero (hi.extractLsb' 48 16).toNat
    (hi.extractLsb' 32 16).toNat (hi.extractLsb' 16 16).toNat (hi.extractLsb' 0 16).toNat
  have hrun : zeroes (upperSegments hi ++ [0, 0, 0, 0]) = (k, 8 - k) := hzeroes
  have hlen : (upperSegments hi).length = 4 := rfl
  refine ⟨k, hk, ?_, htake⟩
  unfold toText
  rw [toIpv4Mapped_append_zero, segments_append_zero]
  simp only [hrun]
  rw [if_pos (by omega), List.take_append_of_le_length (by omega), Nat.add_sub_cancel' (by omega),
    List.drop_of_length_le (by simp [hlen]), hexText_nil, String.append_empty]

theorem toText_append_zero_injective :
    Function.Injective fun hi : BitVec 64 => toText (hi ++ 0#64 : BitVec 128) := by
  intro a b h
  obtain ⟨j, hj, htext, htake⟩ := toText_append_zero a
  obtain ⟨k, hk, htext', htake'⟩ := toText_append_zero b
  simp only [htext, htext'] at h
  have hparts := hexText_injective (String.append_left_inj _ |>.mp h)
  have hlen := congrArg List.length hparts
  have hlenA : (upperSegments a).length = 4 := rfl
  have hlenB : (upperSegments b).length = 4 := rfl
  simp only [List.length_take, hlenA, hlenB] at hlen
  obtain rfl : j = k := by omega
  refine upperSegments_injective ?_
  rw [htake, htake', hparts]

end Ipv6Addr

/-! ## Buckets -/

/-- The IPv4 address that an address is or carries. -/
def IpAddr.ipv4 : IpAddr → Option Ipv4Addr
  | .v4 addr => some addr
  | .v6 addr => addr.toIpv4Mapped

/-- One client: the same IPv4 address, or IPv6 addresses with the same upper half
    that carry none. -/
def SameClient (a b : IpAddr) : Prop :=
  (∃ v4, a.ipv4 = some v4 ∧ b.ipv4 = some v4) ∨
    ∃ v6 v6', a = .v6 v6 ∧ b = .v6 v6' ∧ v6.toIpv4Mapped = none ∧ v6'.toIpv4Mapped = none ∧
      v6.extractLsb' 64 64 = v6'.extractLsb' 64 64

/-- The two kinds of bucket. -/
theorem ipBucket_cases (ip : IpAddr) :
    (∃ v4, ip.ipv4 = some v4 ∧ ipBucket ip = v4.toText) ∨
      ∃ v6, ip = .v6 v6 ∧ v6.toIpv4Mapped = none ∧
        ipBucket ip = Ipv6Addr.toText (v6.upper ++ 0#64 : BitVec 128) ++ "/64" := by
  rcases ip with v4 | v6
  · exact .inl ⟨v4, rfl, rfl⟩
  · cases hmapped : v6.toIpv4Mapped with
    | some v4 => exact .inl ⟨v4, hmapped, by simp only [ipBucket, hmapped]⟩
    | none => exact .inr ⟨v6, rfl, hmapped, by simp only [ipBucket, hmapped, Ipv6Addr.masked_eq]⟩

theorem colon_not_mem_v4 (v4 : Ipv4Addr) : ':' ∉ v4.toText.toList :=
  fun h => (Ipv4Addr.mem_toText h).elim (by decide) (by decide)

/-- The text of a prefix, as characters. -/
theorem mem_prefixText {hi : BitVec 64} {c : Char}
    (h : c ∈ (Ipv6Addr.toText (hi ++ 0#64 : BitVec 128)).toList) :
    c = ':' ∨ c ∈ Texts.hexDigits := by
  obtain ⟨k, -, htext, -⟩ := Ipv6Addr.toText_append_zero hi
  rw [htext, String.toList_append] at h
  rcases List.mem_append.mp h with h | h
  · exact Ipv6Addr.mem_hexText h
  · exact .inl (by simpa using h)

theorem slash_not_mem_prefixText (hi : BitVec 64) :
    '/' ∉ (Ipv6Addr.toText (hi ++ 0#64 : BitVec 128)).toList :=
  fun h => (mem_prefixText h).elim (by decide) (by decide)

theorem dot_not_mem_prefixText (hi : BitVec 64) :
    '.' ∉ (Ipv6Addr.toText (hi ++ 0#64 : BitVec 128)).toList :=
  fun h => (mem_prefixText h).elim (by decide) (by decide)

theorem colon_mem_prefixText (hi : BitVec 64) :
    ':' ∈ (Ipv6Addr.toText (hi ++ 0#64 : BitVec 128)).toList := by
  obtain ⟨k, -, htext, -⟩ := Ipv6Addr.toText_append_zero hi
  rw [htext, String.toList_append]
  exact List.mem_append_right _ (by decide)

/-- An IPv4 text does not start a key of an IPv6 prefix. -/
theorem v4_ne_prefixText (v4 : Ipv4Addr) (hi : BitVec 64) (xs ys : List Char) :
    v4.toText.toList ++ xs ≠ (Ipv6Addr.toText (hi ++ 0#64 : BitVec 128)).toList ++ ys := by
  intro h
  rcases List.append_eq_append_iff.mp h with ⟨as, htext, -⟩ | ⟨bs, htext, -⟩
  · exact dot_not_mem_prefixText hi (htext ▸ List.mem_append_left as v4.dot_mem_toText)
  · exact colon_not_mem_v4 v4 (htext ▸ List.mem_append_left bs (colon_mem_prefixText hi))

/-- The characters of a bucket. -/
theorem mem_ipBucket {ip : IpAddr} {c : Char} (h : c ∈ (ipBucket ip).toList) :
    c ∈ ['.', ':', '/'] ∨ c.isDigit = true ∨ c ∈ Texts.hexDigits := by
  rcases ipBucket_cases ip with ⟨v4, -, hbucket⟩ | ⟨v6, -, -, hbucket⟩
  · rw [hbucket] at h
    rcases Ipv4Addr.mem_toText h with rfl | hdigit
    · exact .inl (by decide)
    · exact .inr (.inl hdigit)
  · rw [hbucket, String.toList_append] at h
    rcases List.mem_append.mp h with h | h
    · rcases mem_prefixText h with rfl | hhex
      · exact .inl (by decide)
      · exact .inr (.inr hhex)
    · obtain rfl | rfl | rfl : c = '/' ∨ c = '6' ∨ c = '4' := by simpa using h
      · exact .inl (by decide)
      · exact .inr (.inl (by decide))
      · exact .inr (.inl (by decide))

/-- Any other character is in no bucket. -/
theorem not_mem_ipBucket {c : Char} (hc : c ∉ ['.', ':', '/']) (hdigit : ¬ c.isDigit = true)
    (hhex : c ∉ Texts.hexDigits) (ip : IpAddr) : c ∉ (ipBucket ip).toList := by
  intro h
  rcases mem_ipBucket h with h | h | h
  · exact hc h
  · exact hdigit h
  · exact hhex h

/-- **Keys with a path.**  Two buckets with a path after them are the same text
    only if the clients and the paths are the same. -/
theorem ipBucket_path_inj {a b : IpAddr} {p q : List Char}
    (h : (ipBucket a).toList ++ ':' :: p = (ipBucket b).toList ++ ':' :: q) :
    SameClient a b ∧ p = q := by
  rcases ipBucket_cases a with ⟨v4, ha, hbucket⟩ | ⟨v6, ha, hnone, hbucket⟩ <;>
    rcases ipBucket_cases b with ⟨v4', hb, hbucket'⟩ | ⟨v6', hb, hnone', hbucket'⟩ <;>
    rw [hbucket, hbucket'] at h
  · obtain ⟨htext, hpath⟩ := Texts.sep_append_inj (colon_not_mem_v4 v4) (colon_not_mem_v4 v4') h
    obtain rfl := Ipv4Addr.toText_injective (String.toList_injective htext)
    exact ⟨.inl ⟨v4, ha, hb⟩, hpath⟩
  · rw [String.toList_append, List.append_assoc] at h
    exact absurd h (v4_ne_prefixText _ _ _ _)
  · rw [String.toList_append, List.append_assoc] at h
    exact absurd h.symm (v4_ne_prefixText _ _ _ _)
  · rw [String.toList_append, String.toList_append, List.append_assoc, List.append_assoc] at h
    obtain ⟨htext, htail⟩ := Texts.sep_append_inj (slash_not_mem_prefixText v6.upper)
      (slash_not_mem_prefixText v6'.upper) h
    have hupper := Ipv6Addr.toText_append_zero_injective (String.toList_injective htext)
    refine ⟨.inr ⟨v6, v6', ha, hb, hnone, hnone', hupper⟩, ?_⟩
    simpa using htail

theorem ipBucket_eq_iff (a b : IpAddr) : ipBucket a = ipBucket b ↔ SameClient a b := by
  constructor
  · intro h
    exact (ipBucket_path_inj (p := []) (q := []) (by rw [h])).1
  · rintro (⟨v4, ha, hb⟩ | ⟨v6, v6', rfl, rfl, hnone, hnone', hupper⟩)
    · have hbucket : ∀ ip : IpAddr, ip.ipv4 = some v4 → ipBucket ip = v4.toText := by
        rintro (v4' | v6) hip
        · obtain rfl := Option.some.inj hip
          rfl
        · simp only [ipBucket, show v6.toIpv4Mapped = some v4 from hip]
      rw [hbucket a ha, hbucket b hb]
    · simp only [ipBucket, hnone, hnone', Ipv6Addr.masked_eq]
      rw [show v6.upper = v6'.upper from hupper]

/-- **One key for each client and endpoint.** -/
theorem ipAndPath_partitions (keyDigest : String → String) (a b : IpAddr) (p q : String)
    (userId userId' : Option String) (headers headers' : List (String × String)) :
    KeyExtractor.ipAndPath.extract keyDigest ⟨some a, p, userId, headers⟩ =
        KeyExtractor.ipAndPath.extract keyDigest ⟨some b, q, userId', headers'⟩ ↔
      normalizePath p = normalizePath q ∧ SameClient a b := by
  show some (ipBucket a ++ ":" ++ normalizePath p) = some (ipBucket b ++ ":" ++ normalizePath q) ↔ _
  rw [Option.some.injEq]
  constructor
  · intro h
    have hlist := congrArg String.toList h
    simp only [String.toList_append, List.append_assoc] at hlist
    obtain ⟨hclient, hpath⟩ := ipBucket_path_inj hlist
    exact ⟨String.toList_injective hpath, hclient⟩
  · rintro ⟨hpath, hclient⟩
    rw [hpath, (ipBucket_eq_iff a b).mpr hclient]

/-- Addresses of one /64, and an IPv4 address that an IPv6 address carries. -/
example :
    SameClient (.v6 0x20010db800010002aaaa000000000001) (.v6 0x20010db8000100020000000000000009) ∧
      SameClient (.v4 0xcb007109) (.v6 0xffffcb007109) :=
  ⟨.inr ⟨_, _, rfl, rfl, by decide, by decide, by decide⟩, .inl ⟨0xcb007109, rfl, by decide⟩⟩

end ArmatureRatelimit
