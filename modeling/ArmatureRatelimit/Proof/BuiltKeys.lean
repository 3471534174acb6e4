/-
  Keys of built extractors (`KeyExtractorBuilder` in `extractor.rs`).

  A request is keyed by the user id, by an API key or by its address, whichever
  the builder comes to first.  API keys are tagged; user ids are written as they
  are, so keys of different strategies are different exactly when no user id
  reads as an address bucket or as the bucket of a valid API key
  (`builtKeys_identify_iff`).
-/
import ArmatureRatelimit.Proof.ClientKeys

open Lib

namespace ArmatureRatelimit

inductive Strategy
  | userId
  | apiKey
  | ip
  deriving DecidableEq

namespace KeyExtractorBuilder

/-- Builders of the steps that prefer a strategy, with or without the fallback. -/
inductive Composed : KeyExtractorBuilder → Prop
  | new : Composed new
  | preferUserId {b : KeyExtractorBuilder} (h : Composed b) : Composed b.preferUserId
  | preferApiKey {b : KeyExtractorBuilder} (h : Composed b) (headerName : String)
    (validator : String → Bool) : Composed (b.preferApiKey headerName validator)
  | noIpFallback {b : KeyExtractorBuilder} (h : Composed b) : Composed b.noIpFallback

theorem Composed.extractors {b : KeyExtractorBuilder} (h : b.Composed) :
    ∀ e ∈ b.extractors, e = .userId ∨ ∃ headerName validator, e = .apiKey headerName validator := by
  induction h with
  | new => exact fun e he => absurd he List.not_mem_nil
  | preferUserId _ ih =>
    intro e he
    rcases List.mem_append.mp he with he | he
    · exact ih e he
    · exact .inl (List.mem_singleton.mp he)
  | preferApiKey _ headerName validator ih =>
    intro e he
    rcases List.mem_append.mp he with he | he
    · exact ih e he
    · exact .inr ⟨headerName, validator, List.mem_singleton.mp he⟩
  | noIpFallback _ ih => exact ih

section
variable (keyDigest : String → String)

/-- The strategy that a request is keyed through. -/
def strategy (self : KeyExtractorBuilder) (info : RequestInfo) : Option Strategy :=
  match self.extractors.find? fun extractor => (extractor.extract keyDigest info).isSome with
  | some .userId => some .userId
  | some (.apiKey ..) => some .apiKey
  | some _ => none
  | none => if self.fallbackToIp && info.ip.isSome then some .ip else none

variable {keyDigest} {b : KeyExtractorBuilder} {r : RequestInfo}

/-- The first extractor with a key decides. -/
theorem build_of_find {e : KeyExtractor}
    (h : b.extractors.find? (fun e => (e.extract keyDigest r).isSome) = some e) :
    e ∈ b.extractors ∧ b.build keyDigest r = e.extract keyDigest r := by
  obtain ⟨hkey, before, after, hsplit, hbefore⟩ := List.find?_eq_some_iff_append.mp h
  obtain ⟨key, hkey⟩ := Option.isSome_iff_exists.mp hkey
  have hfound : b.extractors.findSome? (fun e => e.extract keyDigest r) = some key := by
    refine List.findSome?_eq_some_iff.mpr ⟨before, e, after, hsplit, hkey, fun e' he' => ?_⟩
    simpa using hbefore e' he'
  refine ⟨by rw [hsplit]; simp, ?_⟩
  unfold build
  rw [hfound, hkey]

theorem build_of_find_none
    (h : b.extractors.find? (fun e => (e.extract keyDigest r).isSome) = none) :
    b.build keyDigest r = if b.fallbackToIp then r.ip.map ipBucket else none := by
  have hnone : b.extractors.findSome? (fun e => e.extract keyDigest r) = none := by
    refine List.findSome?_eq_none_iff.mpr fun e he => ?_
    simpa using List.find?_eq_none.mp h e he
  unfold build
  rw [hnone]

/-- **What a strategy keys a request on.** -/
theorem Composed.strategy_cases (hb : b.Composed) {s : Strategy}
    (h : b.strategy keyDigest r = some s) :
    (s = .userId ∧ .userId ∈ b.extractors ∧
        ∃ u, r.userId = some u ∧ b.build keyDigest r = some u) ∨
      (s = .apiKey ∧ ∃ headerName validator key, .apiKey headerName validator ∈ b.extractors ∧
        key ≠ "" ∧ validator key = true ∧
          b.build keyDigest r = some (apiKeyBucket keyDigest key)) ∨
      (s = .ip ∧ b.fallbackToIp = true ∧
        ∃ ip, r.ip = some ip ∧ b.build keyDigest r = some (ipBucket ip)) := by
  unfold strategy at h
  cases hfind : b.extractors.find? fun e => (e.extract keyDigest r).isSome with
  | none =>
    simp only [hfind] at h
    split_ifs at h with hip
    obtain rfl := Option.some.inj h
    rw [Bool.and_eq_true, Option.isSome_iff_exists] at hip
    obtain ⟨hfallback, ip, hip⟩ := hip
    refine .inr (.inr ⟨rfl, hfallback, ip, hip, ?_⟩)
    rw [build_of_find_none hfind, if_pos hfallback, hip, Option.map_some]
  | some e =>
    obtain ⟨hmem, hbuild⟩ := build_of_find hfind
    have hsome : (e.extract keyDigest r).isSome = true := by
      simpa using List.find?_some hfind
    rcases hb.extractors e hmem with rfl | ⟨headerName, validator, rfl⟩
    · simp only [hfind, Option.some.injEq] at h
      obtain ⟨u, hu⟩ := Option.isSome_iff_exists.mp hsome
      exact .inl ⟨h.symm, hmem, u, hu, hbuild.trans hu⟩
    · simp only [hfind, Option.some.injEq] at h
      obtain ⟨bucket, hbucket⟩ := Option.isSome_iff_exists.mp hsome
      rw [hbucket] at hbuild
      simp only [KeyExtractor.extract, Option.map_eq_some_iff, Option.filter_eq_some_iff,
        Bool.and_eq_true, Bool.not_eq_true', String.isEmpty_eq_false_iff] at hbucket
      obtain ⟨key, ⟨-, hne, hvalid⟩, rfl⟩ := hbucket
      exact .inr (.inl ⟨h.symm, headerName, validator, key, hmem, hne, hvalid, hbuild⟩)

/-! ## Requests for each strategy -/

/-- A request of a user with nothing else. -/
theorem Composed.keyed_user (hb : b.Composed) (keyDigest : String → String)
    (hmem : .userId ∈ b.extractors) (u : String) :
    b.strategy keyDigest ⟨none, "/", some u, []⟩ = some .userId ∧
      b.build keyDigest ⟨none, "/", some u, []⟩ = some u := by
  cases hfind : b.extractors.find? fun e =>
      (e.extract keyDigest ⟨none, "/", some u, []⟩).isSome with
  | none => exact absurd (List.find?_eq_none.mp hfind _ hmem) (by simp [KeyExtractor.extract])
  | some e =>
    obtain ⟨he, hbuild⟩ := build_of_find hfind
    have hsome := List.find?_some hfind
    rcases hb.extractors e he with rfl | ⟨headerName, validator, rfl⟩
    · refine ⟨?_, hbuild⟩
      unfold strategy
      rw [hfind]
    · cases hsome

/-- A request of an address with nothing else. -/
theorem Composed.keyed_ip (hb : b.Composed) (keyDigest : String → String)
    (hfallback : b.fallbackToIp = true) (ip : IpAddr) :
    b.strategy keyDigest ⟨some ip, "/", none, []⟩ = some .ip ∧
      b.build keyDigest ⟨some ip, "/", none, []⟩ = some (ipBucket ip) := by
  have hfind : b.extractors.find? (fun e =>
      (e.extract keyDigest ⟨some ip, "/", none, []⟩).isSome) = none := by
    refine List.find?_eq_none.mpr fun e he => ?_
    rcases hb.extractors e he with rfl | ⟨headerName, validator, rfl⟩
    · exact Bool.false_ne_true
    · exact Bool.false_ne_true
  refine ⟨?_, ?_⟩
  · unfold strategy
    rw [hfind, hfallback]
    rfl
  · rw [build_of_find_none hfind, if_pos hfallback, Option.map_some]

/-- A request with an API key and nothing else. -/
theorem Composed.keyed_api (hb : b.Composed) (keyDigest : String → String)
    {headerName key : String}
    {validator : String → Bool} (hmem : .apiKey headerName validator ∈ b.extractors)
    (hne : key ≠ "") (hvalid : validator key = true) :
    b.strategy keyDigest ⟨none, "/", none, [(headerName, key)]⟩ = some .apiKey ∧
      b.build keyDigest ⟨none, "/", none, [(headerName, key)]⟩ =
        some (apiKeyBucket keyDigest key) := by
  have hheader : ∀ name value, (RequestInfo.mk none "/" none [(headerName, key)]).getHeader name =
      some value → value = key := by
    intro name value h
    simp only [RequestInfo.getHeader, Option.map_eq_some_iff] at h
    obtain ⟨h', hfound, rfl⟩ := h
    rw [List.mem_singleton.mp (List.mem_of_find?_eq_some hfound)]
  cases hfind : b.extractors.find? fun e =>
      (e.extract keyDigest ⟨none, "/", none, [(headerName, key)]⟩).isSome with
  | none =>
    refine absurd (List.find?_eq_none.mp hfind _ hmem) ?_
    simp [KeyExtractor.extract, RequestInfo.getHeader, hne, hvalid]
  | some e =>
    obtain ⟨he, hbuild⟩ := build_of_find hfind
    obtain ⟨bucket, hbucket⟩ := Option.isSome_iff_exists.mp (by simpa using List.find?_some hfind)
    rcases hb.extractors e he with rfl | ⟨headerName', validator', rfl⟩
    · cases hbucket
    · refine ⟨?_, ?_⟩
      · unfold strategy
        rw [hfind]
      · rw [hbuild, hbucket]
        simp only [KeyExtractor.extract, Option.map_eq_some_iff, Option.filter_eq_some_iff]
          at hbucket
        obtain ⟨value, ⟨hvalue, -⟩, rfl⟩ := hbucket
        rw [hheader headerName' value hvalue]

/-! ## Who was keyed -/

/-- An address bucket is not tagged. -/
theorem apiKeyBucket_ne_ipBucket (key : String) (ip : IpAddr) :
    apiKeyBucket keyDigest key ≠ ipBucket ip := by
  intro h
  have hp : 'p' ∈ (apiKeyBucket keyDigest key).toList := by
    rw [apiKeyBucket, String.toList_append]
    exact List.mem_append_left _ (by decide)
  exact not_mem_ipBucket (by decide) (by decide) (by decide) ip (h ▸ hp)

variable (keyDigest b)

/-- Any two requests, of nobody or of one of the users, that are keyed through
    different strategies get different keys. -/
def Identifies (users : Set String) : Prop :=
  ∀ r₁ r₂ : RequestInfo, (∀ u, r₁.userId = some u → u ∈ users) →
    (∀ u, r₂.userId = some u → u ∈ users) →
    ∀ s₁ s₂, b.strategy keyDigest r₁ = some s₁ → b.strategy keyDigest r₂ = some s₂ → s₁ ≠ s₂ →
      b.build keyDigest r₁ ≠ b.build keyDigest r₂

/-- A user id that reads as the bucket of an address or of a valid API key. -/
def Mistakable (u : String) : Prop :=
  (b.fallbackToIp = true ∧ ∃ ip, u = ipBucket ip) ∨
    ∃ headerName validator key, .apiKey headerName validator ∈ b.extractors ∧
      key ≠ "" ∧ validator key = true ∧ u = apiKeyBucket keyDigest key

variable {keyDigest b}

/-- Equal keys of a user and of another strategy. -/
theorem mistakable_of_eq (hb : b.Composed) {r₁ r₂ : RequestInfo} {s₂ : Strategy}
    (h₁ : b.strategy keyDigest r₁ = some .userId) (h₂ : b.strategy keyDigest r₂ = some s₂)
    (hs : s₂ ≠ .userId) (heq : b.build keyDigest r₁ = b.build keyDigest r₂) :
    .userId ∈ b.extractors ∧ ∃ u, r₁.userId = some u ∧ Mistakable keyDigest b u := by
  obtain ⟨-, hmem, u, hu, hbuild⟩ | ⟨hne, -⟩ | ⟨hne, -⟩ := hb.strategy_cases h₁
  · refine ⟨hmem, u, hu, ?_⟩
    rw [hbuild] at heq
    rcases hb.strategy_cases h₂ with ⟨rfl, -⟩ | ⟨-, headerName, validator, key, hapi⟩ |
      ⟨-, hfallback, ip, -, hip⟩
    · exact absurd rfl hs
    · obtain ⟨hapi, hne, hvalid, hkey⟩ := hapi
      rw [hkey] at heq
      exact .inr ⟨headerName, validator, key, hapi, hne, hvalid, Option.some.inj heq⟩
    · rw [hip] at heq
      exact .inl ⟨hfallback, ip, Option.some.inj heq⟩
  · cases hne
  · cases hne

/-- Tagged keys and addresses. -/
theorem Composed.build_api_ne_ip (hb : b.Composed) {r₁ r₂ : RequestInfo}
    (h₁ : b.strategy keyDigest r₁ = some .apiKey) (h₂ : b.strategy keyDigest r₂ = some .ip) :
    b.build keyDigest r₁ ≠ b.build keyDigest r₂ := by
  intro heq
  obtain ⟨hne, -⟩ | ⟨-, headerName, validator, key, -, -, -, hkey⟩ | ⟨hne, -⟩ :=
    hb.strategy_cases h₁
  · cases hne
  · obtain ⟨hne, -⟩ | ⟨hne, -⟩ | ⟨-, -, ip, -, hip⟩ := hb.strategy_cases h₂
    · cases hne
    · cases hne
    · rw [hkey, hip] at heq
      exact apiKeyBucket_ne_ipBucket key ip (Option.some.inj heq)
  · cases hne

/-- **When keys tell who was keyed.**  A built extractor keeps its strategies
    apart exactly if it does not key on user ids, or none of the user ids reads
    as a bucket of an address that it falls back to, or of an API key that it
    accepts. -/
theorem builtKeys_identify_iff (keyDigest : String → String) {b : KeyExtractorBuilder}
    (hb : b.Composed) (users : Set String) :
    Identifies keyDigest b users ↔
      (.userId ∈ b.extractors → ∀ u ∈ users, ¬ Mistakable keyDigest b u) := by
  constructor
  · intro h hmem u hu hmistakable
    obtain ⟨huser, hkey⟩ := hb.keyed_user keyDigest hmem u
    have husers : ∀ u', (RequestInfo.mk none "/" (some u) []).userId = some u' → u' ∈ users := by
      rintro u' hu'
      obtain rfl := Option.some.inj hu'
      exact hu
    rcases hmistakable with ⟨hfallback, ip, rfl⟩ |
      ⟨headerName, validator, key, hapi, hne, hvalid, rfl⟩
    · obtain ⟨hip, hkey'⟩ := hb.keyed_ip keyDigest hfallback ip
      exact h _ _ husers (fun u' hu' => by cases hu') _ _ huser hip (by decide)
        (hkey.trans hkey'.symm)
    · obtain ⟨haccepted, hkey'⟩ := hb.keyed_api keyDigest hapi hne hvalid
      exact h _ _ husers (fun u' hu' => by cases hu') _ _ huser haccepted (by decide)
        (hkey.trans hkey'.symm)
  · intro h r₁ r₂ hr₁ hr₂ s₁ s₂ h₁ h₂ hs heq
    have huser : ∀ {r r' : RequestInfo} {s : Strategy}, (∀ u, r.userId = some u → u ∈ users) →
        b.strategy keyDigest r = some .userId → b.strategy keyDigest r' = some s →
        s ≠ .userId → b.build keyDigest r ≠ b.build keyDigest r' := by
      intro r r' s hr hstrategy hstrategy' hs heq
      obtain ⟨hmem, u, hu, hmistakable⟩ := mistakable_of_eq hb hstrategy hstrategy' hs heq
      exact h hmem u (hr u hu) hmistakable
    cases s₁ with
    | userId => exact huser hr₁ h₁ h₂ (Ne.symm hs) heq
    | apiKey =>
      cases s₂ with
      | userId => exact huser hr₂ h₂ h₁ hs heq.symm
      | apiKey => exact hs rfl
      | ip => exact hb.build_api_ne_ip h₁ h₂ heq
    | ip =>
      cases s₂ with
      | userId => exact huser hr₂ h₂ h₁ hs heq.symm
      | apiKey => exact hb.build_api_ne_ip h₂ h₁ heq.symm
      | ip => exact hs rfl

/-- The user `alice` is nobody's address. -/
theorem builtKeys_identify_alice : Identifies id new.preferUserId {"alice"} := by
  refine (builtKeys_identify_iff id (.preferUserId .new) {"alice"}).mpr ?_
  rintro - u rfl (⟨-, ip, hip⟩ | ⟨headerName, validator, key, hmem, -⟩)
  · have hl : 'l' ∈ (ipBucket ip).toList := hip ▸ (by decide : 'l' ∈ "alice".toList)
    exact not_mem_ipBucket (by decide) (by decide) (by decide) ip hl
  · cases List.mem_singleton.mp hmem

/-- A user whose id is an address, and a request from that address. -/
theorem builtKeys_mistaken :
    new.preferUserId.strategy id ⟨none, "/", some "203.0.113.9", []⟩ = some .userId ∧
      new.preferUserId.strategy id ⟨some (.v4 0xcb007109), "/", none, []⟩ = some .ip ∧
      new.preferUserId.build id ⟨none, "/", some "203.0.113.9", []⟩ =
        new.preferUserId.build id ⟨some (.v4 0xcb007109), "/", none, []⟩ := by
  decide

end

end KeyExtractorBuilder

end ArmatureRatelimit
