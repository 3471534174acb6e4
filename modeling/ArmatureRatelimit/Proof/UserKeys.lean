/-
  Keys of a user and a path (`KeyExtractor::UserIdAndPath` in `extractor.rs`).

  The key is the user id, a colon and the normalised path.  Ids and paths can
  contain colons themselves: two users share a bucket by the choice of their
  paths exactly when one id is the other one followed by a colon and a text that
  is a normal path once a colon is put after it (`userIdAndPath_separates_iff`).
-/
import ArmatureRatelimit.Proof.NormalPath

open Lib

namespace ArmatureRatelimit

/-- One id is the other one, a colon and `s`, where `s` and a colon are a normal
    path. -/
def Ambiguous (u₁ u₂ : String) : Prop :=
  ∃ s, (u₂ = u₁ ++ ":" ++ s ∨ u₁ = u₂ ++ ":" ++ s) ∧ normalizePath (s ++ ":") = s ++ ":"

theorem Ambiguous.symm {u₁ u₂ : String} (h : Ambiguous u₁ u₂) : Ambiguous u₂ u₁ := by
  obtain ⟨s, hs, hnormal⟩ := h
  exact ⟨s, hs.symm, hnormal⟩

theorem Ambiguous.ne {u₁ u₂ : String} (h : Ambiguous u₁ u₂) : u₁ ≠ u₂ := by
  rintro rfl
  obtain ⟨s, hs, -⟩ := h
  have hlen := congrArg String.length (hs.elim id id)
  simp only [String.length_append] at hlen
  have hcolon : (":" : String).length = 1 := rfl
  omega

/-- A normal path starts with a slash. -/
theorem Normal.slash {path : String} (h : Normal path) : ∃ rest, path.toList = '/' :: rest := by
  obtain ⟨segments, -, htext⟩ := normal_iff.mp h
  exact ⟨_, htext⟩

/-- A normal path that is a text, a colon and a normal path. -/
theorem Normal.colon {p₁ p₂ : String} (h₁ : Normal p₁) (h₂ : Normal p₂) {t : List Char}
    (heq : p₁.toList = t ++ ':' :: p₂.toList) : Normal (String.ofList t ++ ":") := by
  obtain ⟨rest, hrest⟩ := h₂.slash
  have hsplit : p₁.toList = (t ++ [':']) ++ '/' :: rest := by
    rw [heq, hrest]
    simp
  have hnormal := h₁.before_slash (by simp) hsplit
  rwa [String.ofList_append] at hnormal

/-- Two equal keys, where the second id is at least as long. -/
theorem ambiguous_of_longer {u₁ u₂ p₁ p₂ : String} (h₁ : Normal p₁) (h₂ : Normal p₂)
    {as : List Char} (hu : u₂.toList = u₁.toList ++ as)
    (hp : ':' :: p₁.toList = as ++ ':' :: p₂.toList) :
    (u₁ = u₂ ∧ p₁ = p₂) ∨ Ambiguous u₁ u₂ := by
  cases as with
  | nil =>
    refine .inl ⟨String.toList_injective ?_, String.toList_injective ?_⟩
    · rw [hu, List.append_nil]
    · exact (List.cons.inj hp).2
  | cons c t =>
    obtain ⟨rfl, htail⟩ := List.cons.inj hp
    refine .inr ⟨String.ofList t, .inl (String.toList_injective ?_), h₁.colon h₂ htail⟩
    rw [hu, String.toList_append, String.toList_append, String.toList_ofList]
    simp

/-- Two equal keys. -/
theorem ambiguous_of_eq {u₁ u₂ p₁ p₂ : String} (h₁ : Normal p₁) (h₂ : Normal p₂)
    (heq : u₁ ++ ":" ++ p₁ = u₂ ++ ":" ++ p₂) : (u₁ = u₂ ∧ p₁ = p₂) ∨ Ambiguous u₁ u₂ := by
  have hlist : u₁.toList ++ ':' :: p₁.toList = u₂.toList ++ ':' :: p₂.toList := by
    have h := congrArg String.toList heq
    simpa [String.toList_append] using h
  rcases List.append_eq_append_iff.mp hlist with ⟨as, hu, hp⟩ | ⟨as, hu, hp⟩
  · exact ambiguous_of_longer h₁ h₂ hu hp
  · exact (ambiguous_of_longer h₂ h₁ hu hp).imp (fun h => ⟨h.1.symm, h.2.symm⟩) Ambiguous.symm

/-- A request of a user for a path. -/
def userRequest (userId path : String) : RequestInfo := ⟨none, path, some userId, []⟩

/-- Two ambiguous ids get one key for the paths of their choice. -/
theorem Ambiguous.shared {u₁ u₂ : String} (h : Ambiguous u₁ u₂) : ∃ p₁ p₂,
    u₁ ++ ":" ++ normalizePath p₁ = u₂ ++ ":" ++ normalizePath p₂ := by
  obtain ⟨s, hs, hnormal⟩ := h
  have hroot : s ++ ":" ≠ "/" := by
    intro heq
    have hlast := congrArg (fun t : String => t.toList.getLast?) heq
    simp [String.toList_append] at hlast
  have hsegment : IsSegment ['c'] := ⟨by decide, by decide, by decide, by simp⟩
  have hlong : normalizePath (s ++ ":" ++ "/c") = s ++ ":" ++ "/c" :=
    Normal.push hnormal hroot hsegment
  have hshort : normalizePath "/c" = "/c" := by decide
  rcases hs with rfl | rfl
  · refine ⟨s ++ ":" ++ "/c", "/c", ?_⟩
    rw [hlong, hshort]
    simp only [String.append_assoc]
  · refine ⟨"/c", s ++ ":" ++ "/c", ?_⟩
    rw [hlong, hshort]
    simp only [String.append_assoc]

/-- **When users are kept apart.**  Whatever the paths, two users never share a
    key unless their ids are ambiguous, and a user's key tells the path. -/
theorem userIdAndPath_separates_iff (keyDigest : String → String) (u₁ u₂ : String) :
    (∀ r₁ r₂ : RequestInfo, r₁.userId = some u₁ → r₂.userId = some u₂ →
      KeyExtractor.userIdAndPath.extract keyDigest r₁ =
        KeyExtractor.userIdAndPath.extract keyDigest r₂ →
      u₁ = u₂ ∧ normalizePath r₁.path = normalizePath r₂.path) ↔ ¬ Ambiguous u₁ u₂ := by
  constructor
  · intro h hamb
    obtain ⟨p₁, p₂, hshared⟩ := hamb.shared
    exact hamb.ne (h (userRequest u₁ p₁) (userRequest u₂ p₂) rfl rfl (congrArg some hshared)).1
  · intro hnot r₁ r₂ hr₁ hr₂ hkey
    simp only [KeyExtractor.extract, hr₁, hr₂, Option.map_some, Option.some.injEq] at hkey
    exact (ambiguous_of_eq (normal_normalizePath _) (normal_normalizePath _) hkey).resolve_right
      hnot

/-- The user `a:/b` shares a bucket of the user `a`. -/
theorem userIdAndPath_shared :
    KeyExtractor.userIdAndPath.extract id (userRequest "a" "/b:/c") = some "a:/b:/c" ∧
      KeyExtractor.userIdAndPath.extract id (userRequest "a:/b" "/c") = some "a:/b:/c" ∧
      ¬ ("a" = "a:/b" ∧ normalizePath "/b:/c" = normalizePath "/c") := by
  decide

/-- Ids without a colon are never ambiguous. -/
theorem not_ambiguous_of_no_colon {u₁ u₂ : String} (h₁ : ':' ∉ u₁.toList) (h₂ : ':' ∉ u₂.toList) :
    ¬ Ambiguous u₁ u₂ := by
  rintro ⟨s, rfl | rfl, -⟩
  · exact h₂ (by simp [String.toList_append])
  · exact h₁ (by simp [String.toList_append])

end ArmatureRatelimit
