/-
  Normalised paths (`normalize_path` in `extractor.rs`).

  A path is normal if normalising leaves it as it is; these are the rooted texts
  of ordinary segments (`normal_iff`).  Two paths have one normal form exactly
  when they are two spellings of one endpoint (`normalizePath_normalForm`).
-/
import ArmatureRatelimit.Extractor
import ArmatureRatelimit.Lib.Paths

open Lib Lib.Paths

namespace ArmatureRatelimit

/-! ## Segments -/

/-- What can be a segment of a normalised path. -/
structure IsSegment (s : List Char) : Prop where
  ne_nil : s ≠ []
  ne_dot : s ≠ ['.']
  ne_dots : s ≠ ['.', '.']
  plain : ∀ c ∈ s, c ≠ '/' ∧ c ≠ '?' ∧ c ≠ '#'

theorem IsSegment.slash_not_mem {s : List Char} (h : IsSegment s) : '/' ∉ s :=
  fun hmem => (h.plain '/' hmem).1 rfl

/-- The segments of a path as it is spelled, without its query and fragment. -/
def spelledSegments (path : List Char) : List (List Char) :=
  (path.takeWhile fun c => c != '?' && c != '#').splitOn '/'

/-- A segment says nothing, leads back, or is ordinary. -/
theorem spelledSegments_kinds (path : List Char) : ∀ s ∈ spelledSegments path,
    (s = [] ∨ s = ['.']) ∨ s = ['.', '.'] ∨ IsSegment s := by
  intro s hs
  by_cases hskip : s = [] ∨ s = ['.']
  · exact .inl hskip
  · by_cases hdots : s = ['.', '.']
    · exact .inr (.inl hdots)
    · refine .inr (.inr ⟨fun h => hskip (.inl h), fun h => hskip (.inr h), hdots, ?_⟩)
      intro c hc
      have hkept := List.mem_takeWhile_imp (mem_of_mem_splitOn hs hc)
      simp only [Bool.and_eq_true, bne_iff_ne] at hkept
      refine ⟨?_, hkept⟩
      rintro rfl
      exact not_mem_of_mem_splitOn hs hc

theorem pathSegments_eq_resolve (path : List Char) : pathSegments path =
    resolve (fun s => s = [] ∨ s = ['.']) (fun s => s = ['.', '.']) (spelledSegments path) := rfl

theorem pathSegments_isSegment (path : List Char) : ∀ s ∈ pathSegments path, IsSegment s :=
  pathSegments_eq_resolve path ▸ resolve_good (spelledSegments_kinds path)

/-! ## Texts of segments -/

theorem foldl_pushSegment {parts : List (List Char)} (h : ∀ s ∈ parts, IsSegment s)
    (segments : List (List Char)) : parts.foldl pushSegment segments = segments ++ parts := by
  induction parts generalizing segments with
  | nil => simp
  | cons part parts ih =>
    have hpart := h part (by simp)
    have hpush : pushSegment segments part = segments ++ [part] := by
      unfold pushSegment
      rw [if_neg (by simp [hpart.ne_nil, hpart.ne_dot]), if_neg hpart.ne_dots]
    rw [List.foldl_cons, hpush, ih fun s hs => h s (by simp [hs])]
    simp

theorem pathSegments_rooted {segments : List (List Char)} (h : ∀ s ∈ segments, IsSegment s) :
    pathSegments (rooted '/' segments) = segments := by
  have hkeep : (rooted '/' segments).takeWhile (fun c => c != '?' && c != '#') =
      rooted '/' segments := by
    rw [List.takeWhile_eq_self_iff]
    intro c hc
    obtain ⟨s, hs, hc⟩ := List.mem_flatMap.mp hc
    rcases List.mem_cons.mp hc with rfl | hc
    · decide
    · simpa using ((h s hs).plain c hc).2
  unfold pathSegments
  rw [hkeep, splitOn_rooted fun s hs => (h s hs).slash_not_mem, List.foldl_cons,
    foldl_pushSegment h]
  rfl

/-- The text that the loop ends with. -/
def pathText (segments : List (List Char)) : List Char := '/' :: ['/'].intercalate segments

theorem pathSegments_pathText {segments : List (List Char)} (h : ∀ s ∈ segments, IsSegment s) :
    pathSegments (pathText segments) = segments := by
  by_cases hnil : segments = []
  · rw [hnil]
    decide
  · unfold pathText
    rw [cons_intercalate hnil, pathSegments_rooted h]

theorem normalizePath_toList (path : String) :
    (normalizePath path).toList = pathText (pathSegments path.toList) := String.toList_ofList

/-! ## Normal paths -/

/-- Normalising leaves the path as it is. -/
def Normal (path : String) : Prop := normalizePath path = path

theorem normal_iff {path : String} : Normal path ↔
    ∃ segments, (∀ s ∈ segments, IsSegment s) ∧ path.toList = pathText segments := by
  constructor
  · intro h
    refine ⟨pathSegments path.toList, pathSegments_isSegment _, ?_⟩
    rw [← normalizePath_toList, h]
  · rintro ⟨segments, hsegments, hpath⟩
    apply String.toList_injective
    rw [normalizePath_toList, hpath, pathSegments_pathText hsegments]

theorem normal_normalizePath (path : String) : Normal (normalizePath path) :=
  normal_iff.mpr ⟨_, pathSegments_isSegment path.toList, normalizePath_toList path⟩

theorem normal_rooted (segments : List (List Char)) (h : ∀ s ∈ segments, IsSegment s)
    (hne : segments ≠ []) {path : String} (hpath : path.toList = rooted '/' segments) :
    Normal path := normal_iff.mpr ⟨segments, h, hpath.trans (cons_intercalate hne).symm⟩

/-- What stands before a slash of a normal path is normal. -/
theorem Normal.before_slash {path : String} (h : Normal path) {t rest : List Char}
    (ht : t ≠ []) (hpath : path.toList = t ++ '/' :: rest) : Normal (String.ofList t) := by
  obtain ⟨segments, hsegments, htext⟩ := normal_iff.mp h
  have hne : segments ≠ [] := by
    rintro rfl
    rw [hpath] at htext
    cases t with
    | nil => exact ht rfl
    | cons c t => simp [pathText] at htext
  have heq : t ++ '/' :: rest = rooted '/' segments := by
    rw [← hpath, htext, pathText, cons_intercalate hne]
  obtain ⟨k, rfl⟩ := rooted_of_append (fun s hs => (hsegments s hs).slash_not_mem) heq
  refine normal_rooted _ (fun s hs => hsegments s (List.mem_of_mem_take hs)) ?_ String.toList_ofList
  rintro hnil
  rw [hnil] at ht
  exact ht rfl

/-- A normal path other than the root can be extended by a segment. -/
theorem Normal.push {path : String} (h : Normal path) (hroot : path ≠ "/") {s : List Char}
    (hs : IsSegment s) : Normal (path ++ String.ofList ('/' :: s)) := by
  obtain ⟨segments, hsegments, htext⟩ := normal_iff.mp h
  have hne : segments ≠ [] := by
    rintro rfl
    exact hroot (String.toList_injective htext)
  refine normal_rooted (segments ++ [s]) ?_ (by simp) ?_
  · intro s' hs'
    rcases List.mem_append.mp hs' with hs' | hs'
    · exact hsegments s' hs'
    · exact List.mem_singleton.mp hs' ▸ hs
  · rw [String.toList_append, htext, pathText, cons_intercalate hne, String.toList_ofList,
      rooted_append]
    simp

/-! ## Spellings -/

/-- An edit that a path's endpoint does not depend on: an empty segment or a dot
    is left out, or an ordinary segment with the two dots after it, or two dots
    at the root. -/
abbrev SegmentEdit : List (List Char) → List (List Char) → Prop :=
  Edit (fun s => s = [] ∨ s = ['.']) (fun s => s = ['.', '.']) IsSegment

theorem pathSegments_eq_iff (path path' : List Char) : pathSegments path = pathSegments path' ↔
    Relation.EqvGen SegmentEdit (spelledSegments path) (spelledSegments path') := by
  rw [pathSegments_eq_resolve, pathSegments_eq_resolve]
  refine resolve_eq_iff ?_ ?_ (spelledSegments_kinds path) (spelledSegments_kinds path')
  · rintro b rfl
    decide
  · intro s hs
    exact ⟨fun h => h.elim hs.ne_nil hs.ne_dot, hs.ne_dots⟩

/-- A normalised path tells its segments. -/
theorem normalizePath_eq_iff (p q : String) :
    normalizePath p = normalizePath q ↔ pathSegments p.toList = pathSegments q.toList := by
  constructor
  · intro h
    have htext := congrArg (fun t : String => pathSegments t.toList) h
    simp only [normalizePath_toList] at htext
    rwa [pathSegments_pathText (pathSegments_isSegment _),
      pathSegments_pathText (pathSegments_isSegment _)] at htext
  · intro h
    rw [normalizePath, normalizePath, h]

theorem plain_pathText {segments : List (List Char)} (h : ∀ s ∈ segments, IsSegment s) {c : Char}
    (hc : c ∈ pathText segments) : c ≠ '?' ∧ c ≠ '#' := by
  by_cases hnil : segments = []
  · subst hnil
    obtain rfl : c = '/' := by simpa [pathText] using hc
    decide
  · rw [pathText, cons_intercalate hnil] at hc
    obtain ⟨s, hs, hc⟩ := List.mem_flatMap.mp hc
    rcases List.mem_cons.mp hc with rfl | hc
    · decide
    · exact ((h s hs).plain c hc).2

/-- A path of segments does not end with a slash. -/
theorem getLast_rooted {segments : List (List Char)} (h : ∀ s ∈ segments, IsSegment s)
    (hne : segments ≠ []) : (rooted '/' segments).getLast? ≠ some '/' := by
  rcases List.eq_nil_or_concat segments with hnil | ⟨init, s, rfl⟩
  · exact absurd hnil hne
  · have hs : IsSegment s := h s (by simp)
    rw [List.concat_eq_append, rooted_append, rooted_cons, rooted_nil, List.append_nil]
    intro hlast
    rcases List.eq_nil_or_concat s with hnil | ⟨init', c, rfl⟩
    · exact hs.ne_nil hnil
    · rw [List.concat_eq_append] at hlast hs
      rw [← List.cons_append, ← List.append_assoc, List.getLast?_concat] at hlast
      obtain rfl := Option.some.inj hlast
      exact hs.slash_not_mem (by simp)

/-- **Normal forms.**  A normalised path is the root, or a slash before each of
    some ordinary segments, and normalising leaves it as it is.  Two paths have
    the same normal form exactly if edits of their segments turn one into the
    other. -/
theorem normalizePath_normalForm :
    (∀ p : String, (normalizePath p).toList.head? = some '/' ∧
      '?' ∉ (normalizePath p).toList ∧ '#' ∉ (normalizePath p).toList ∧
      (normalizePath p = "/" ∨
        (∀ s ∈ ((normalizePath p).toList.splitOn '/').tail,
          s ≠ [] ∧ s ≠ ['.'] ∧ s ≠ ['.', '.']) ∧
        (normalizePath p).toList.getLast? ≠ some '/') ∧
      normalizePath (normalizePath p) = normalizePath p) ∧
    ∀ p q : String, normalizePath p = normalizePath q ↔
      Relation.EqvGen SegmentEdit (spelledSegments p.toList) (spelledSegments q.toList) := by
  refine ⟨fun p => ?_, fun p q => ?_⟩
  · have hsegments := pathSegments_isSegment p.toList
    refine ⟨?_, ?_, ?_, ?_, normal_normalizePath p⟩
    · rw [normalizePath_toList]
      rfl
    · rw [normalizePath_toList]
      exact fun hc => (plain_pathText hsegments hc).1 rfl
    · rw [normalizePath_toList]
      exact fun hc => (plain_pathText hsegments hc).2 rfl
    · by_cases hnil : pathSegments p.toList = []
      · left
        rw [normalizePath, hnil]
        rfl
      · right
        rw [normalizePath_toList, pathText, cons_intercalate hnil,
          splitOn_rooted fun s hs => (hsegments s hs).slash_not_mem, List.tail_cons]
        refine ⟨fun s hs => ?_, getLast_rooted hsegments hnil⟩
        exact ⟨(hsegments s hs).ne_nil, (hsegments s hs).ne_dot, (hsegments s hs).ne_dots⟩
  · rw [normalizePath_eq_iff, pathSegments_eq_iff]

end ArmatureRatelimit
