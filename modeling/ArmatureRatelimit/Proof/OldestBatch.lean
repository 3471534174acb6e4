/-
  What an eviction of the standalone limiters removes (`evict_oldest_batch` in
  `algorithms/mod.rs`).

  Whatever `select_nth_unstable_by_key` does within its contract, the batch is
  as large as it should be and its entries are the least recently active
  (`evictOldestBatch_removes`).  The activity of a fixed window tells whether it is
  over.  The activity of a log is its back, which tells whether anything in the
  log still counts only if the log is in order; what other logs do is said by
  `evictOldestBatch_sparesLive_iff`.
-/
import ArmatureRatelimit.Lib.Oldest
import ArmatureRatelimit.Proof.LogOrder

open Lib

namespace ArmatureRatelimit

/-! ## The batch -/

/-- `select_nth_unstable_by_key(i, ..)`: an index out of range is a panic. -/
def selectNth (sel : Selection) (entries : Candidates) (i : ℕ) : Outcome Candidates :=
  if i < entries.length then .ok (sel.run entries i) else .error .panic

section
variable {β : Type} (sel : Selection) (lastActive : β → WithBot ℤ)

/-- `evict_oldest_batch` with its panics. -/
def evictOldestBatchChecked (batch : ℕ) (m : KeyMap String β) : Outcome (KeyMap String β) :=
  if batch = 0 then .ok m
  else
    let entries : Candidates := m.entries.map fun e => (e.1, lastActive e.2)
    if entries.isEmpty then .ok m
    else do
      let batch := min batch entries.length
      let entries ←
        if batch < entries.length then
          if batch = 0 then .error .panic else selectNth sel entries (batch - 1)
        else .ok entries
      .ok (m.removeAll ((entries.take batch).map Prod.fst))

/-- What an eviction of a batch makes of a map. -/
structure RemovesOldest (batch : ℕ) (m m' : KeyMap String β) : Prop where
  completes : evictOldestBatchChecked sel lastActive batch m = .ok m'
  size : m'.size + min batch m.size = m.size
  /-- an entry that is left is as it was -/
  unchanged : ∀ key x, m'.lookup key = some x → m.lookup key = some x
  oldest : ∀ key x key' x', m.lookup key = some x → m'.lookup key = none →
    m'.lookup key' = some x' → lastActive x ≤ lastActive x'

/-- The entries that are scanned. -/
def candidates (m : KeyMap String β) : Candidates := m.entries.map fun e => (e.1, lastActive e.2)

/-- The entries as they are taken from. -/
def batchArrangement (batch : ℕ) (m : KeyMap String β) : Candidates :=
  if 0 < batch ∧ batch < m.size then sel.run (candidates lastActive m) (batch - 1)
  else candidates lastActive m

theorem listsStamps_candidates (m : KeyMap String β) :
    ListsStamps (fun x => some (lastActive x)) m (candidates lastActive m) := by
  refine ⟨fun key t => ?_, ?_⟩
  · simp only [candidates, List.mem_map, Option.some.injEq]
    constructor
    · rintro ⟨⟨k, x⟩, hmem, heq⟩
      obtain ⟨rfl, rfl⟩ := Prod.mk.inj heq
      exact ⟨x, KeyMap.lookup_eq_some.mpr hmem, rfl⟩
    · rintro ⟨x, hx, rfl⟩
      exact ⟨⟨key, x⟩, KeyMap.lookup_eq_some.mp hx, rfl⟩
  · rw [candidates, List.map_map]
    exact m.keys_nodup

theorem length_candidates (m : KeyMap String β) : (candidates lastActive m).length = m.size :=
  List.length_map _

theorem batchArrangement_perm (batch : ℕ) (m : KeyMap String β) :
    (batchArrangement sel lastActive batch m).Perm (candidates lastActive m) := by
  unfold batchArrangement
  split_ifs
  · exact sel.perm _ _
  · exact .refl _

theorem batchArrangement_oldestFirst (batch : ℕ) (m : KeyMap String β) :
    OldestFirst batch (batchArrangement sel lastActive batch m) := by
  unfold batchArrangement
  split_ifs with h
  · have hlast : batch - 1 < (candidates lastActive m).length := by
      rw [length_candidates]
      omega
    have hsplit := sel.split (candidates lastActive m) (batch - 1) hlast
    rwa [Nat.sub_add_cancel h.1] at hsplit
  · intro a ha b hb
    have hlength := List.length_pos_of_mem hb
    have hfront := List.length_pos_of_mem ha
    rw [List.length_drop, length_candidates] at hlength
    rw [List.length_take] at hfront
    omega

/-- An eviction takes the front of the arranged entries away. -/
theorem evictOldestBatch_eq (batch : ℕ) (m : KeyMap String β) :
    evictOldestBatch sel lastActive batch m =
      removeFirst batch (batchArrangement sel lastActive batch m) m := by
  have hlength := length_candidates lastActive m
  simp only [evictOldestBatch, batchArrangement, removeFirst]
  rw [← candidates, hlength]
  by_cases hzero : batch = 0
  · rw [if_pos hzero, hzero, List.take_zero]
    rfl
  rw [if_neg hzero]
  by_cases hempty : (candidates lastActive m).isEmpty = true
  · rw [if_pos hempty, List.isEmpty_iff.mp hempty, ← hlength, List.isEmpty_iff.mp hempty,
      if_neg (by simp), List.take_nil]
    rfl
  rw [if_neg hempty]
  by_cases hlt : batch < m.size
  · rw [Nat.min_eq_left hlt.le, if_pos hlt, if_pos ⟨Nat.pos_of_ne_zero hzero, hlt⟩]
  · have hall := not_lt.mp hlt
    rw [Nat.min_eq_right hall, if_neg (lt_irrefl _), if_neg fun h => hlt h.2, ← hlength,
      List.take_length, List.take_of_length_le (hlength.trans_le hall)]

/-- No index is out of range. -/
theorem evictOldestBatchChecked_eq (batch : ℕ) (m : KeyMap String β) :
    evictOldestBatchChecked sel lastActive batch m =
      .ok (evictOldestBatch sel lastActive batch m) := by
  simp only [evictOldestBatchChecked, evictOldestBatch]
  rw [← candidates]
  by_cases hzero : batch = 0
  · rw [if_pos hzero, if_pos hzero]
  rw [if_neg hzero, if_neg hzero]
  by_cases hempty : (candidates lastActive m).isEmpty = true
  · rw [if_pos hempty, if_pos hempty]
  rw [if_neg hempty, if_neg hempty]
  have hpos : 0 < (candidates lastActive m).length := by
    rw [List.length_pos_iff]
    exact fun h => hempty (List.isEmpty_iff.mpr h)
  by_cases hlt : min batch (candidates lastActive m).length < (candidates lastActive m).length
  · have hbatch : min batch (candidates lastActive m).length ≠ 0 := by omega
    rw [if_pos hlt, if_pos hlt, if_neg hbatch, selectNth, if_pos (by omega)]
    rfl
  · rw [if_neg hlt, if_neg hlt]
    rfl

/-- **An eviction removes an oldest batch.** -/
theorem evictOldestBatch_removes (batch : ℕ) (m : KeyMap String β) :
    RemovesOldest sel lastActive batch m (evictOldestBatch sel lastActive batch m) where
  completes := evictOldestBatchChecked_eq sel lastActive batch m
  size := evictOldestBatch_size sel lastActive batch m
  unchanged key _ hx := of_kept_or_gone (evictOldestBatch_lookup sel lastActive batch key m) hx
  oldest key x key' x' hx hgone hkept := by
    have hlists := (listsStamps_candidates lastActive m).perm
      (batchArrangement_perm sel lastActive batch m)
    rw [evictOldestBatch_eq] at hgone hkept
    exact batchArrangement_oldestFirst sel lastActive batch m _
      ((hlists.gone_iff hx rfl).mp hgone) _ ((hlists.kept_iff rfl).mp hkept).2

end

/-! ## Live state -/

/-- Sort as `parting` does. -/
def Selection.parting (first last : String) : Selection where
  run l _ := Lib.parting first last l
  perm l _ := parting_perm first last l
  split l i _ a ha b hb := by
    have hsorted := parting_sorted first last l
    rw [← List.take_append_drop (i + 1) (Lib.parting first last l)] at hsorted
    exact (List.pairwise_append.mp hsorted).2.2 a ha b hb

/-- No key with live state goes while one without is left. -/
def SparesLive {β : Type} (live : β → Prop) (m m' : KeyMap String β) : Prop :=
  ∀ key x key' x', m.lookup key = some x → m'.lookup key = none → m'.lookup key' = some x' →
    live x → live x'

/-- The eviction of a batch cannot remove a key with live state and leave one
    without. -/
def ClearOfLive {β : Type} (live : β → Prop) (lastActive : β → WithBot ℤ) (batch : ℕ)
    (m : KeyMap String β) : Prop :=
  ∀ key x key' x', m.lookup key = some x → m.lookup key' = some x' → live x → ¬ live x' →
    ¬ MayPart batch (candidates lastActive m) (lastActive x) (lastActive x')

/-- The window is not over. -/
def WindowLive (window : ℕ) (now : ℤ) (state : WindowState) : Prop :=
  durationSince now state.windowStart < window

/-- The log has a stamp that is not before the cutoff. -/
def LogLive (cutoff : ℤ) (log : List ℤ) : Prop := ∃ x ∈ log, cutoff ≤ x

/-- State that was active later than live state is live. -/
theorem RemovesOldest.sparesLive {β : Type} {sel : Selection} {lastActive : β → WithBot ℤ}
    {batch : ℕ} {m m' : KeyMap String β} (h : RemovesOldest sel lastActive batch m m')
    {live : β → Prop} (hlive : ∀ x x', live x → lastActive x ≤ lastActive x' → live x') :
    SparesLive live m m' :=
  fun key x key' x' hx hgone hkept hx_live =>
    hlive x x' hx_live (h.oldest key x key' x' hx hgone hkept)

theorem WindowLive.of_lastActive_le {window : ℕ} {now : ℤ} (state state' : WindowState)
    (h : WindowLive window now state)
    (hle : FixedWindow.lastActive state ≤ FixedWindow.lastActive state') :
    WindowLive window now state' := by
  have hstart : state.windowStart ≤ state'.windowStart := WithBot.coe_le_coe.mp hle
  unfold WindowLive durationSince at *
  omega

/-- **When every eviction spares live state.** -/
theorem sparesLive_iff {β : Type} (live : β → Prop) (lastActive : β → WithBot ℤ) (batch : ℕ)
    (m : KeyMap String β) :
    (∀ sel, SparesLive live m (evictOldestBatch sel lastActive batch m)) ↔
      ClearOfLive live lastActive batch m := by
  have hall : 0 < batch → batch < (candidates lastActive m).length → ∀ first last,
      ∃ sel, batchArrangement sel lastActive batch m =
        Lib.parting first last (candidates lastActive m) := fun hpos hlt first last =>
    ⟨.parting first last, if_pos ⟨hpos, length_candidates lastActive m ▸ hlt⟩⟩
  have hparts := (listsStamps_candidates lastActive m).parts_iff
    (fun _ x _ x' => live x ∧ ¬ live x') (fun _ x h => h.2 h.1)
    (fun sel => batchArrangement_perm sel lastActive batch m)
    (fun sel => batchArrangement_oldestFirst sel lastActive batch m) hall
    fun _ x _ => ⟨lastActive x, rfl⟩
  simp only [← evictOldestBatch_eq] at hparts
  constructor
  · intro hspares key x key' x' hx hx' hlive hdead
    refine hparts.mp ?_ key x _ key' x' _ hx rfl hx' rfl ⟨hlive, hdead⟩
    rintro sel k y k' y' hy hgone hkept ⟨hlive, hdead⟩
    exact hdead (hspares sel k y k' y' hy hgone hkept hlive)
  · intro hclear sel key x key' x' hx hgone hkept hlive
    by_contra hdead
    refine hparts.mpr ?_ sel key x key' x' hx hgone hkept ⟨hlive, hdead⟩
    rintro k y _ k' y' _ hy ⟨⟩ hy' ⟨⟩ ⟨hlive, hdead⟩
    exact hclear k y k' y' hy hy' hlive hdead

theorem LogLive.of_lastActive_le {cutoff : ℤ} {log log' : List ℤ} (hlog : LogInOrder log)
    (h : LogLive cutoff log)
    (hle : SlidingWindowLog.lastActive log ≤ SlidingWindowLog.lastActive log') :
    LogLive cutoff log' := by
  obtain ⟨x, hx, hcutoff⟩ := h
  obtain ⟨last, hlast⟩ := Option.isSome_iff_exists.mp
    (List.getLast?_isSome.mpr (List.ne_nil_of_mem hx))
  unfold SlidingWindowLog.lastActive at hle
  rw [hlast] at hle
  cases hlast' : log'.getLast? with
  | none =>
    rw [hlast'] at hle
    exact absurd hle (WithBot.not_coe_le_bot last)
  | some last' =>
    rw [hlast'] at hle
    have hlater : last ≤ last' := WithBot.coe_le_coe.mp hle
    exact ⟨last', List.mem_of_getLast? hlast',
      (hcutoff.trans (hlog.newest last hlast x hx)).trans hlater⟩

/-- Of logs in order no eviction removes a live one and leaves one that is not. -/
theorem clearOfLive_of_inOrder {logs : KeyMap String (List ℤ)} (h : LogsInOrder id logs)
    (batch : ℕ) (cutoff : ℤ) :
    ClearOfLive (LogLive cutoff) SlidingWindowLog.lastActive batch logs :=
  fun key log _ _ hlog _ hlive hdead hpart =>
    hdead (hlive.of_lastActive_le (h key log hlog) hpart.le)

/-- **Evictions of the oldest batch.**  An eviction removes an oldest batch, and
    no live window while one that is over is left.  It removes no log with live
    stamps while one without is left exactly if the backs of the logs do not put
    the former among the oldest. -/
theorem evictOldestBatch_sparesLive_iff (batch : ℕ) :
    (∀ {β : Type} (sel : Selection) (lastActive : β → WithBot ℤ) (m : KeyMap String β),
      RemovesOldest sel lastActive batch m (evictOldestBatch sel lastActive batch m)) ∧
    (∀ (sel : Selection) (windows : KeyMap String WindowState) (window : ℕ) (now : ℤ),
      SparesLive (WindowLive window now) windows
        (evictOldestBatch sel FixedWindow.lastActive batch windows)) ∧
    ∀ (logs : KeyMap String (List ℤ)) (cutoff : ℤ),
      (∀ sel, SparesLive (LogLive cutoff) logs
        (evictOldestBatch sel SlidingWindowLog.lastActive batch logs)) ↔
        ClearOfLive (LogLive cutoff) SlidingWindowLog.lastActive batch logs := by
  refine ⟨fun sel lastActive m => evictOldestBatch_removes sel lastActive batch m, ?_,
    fun logs cutoff => sparesLive_iff _ _ batch logs⟩
  intro sel windows window now
  exact (evictOldestBatch_removes sel FixedWindow.lastActive batch windows).sparesLive
    fun _ _ => WindowLive.of_lastActive_le _ _

/-! ## A log out of order -/

/-- Two calls of one client that get the lock in the other order, and between
    their readings a call of another client. -/
def crossedActs : List (SampledAct WindowAcquire) :=
  [.sample ⟨"crossed", .sorting⟩, .tick 3000000000, .sample ⟨"other", .sorting⟩, .lock 1,
    .tick 7000000000, .sample ⟨"crossed", .sorting⟩, .lock 1, .lock 0]

def crossedLimiter : SlidingWindowLog :=
  (interleave windowAcquireCall 0 ⟨2, 10000000000, ∅, 2⟩ crossedActs).shared

/-- The eviction for a third client at 15 s removes the log that counts a request
    at 10 s, as its back is 0, and leaves one that counts nothing. -/
theorem evictOldestBatch_drops_live :
    crossedLimiter.logs.lookup "crossed" = some [10000000000, 0] ∧
      crossedLimiter.logs.lookup "other" = some [3000000000] ∧
      ¬ SparesLive (LogLive 5000000000) crossedLimiter.logs
        (evictOldestBatch .sorting SlidingWindowLog.lastActive 1 crossedLimiter.logs) := by
  have hcrossed : crossedLimiter.logs.lookup "crossed" = some [10000000000, 0] := by decide
  have hother : crossedLimiter.logs.lookup "other" = some [3000000000] := by decide
  have hentries : crossedLimiter.logs.entries =
    [⟨"crossed", [10000000000, 0]⟩, ⟨"other", [3000000000]⟩] := by decide
  have hremoved : evictOldestBatch .sorting SlidingWindowLog.lastActive 1 crossedLimiter.logs =
      crossedLimiter.logs.removeAll ["crossed"] := by
    simp [evictOldestBatch, hentries, Selection.sorting, List.mergeSort, noLater,
      SlidingWindowLog.lastActive]
  refine ⟨hcrossed, hother, fun h => ?_⟩
  rw [hremoved] at h
  obtain ⟨x, hx, hlive⟩ := h "crossed" _ "other" _ hcrossed (by simp [KeyMap.lookup_removeAll])
    (by simpa [KeyMap.lookup_removeAll] using hother) ⟨10000000000, by simp, by decide⟩
  rw [List.mem_singleton.mp hx] at hlive
  exact absurd hlive (by decide)

end ArmatureRatelimit
