/-
  What the crate uses of the Rust standard library: the clocks, durations, `f64`
  and panics, and the crate's own error type.

  An `Instant` is an integer and a `Duration` a natural number, both of
  nanoseconds; a `SystemTime` is the integer of nanoseconds since the Unix epoch.
-/
import Mathlib

namespace ArmatureRatelimit

/-! ## Failures -/

/-- `RateLimitError`: the variants built by the stores, the limiter and the
    builder. -/
inductive RateLimitError
  | storeError (msg : String)
  | timeout
  | configError (msg : String)
  | redisError (msg : String)
  deriving DecidableEq, Repr

/-- How a call can fail: by a panic of its own arithmetic, or with an `Err`. -/
inductive Failure
  | panic
  | err (e : RateLimitError)
  deriving DecidableEq, Repr

abbrev Outcome (α : Type) := Except Failure α

theorem map_eq_ok {α β : Type} {f : α → β} {r : Outcome α} {b : β} (h : r.map f = .ok b) :
    ∃ a, r = .ok a ∧ f a = b := by
  cases r with
  | ok a => exact ⟨a, rfl, Except.ok.inj h⟩
  | error e => cases h

/-- A check that answers `(true, _)`. -/
def isAdmitted (r : Outcome (Bool × ℕ)) : Bool :=
  match r with
  | .ok (allowed, _) => allowed
  | .error _ => false

/-! ## Machine integers -/

/-- `u64::MAX`. -/
def u64Max : ℕ := 2 ^ 64 - 1

/-- `n as i64`. -/
def asI64 (n : ℤ) : ℤ := n.bmod (2 ^ 64)

/-- `n as u64`. -/
def asU64 (n : ℤ) : ℕ := (n % 2 ^ 64).toNat

theorem asI64_of_lt {n : ℕ} (h : n < 2 ^ 63) : asI64 (n : ℤ) = n := by
  rw [asI64, Int.bmod_def]
  omega

theorem asU64_of_lt {n : ℕ} (h : n < 2 ^ 64) : asU64 n = n := by
  simp only [asU64]; omega

/-! ## Time -/

namespace Duration

/-- `Duration::MAX`. -/
def max : ℕ := 2 ^ 64 * 1000000000 - 1

def fromSecs (n : ℕ) : ℕ := n * 1000000000

def fromMillis (n : ℕ) : ℕ := n * 1000000

def asSecs (d : ℕ) : ℕ := d / 1000000000

def asMillis (d : ℕ) : ℕ := d / 1000000

def isZero (d : ℕ) : Bool := d == 0

theorem asMillis_fromMillis (ms : ℕ) : asMillis (fromMillis ms) = ms := by
  simp only [asMillis, fromMillis]; omega

theorem asSecs_fromMillis (ms : ℕ) : asSecs (fromMillis ms) = ms / 1000 := by
  simp only [asSecs, fromMillis]; omega

theorem asMillis_lt (d : ℕ) : asMillis d < 1000 * asSecs d + 1000 := by
  simp only [asMillis, asSecs]; omega

/-- The seconds of a duration, exactly. -/
def secs (d : ℕ) : ℚ := d / 1000000000

end Duration

/-- The earliest `Instant`: its seconds are an `i64`. -/
def instantMin : ℤ := -(2 ^ 63 * 1000000000)

/-- `now.duration_since(earlier)`, which saturates at zero. -/
def durationSince (now earlier : ℤ) : ℕ := (now - earlier).toNat

/-- `now - d` on instants; `none` is the panic on underflow. -/
def instantSub (now : ℤ) (d : ℕ) : Option ℤ :=
  if instantMin ≤ now - d then some (now - d) else none

/-- `t.duration_since(UNIX_EPOCH)`; `none` is the `Err` its callers unwrap. -/
def sinceEpoch (t : ℤ) : Option ℕ := if 0 ≤ t then some t.toNat else none

@[simp] theorem durationSince_self (t : ℤ) : durationSince t t = 0 := by simp [durationSince]

theorem durationSince_of_le {now earlier : ℤ} (h : now ≤ earlier) :
    durationSince now earlier = 0 := by
  simp only [durationSince]; omega

theorem le_durationSince {now earlier : ℤ} {d : ℕ} (hd : 0 < d) :
    d ≤ durationSince now earlier ↔ earlier + d ≤ now := by
  simp only [durationSince]; omega

theorem instantSub_some {now c : ℤ} {d : ℕ} :
    instantSub now d = some c ↔ instantMin ≤ now - d ∧ c = now - d := by
  simp only [instantSub]; split_ifs with h <;> simp [h, eq_comm]

/-! ## `f64`

The token buckets compute in `f64`.  Each of their functions is written once,
over any type with the operations of `f64`: `ℚ` computes them exactly, `Float`
rounds as IEEE 754 does. -/

/-- The operations of `f64`, and of Lua's numbers, that the crate uses. -/
class F64 (ν : Type) extends Add ν, Sub ν, Mul ν, Div ν where
  lt : ν → ν → Bool
  le : ν → ν → Bool
  /-- the number nearest to an integer -/
  ofInt : ℤ → ν
  /-- the value of a finite number -/
  toRat? : ν → Option ℚ

instance : F64 ℚ where
  lt x y := decide (x < y)
  le x y := decide (x ≤ y)
  ofInt n := n
  toRat? q := some q

/-- The value of a finite `Float`. -/
def floatValue (x : Float) : Option ℚ :=
  match x.toModel.unpack with
  | .zero _ => some 0
  | .finite s m e _ => some ((s.apply (m : ℤ) : ℤ) * (2 : ℚ) ^ e)
  | .infinity _ => none
  | .notANumber => none

instance : F64 Float where
  lt := Float.lt
  le := Float.le
  ofInt := Float.ofInt
  toRat? := floatValue

namespace F64
variable {ν : Type} [F64 ν]

def isFinite (x : ν) : Bool := (toRat? x).isSome

/-- `x.min(y)` for a `y` that is not NaN; Lua's `math.min(y, x)`. -/
def min (x y : ν) : ν := if lt x y then x else y

/-- `x.max(y)` for a `y` that is not NaN. -/
def max (x y : ν) : ν := if lt y x then x else y

/-- `x.clamp(lo, hi)`. -/
def clamp (x lo hi : ν) : ν := if lt x lo then lo else if lt hi x then hi else x

/-- `u64::MAX as f64`: the `f64` nearest to it is `2 ^ 64`. -/
def ofU64Max : ν := ofInt (2 ^ 64)

/-- `x as u64`: truncated, saturating at both ends, zero for NaN. -/
def toU64 (x : ν) : ℕ :=
  match toRat? x with
  | some q => Min.min ⌊q⌋.toNat u64Max
  | none => if lt (ofInt 0) x then u64Max else 0

/-- The integer that a number is, as the text of the number denotes it. -/
def toInt? (x : ν) : Option ℤ :=
  match toRat? x with
  | some q => if q.den = 1 then some q.num else none
  | none => none

theorem toInt?_eq_some {x : ν} {t : ℤ} : toInt? x = some t ↔ toRat? x = some (t : ℚ) := by
  simp only [toInt?]
  cases toRat? x with
  | none => simp
  | some q =>
    simp only [Option.some.injEq]
    constructor
    · intro h
      split_ifs at h with hden
      rw [← Option.some.inj h]
      exact (Rat.coe_int_num_of_den_eq_one hden).symm
    · rintro rfl
      rw [if_pos (Rat.den_intCast t), Rat.num_intCast]

/-- A Lua number as an integer reply: truncated. -/
def toReply (x : ν) : ℤ :=
  match toRat? x with
  | some q => if 0 ≤ q then ⌊q⌋ else ⌈q⌉
  | none => 0

/-- `math.ceil(x)`. -/
def ceil (x : ν) : ν :=
  match toRat? x with
  | some q => ofInt ⌈q⌉
  | none => x

/-- `math.floor(x)`. -/
def floor (x : ν) : ν :=
  match toRat? x with
  | some q => ofInt ⌊q⌋
  | none => x

/-- `d.as_secs_f64()`. -/
def ofDuration (d : ℕ) : ν :=
  ofInt (d / 1000000000 : ℕ) + ofInt (d % 1000000000 : ℕ) / ofInt 1000000000

/-- The nearest integer, ties to even. -/
def roundEven (q : ℚ) : ℤ :=
  if q - ⌊q⌋ < 1 / 2 then ⌊q⌋
  else if 1 / 2 < q - ⌊q⌋ then ⌊q⌋ + 1
  else ⌊q⌋ + ⌊q⌋ % 2

theorem le_roundEven {q : ℚ} {k : ℤ} (h : k ≤ q) : k ≤ roundEven q := by
  have hfloor : k ≤ ⌊q⌋ := Int.le_floor.mpr h
  unfold roundEven
  split_ifs <;> omega

theorem roundEven_le {q : ℚ} {k : ℤ} (h : q ≤ k) : roundEven q ≤ k := by
  have hq : ⌊q⌋ ≤ k := by exact_mod_cast (Int.floor_le q).trans h
  unfold roundEven
  rcases hq.lt_or_eq with hlt | rfl
  · split_ifs <;> omega
  · have hzero : q - ⌊q⌋ < 1 / 2 := by linarith
    rw [if_pos hzero]

theorem roundEven_intCast (k : ℤ) : roundEven (k : ℚ) = k :=
  le_antisymm (roundEven_le le_rfl) (le_roundEven le_rfl)

theorem roundEven_mono : Monotone roundEven := by
  intro q q' h
  rcases (Int.floor_le_floor h).lt_or_eq with hlt | heq
  · calc roundEven q ≤ ⌊q⌋ + 1 := roundEven_le (by exact_mod_cast (Int.lt_floor_add_one q).le)
      _ ≤ ⌊q'⌋ := hlt
      _ ≤ roundEven q' := le_roundEven (Int.floor_le q')
  · -- the fraction grows, and a tie goes up or down by at most what half a step allows
    unfold roundEven
    rw [← heq]
    split_ifs
    all_goals first
      | omega
      | linarith

theorem roundEven_neg (q : ℚ) : roundEven (-q) = -roundEven q := by
  have hfloor := Int.floor_le q
  have hnext := Int.lt_floor_add_one q
  rcases hfloor.eq_or_lt with heq | hlt
  · rw [← heq, ← Int.cast_neg, roundEven_intCast, roundEven_intCast]
  · have hneg : ⌊-q⌋ = -⌊q⌋ - 1 := by
      rw [Int.floor_eq_iff]
      push_cast
      constructor <;> linarith
    unfold roundEven
    rw [hneg]
    push_cast
    split_ifs
    all_goals first
      | omega
      | linarith

/-- `Duration::from_secs_f64(x)`, to the nearest nanosecond; `none` is the panic
    on a value that is negative, not finite or at least `2 ^ 64` seconds. -/
def toDuration (x : ν) : Option ℕ :=
  match toRat? x with
  | some q =>
    if q < 0 then none
    else if 2 ^ 64 * 1000000000 ≤ roundEven (q * 1000000000) then none
    else some (roundEven (q * 1000000000)).toNat
  | none => none

end F64

/-! ### Exact arithmetic -/

@[simp] theorem F64.ofInt_rat (n : ℤ) : (F64.ofInt n : ℚ) = n := rfl

@[simp] theorem F64.le_rat (x y : ℚ) : F64.le x y = decide (x ≤ y) := rfl

@[simp] theorem F64.lt_rat (x y : ℚ) : F64.lt x y = decide (x < y) := rfl

@[simp] theorem F64.min_rat (x y : ℚ) : F64.min x y = Min.min x y := by
  simp only [F64.min, F64.lt_rat, decide_eq_true_eq]
  split_ifs with h
  · exact (min_eq_left h.le).symm
  · exact (min_eq_right (not_lt.mp h)).symm

theorem F64.toU64_rat (x : ℚ) : F64.toU64 x = Min.min ⌊x⌋.toNat u64Max := rfl

theorem Duration.secs_nonneg (d : ℕ) : 0 ≤ Duration.secs d := by
  simp only [Duration.secs]; positivity

theorem Duration.secs_mono {d d' : ℕ} (h : d ≤ d') : Duration.secs d ≤ Duration.secs d' := by
  have h' : (d : ℚ) ≤ d' := by exact_mod_cast h
  simp only [Duration.secs]; linarith

/-- The seconds from one instant to another. -/
def span (lo hi : ℤ) : ℚ := ((hi - lo : ℤ) : ℚ) / 1000000000

theorem span_mono {lo hi hi' : ℤ} (h : hi ≤ hi') : span lo hi ≤ span lo hi' := by
  have h' : ((hi - lo : ℤ) : ℚ) ≤ ((hi' - lo : ℤ) : ℚ) := by exact_mod_cast sub_le_sub_right h lo
  simp only [span]; linarith

theorem span_add (lo mid hi : ℤ) : span lo mid + span mid hi = span lo hi := by
  simp only [span]; push_cast; ring

theorem span_nonneg {lo hi : ℤ} (h : lo ≤ hi) : 0 ≤ span lo hi := by
  have h' : (0 : ℚ) ≤ ((hi - lo : ℤ) : ℚ) := by exact_mod_cast sub_nonneg.mpr h
  simp only [span]; linarith

theorem secs_durationSince {now earlier : ℤ} (h : earlier ≤ now) :
    Duration.secs (durationSince now earlier) = span earlier now := by
  have hd : ((durationSince now earlier : ℕ) : ℤ) = now - earlier := by
    simp only [durationSince]; omega
  have hq : ((durationSince now earlier : ℕ) : ℚ) = ((now - earlier : ℤ) : ℚ) := by
    rw [← hd]; rfl
  simp only [Duration.secs, span, hq]

theorem F64.ofDuration_rat (d : ℕ) : (F64.ofDuration d : ℚ) = Duration.secs d := by
  have h : ((d / 1000000000 : ℕ) : ℚ) * 1000000000 + (d % 1000000000 : ℕ) = d := by
    exact_mod_cast Nat.div_add_mod' d 1000000000
  show (((d / 1000000000 : ℕ) : ℤ) : ℚ) + (((d % 1000000000 : ℕ) : ℤ) : ℚ) / (1000000000 : ℤ) = _
  simp only [Int.cast_natCast, Duration.secs]
  rw [← h]; push_cast; ring

example : F64.toU64 (F64.ofDuration 2500000000 : Float) = 2 := by decide +kernel

end ArmatureRatelimit
