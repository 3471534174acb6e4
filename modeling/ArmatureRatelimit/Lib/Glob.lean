/-
  Glob patterns: `*` stands for any text, `?` for one character, `[..]` for one
  character of a class, and `\` takes the next character as it is.

  A pattern is read by an automaton (`step`) into tokens.  A class that is never
  closed goes on to the end of the pattern, and `a-b` in a class is a range in
  an order of the reader's own.  `read_append` reads a pattern in two parts;
  `accepts_append` splits a text where a list of tokens is split.
-/
import Mathlib

namespace Lib.Glob

variable {α : Type}

/-! ## Tokens -/

inductive Item (α : Type)
  | one (a : α)
  | range (a b : α)

/-- What stands for one character. -/
inductive Single (α : Type)
  | any
  | lit (a : α)
  | set (negated : Bool) (items : List (Item α))

inductive Token (α : Type)
  | star
  | one (p : Single α)

/-- The tokens of a text that stands for itself. -/
def literal (xs : List α) : List (Token α) := xs.map fun a => .one (.lit a)

section
variable [DecidableEq α] (le : α → α → Bool)

def Item.has : Item α → α → Bool
  | .one a, c => decide (a = c)
  | .range a b, c => if le a b then le a c && le c b else le b c && le c a

def Single.takes : Single α → α → Bool
  | .any, _ => true
  | .lit a, c => decide (a = c)
  | .set negated items, c => (items.any fun i => i.has le c) != negated

/-- The tokens stand for the whole text. -/
def accepts : List (Token α) → List α → Bool
  | [], xs => xs.isEmpty
  | .star :: ts, xs => xs.tails.any (accepts ts)
  | .one _ :: _, [] => false
  | .one p :: ts, x :: xs => p.takes le x && accepts ts xs

variable {le}

theorem accepts_nil {xs : List α} : accepts le [] xs = true ↔ xs = [] := List.isEmpty_iff

theorem accepts_star {ts : List (Token α)} {xs : List α} :
    accepts le (.star :: ts) xs = true ↔ ∃ u v, xs = u ++ v ∧ accepts le ts v = true := by
  simp only [accepts, List.any_eq_true, List.mem_tails]
  constructor
  · rintro ⟨v, ⟨u, rfl⟩, hv⟩
    exact ⟨u, v, rfl, hv⟩
  · rintro ⟨u, v, rfl, hv⟩
    exact ⟨v, ⟨u, rfl⟩, hv⟩

theorem accepts_one {p : Single α} {ts : List (Token α)} {xs : List α} :
    accepts le (.one p :: ts) xs = true ↔
      ∃ c v, xs = c :: v ∧ p.takes le c = true ∧ accepts le ts v = true := by
  cases xs with
  | nil => simp [accepts]
  | cons x xs =>
    simp only [accepts, Bool.and_eq_true, List.cons.injEq]
    constructor
    · rintro ⟨hx, hxs⟩
      exact ⟨x, xs, ⟨rfl, rfl⟩, hx, hxs⟩
    · rintro ⟨c, v, ⟨rfl, rfl⟩, hc, hv⟩
      exact ⟨hc, hv⟩

/-- **Tokens in two parts.** -/
theorem accepts_append {ts us : List (Token α)} {xs : List α} :
    accepts le (ts ++ us) xs = true ↔
      ∃ u v, xs = u ++ v ∧ accepts le ts u = true ∧ accepts le us v = true := by
  induction ts generalizing xs with
  | nil =>
    constructor
    · intro h
      exact ⟨[], xs, rfl, rfl, h⟩
    · rintro ⟨u, v, rfl, hu, hv⟩
      rw [accepts_nil] at hu
      subst hu
      exact hv
  | cons t ts ih =>
    cases t with
    | star =>
      simp only [List.cons_append, accepts_star, ih]
      constructor
      · rintro ⟨a, b, rfl, u, v, rfl, hu, hv⟩
        exact ⟨a ++ u, v, (List.append_assoc a u v).symm, ⟨a, u, rfl, hu⟩, hv⟩
      · rintro ⟨u, v, rfl, ⟨a, b, rfl, hb⟩, hv⟩
        exact ⟨a, b ++ v, List.append_assoc a b v, b, v, rfl, hb, hv⟩
    | one p =>
      simp only [List.cons_append, accepts_one, ih]
      constructor
      · rintro ⟨c, w, rfl, hc, u, v, rfl, hu, hv⟩
        exact ⟨c :: u, v, rfl, ⟨c, u, rfl, hc, hu⟩, hv⟩
      · rintro ⟨u, v, rfl, ⟨c, w, rfl, hc, hw⟩, hv⟩
        exact ⟨c, w ++ v, rfl, hc, w, v, rfl, hw, hv⟩

theorem accepts_literal {xs ys : List α} : accepts le (literal xs) ys = true ↔ ys = xs := by
  induction xs generalizing ys with
  | nil => exact accepts_nil
  | cons x xs ih =>
    simp only [literal, List.map_cons, accepts_one, Single.takes, decide_eq_true_eq]
    constructor
    · rintro ⟨c, v, rfl, rfl, hv⟩
      rw [ih.mp hv]
    · rintro rfl
      exact ⟨x, xs, rfl, rfl, ih.mpr rfl⟩

theorem accepts_star_nil (xs : List α) : accepts le [.star] xs = true :=
  accepts_star.mpr ⟨xs, [], (List.append_nil xs).symm, rfl⟩

theorem accepts_single {p : Single α} {xs : List α} :
    accepts le [.one p] xs = true ↔ ∃ c, xs = [c] ∧ p.takes le c = true := by
  rw [accepts_one]
  constructor
  · rintro ⟨c, v, rfl, hc, hv⟩
    rw [accepts_nil] at hv
    subst hv
    exact ⟨c, rfl, hc⟩
  · rintro ⟨c, rfl, hc⟩
    exact ⟨c, [], rfl, hc, rfl⟩

/-- A literal part, then anything. -/
theorem accepts_literal_star {ts : List (Token α)} {ys xs : List α} :
    accepts le (ts ++ (literal ys ++ [.star])) xs = true ↔
      ∃ u v, xs = u ++ (ys ++ v) ∧ accepts le ts u = true := by
  rw [accepts_append]
  constructor
  · rintro ⟨u, w, rfl, hu, hw⟩
    obtain ⟨y, v, rfl, hy, -⟩ := accepts_append.mp hw
    rw [accepts_literal.mp hy]
    exact ⟨u, v, rfl, hu⟩
  · rintro ⟨u, v, rfl, hu⟩
    exact ⟨u, ys ++ v, rfl, hu, accepts_append.mpr
      ⟨ys, v, rfl, accepts_literal.mpr rfl, accepts_star_nil v⟩⟩

end

/-! ## Reading a pattern -/

/-- The characters with a meaning. -/
structure Marks (α : Type) where
  star : α
  any : α
  opening : α
  closing : α
  negate : α
  dash : α
  escape : α

/-- What was read last: `item` is a character of a class that a range may start
    with. -/
inductive Mode (α : Type)
  | plain
  | escaped
  | opened
  | inSet (negated : Bool) (items : List (Item α))
  | setEscaped (negated : Bool) (items : List (Item α))
  | item (negated : Bool) (items : List (Item α)) (a : α)
  | dash (negated : Bool) (items : List (Item α)) (a : α)

/-- A class is open. -/
def Mode.IsSet : Mode α → Prop
  | .plain | .escaped => False
  | _ => True

section
variable [DecidableEq α] (m : Marks α)

/-- Read a character of a class, or its end. -/
def inClass (negated : Bool) (items : List (Item α)) (c : α) : List (Token α) × Mode α :=
  if c = m.escape then ([], .setEscaped negated items)
  else if c = m.closing then ([.one (.set negated items)], .plain)
  else ([], .item negated items c)

def step : Mode α → α → List (Token α) × Mode α
  | .plain, c =>
    if c = m.star then ([.star], .plain)
    else if c = m.any then ([.one .any], .plain)
    else if c = m.opening then ([], .opened)
    else if c = m.escape then ([], .escaped)
    else ([.one (.lit c)], .plain)
  | .escaped, c => ([.one (.lit c)], .plain)
  | .opened, c => if c = m.negate then ([], .inSet true []) else inClass m false [] c
  | .inSet negated items, c => inClass m negated items c
  | .setEscaped negated items, c => ([], .inSet negated (.one c :: items))
  | .item negated items a, c =>
    if c = m.dash then ([], .dash negated items a) else inClass m negated (.one a :: items) c
  | .dash negated items a, c => ([], .inSet negated (.range a c :: items))

/-- What the pattern leaves open at its end. -/
def finish : Mode α → List (Token α)
  | .plain => []
  | .escaped => [.one (.lit m.escape)]
  | .opened => [.one (.set false [])]
  | .inSet negated items => [.one (.set negated items)]
  | .setEscaped negated items => [.one (.set negated (.one m.escape :: items))]
  | .item negated items a => [.one (.set negated (.one a :: items))]
  | .dash negated items a => [.one (.set negated (.one m.dash :: .one a :: items))]

/-- The tokens of a part of a pattern, and how it leaves the reader. -/
def read : Mode α → List α → List (Token α) × Mode α
  | mode, [] => ([], mode)
  | mode, c :: cs =>
    let r := step m mode c
    let rest := read r.2 cs
    (r.1 ++ rest.1, rest.2)

def parse (pattern : List α) : List (Token α) :=
  let r := read m .plain pattern
  r.1 ++ finish m r.2

/-- The character stands for itself outside a class. -/
def Ordinary (c : α) : Prop := c ≠ m.star ∧ c ≠ m.any ∧ c ≠ m.opening ∧ c ≠ m.escape

instance (c : α) : Decidable (Ordinary m c) := inferInstanceAs (Decidable (_ ∧ _ ∧ _ ∧ _))

variable {m}

theorem read_append (mode : Mode α) (xs ys : List α) :
    read m mode (xs ++ ys) =
      ((read m mode xs).1 ++ (read m (read m mode xs).2 ys).1,
        (read m (read m mode xs).2 ys).2) := by
  induction xs generalizing mode with
  | nil => rfl
  | cons x xs ih => simp only [List.cons_append, read, ih, List.append_assoc]

theorem step_ordinary {c : α} (h : Ordinary m c) : step m .plain c = ([.one (.lit c)], .plain) := by
  obtain ⟨hstar, hany, hopening, hescape⟩ := h
  simp only [step, hstar, hany, hopening, hescape, if_false]

/-- Ordinary characters are read one by one. -/
theorem read_ordinary {xs : List α} (h : ∀ c ∈ xs, Ordinary m c) :
    read m .plain xs = (literal xs, .plain) := by
  induction xs with
  | nil => rfl
  | cons x xs ih =>
    simp only [read, step_ordinary (h x (by simp)), ih fun c hc => h c (by simp [hc])]
    rfl

/-- A pattern that goes on with ordinary characters and ends with a star. -/
theorem parse_ordinary_star {xs ys : List α} (hclosed : (read m .plain xs).2 = .plain)
    (hys : ∀ c ∈ ys, Ordinary m c) :
    parse m (xs ++ (ys ++ [m.star])) = (read m .plain xs).1 ++ (literal ys ++ [.star]) := by
  have hstar : read m .plain [m.star] = ([.star], .plain) := by
    simp only [read, step, if_true, List.append_nil]
  simp only [parse, read_append, hclosed, read_ordinary hys, hstar, finish, List.append_nil]

/-- After an ordinary character the reader is in the plain mode, having read the
    character as it is, or in a class. -/
theorem step_plain_or_set {c : α} (h : Ordinary m c) (hclosing : c ≠ m.closing) (mode : Mode α) :
    step m mode c = ([.one (.lit c)], .plain) ∨
      (step m mode c).1 = [] ∧ (step m mode c).2.IsSet := by
  have hclass : ∀ negated items, (inClass m negated items c).1 = [] ∧
      (inClass m negated items c).2.IsSet := by
    intro negated items
    simp only [inClass, h.2.2.2, hclosing, if_false]
    exact ⟨trivial, trivial⟩
  cases mode with
  | plain => exact .inl (step_ordinary h)
  | escaped => exact .inl rfl
  | opened =>
    refine .inr ?_
    simp only [step]
    split_ifs
    · exact ⟨rfl, trivial⟩
    · exact hclass _ _
  | inSet negated items => exact .inr (hclass _ _)
  | setEscaped negated items => exact .inr ⟨rfl, trivial⟩
  | item negated items a =>
    refine .inr ?_
    simp only [step]
    split_ifs
    · exact ⟨rfl, trivial⟩
    · exact hclass _ _
  | dash negated items a => exact .inr ⟨rfl, trivial⟩

/-- The same for a part of a pattern that ends with the character. -/
theorem read_concat {c : α} (h : Ordinary m c) (hclosing : c ≠ m.closing) (xs : List α) :
    (∃ ts, read m .plain (xs ++ [c]) = (ts ++ [.one (.lit c)], .plain)) ∨
      (read m .plain (xs ++ [c])).2.IsSet := by
  rw [read_append]
  simp only [read, List.append_nil]
  rcases step_plain_or_set h hclosing (read m .plain xs).2 with hstep | ⟨-, hset⟩
  · rw [hstep]
    exact .inl ⟨_, rfl⟩
  · exact .inr hset

/-- A class goes on until it is closed. -/
theorem read_isSet {mode : Mode α} (hmode : mode.IsSet) {xs : List α}
    (h : ∀ c ∈ xs, c ≠ m.closing ∧ c ≠ m.escape) :
    (read m mode xs).1 = [] ∧ (read m mode xs).2.IsSet := by
  induction xs generalizing mode with
  | nil => exact ⟨rfl, hmode⟩
  | cons x xs ih =>
    obtain ⟨hclosing, hescape⟩ := h x (by simp)
    have hstep : (step m mode x).1 = [] ∧ (step m mode x).2.IsSet := by
      cases mode with
      | plain => exact hmode.elim
      | escaped => exact hmode.elim
      | opened =>
        simp only [step, inClass, hclosing, hescape, if_false]
        split_ifs <;> exact ⟨rfl, trivial⟩
      | inSet negated items =>
        simp only [step, inClass, hclosing, hescape, if_false]
        exact ⟨trivial, trivial⟩
      | setEscaped negated items => exact ⟨rfl, trivial⟩
      | item negated items a =>
        simp only [step, inClass, hclosing, hescape, if_false]
        split_ifs <;> exact ⟨rfl, trivial⟩
      | dash negated items a => exact ⟨rfl, trivial⟩
    have hrest := ih hstep.2 fun c hc => h c (by simp [hc])
    simp only [read, hstep.1, hrest.1]
    exact ⟨rfl, hrest.2⟩

omit [DecidableEq α] in
theorem finish_isSet {mode : Mode α} (hmode : mode.IsSet) : ∃ p, finish m mode = [.one p] := by
  cases mode with
  | plain => exact hmode.elim
  | escaped => exact hmode.elim
  | _ => exact ⟨_, rfl⟩

/-- A pattern whose class is never closed ends with one token. -/
theorem parse_isSet {xs ys : List α} (hset : (read m .plain xs).2.IsSet)
    (h : ∀ c ∈ ys, c ≠ m.closing ∧ c ≠ m.escape) :
    ∃ p, parse m (xs ++ ys) = (read m .plain xs).1 ++ [.one p] := by
  obtain ⟨hnone, hstill⟩ := read_isSet hset h
  obtain ⟨p, hp⟩ := finish_isSet (m := m) hstill
  refine ⟨p, ?_⟩
  simp only [parse, read_append, hnone, hp, List.append_nil]

end

end Lib.Glob
