/-
  Runs of a deterministic step function, over a list of inputs (`run`, with its
  `history` of inputs and outputs and its `trace` of visible outputs) and over
  an infinite sequence of them (`stateAt`, `outputAt`), and the rules that
  reason about them.

  `Sim` is a simulation between two systems that take the same inputs, the left
  one with extra silent steps; the relation may change with time.
  `Sim.trace_eq`: the two give the same trace.  `SilentSim` is the case of one
  system, `trace_filter`: deleting all silent steps of a run leaves its trace as
  it is.  For two systems that do not always agree, `Agreement.outputs_agree` and
  `Agreement.outputs_iff` say on which runs they do.  A `Projection` is a part of a
  system that runs on its own, `Projection.isolation`: what it outputs depends only
  on what it sees.
-/
import Mathlib

namespace Lib

variable {σ ι ω τ : Type}

/-! ## Finite runs -/

section
variable (step : ι → σ → ω × σ) (visible : ι → Bool)

/-- The state after the inputs `is`. -/
def run (s : σ) : List ι → σ
  | [] => s
  | i :: is => run (step i s).2 is

/-- The outputs of the visible inputs. -/
def trace (s : σ) : List ι → List ω
  | [] => []
  | i :: is =>
    if visible i then (step i s).1 :: trace (step i s).2 is else trace (step i s).2 is

/-- The inputs with what they return. -/
def history (s : σ) : List ι → List (ι × ω)
  | [] => []
  | i :: is => (i, (step i s).1) :: history (step i s).2 is

/-- `P` holds of every state that a run goes through. -/
def Along (P : σ → Prop) (s : σ) : List ι → Prop
  | [] => P s
  | i :: is => P s ∧ Along P (step i s).2 is

/-- How many inputs satisfy `p` at the state in which the run takes them. -/
def tally (p : ι → σ → Bool) (s : σ) : List ι → ℕ
  | [] => 0
  | i :: is => (p i s).toNat + tally p (step i s).2 is

end

variable {step : ι → σ → ω × σ} {visible : ι → Bool}

@[simp] theorem run_nil (s : σ) : run step s [] = s := rfl

@[simp] theorem run_cons (s : σ) (i : ι) (is : List ι) :
    run step s (i :: is) = run step (step i s).2 is := rfl

theorem run_append (s : σ) (is js : List ι) :
    run step s (is ++ js) = run step (run step s is) js := by
  induction is generalizing s with
  | nil => rfl
  | cons i is ih => exact ih _

theorem history_append (s : σ) (is js : List ι) :
    history step s (is ++ js) = history step s is ++ history step (run step s is) js := by
  induction is generalizing s with
  | nil => rfl
  | cons i is ih => simp only [List.cons_append, history, run_cons, ih]

theorem map_fst_history (s : σ) (is : List ι) : (history step s is).map Prod.fst = is := by
  induction is generalizing s with
  | nil => rfl
  | cons i is ih => rw [history, List.map_cons, ih]

theorem length_history (s : σ) (is : List ι) : (history step s is).length = is.length := by
  rw [← congrArg List.length (map_fst_history s is), List.length_map]

/-- What a history says of one of its inputs: the run of those before it, and
    what the step returns then. -/
theorem history_split {s : σ} {is : List ι} {before after : List (ι × ω)} {i : ι} {o : ω}
    (h : history step s is = before ++ (i, o) :: after) :
    before = history step s (before.map Prod.fst) ∧
      o = (step i (run step s (before.map Prod.fst))).1 := by
  have his : is = before.map Prod.fst ++ i :: after.map Prod.fst := by
    have hmap := congrArg (List.map Prod.fst) h
    rwa [map_fst_history, List.map_append, List.map_cons] at hmap
  rw [his, history_append, history] at h
  have hlen : (history step s (before.map Prod.fst)).length = before.length := by
    rw [length_history, List.length_map]
  obtain ⟨hbefore, hrest⟩ := List.append_inj h hlen
  obtain ⟨hhead, -⟩ := List.cons.inj hrest
  exact ⟨hbefore.symm, (congrArg Prod.snd hhead).symm⟩

theorem trace_append (s : σ) (is js : List ι) :
    trace step visible s (is ++ js) =
      trace step visible s is ++ trace step visible (run step s is) js := by
  induction is generalizing s with
  | nil => rfl
  | cons i is ih =>
    simp only [List.cons_append, trace, run_cons, ih]
    split_ifs <;> rfl

theorem trace_congr {visible' : ι → Bool} {s : σ} {is : List ι}
    (h : ∀ i ∈ is, visible i = visible' i) :
    trace step visible s is = trace step visible' s is := by
  induction is generalizing s with
  | nil => rfl
  | cons i is ih =>
    simp only [trace, h i (by simp), ih fun j hj => h j (by simp [hj])]

/-- **The invariant rule.**  What every input of the run preserves holds at its
    end. -/
theorem run_inv {P : σ → Prop} {s : σ} {is : List ι} (h0 : P s)
    (hs : ∀ i ∈ is, ∀ s, P s → P (step i s).2) : P (run step s is) := by
  induction is generalizing s with
  | nil => exact h0
  | cons i is ih =>
    refine ih (hs i (by simp) s h0) (fun j hj => hs j (by simp [hj]))

/-- What implies `P` and is preserved by every input holds all along the run. -/
theorem along_of_inv {P Q : σ → Prop} {s : σ} {is : List ι} (h0 : Q s) (hQ : ∀ s, Q s → P s)
    (hs : ∀ i ∈ is, ∀ s, Q s → Q (step i s).2) : Along step P s is := by
  induction is generalizing s with
  | nil => exact hQ s h0
  | cons i is ih =>
    exact ⟨hQ s h0, ih (hs i (by simp) s h0) (fun j hj => hs j (by simp [hj]))⟩

/-- What grows by at most one, and only at the inputs that `p` counts, has grown
    by at most their number. -/
theorem run_le_add_tally (size : σ → ℕ) {p : ι → σ → Bool}
    (h : ∀ i s, size (step i s).2 ≤ size s + (p i s).toNat) (s : σ) (is : List ι) :
    size (run step s is) ≤ size s + tally step p s is := by
  induction is generalizing s with
  | nil => exact Nat.le_add_right _ _
  | cons i is ih =>
    have hstep := h i s
    have hrest := ih (step i s).2
    simp only [run_cons, tally]
    omega

/-- What grows by exactly one at the inputs that `p` counts, while it stays below
    a bound, has grown by their number. -/
theorem run_eq_add_tally (size : σ → ℕ) {p : ι → σ → Bool} {bound : ℕ}
    (h : ∀ i s, size s + (p i s).toNat < bound → size (step i s).2 = size s + (p i s).toNat)
    {s : σ} {is : List ι} (hb : size s + tally step p s is < bound) :
    size (run step s is) = size s + tally step p s is := by
  induction is generalizing s with
  | nil => rfl
  | cons i is ih =>
    simp only [tally] at hb ⊢
    have hstep := h i s (by omega)
    rw [run_cons, ih (by omega), hstep, Nat.add_assoc]

/-- What every input extends by `f` of it is extended by a run. -/
theorem run_eq_append {α : Type} (log : σ → List α) {f : ι → List α}
    (h : ∀ i s, log (step i s).2 = log s ++ f i) (s : σ) (is : List ι) :
    log (run step s is) = log s ++ is.flatMap f := by
  induction is generalizing s with
  | nil => simp
  | cons i is ih => rw [run_cons, ih, h, List.append_assoc, List.flatMap_cons]

theorem tally_eq_countP (step : ι → σ → ω × σ) (p : ι → Bool) (s : σ) (is : List ι) :
    tally step (fun i _ => p i) s is = is.countP p := by
  induction is generalizing s with
  | nil => rfl
  | cons i is ih =>
    simp only [tally, ih, List.countP_cons]
    cases p i <;> simp [Nat.add_comm]

/-! ## Two systems -/

section
variable {σ' ω' : Type}

/-- `ok` allows every input at the state in which the run takes it. -/
def Allowed (step : ι → σ → ω × σ) (ok : ι → σ → Prop) (s : σ) : List ι → Prop
  | [] => True
  | i :: is => ok i s ∧ Allowed step ok (step i s).2 is

/-- The outputs of all inputs. -/
abbrev outputs (step : ι → σ → ω × σ) (s : σ) (is : List ι) : List ω :=
  trace step (fun _ => true) s is

theorem Allowed.imp {ok ok' : ι → σ → Prop} {s : σ} {is : List ι} (h : Allowed step ok s is)
    (hi : ∀ i ∈ is, ∀ s, ok i s → ok' i s) : Allowed step ok' s is := by
  induction is generalizing s with
  | nil => trivial
  | cons i is ih => exact ⟨hi i (by simp) s h.1, ih h.2 fun j hj => hi j (by simp [hj])⟩

theorem countP_outputs (p : ω → Bool) (s : σ) (is : List ι) :
    (outputs step s is).countP p = tally step (fun i s => p (step i s).1) s is := by
  induction is generalizing s with
  | nil => rfl
  | cons i is ih =>
    simp only [outputs, trace, if_true, tally, List.countP_cons] at ih ⊢
    rw [ih]
    cases p (step i s).1 <;> simp [Nat.add_comm]

theorem allowed_iff_tally {ok : ι → σ → Prop} {p : ι → σ → Bool}
    (h : ∀ i s, ok i s ↔ p i s = false) {s : σ} {is : List ι} :
    Allowed step ok s is ↔ tally step p s is = 0 := by
  induction is generalizing s with
  | nil => simp [Allowed, tally]
  | cons i is ih =>
    rw [Allowed, tally, ih, h, Nat.add_eq_zero_iff]
    cases p i s <;> simp

theorem allowed_iff_forall {ok : ι → Prop} {s : σ} {is : List ι} :
    Allowed step (fun i _ => ok i) s is ↔ ∀ i ∈ is, ok i := by
  induction is generalizing s with
  | nil => simp [Allowed]
  | cons i is ih => simp [Allowed, ih]

/-- `P` holds all along a run exactly when `ok` does at each input, if that is
    so for one input; `Q` holds anyway. -/
theorem along_iff_allowed {P Q : σ → Prop} {ok : ι → σ → Prop} {s : σ} {is : List ι}
    (hQ : ∀ i s, Q s → Q (step i s).2) (hs : ∀ i s, Q s → P s → (P (step i s).2 ↔ ok i s))
    (hQ0 : Q s) (hP0 : P s) : Along step P s is ↔ Allowed step ok s is := by
  induction is generalizing s with
  | nil => exact ⟨fun _ => trivial, fun _ => hP0⟩
  | cons i is ih =>
    have hi := hs i s hQ0 hP0
    constructor
    · rintro ⟨-, hrest⟩
      have hP : P (step i s).2 := by
        cases is with
        | nil => exact hrest
        | cons j js => exact hrest.1
      exact ⟨hi.mp hP, (ih (hQ i s hQ0) hP).mp hrest⟩
    · rintro ⟨hok, hrest⟩
      exact ⟨hP0, (ih (hQ i s hQ0) (hi.mpr hok)).mpr hrest⟩

/-- A simulation between two systems with the same inputs, indexed by time: they
    answer the visible inputs alike, and only the left one takes the silent
    inputs. -/
structure Sim [Preorder τ] (step : ι → σ → ω × σ) (step' : ι → σ' → ω × σ') (visible : ι → Bool)
    (time : ι → τ) (ok : ι → σ → Prop) (R : τ → σ → σ' → Prop) : Prop where
  mono : ∀ {t u s s'}, t ≤ u → R t s s' → R u s s'
  visible_step : ∀ {i s s'}, visible i = true → ok i s → R (time i) s s' →
    (step i s).1 = (step' i s').1 ∧ R (time i) (step i s).2 (step' i s').2
  silent_step : ∀ {i s s'}, visible i = false → ok i s → R (time i) s s' →
    R (time i) (step i s).2 s'

/-- **The simulation rule.**  In a run whose inputs come in the order of time,
    the right system without the silent inputs gives the same outputs. -/
theorem Sim.trace_eq [Preorder τ] {step' : ι → σ' → ω × σ'} {time : ι → τ} {ok : ι → σ → Prop}
    {R : τ → σ → σ' → Prop} (sim : Sim step step' visible time ok R) {is : List ι} {t : τ} {s : σ}
    {s' : σ'} (hok : Allowed step ok s is) (hord : is.Pairwise (fun i j => time i ≤ time j))
    (ht : ∀ i ∈ is, t ≤ time i) (hR : R t s s') :
    trace step visible s is = trace step' visible s' (is.filter visible) := by
  induction is generalizing t s s' with
  | nil => rfl
  | cons i is ih =>
    rw [List.pairwise_cons] at hord
    have hRi := sim.mono (ht i (by simp)) hR
    cases hv : visible i with
    | true =>
      obtain ⟨hout, hR'⟩ := sim.visible_step hv hok.1 hRi
      simp only [List.filter_cons, trace, hv, if_true]
      rw [hout, ih hok.2 hord.2 hord.1 hR']
    | false =>
      simp only [List.filter_cons, trace, hv, Bool.false_eq_true, if_false]
      exact ih hok.2 hord.2 hord.1 (sim.silent_step hv hok.1 hRi)

/-- Two systems of which it is known when they agree: at related states, which
    the side condition of the left one allows, they agree on the output of an
    input if `ok` holds, and then they stay related.  Where it is `sharp` they
    agree only then. -/
structure Agreement [Preorder τ] (step : ι → σ → ω × σ) (step' : ι → σ' → ω' × σ') (time : ι → τ)
    (agree : ω → ω' → Prop) (side sharp ok : ι → σ → Prop) (R : τ → σ → σ' → Prop) : Prop where
  mono : ∀ {t u s s'}, t ≤ u → R t s s' → R u s s'
  agree_of_ok : ∀ {i s s'}, side i s → R (time i) s s' → ok i s →
    agree (step i s).1 (step' i s').1
  ok_of_agree : ∀ {i s s'}, side i s → R (time i) s s' → sharp i s →
    agree (step i s).1 (step' i s').1 → ok i s
  next : ∀ {i s s'}, side i s → R (time i) s s' → ok i s →
    R (time i) (step i s).2 (step' i s').2

section
variable [Preorder τ] {step' : ι → σ' → ω' × σ'} {time : ι → τ} {agree : ω → ω' → Prop}
  {side sharp ok : ι → σ → Prop} {R : τ → σ → σ' → Prop}

/-- **When two systems agree.**  They agree on all outputs of a run at each of
    whose inputs `ok` holds. -/
theorem Agreement.outputs_agree (ag : Agreement step step' time agree side sharp ok R)
    {is : List ι} {t : τ} {s : σ} {s' : σ'} (hside : Allowed step side s is)
    (hord : is.Pairwise (fun i j => time i ≤ time j)) (ht : ∀ i ∈ is, t ≤ time i) (hR : R t s s')
    (hok : Allowed step ok s is) :
    List.Forall₂ agree (outputs step s is) (outputs step' s' is) := by
  induction is generalizing t s s' with
  | nil => exact .nil
  | cons i is ih =>
    rw [List.pairwise_cons] at hord
    have hRi := ag.mono (ht i (by simp)) hR
    have htail := ih hside.2 hord.2 hord.1 (ag.next hside.1 hRi hok.1) hok.2
    simp only [outputs, trace, if_true] at htail ⊢
    exact .cons (ag.agree_of_ok hside.1 hRi hok.1) htail

/-- In a run that is sharp at each of its inputs they agree only then. -/
theorem Agreement.outputs_iff (ag : Agreement step step' time agree side sharp ok R)
    {is : List ι} {t : τ} {s : σ} {s' : σ'} (hside : Allowed step side s is)
    (hord : is.Pairwise (fun i j => time i ≤ time j)) (ht : ∀ i ∈ is, t ≤ time i) (hR : R t s s')
    (hsharp : Allowed step sharp s is) :
    List.Forall₂ agree (outputs step s is) (outputs step' s' is) ↔ Allowed step ok s is := by
  refine ⟨fun h => ?_, ag.outputs_agree hside hord ht hR⟩
  induction is generalizing t s s' with
  | nil => trivial
  | cons i is ih =>
    rw [List.pairwise_cons] at hord
    have hRi := ag.mono (ht i (by simp)) hR
    simp only [outputs, trace, if_true, List.forall₂_cons] at h ih
    have hok := ag.ok_of_agree hside.1 hRi hsharp.1 h.1
    exact ⟨hok, ih hside.2 hord.2 hord.1 (ag.next hside.1 hRi hok) hsharp.2 h.2⟩

end

end

/-! ## What one observer sees -/

section
variable {σ' κ : Type}

/-- A part of a system that runs on its own: `proj` says what an input is to the
    part (`none` if nothing), and `step'` is what the part makes of that.  `R`
    relates the part to the whole. -/
structure Projection (step : ι → σ → ω × σ) (step' : κ → σ' → ω × σ') (proj : ι → Option κ)
    (ok : ι → σ → Prop) (R : σ → σ' → Prop) : Prop where
  seen : ∀ {i j s s'}, proj i = some j → ok i s → R s s' →
    (step i s).1 = (step' j s').1 ∧ R (step i s).2 (step' j s').2
  unseen : ∀ {i s s'}, proj i = none → ok i s → R s s' → R (step i s).2 s'

/-- The outputs that belong to the part are those of the part alone. -/
theorem Projection.trace_eq {step' : κ → σ' → ω × σ'} {proj : ι → Option κ} {ok : ι → σ → Prop}
    {R : σ → σ' → Prop} (part : Projection step step' proj ok R) {mine : κ → Bool} {is : List ι}
    {s : σ} {s' : σ'} (hok : Allowed step ok s is) (hR : R s s') :
    trace step (fun i => (proj i).any mine) s is = trace step' mine s' (is.filterMap proj) := by
  induction is generalizing s s' with
  | nil => rfl
  | cons i is ih =>
    cases hi : proj i with
    | none =>
      simp only [trace, List.filterMap_cons, hi, Option.any_none, Bool.false_eq_true, if_false]
      exact ih hok.2 (part.unseen hi hok.1 hR)
    | some j =>
      obtain ⟨hout, hR'⟩ := part.seen hi hok.1 hR
      simp only [trace, List.filterMap_cons, hi, Option.any_some]
      rw [hout, ih hok.2 hR']

/-- **Isolation.**  Two runs that look the same to the part give it the same
    outputs. -/
theorem Projection.isolation {step' : κ → σ' → ω × σ'} {proj : ι → Option κ} {ok : ι → σ → Prop}
    {R : σ → σ' → Prop} (part : Projection step step' proj ok R) {mine : κ → Bool}
    {is js : List ι} {s t : σ} {s' : σ'} (hseen : is.filterMap proj = js.filterMap proj)
    (hs : Allowed step ok s is) (ht : Allowed step ok t js) (hRs : R s s') (hRt : R t s') :
    trace step (fun i => (proj i).any mine) s is =
      trace step (fun i => (proj i).any mine) t js := by
  rw [part.trace_eq hs hRs, part.trace_eq ht hRt, hseen]

end

/-! ## Deleting silent steps -/

/-- A simulation indexed by time, in which the left side takes silent steps on
    its own, from states that satisfy `P`. -/
structure SilentSim [Preorder τ] (step : ι → σ → ω × σ) (visible : ι → Bool) (time : ι → τ)
    (P : σ → Prop) (R : τ → σ → σ → Prop) : Prop where
  mono : ∀ {t u s s'}, t ≤ u → R t s s' → R u s s'
  visible_step : ∀ {i s s'}, visible i = true → R (time i) s s' →
    (step i s).1 = (step i s').1 ∧ R (time i) (step i s).2 (step i s').2
  silent_step : ∀ {i s s'}, visible i = false → P s → R (time i) s s' →
    R (time i) (step i s).2 s'

theorem Along.allowed {P : σ → Prop} {s : σ} {is : List ι} (h : Along step P s is) :
    Allowed step (fun _ => P) s is := by
  induction is generalizing s with
  | nil => trivial
  | cons i is ih => exact ⟨h.1, ih h.2⟩

/-- **Silent steps can be deleted.**  In a run whose inputs come in the order
    of time, the visible outputs are those of the run without its silent
    inputs. -/
theorem SilentSim.trace_filter [Preorder τ] {time : ι → τ} {P : σ → Prop} {R : τ → σ → σ → Prop}
    (sim : SilentSim step visible time P R) {is : List ι} {t : τ} {s s' : σ}
    (hP : Along step P s is) (hord : is.Pairwise (fun i j => time i ≤ time j))
    (ht : ∀ i ∈ is, t ≤ time i) (hR : R t s s') :
    trace step visible s is = trace step visible s' (is.filter visible) := by
  have two : Sim step step visible time (fun _ => P) R :=
    { mono := sim.mono
      visible_step := fun hv _ h => sim.visible_step hv h
      silent_step := fun hv hp h => sim.silent_step hv hp h }
  exact two.trace_eq hP.allowed hord ht hR

/-! ## Infinite runs -/

section
variable (step) (s : σ) (is : ℕ → ι)

/-- The state before input `n`. -/
def stateAt : ℕ → σ
  | 0 => s
  | n + 1 => (step (is n) (stateAt n)).2

/-- What input `n` returns. -/
def outputAt (n : ℕ) : ω := (step (is n) (stateAt step s is n)).1

end

theorem stateAt_succ (s : σ) (is : ℕ → ι) (n : ℕ) :
    stateAt step s is (n + 1) = (step (is n) (stateAt step s is n)).2 := rfl

theorem stateAt_inv {P : ℕ → σ → Prop} {s : σ} {is : ℕ → ι} (h0 : P 0 s)
    (hs : ∀ n s, P n s → P (n + 1) (step (is n) s).2) (n : ℕ) : P n (stateAt step s is n) := by
  induction n with
  | zero => exact h0
  | succ n ih => exact hs n _ ih

end Lib
