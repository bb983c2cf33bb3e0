import Mathlib.Algebra.BigOperators.Fin
import Mathlib.Data.List.GetD
import Mathlib.Tactic

set_option autoImplicit false

/-! # Linear feedback shift registers

A register has cells `0 .. w` over a ring. A step moves every cell down by one, and what falls
out of cell `0` is fed back through the taps (`shift`). An input symbol is added to cell `0`
before the step (`feed`). The register is linear (`run_add`), and with an invertible last tap a
step loses nothing (`shift_injective`). So inputs confined to as many symbols as there are cells
never cancel (`run_ne_zero_of_window`), and with taps of sum one the sum of the cells is the sum
of the inputs (`sum_run`).
-/

namespace EdgeGateway

/-- A register with the cells `0 .. w`, given by its taps. -/
structure ShiftRegister (K : Type) [Field K] (w : Nat) where
  tap : Fin (w + 1) → K
  tap_last : tap (Fin.last w) ≠ 0

namespace ShiftRegister

variable {K : Type} [Field K] {w : Nat} (R : ShiftRegister K w)

/-- Every cell moves down by one; the symbol that leaves is fed back. -/
def shift (v : Fin (w + 1) → K) : Fin (w + 1) → K :=
  fun i => (Fin.snoc (fun j : Fin w => v j.succ) 0 : Fin (w + 1) → K) i + v 0 * R.tap i

/-- One input symbol: it is added to cell `0` before the step. -/
def feed (v : Fin (w + 1) → K) (k : K) : Fin (w + 1) → K := R.shift (v + Pi.single 0 k)

def run (v : Fin (w + 1) → K) (ks : List K) : Fin (w + 1) → K := ks.foldl R.feed v

/-! ## One step -/

theorem shift_last (v : Fin (w + 1) → K) : R.shift v (Fin.last w) = v 0 * R.tap (Fin.last w) := by
  simp [shift]

theorem shift_castSucc (v : Fin (w + 1) → K) (j : Fin w) :
    R.shift v j.castSucc = v j.succ + v 0 * R.tap j.castSucc := by
  simp [shift]

@[simp] theorem shift_zero : R.shift 0 = 0 := by
  funext i
  refine Fin.lastCases ?_ (fun j => ?_) i
  · simp [shift_last]
  · simp [shift_castSucc]

theorem shift_add (u v : Fin (w + 1) → K) : R.shift (u + v) = R.shift u + R.shift v := by
  funext i
  refine Fin.lastCases ?_ (fun j => ?_) i
  · simp only [shift_last, Pi.add_apply]
    ring
  · simp only [shift_castSucc, Pi.add_apply]
    ring

theorem shift_neg (v : Fin (w + 1) → K) : R.shift (-v) = - R.shift v := by
  have h := R.shift_add v (-v)
  rw [add_neg_cancel, shift_zero] at h
  exact (neg_eq_of_add_eq_zero_right h.symm).symm

/-- Only the empty register becomes empty: the last cell shows what left cell `0`. -/
theorem shift_eq_zero {v : Fin (w + 1) → K} (h : R.shift v = 0) : v = 0 := by
  have h0 : v 0 = 0 := by
    have hl := congrFun h (Fin.last w)
    rw [shift_last] at hl
    exact (mul_eq_zero.mp hl).resolve_right R.tap_last
  funext i
  refine Fin.cases h0 (fun j => ?_) i
  have hj := congrFun h j.castSucc
  rw [shift_castSucc, h0, zero_mul, add_zero] at hj
  exact hj

theorem shift_injective : Function.Injective R.shift := by
  intro u v h
  have hsub : R.shift (u + -v) = 0 := by
    rw [shift_add, shift_neg, h, add_neg_cancel]
  exact add_neg_eq_zero.mp (R.shift_eq_zero hsub)

/-! ## Runs -/

@[simp] theorem run_nil (v : Fin (w + 1) → K) : R.run v [] = v := rfl

@[simp] theorem run_cons (v : Fin (w + 1) → K) (k : K) (ks : List K) :
    R.run v (k :: ks) = R.run (R.feed v k) ks := rfl

theorem run_append (v : Fin (w + 1) → K) (ks ls : List K) :
    R.run v (ks ++ ls) = R.run (R.run v ks) ls :=
  List.foldl_append

theorem feed_add (u v : Fin (w + 1) → K) (k l : K) :
    R.feed (u + v) (k + l) = R.feed u k + R.feed v l := by
  rw [feed, feed, feed, Pi.single_add, ← shift_add, add_add_add_comm]

/-- **Linearity**: two inputs of one length added symbol by symbol. -/
theorem run_add {ks ls : List K} (h : ks.length = ls.length) (u v : Fin (w + 1) → K) :
    R.run (u + v) (List.zipWith (· + ·) ks ls) = R.run u ks + R.run v ls := by
  induction ks generalizing ls u v with
  | nil =>
      rw [List.length_nil] at h
      rw [List.eq_nil_of_length_eq_zero h.symm]
      rfl
  | cons k ks ih =>
      obtain ⟨l, ls, rfl⟩ := List.exists_cons_of_length_eq_add_one h.symm
      rw [List.zipWith_cons_cons, run_cons, feed_add, ih (by simpa using h)]
      rfl

theorem feed_zero (v : Fin (w + 1) → K) : R.feed v 0 = R.shift v := by
  rw [feed, Pi.single_zero, add_zero]

theorem run_zeros {ks : List K} (h : ∀ k ∈ ks, k = 0) (v : Fin (w + 1) → K) :
    R.run v ks = R.shift^[ks.length] v := by
  induction ks generalizing v with
  | nil => rfl
  | cons k ks ih =>
      rw [run_cons, h k (by simp), feed_zero, ih (fun l hl => h l (by simp [hl]))]
      rfl

theorem iterate_eq_zero {n : Nat} {v : Fin (w + 1) → K} (h : R.shift^[n] v = 0) : v = 0 := by
  induction n generalizing v with
  | zero => exact h
  | succ n ih =>
      rw [Function.iterate_succ_apply] at h
      exact R.shift_eq_zero (ih h)

@[simp] theorem iterate_zero (n : Nat) : R.shift^[n] 0 = 0 := by
  induction n with
  | zero => rfl
  | succ n ih => rw [Function.iterate_succ_apply, shift_zero, ih]

theorem iterate_add (n : Nat) (u v : Fin (w + 1) → K) :
    R.shift^[n] (u + v) = R.shift^[n] u + R.shift^[n] v := by
  induction n generalizing u v with
  | zero => rfl
  | succ n ih => rw [Function.iterate_succ_apply, shift_add, ih]; rfl

/-! ## Short inputs

An input of at most as many symbols as there are cells acts as if it had been written into the
cells at once. -/

/-- The symbols written into the cells, the first one into cell `0`. -/
def load (w : Nat) (ks : List K) : Fin (w + 1) → K := fun i => ks.getD i 0

@[simp] theorem load_nil : load w ([] : List K) = 0 := by
  funext i
  simp [load]

theorem load_append_singleton {ks : List K} (k : K) (h : ks.length < w + 1) :
    load w (ks ++ [k]) = load w ks + Pi.single ⟨ks.length, h⟩ k := by
  funext i
  simp only [load, Pi.add_apply, Pi.single_apply, Fin.ext_iff]
  rcases Nat.lt_trichotomy i.val ks.length with hi | hi | hi
  · rw [List.getD_append _ _ _ _ hi, if_neg (by omega), add_zero]
  · rw [if_pos hi, hi]
    simp
  · rw [if_neg (by omega), List.getD_eq_default _ _ (by simp; omega),
      List.getD_eq_default _ _ (by omega), add_zero]

/-- A symbol in cell `n` reaches cell `0` after `n` steps, untouched by the taps. -/
theorem iterate_single (k : K) :
    ∀ (n : Nat) (h : n < w + 1), R.shift^[n] (Pi.single ⟨n, h⟩ k) = Pi.single 0 k := by
  intro n
  induction n with
  | zero => intro _; rfl
  | succ n ih =>
      intro h
      have hstep : R.shift (Pi.single ⟨n + 1, h⟩ k) = Pi.single ⟨n, by omega⟩ k := by
        funext i
        have h0 : (Pi.single ⟨n + 1, h⟩ k : Fin (w + 1) → K) 0 = 0 := by
          rw [Pi.single_apply, if_neg (by simp [Fin.ext_iff])]
        refine Fin.lastCases ?_ (fun j => ?_) i
        · rw [shift_last, h0, zero_mul, Pi.single_apply,
            if_neg (by simp only [Fin.ext_iff, Fin.val_last]; omega)]
        · rw [shift_castSucc, h0, zero_mul, add_zero]
          simp [Pi.single_apply, Fin.ext_iff]
      rw [Function.iterate_succ_apply, hstep, ih]

theorem run_eq_iterate (v : Fin (w + 1) → K) {ks : List K} (h : ks.length ≤ w + 1) :
    R.run v ks = R.shift^[ks.length] (v + load w ks) := by
  induction ks using List.reverseRecOn with
  | nil => rw [load_nil, add_zero]; rfl
  | append_singleton ks k ih =>
      have hlt : ks.length < w + 1 := by simpa using h
      rw [run_append, ih (by omega), load_append_singleton k hlt, List.length_append,
        List.length_singleton, Function.iterate_succ_apply', ← add_assoc, iterate_add _ _ (_ + _),
        iterate_single]
      rfl

theorem load_ne_zero {ks : List K} (h : ks.length ≤ w + 1) (hne : ∃ k ∈ ks, k ≠ 0) :
    load w ks ≠ 0 := by
  obtain ⟨k, hk, hk0⟩ := hne
  obtain ⟨i, hi, rfl⟩ := List.mem_iff_getElem.mp hk
  intro hz
  have hcell := congrFun hz ⟨i, by omega⟩
  rw [load, List.getD_eq_getElem _ _ hi] at hcell
  exact hk0 hcell

/-- **Bursts are seen**: from the empty register, inputs that vanish outside as many consecutive
symbols as there are cells leave something behind. -/
theorem run_ne_zero_of_window {ks : List K} {a : Nat}
    (h : ∀ i, ks.getD i 0 ≠ 0 → a ≤ i ∧ i < a + (w + 1)) (hne : ∃ k ∈ ks, k ≠ 0) :
    R.run 0 ks ≠ 0 := by
  -- the input in front of the window, the window, and what is behind it
  let pre := ks.take a
  let mid := (ks.drop a).take (w + 1)
  let post := (ks.drop a).drop (w + 1)
  have hks : ks = pre ++ (mid ++ post) := by
    rw [List.take_append_drop, List.take_append_drop]
  have hpre : ∀ k ∈ pre, k = 0 := by
    intro k hk
    obtain ⟨i, hi, rfl⟩ := List.mem_iff_getElem.mp hk
    rw [List.length_take] at hi
    by_contra hk0
    rw [List.getElem_take, ← List.getD_eq_getElem _ 0 (by omega)] at hk0
    have := h i hk0
    omega
  have hpost : ∀ k ∈ post, k = 0 := by
    intro k hk
    obtain ⟨i, hi, rfl⟩ := List.mem_iff_getElem.mp hk
    simp only [post, List.length_drop] at hi
    by_contra hk0
    simp only [post, List.getElem_drop] at hk0
    rw [← List.getD_eq_getElem _ 0 (by omega)] at hk0
    have := h _ hk0
    omega
  have hmid : ∃ k ∈ mid, k ≠ 0 := by
    obtain ⟨k, hk, hk0⟩ := hne
    rw [hks, List.mem_append, List.mem_append] at hk
    rcases hk with hk | hk | hk
    · exact absurd (hpre k hk) hk0
    · exact ⟨k, hk, hk0⟩
    · exact absurd (hpost k hk) hk0
  have hlen : mid.length ≤ w + 1 := by simp [mid]
  intro hrun
  rw [hks, run_append, run_append, run_zeros R hpre, iterate_zero, run_zeros R hpost] at hrun
  have hrun := R.iterate_eq_zero hrun
  rw [run_eq_iterate R 0 hlen, zero_add] at hrun
  exact load_ne_zero hlen hmid (R.iterate_eq_zero hrun)

/-- **The sum of the cells** follows the inputs when the taps add up to one. -/
theorem sum_run (hsum : ∑ i, R.tap i = 1) (v : Fin (w + 1) → K) (ks : List K) :
    ∑ i, R.run v ks i = ∑ i, v i + ks.sum := by
  have hshift : ∀ u : Fin (w + 1) → K, ∑ i, R.shift u i = ∑ i, u i := by
    intro u
    have hdown : ∑ i, (Fin.snoc (fun j : Fin w => u j.succ) 0 : Fin (w + 1) → K) i
        = ∑ j : Fin w, u j.succ := by
      simp [Fin.sum_univ_castSucc]
    calc ∑ i, R.shift u i
        = ∑ j : Fin w, u j.succ + u 0 * ∑ i, R.tap i := by
          simp only [shift, Finset.sum_add_distrib, ← Finset.mul_sum, hdown]
      _ = u 0 + ∑ j : Fin w, u j.succ := by rw [hsum, mul_one, add_comm]
      _ = ∑ i, u i := (Fin.sum_univ_succ u).symm
  induction ks generalizing v with
  | nil => simp
  | cons k ks ih =>
      have hfeed : ∑ i, R.feed v k i = ∑ i, v i + k := by
        rw [feed, hshift]
        simp [Finset.sum_add_distrib]
      rw [run_cons, ih, hfeed, List.sum_cons, add_assoc]

end ShiftRegister

end EdgeGateway
