import Mathlib.Order.Basic
import Mathlib.Data.Nat.Init

set_option autoImplicit false

/-! # What an infinite run leads to

A predicate on an infinite run is one of its times. `LeadsTo P Q` says that from every time with `P`
on there is one with `Q`. The rules are those of temporal logic: `ensures` for a helpful step that
comes in the end, `descend` for a measure that goes down, `turns` for one that a thread brings down.
-/

namespace EdgeGateway

/-- Whenever `P` holds, `Q` holds then or later. -/
def LeadsTo (P Q : Nat → Prop) : Prop := ∀ n, P n → ∃ m, n ≤ m ∧ Q m

namespace LeadsTo

variable {P Q R H : Nat → Prop}

theorem trans (h : LeadsTo P Q) (h' : LeadsTo Q R) : LeadsTo P R := by
  intro n hn
  obtain ⟨m, hnm, hm⟩ := h n hn
  obtain ⟨k, hmk, hk⟩ := h' m hm
  exact ⟨k, Nat.le_trans hnm hmk, hk⟩

/-- Whatever is kept until `Q` is still there when `Q` comes, or any time before. -/
theorem kept (hkeep : ∀ n, P n → P (n + 1) ∨ Q (n + 1)) {n m : Nat} (hn : P n) (hnm : n ≤ m) :
    P m ∨ ∃ k, n ≤ k ∧ Q k := by
  induction m, hnm using Nat.le_induction with
  | base => exact .inl hn
  | succ m hnm ih =>
      rcases ih with hm | hlater
      · rcases hkeep m hm with hnext | hnext
        · exact .inl hnext
        · exact .inr ⟨m + 1, by omega, hnext⟩
      · exact .inr hlater

/-- `P` is kept until `Q`, and a helpful step leads from `P` to `Q`; such a step comes. -/
theorem ensures (hkeep : ∀ n, P n → P (n + 1) ∨ Q (n + 1)) (hhelp : ∀ n, P n → H n → Q (n + 1))
    (hfair : LeadsTo P fun n => H n ∨ Q n) : LeadsTo P Q := by
  intro n hn
  obtain ⟨m, hnm, hm⟩ := hfair n hn
  rcases hm with hhelpful | hq
  · rcases kept hkeep hn hnm with hp | hlater
    · exact ⟨m + 1, by omega, hhelp m hp hhelpful⟩
    · exact hlater
  · exact ⟨m, hnm, hq⟩

/-- A measure that goes down until `Q`. -/
theorem descend (μ : Nat → Nat)
    (hdown : ∀ k, LeadsTo (fun n => P n ∧ μ n = k) fun m => Q m ∨ P m ∧ μ m < k) : LeadsTo P Q := by
  have hbounded : ∀ k n, P n → μ n ≤ k → ∃ m, n ≤ m ∧ Q m := by
    -- on the bound: each time the measure is below it once more
    intro k
    induction k using Nat.strong_induction_on with
    | _ k ih =>
        intro n hn hle
        obtain ⟨m, hnm, hm⟩ := hdown (μ n) n ⟨hn, rfl⟩
        rcases hm with hq | ⟨hp, hlt⟩
        · exact ⟨m, hnm, hq⟩
        · obtain ⟨l, hml, hl⟩ := ih (μ m) (by omega) m hp (Nat.le_refl _)
          exact ⟨l, Nat.le_trans hnm hml, hl⟩
  exact fun n hn => hbounded (μ n) n hn (Nat.le_refl _)

/-- A measure that never grows, and goes down at the turns of one thread, until `Q`. -/
theorem turns (μ : Nat → Nat) (hkeep : ∀ n, P n → Q (n + 1) ∨ P (n + 1) ∧ μ (n + 1) ≤ μ n)
    (hdown : ∀ n, P n → H n → Q (n + 1) ∨ P (n + 1) ∧ μ (n + 1) < μ n)
    (hfair : ∀ n, ∃ m, n ≤ m ∧ H m) : LeadsTo P Q := by
  refine descend μ fun k => ?_
  have hbelow : LeadsTo (fun n => P n ∧ μ n ≤ k) fun m => Q m ∨ P m ∧ μ m < k := by
    apply ensures (H := H)
    · rintro n ⟨hp, hle⟩
      rcases hkeep n hp with hq | ⟨hp', hle'⟩
      · exact .inr (.inl hq)
      · exact .inl ⟨hp', Nat.le_trans hle' hle⟩
    · rintro n ⟨hp, hle⟩ hturn
      exact (hdown n hp hturn).imp_right fun hnext =>
        ⟨hnext.1, Nat.lt_of_lt_of_le hnext.2 hle⟩
    · intro n _
      obtain ⟨m, hnm, hm⟩ := hfair n
      exact ⟨m, hnm, .inl hm⟩
  exact fun n hn => hbelow n ⟨hn.1, Nat.le_of_eq hn.2⟩

end LeadsTo

end EdgeGateway
