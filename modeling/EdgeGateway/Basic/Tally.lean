import Mathlib.Algebra.BigOperators.Group.List.Basic
import Mathlib.Algebra.GroupWithZero.Nat
import Mathlib.Data.List.Count
import Mathlib.Data.List.Perm.Basic
import Mathlib.Tactic.SplitIfs

set_option autoImplicit false

/-! # Counting what lists hold

`tally g w l` adds up the weights `w` of what `g` finds in the members of a list. Where things move
between lists, an equation between tallies that holds for every weight says that nothing is lost
and nothing is doubled; a step that moves them is then an equation of natural numbers.
-/

namespace EdgeGateway

variable {α β κ : Type*}

/-- The weight of what is there, if anything. -/
def weigh (w : β → Nat) : Option β → Nat
  | none => 0
  | some b => w b

def tally (g : α → Option β) (w : β → Nat) : List α → Nat
  | [] => 0
  | a :: l => weigh w (g a) + tally g w l

section

variable (g : α → Option β) (w : β → Nat)

@[simp] theorem weigh_none : weigh w none = 0 := rfl

@[simp] theorem weigh_some (b : β) : weigh w (some b) = w b := rfl

@[simp] theorem tally_nil : tally g w [] = 0 := rfl

@[simp] theorem tally_cons (a : α) (l : List α) : tally g w (a :: l) = weigh w (g a) + tally g w l :=
  rfl

@[simp] theorem tally_append (l l' : List α) : tally g w (l ++ l') = tally g w l + tally g w l' := by
  induction l with
  | nil => simp
  | cons a l ih =>
      rw [List.cons_append, tally_cons, tally_cons, ih]
      omega

theorem tally_map {γ : Type*} (f : γ → α) (l : List γ) :
    tally g w (l.map f) = tally (fun c => g (f c)) w l := by
  induction l with
  | nil => rfl
  | cons c l ih => rw [List.map_cons, tally_cons, tally_cons, ih]

/-- What is counted is in the list. -/
theorem exists_of_tally_pos {g : α → Option β} {w : β → Nat} {l : List α} (h : 0 < tally g w l) :
    ∃ a ∈ l, 0 < weigh w (g a) := by
  induction l with
  | nil => cases h
  | cons a l ih =>
      rcases Nat.eq_zero_or_pos (weigh w (g a)) with hzero | hpos
      · rw [tally_cons, hzero, Nat.zero_add] at h
        obtain ⟨b, hb, hw⟩ := ih h
        exact ⟨b, List.mem_cons_of_mem _ hb, hw⟩
      · exact ⟨a, List.mem_cons_self, hpos⟩

end

/-- Where every member holds something, a tally is a sum. -/
theorem tally_total (f : α → β) (w : β → Nat) (l : List α) :
    tally (fun a => some (f a)) w l = (l.map fun a => w (f a)).sum := by
  induction l with
  | nil => rfl
  | cons a l ih => rw [tally_cons, ih, weigh_some, List.map_cons, List.sum_cons]

theorem tally_some (w : α → Nat) (l : List α) : tally some w l = (l.map w).sum :=
  tally_total id w l

theorem tally_erase [DecidableEq α] {a : α} {l : List α} (w : α → Nat) (h : a ∈ l) :
    tally some w l = w a + tally some w (l.erase a) := by
  rw [tally_some, tally_some, List.sum_map_erase w h]

theorem tally_count [DecidableEq α] (x : α) (l : List α) :
    tally some (fun a => if a = x then 1 else 0) l = l.count x := by
  induction l with
  | nil => rfl
  | cons a l ih =>
      rw [tally_cons, ih, weigh_some, List.count_cons]
      simp only [beq_iff_eq]
      omega

/-- Lists with the same tallies have the same members, each as often. -/
theorem perm_of_tally [DecidableEq α] {l l' : List α}
    (h : ∀ w, tally some w l = tally some w l') : l.Perm l' := by
  refine List.perm_iff_count.mpr fun x => ?_
  rw [← tally_count, ← tally_count]
  exact h _

/-! ## Taking a member out -/

/-- The member at a position, with what is before and behind it. -/
def pick : Nat → List α → Option (List α × α × List α)
  | _, [] => none
  | 0, a :: l => some ([], a, l)
  | n + 1, a :: l => (pick n l).map fun r => (a :: r.1, r.2.1, r.2.2)

theorem pick_eq {n : Nat} {l l₁ l₂ : List α} {a : α} (h : pick n l = some (l₁, a, l₂)) :
    l = l₁ ++ a :: l₂ := by
  induction n generalizing l l₁ with
  | zero =>
      cases l with
      | nil => cases h
      | cons b l =>
          obtain ⟨rfl, rfl, rfl⟩ : [] = l₁ ∧ b = a ∧ l = l₂ := by simpa [pick] using h
          rfl
  | succ n ih =>
      cases l with
      | nil => cases h
      | cons b l =>
          obtain ⟨⟨l₁', a', l₂'⟩, hpick, heq⟩ := Option.map_eq_some_iff.mp h
          obtain ⟨rfl, rfl, rfl⟩ : b :: l₁' = l₁ ∧ a' = a ∧ l₂' = l₂ := by simpa using heq
          rw [ih hpick, List.cons_append]

variable [DecidableEq κ]

/-- The first value under a key, with the rest of the list. -/
def takeKey (k : κ) : List (κ × α) → Option (α × List (κ × α))
  | [] => none
  | (k', a) :: l => if k' = k then some (a, l) else (takeKey k l).map fun r => (r.1, (k', a) :: r.2)

theorem takeKey_eq {k : κ} {a : α} {l l' : List (κ × α)} (h : takeKey k l = some (a, l')) :
    ∃ l₁ l₂, l = l₁ ++ (k, a) :: l₂ ∧ l' = l₁ ++ l₂ := by
  induction l generalizing l' with
  | nil => cases h
  | cons p l ih =>
      obtain ⟨k', b⟩ := p
      unfold takeKey at h
      split_ifs at h with hk
      · obtain ⟨rfl, rfl⟩ := Prod.mk.inj (Option.some.inj h)
        exact ⟨[], l, by rw [hk]; rfl, rfl⟩
      · obtain ⟨⟨c, rest⟩, htake, heq⟩ := Option.map_eq_some_iff.mp h
        obtain ⟨rfl, rfl⟩ := Prod.mk.inj heq
        obtain ⟨l₁, l₂, rfl, rfl⟩ := ih htake
        exact ⟨(k', b) :: l₁, l₂, rfl, rfl⟩

theorem takeKey_eq_none {k : κ} {l : List (κ × α)} (h : takeKey k l = none) :
    ∀ p ∈ l, p.1 ≠ k := by
  induction l with
  | nil => exact fun _ hp => by cases hp
  | cons p l ih =>
      obtain ⟨k', b⟩ := p
      unfold takeKey at h
      split_ifs at h with hk
      rw [Option.map_eq_none_iff] at h
      exact List.forall_mem_cons.mpr ⟨hk, ih h⟩

end EdgeGateway
