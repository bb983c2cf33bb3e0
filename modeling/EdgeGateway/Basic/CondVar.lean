import Mathlib

set_option autoImplicit false

/-! # Waiting for a condition variable

Threads are a list; a step of one thread replaces it in its place. A condition variable says which
threads wait for it and what they are when they are awake again. `credit` counts the threads that
will look at the state or notify before they wait again. `Signalled` is the invariant of a monitor:
while somebody waits, what there is to be had is covered by credits. It is kept by steps that spend
as many credits as they take, by wake-ups, and by notifications; once all credits are spent it says
that nobody waits in vain.
-/

namespace EdgeGateway

variable {σ : Type*}

/-- `wake` is `some` on the threads that wait. -/
structure CondVar (σ : Type*) where
  wake : σ → Option σ
  credit : σ → Nat
  awake : ∀ c c', wake c = some c' → wake c' = none
  credited : ∀ c c', wake c = some c' → credit c' = credit c + 1

namespace CondVar

variable (v : CondVar σ)

/-! ## Counting -/

def isAsleep (c : σ) : Nat := if (v.wake c).isSome then 1 else 0

def asleep (l : List σ) : Nat := (l.map v.isAsleep).sum

def credits (l : List σ) : Nat := (l.map v.credit).sum

theorem isAsleep_some {c c' : σ} (h : v.wake c = some c') : v.isAsleep c = 1 := by
  simp [isAsleep, h]

theorem isAsleep_none {c : σ} (h : v.wake c = none) : v.isAsleep c = 0 := by
  simp [isAsleep, h]

theorem asleep_at (before after : List σ) (c : σ) :
    v.asleep (before ++ c :: after) = v.asleep before + (v.isAsleep c + v.asleep after) := by
  simp [asleep]

theorem credits_at (before after : List σ) (c : σ) :
    v.credits (before ++ c :: after) = v.credits before + (v.credit c + v.credits after) := by
  simp [credits]

/-- Nobody waits exactly when no thread of the list does. -/
theorem asleep_eq_zero {l : List σ} : v.asleep l = 0 ↔ ∀ c ∈ l, v.wake c = none := by
  induction l with
  | nil => simp [asleep]
  | cons a l ih =>
      have hcons : v.asleep (a :: l) = v.isAsleep a + v.asleep l := by simp [asleep]
      rw [hcons, Nat.add_eq_zero_iff, ih, List.forall_mem_cons]
      apply and_congr_left
      intro _
      cases h : v.wake a with
      | none => simp [isAsleep, h]
      | some a' => simp [isAsleep, h]

theorem credits_eq_zero {l : List σ} (h : ∀ c ∈ l, v.credit c = 0) : v.credits l = 0 := by
  induction l with
  | nil => rfl
  | cons a l ih =>
      have hcons : v.credits (a :: l) = v.credit a + v.credits l := by simp [credits]
      rw [hcons, h a List.mem_cons_self, ih fun c hc => h c (List.mem_cons_of_mem _ hc)]

/-! ## Notifications -/

/-- `notify_one`: one of those who wait, if somebody does. -/
inductive NotifyOne : List σ → List σ → Prop
  | wake (before after : List σ) {c c' : σ} (h : v.wake c = some c') :
      NotifyOne (before ++ c :: after) (before ++ c' :: after)
  | nobody {l : List σ} (h : ∀ c ∈ l, v.wake c = none) : NotifyOne l l

def notifyAll (l : List σ) : List σ := l.map fun c => (v.wake c).getD c

theorem notifyOne_exists (l : List σ) : ∃ l', v.NotifyOne l l' := by
  by_cases h : ∀ c ∈ l, v.wake c = none
  · exact ⟨l, .nobody h⟩
  · push Not at h
    obtain ⟨c, hc, hwake⟩ := h
    obtain ⟨c', hc'⟩ := Option.ne_none_iff_exists'.mp hwake
    obtain ⟨before, after, rfl⟩ := List.append_of_mem hc
    exact ⟨_, .wake before after hc'⟩

theorem NotifyOne.length {v : CondVar σ} {l l' : List σ} (h : v.NotifyOne l l') :
    l'.length = l.length := by
  cases h with
  | wake before after h => simp
  | nobody h => rfl

/-- A notification makes one credit out of one who waits. -/
theorem NotifyOne.counts {v : CondVar σ} {l l' : List σ} (h : v.NotifyOne l l') :
    (v.asleep l = 0 ∧ l' = l) ∨
      (v.asleep l = v.asleep l' + 1 ∧ v.credits l' = v.credits l + 1) := by
  cases h with
  | nobody h => exact .inl ⟨v.asleep_eq_zero.mpr h, rfl⟩
  | wake before after hwake =>
      have hcredit := v.credited _ _ hwake
      have hawake := v.isAsleep_none (v.awake _ _ hwake)
      have hasleep := v.isAsleep_some hwake
      refine .inr ⟨?_, ?_⟩
      · rw [asleep_at, asleep_at]
        omega
      · rw [credits_at, credits_at]
        omega

/-- What is said of every thread is said after a notification, if waking keeps it. -/
theorem NotifyOne.forall_mem {v : CondVar σ} {l l' : List σ} {P : σ → Prop} (h : v.NotifyOne l l')
    (hwake : ∀ c c', v.wake c = some c' → P c → P c') (hP : ∀ c ∈ l, P c) : ∀ c ∈ l', P c := by
  cases h with
  | nobody h => exact hP
  | @wake before after c c' hc =>
      intro a ha
      rcases List.mem_append.mp ha with ha | ha
      · exact hP a (List.mem_append_left _ ha)
      · rcases List.mem_cons.mp ha with rfl | ha
        · exact hwake _ _ hc (hP c (by simp))
        · exact hP a (by simp [ha])

theorem notifyAll_awake (l : List σ) : ∀ c ∈ v.notifyAll l, v.wake c = none := by
  intro c hc
  obtain ⟨a, -, rfl⟩ := List.mem_map.mp hc
  cases h : v.wake a with
  | none => exact h
  | some a' => exact v.awake a a' h

theorem asleep_notifyAll (l : List σ) : v.asleep (v.notifyAll l) = 0 :=
  v.asleep_eq_zero.mpr (v.notifyAll_awake l)

/-! ## Two condition variables of one monitor -/

/-- Who is woken by `v` counts the same for `w` as before. -/
def Apart (v w : CondVar σ) : Prop :=
  ∀ c c', v.wake c = some c' → w.isAsleep c' = w.isAsleep c ∧ w.credit c' = w.credit c

variable {v} {w : CondVar σ}

theorem Apart.notifyOne (h : v.Apart w) {l l' : List σ} (hone : v.NotifyOne l l') :
    w.asleep l' = w.asleep l ∧ w.credits l' = w.credits l := by
  cases hone with
  | nobody _ => exact ⟨rfl, rfl⟩
  | wake before after hwake =>
      obtain ⟨hasleep, hcredit⟩ := h _ _ hwake
      refine ⟨?_, ?_⟩
      · rw [asleep_at, asleep_at, hasleep]
      · rw [credits_at, credits_at, hcredit]

theorem Apart.notifyAll (h : v.Apart w) (l : List σ) : w.asleep (v.notifyAll l) = w.asleep l := by
  induction l with
  | nil => rfl
  | cons a l ih =>
      have hcons : ∀ b (m : List σ), w.asleep (b :: m) = w.isAsleep b + w.asleep m := by
        intro b m
        simp [asleep]
      have hhead : w.isAsleep ((v.wake a).getD a) = w.isAsleep a := by
        cases hwake : v.wake a with
        | none => rfl
        | some a' => exact (h a a' hwake).1
      calc w.asleep (v.notifyAll (a :: l))
          = w.isAsleep ((v.wake a).getD a) + w.asleep (v.notifyAll l) := hcons _ _
        _ = w.asleep (a :: l) := by rw [hhead, ih, hcons]

/-! ## The invariant -/

variable (v)

/-- `supply` is what those who wait could have. -/
def Signalled (supply : Nat) (l : List σ) : Prop := v.asleep l = 0 ∨ supply ≤ v.credits l

variable {v} {supply supply' : Nat} {l l' : List σ}

/-- A step of one thread that does not begin to wait: it takes what its credit stands for. -/
theorem Signalled.move {before after : List σ} {c c' : σ}
    (h : v.Signalled supply (before ++ c :: after))
    (hasleep : v.isAsleep c' ≤ v.isAsleep c)
    (hcredit : supply' + v.credit c ≤ supply + v.credit c') :
    v.Signalled supply' (before ++ c' :: after) := by
  unfold Signalled at h ⊢
  rw [asleep_at, credits_at] at h ⊢
  omega

/-- A thread begins to wait when there is nothing to be had. -/
theorem Signalled.empty (h : supply = 0) : v.Signalled supply l := .inr (by omega)

/-- One more to be had, and a notification for it. -/
theorem Signalled.notifyOne (h : v.Signalled supply l) (hone : v.NotifyOne l l')
    (hsupply : supply' ≤ supply + 1) : v.Signalled supply' l' := by
  unfold Signalled at h ⊢
  rcases hone.counts with ⟨hzero, rfl⟩ | ⟨hasleep, hcredit⟩
  · exact .inl hzero
  · omega

/-- The credit of a thread that owes a notification is passed on. -/
theorem Signalled.pass {before after : List σ} {c c' : σ}
    (h : v.Signalled supply (before ++ c :: after))
    (hasleep : v.isAsleep c' = 0) (hcredit : v.credit c ≤ v.credit c' + 1)
    (hone : v.NotifyOne (before ++ c' :: after) l') : v.Signalled supply l' := by
  unfold Signalled at h ⊢
  rcases hone.counts with ⟨hzero, rfl⟩ | ⟨hless, hmore⟩
  · exact .inl hzero
  · rw [asleep_at] at h hless
    rw [credits_at] at h hmore
    omega

theorem Signalled.apart (h : w.Signalled supply l) (hapart : v.Apart w) (hone : v.NotifyOne l l') :
    w.Signalled supply l' := by
  obtain ⟨hasleep, hcredit⟩ := hapart.notifyOne hone
  unfold Signalled at h ⊢
  rw [hasleep, hcredit]
  exact h

/-- **Nobody waits in vain**: where all credits are spent and somebody waits, nothing is there. -/
theorem Signalled.settled (h : v.Signalled supply l) (hcredit : ∀ c ∈ l, v.credit c = 0) {c : σ}
    (hc : c ∈ l) (hwait : (v.wake c).isSome) : supply = 0 := by
  rcases h with hzero | hle
  · rw [v.asleep_eq_zero.mp hzero c hc] at hwait
    cases hwait
  · rw [v.credits_eq_zero hcredit] at hle
    omega

end CondVar

end EdgeGateway
