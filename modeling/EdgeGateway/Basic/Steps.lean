import Mathlib.Data.List.Basic
import Mathlib.Order.WellFounded

set_option autoImplicit false

/-! # Runs of a step relation and what they emit

A step relation takes a state to a state and emits a list of events. A run is a finite
sequence of steps; it emits the concatenation of what its steps emit. `Steps.invariant` is
the induction rule everything else uses: a relation between a state and the events emitted
so far holds along a run when every step preserves it. `Steps.refine` replays the runs of a
coarse relation as runs of a finer one; `Steps.justified` gives every event of a run its
reason. `exists_foldl_of_progress` leads a run of a step function to an end,
`exists_run_of_progress` one of a step relation. `append_eq_cut` says where an element of a
queue stands once more were appended.
-/

namespace EdgeGateway

variable {S E : Type*}

/-- The runs of `step`, with everything emitted on the way, oldest event first. -/
inductive Steps (step : S → List E → S → Prop) : S → List E → S → Prop
  | refl (s : S) : Steps step s [] s
  | tail {s t u : S} {es es' : List E} :
      Steps step s es t → step t es' u → Steps step s (es ++ es') u

namespace Steps

variable {step : S → List E → S → Prop} {s t u : S} {es es' : List E}

theorem single (h : step s es t) : Steps step s es t := by
  simpa using Steps.tail (Steps.refl s) h

theorem trans (h : Steps step s es t) (h' : Steps step t es' u) :
    Steps step s (es ++ es') u := by
  induction h' with
  | refl => simpa using h
  | tail _ hstep ih =>
      rw [← List.append_assoc]
      exact ih.tail hstep

/-- **The invariant rule.** `I` relates a state to the log of events emitted before it. If
every step preserves it, so does every run. -/
theorem invariant {I : S → List E → Prop}
    (hstep : ∀ s log es t, I s log → step s es t → I t (log ++ es))
    (log : List E) (h : Steps step s es t) (hI : I s log) : I t (log ++ es) := by
  induction h with
  | refl => simpa using hI
  | tail _ hs ih =>
      rw [← List.append_assoc]
      exact hstep _ _ _ _ ih hs

/-- The invariant rule for a property of states alone. -/
theorem preserves {I : S → Prop} (hstep : ∀ s es t, I s → step s es t → I t)
    (h : Steps step s es t) (hI : I s) : I t :=
  invariant (I := fun s _ => I s) (fun s _ es t hs ht => hstep s es t hs ht) [] h hI

/-- Runs of a coarse relation are runs of every relation whose runs replay its steps. -/
theorem refine {fine : S → List E → S → Prop}
    (hstep : ∀ s es t, step s es t → Steps fine s es t)
    (h : Steps step s es t) : Steps fine s es t := by
  induction h with
  | refl => exact Steps.refl _
  | tail _ hs ih => exact ih.trans (hstep _ _ _ hs)

end Steps

/-- **The progress rule.** If every state that is not at the end has an action that makes a
well-founded measure smaller, some actions lead to the end. -/
theorem exists_foldl_of_progress {A B : Type*} [Preorder B] [WellFoundedLT B] {step : S → A → S}
    {I F : S → Prop} (measure : S → B) (hstep : ∀ s a, I s → I (step s a))
    (hprogress : ∀ s, I s → ¬ F s → ∃ a, measure (step s a) < measure s) {s : S} (h : I s) :
    ∃ actions : List A, F (actions.foldl step s) := by
  induction hm : measure s using WellFoundedLT.induction generalizing s with
  | ind m ih =>
      by_cases hfinal : F s
      · exact ⟨[], hfinal⟩
      · obtain ⟨a, ha⟩ := hprogress s h hfinal
        obtain ⟨actions, hactions⟩ := ih _ (hm ▸ ha) (hstep s a h) rfl
        exact ⟨a :: actions, hactions⟩

/-- The same for a relation. -/
theorem exists_run_of_progress {B : Type*} [Preorder B] [WellFoundedLT B] {step : S → S → Prop}
    {I F : S → Prop} (measure : S → B) (hstep : ∀ s t, I s → step s t → I t)
    (hprogress : ∀ s, I s → ¬ F s → ∃ t, step s t ∧ measure t < measure s) {s : S} (h : I s) :
    ∃ t, Relation.ReflTransGen step s t ∧ F t := by
  induction hm : measure s using WellFoundedLT.induction generalizing s with
  | ind m ih =>
      by_cases hfinal : F s
      · exact ⟨s, .refl, hfinal⟩
      · obtain ⟨t, ht, hlt⟩ := hprogress s h hfinal
        obtain ⟨u, hu, hend⟩ := ih _ (hm ▸ hlt) (hstep s t h ht) rfl
        exact ⟨u, .head ht hu, hend⟩

/-! ## Queues -/

/-- Where an element of a concatenation stands. -/
theorem append_eq_cut {α : Type*} {xs ys ahead behind : List α} {a : α}
    (h : xs ++ ys = ahead ++ a :: behind) :
    (∃ rest, xs = ahead ++ a :: rest ∧ behind = rest ++ ys) ∨
      ∃ new, ahead = xs ++ new ∧ ys = new ++ a :: behind := by
  rcases List.append_eq_append_iff.mp h with ⟨new, hahead, hys⟩ | ⟨rest, hxs, hbehind⟩
  · exact .inr ⟨new, hahead, hys⟩
  · cases rest with
    | nil =>
        rw [List.append_nil] at hxs
        rw [List.nil_append] at hbehind
        exact .inr ⟨[], by rw [hxs, List.append_nil], hbehind.symm⟩
    | cons b rest =>
        obtain ⟨rfl, hrest⟩ := List.cons.inj hbehind
        exact .inl ⟨rest, hxs, hrest⟩

/-- **Every event has its reason.** Steps emit at most one event, each with what `J` says about the
events before it; then `J` says it of every event of a run. -/
theorem Steps.justified {step : S → List E → S → Prop} {I : S → List E → Prop}
    {J : List E → E → Prop} {s t : S} {es : List E}
    (hstep : ∀ s log es t, I s log → step s es t →
      I t (log ++ es) ∧ (es = [] ∨ ∃ e, es = [e] ∧ J log e))
    (h : Steps step s es t) (hI : I s []) :
    I t es ∧ ∀ before e after, es = before ++ e :: after → J before e := by
  induction h with
  | refl => exact ⟨hI, fun before e after heq => by cases before <;> cases heq⟩
  | tail _ hs ih =>
      obtain ⟨hI', hold⟩ := ih
      obtain ⟨hI'', hnew⟩ := hstep _ _ _ _ hI' hs
      refine ⟨hI'', fun before e after heq => ?_⟩
      -- the event is an old one, or the one that was just added
      rcases append_eq_cut heq with ⟨rest, hlog, -⟩ | ⟨new, hbefore, hes⟩
      · exact hold before e rest hlog
      · rcases hnew with rfl | ⟨a, rfl, ha⟩
        · cases new <;> cases hes
        · cases new with
          | nil =>
              obtain ⟨rfl, -⟩ := List.cons.inj hes
              rw [hbefore, List.append_nil]
              exact ha
          | cons b new => cases new <;> cases hes

end EdgeGateway
