import EdgeGateway.Link.TrackerHandshake
import EdgeGateway.Link.TrackerWindow

set_option autoImplicit false

/-! # How far the sender is from its next command

`stage` goes down with every call, as long as no command is accepted and no session is asked for:
from a session that is used up to the handshake for the next one, and from there to a session that
takes commands or to the failure. The ticks see to it that it does not stay where it is. Meanwhile
a command in flight keeps its age, until it is completed.
-/

namespace EdgeGateway

namespace CommandTracker

/-- At stage 0 the tracker takes a command, or takes none any more. -/
def stage (t : CommandTracker) : Nat :=
  match t.state with
  | .failed => 0
  | .ready => if t.entries.size = 0 then 0 else 2
  | .opening => 1
  | .closed => 3

/-- A call that neither accepts a command nor asks for a session while there is one. -/
structure Usual (t : CommandTracker) (call : TrackerCall) : Prop where
  submit : ∀ type args now, call ≠ .submit type args now
  start : ∀ session now, call = .start session now → t.state = .closed

/-- The invariants of a tracker that stages and ages rest on. -/
structure Sound (t : CommandTracker) : Prop where
  window : WindowInv t
  table : TableInv t

theorem sound_new : Sound new := ⟨trackerInv_new.window, tableInv_new⟩

variable {t t' : CommandTracker} {call : TrackerCall} {es : List TrackerEvent}

theorem sound_call (h : Sound t) (call : TrackerCall) : Sound (t.call call).1 :=
  ⟨windowInv_call h.window call, tableInv_step h.window h.table (call_step h.window call)⟩

/-! ## Stages -/

theorem stage_opening (h : t.state = .opening) : t.stage = 1 := by rw [stage, h]

theorem stage_closed (h : t.state = .closed) : t.stage = 3 := by rw [stage, h]

theorem stage_failed (h : t.state = .failed) : t.stage = 0 := by rw [stage, h]

theorem stage_ready (h : t.state = .ready) :
    t.stage = if t.entries.size = 0 then 0 else 2 := by rw [stage, h]

theorem stage_le_two (h : t.state = .ready) : t.stage ≤ 2 := by
  rw [stage_ready h]
  split_ifs <;> omega

theorem stage_busy {seq : UInt8} {e : Entry} (h : t.state = .ready)
    (hentry : t.entries.find? seq = some e) : t.stage = 2 := by
  rw [stage_ready h, if_neg]
  intro hsize
  rw [KeyMap.size_eq_zero.mp hsize] at hentry
  cases hentry

theorem state_of_stage_one (h : t.stage = 1) : t.state = .opening := by
  cases hstate : t.state with
  | opening => rfl
  | closed =>
      rw [stage_closed hstate] at h
      cases h
  | failed =>
      rw [stage_failed hstate] at h
      cases h
  | ready =>
      rw [stage_ready hstate] at h
      split_ifs at h
      cases h

theorem state_of_stage_two (h : t.stage = 2) : t.state = .ready := by
  cases hstate : t.state with
  | opening =>
      rw [stage_opening hstate] at h
      cases h
  | closed =>
      rw [stage_closed hstate] at h
      cases h
  | failed =>
      rw [stage_failed hstate] at h
      cases h
  | ready => rfl

theorem stage_le_three (t : CommandTracker) : t.stage ≤ 3 := by
  cases hstate : t.state with
  | opening => rw [stage_opening hstate]; decide
  | closed => rw [stage_closed hstate]
  | failed => rw [stage_failed hstate]; decide
  | ready => exact Nat.le_succ_of_le (stage_le_two hstate)

theorem state_of_stage_three (h : t.stage = 3) : t.state = .closed := by
  cases hstate : t.state with
  | opening =>
      rw [stage_opening hstate] at h
      cases h
  | closed => rfl
  | failed =>
      rw [stage_failed hstate] at h
      cases h
  | ready =>
      have := stage_le_two hstate
      omega

/-- At stage 0 the next command is taken or rejected. -/
theorem Sound.stage_zero (h : Sound t) (hstage : t.stage = 0) :
    t.state = .failed ∨ t.state = .ready ∧ t.canSubmit = true := by
  cases hstate : t.state with
  | opening =>
      rw [stage_opening hstate] at hstage
      cases hstage
  | closed =>
      rw [stage_closed hstate] at hstage
      cases hstage
  | failed => exact .inl rfl
  | ready =>
      rcases canSubmit_or_busy h.window h.table hstate with hcan | ⟨seq, e, hentry⟩
      · exact .inr ⟨rfl, hcan⟩
      · rw [stage_busy hstate hentry] at hstage
        cases hstage

/-- A session ends by a call only where a command is in flight, or where there is none. -/
theorem sessionEnd_stage (husual : Usual t call) (hend : SessionEnd t call es)
    (hbusy : ∀ now, call = .tick now → t.stage = 2) : 1 ≤ t.stage := by
  cases hend with
  | start session now =>
      rw [stage_closed (husual.start session now rfl)]
      decide
  | lost now error hready =>
      rw [hbusy now rfl]
      decide
  | unwritten _ _ _ e _ hready _ _ hentry =>
      rw [stage_busy hready hentry]
      decide
  | rollover _ _ _ e hready _ _ hentry =>
      rw [stage_busy hready hentry]
      decide

theorem retry_stage (hready : t.state = .ready) (now : TimePoint) :
    (t.retry now).1.stage = t.stage := by
  have hretried : (t.retry now).1.state = .ready := hready
  rw [stage_ready hready, stage_ready hretried]
  show (if (t.entries.map _).size = 0 then 0 else 2) = _
  rw [KeyMap.size_map]

/-- A tick that finds no command in flight keeps the session. -/
theorem tick_idle (hready : t.state = .ready) (hempty : t.entries.size = 0) (now : TimePoint) :
    (t.tick now).1.stage = t.stage := by
  have hnone : t.entries.toList.find? (fun entry => entry.2.lost now) = none := by
    rw [KeyMap.size_eq_zero.mp hempty, KeyMap.toList_empty]
    rfl
  have hnot : t.state ≠ .opening := by rw [hready]; decide
  rw [tick, if_neg hnot, if_neg (not_not.mpr hready), hnone]
  exact retry_stage hready now

theorem stage_step (hw : WindowInv t) (husual : Usual t call) (hstep : TrackerStep t call es t')
    (hbusy : ∀ now, call = .tick now → t.state = .ready → t.stage = 2) : t'.stage ≤ t.stage := by
  have hended : ∀ ended, SessionEnd t call ended → 1 ≤ t.stage := by
    intro ended hend
    refine sessionEnd_stage husual hend fun now hcall => hbusy now hcall ?_
    subst hcall
    cases hend with
    | lost _ _ hready => exact hready
  cases hstep with
  | ignored => exact Nat.le_refl _
  | begun _ ended session hend => exact hended ended hend
  | exhausted _ _ _ _ _ hfailed =>
      rw [stage_failed hfailed]
      exact Nat.zero_le _
  | openFailed => exact Nat.zero_le _
  | openUnwritten => exact Nat.zero_le _
  | openWritten _ _ hopening =>
      rw [stage_opening hopening, stage_opening (t := t.openWritten _) hopening]
  | openRetried _ hopening =>
      rw [stage_opening hopening, stage_opening (t := t.reopened _) hopening]
  | openRejected _ _ _ hopening =>
      rw [stage_opening hopening, stage_opening (t := t.reopened _) hopening]
  | opened _ _ hopening =>
      have hempty : t.entries = KeyMap.empty := hw.idle (by rw [hopening]; decide)
      rw [stage_ready (t := { t with state := .ready, openPending := false }) rfl,
        if_pos (by rw [hempty, KeyMap.size_empty])]
      exact Nat.zero_le _
  | submitted type args now => exact absurd rfl (husual.submit type args now)
  | dataWritten send now e hready _ _ hentry =>
      rw [stage_busy hready hentry]
      exact stage_le_two (t := t.dataWritten _ _) hready
  | receipt _ _ seq e hready _ _ hentry =>
      rw [stage_busy hready hentry]
      exact stage_le_two (t := t.receive _) hready
  | result _ _ seq e hready _ _ hentry =>
      rw [stage_busy hready hentry]
      exact stage_le_two (t := (t.receive _).finished _) hready
  | resultAgain => exact Nat.le_refl _
  | retried now hready => exact Nat.le_of_eq (retry_stage hready now)

/-- **No usual call raises the stage.** -/
theorem stage_call (hw : WindowInv t) (husual : Usual t call) : (t.call call).1.stage ≤ t.stage := by
  by_cases hidle : t.state = .ready ∧ t.entries.size = 0 ∧ ∃ now, call = .tick now
  · obtain ⟨hready, hempty, now, rfl⟩ := hidle
    exact Nat.le_of_eq (tick_idle hready hempty now)
  · refine stage_step hw husual (call_step hw call) fun now hcall hready => ?_
    rw [stage_ready hready, if_neg fun hempty => hidle ⟨hready, hempty, now, hcall⟩]

/-- The handshake does not begin again. -/
theorem openingAt_call (hw : WindowInv t) (husual : Usual t call) (h : t.state = .opening)
    (h' : (t.call call).1.state = .opening) : (t.call call).1.openingAt = t.openingAt := by
  have hstep := call_step hw call
  have hnoEnd : ∀ ended, ¬ SessionEnd t call ended := by
    intro ended hend
    cases hend with
    | start session now => exact absurd (h.symm.trans (husual.start session now rfl)) (by decide)
    | lost _ _ hready => exact absurd (h.symm.trans hready) (by decide)
    | unwritten _ _ _ _ _ hready => exact absurd (h.symm.trans hready) (by decide)
    | rollover _ _ _ _ hready => exact absurd (h.symm.trans hready) (by decide)
  generalize (t.call call).1 = t' at hstep h' ⊢
  generalize (t.call call).2 = es at hstep
  cases hstep with
  | begun _ ended _ hend => exact absurd hend (hnoEnd ended)
  | exhausted _ _ _ _ _ hfailed => exact absurd (h'.symm.trans hfailed) (by decide)
  | _ => rfl

/-! ## Commands in flight -/

/-- What is in flight after a usual call was so before, and is as old. -/
theorem queued_call (hw : WindowInv t) (husual : Usual t call) {seq : UInt8} {e' : Entry}
    (h : (t.call call).1.entries.find? seq = some e') : (t.call call).1.session = t.session ∧
      ∃ e, t.entries.find? seq = some e ∧ e'.queuedAt = e.queuedAt := by
  obtain ⟨hsession, hentry⟩ := entry_step hw (call_step hw call) h
  refine ⟨hsession, ?_⟩
  cases hentry with
  | created type args now hcall => exact absurd hcall (husual.submit type args now)
  | kept _ hfind => exact ⟨e', hfind, rfl⟩
  | received e hfind => exact ⟨e, hfind, rfl⟩
  | written _ _ e _ _ _ _ hfind => exact ⟨e, hfind, rfl⟩
  | retried _ e _ hfind => exact ⟨e, hfind, rfl⟩

/-- A command in flight stays so, or is completed. -/
theorem kept_call (hw : WindowInv t) (husual : Usual t call) {seq : UInt8} {e : Entry}
    (h : t.entries.find? seq = some e) :
    (∃ e', (t.call call).1.entries.find? seq = some e' ∧ e'.queuedAt = e.queuedAt) ∨
      ∃ session completion, .finish session completion ∈ (t.call call).2 ∧
        completion.seq = seq := by
  have hsettles := call_settles hw call
  have hticket : (t.session, seq, e.type) ∈ t.inflight :=
    List.mem_map_of_mem (f := fun entry : UInt8 × Entry => (t.session, entry.1, entry.2.type))
      (KeyMap.mem_toList.mpr h)
  have hafter := hsettles.symm.subset (List.mem_append_left _ hticket)
  rcases List.mem_append.mp hafter with hfinished | hinflight
  · obtain ⟨f, hf, hsame⟩ := List.mem_map.mp hfinished
    exact .inr ⟨f.1, f.2, mem_finishes.mp hf, congrArg (·.2.1) hsame⟩
  · obtain ⟨entry, hentry, hsame⟩ := List.mem_map.mp hinflight
    obtain rfl : entry.1 = seq := congrArg (·.2.1) hsame
    have hfind := KeyMap.mem_toList.mp hentry
    obtain ⟨-, e₀, he₀, hqueued⟩ := queued_call hw husual hfind
    rw [h] at he₀
    obtain rfl := Option.some.inj he₀
    exact .inl ⟨entry.2, hfind, hqueued⟩

/-! ## Ticks -/

/-- A tick completes a command that is too old. -/
theorem tick_completes (hw : WindowInv t) {seq : UInt8} {e : Entry} {now : TimePoint}
    (h : t.entries.find? seq = some e) (hlate : now - e.queuedAt ≥ Ms EDGE_SR_RESULT_TIMEOUT_MS) :
    ∃ completion ∈ (t.tick now).2.finished, completion.seq = seq := by
  have husual : Usual t (.tick now) := ⟨(fun _ _ _ h => by cases h), (fun _ _ h => by cases h)⟩
  rcases kept_call hw husual h with ⟨e', he', -⟩ | ⟨session, completion, hfinish, hseq⟩
  · -- only a session that is ready has commands in flight
    have hready : (t.tick now).1.state = .ready := by
      by_contra hnot
      have hidle := (windowInv_call hw (.tick now)).idle hnot
      rw [hidle] at he'
      cases he'
    exact absurd hready (tick_unblocks h hlate)
  · refine ⟨completion, ?_, hseq⟩
    have hmem : (session, completion) ∈ finishes (t.call (.tick now)).2 := mem_finishes.mpr hfinish
    have hevents : (t.call (.tick now)).2 = (t.tick now).2.events t.session := rfl
    rw [hevents, finishes_events] at hmem
    obtain ⟨c, hc, hsame⟩ := List.mem_map.mp hmem
    obtain ⟨-, rfl⟩ := Prod.mk.inj hsame
    exact hc

/-- A session that has only old commands is given up. -/
theorem tick_stage_two (hstage : t.stage = 2) {bound now : TimePoint} (hw : WindowInv t)
    (hbound : ∀ seq e, t.entries.find? seq = some e → e.queuedAt ≤ bound)
    (hlate : now - bound ≥ Ms EDGE_SR_RESULT_TIMEOUT_MS) : (t.tick now).1.stage < 2 := by
  have husual : Usual t (.tick now) := ⟨(fun _ _ _ h => by cases h), (fun _ _ h => by cases h)⟩
  have hready := state_of_stage_two hstage
  have hle : (t.tick now).1.stage ≤ 2 := hstage ▸ stage_call hw husual
  obtain ⟨seq, e, hentry⟩ : ∃ seq e, t.entries.find? seq = some e := by
    by_contra hnone
    have hempty : t.entries = KeyMap.empty := by
      ext seq e
      exact iff_of_false (fun he => hnone ⟨seq, e, he⟩) fun he => by cases he
    rw [stage_ready hready, if_pos (by rw [hempty, KeyMap.size_empty])] at hstage
    cases hstage
  have hunblocked : (t.tick now).1.state ≠ .ready :=
    tick_unblocks hentry (le_trans hlate (sub_le_sub_left (hbound seq e hentry) now))
  by_contra hge
  exact hunblocked (state_of_stage_two (Nat.le_antisymm hle (Nat.le_of_not_lt hge)))

/-- A handshake that takes too long fails. -/
theorem tick_stage_one (hstage : t.stage = 1) {now : TimePoint}
    (hlate : now - t.openingAt ≥ Ms EDGE_COMMAND_LIFETIME_MS) : (t.tick now).1.stage = 0 :=
  stage_failed (tick_expired (state_of_stage_one hstage) hlate)

/-- A session that is asked for is a handshake, or the failure. -/
theorem start_stage (session : UInt64) (now : TimePoint) : (t.start session now).1.stage ≤ 1 := by
  unfold start begin
  dsimp only
  split_ifs
  · exact Nat.zero_le _
  · exact Nat.le_refl _

end CommandTracker

end EdgeGateway
