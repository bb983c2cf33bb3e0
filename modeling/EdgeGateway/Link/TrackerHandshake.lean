import EdgeGateway.Link.TrackerRun

set_option autoImplicit false

/-! # The handshake is bounded

A handshake is the time from a `begin` until the tracker leaves `opening` or begins again. Retries
after a timeout and after a rejection share one budget of four writes and one lifetime of four
seconds.
-/

namespace EdgeGateway

/-- The call is counted as the write of an OPEN. -/
def Visit.countsOpen (v : Visit) : Bool :=
  match v.call with
  | .onWritten _ _ _ => v.after.openSends = v.before.openSends + 1
  | _ => false

def openWrites (history : List Visit) : Nat := history.countP Visit.countsOpen

theorem openWrites_append (history : List Visit) (v : Visit) :
    openWrites (history ++ [v]) = openWrites history + if v.countsOpen = true then 1 else 0 := by
  rw [openWrites, List.countP_append, List.countP_singleton, openWrites]

theorem countsOpen_same {v : Visit} (h : v.after.openSends = v.before.openSends) :
    v.countsOpen = false := by
  unfold Visit.countsOpen
  split
  · exact decide_eq_false (by omega)
  · rfl

namespace CommandTracker

/-- The call begins a handshake. -/
structure Begins (t : CommandTracker) (call : TrackerCall) : Prop where
  opening : (t.call call).1.state = .opening
  new : t.state ≠ .opening ∨ ∃ session now, call = .start session now

/-- The tracker stays in its handshake during the calls. -/
def Handshaking : CommandTracker → List TrackerCall → Prop
  | t, [] => t.state = .opening
  | t, call :: rest =>
      t.state = .opening ∧ (∀ session now, call ≠ .start session now) ∧
        Handshaking (t.call call).1 rest

variable {t t' : CommandTracker} {call : TrackerCall} {es : List TrackerEvent}
  {begun : TimePoint} {history : List Visit}

/-! ## The beginning -/

theorem begun_of_step (hstep : TrackerStep t call es t') (hopening : t'.state = .opening)
    (hnew : t.state ≠ .opening) : ∃ session, t' = t.drained.openSession session call.now := by
  cases hstep with
  | begun _ ended session => exact ⟨session, rfl⟩
  | exhausted _ ended _ hend hmax hfailed => cases hfailed.symm.trans hopening
  | openFailed => cases hopening
  | openUnwritten => cases hopening
  | opened => cases hopening
  | _ => exact absurd hopening hnew

theorem begun_of_begins (hw : WindowInv t) (h : Begins t call) :
    ∃ session, (t.call call).1 = t.drained.openSession session call.now := by
  obtain ⟨hopening, hnew | ⟨session, now, rfl⟩⟩ := h
  · exact begun_of_step (call_step hw call) hopening hnew
  · change (t.start session now).1.state = .opening at hopening
    show ∃ session', (t.start session now).1 = t.drained.openSession session' now
    unfold start begin at hopening ⊢
    split_ifs at hopening ⊢
    exact ⟨_, rfl⟩

/-! ## The budget -/

/-- The writes counted since the handshake began, and what is left of the budget. -/
structure HandshakeInv (begun : TimePoint) (t : CommandTracker) (history : List Visit) : Prop where
  window : WindowInv t
  opening : t.state = .opening
  since : t.openingAt = begun
  count : openWrites history = t.openSends
  bound : t.openSends ≤ EDGE_MAX_RETRY + 1
  budget : t.openPending = true → t.openSends ≤ EDGE_MAX_RETRY

theorem handshakeInv_begun (t : CommandTracker) (session : UInt64) (now : TimePoint) :
    HandshakeInv now (t.drained.openSession session now) [] where
  window := windowInv_openSession (t := t.drained) rfl session now
  opening := rfl
  since := rfl
  count := rfl
  bound := Nat.zero_le _
  budget := fun _ => Nat.zero_le _

/-- A handshake ends a session only when the application asks for it. -/
theorem not_sessionEnd {ended : List TrackerEvent} (hopening : t.state = .opening)
    (hstart : ∀ session now, call ≠ .start session now) : ¬ SessionEnd t call ended := by
  intro hend
  cases hend with
  | start session now => exact hstart session now rfl
  | lost now error hready => cases hopening.symm.trans hready
  | unwritten send success now e error hready => cases hopening.symm.trans hready
  | rollover p now seq e hready => cases hopening.symm.trans hready

/-- The only call that is counted is the write of an OPEN that waits. -/
theorem counted_step (hopening : t.state = .opening) (hstep : TrackerStep t call es t')
    (hcounts : Visit.countsOpen ⟨t, call, es, t'⟩ = true) : t.openPending = true := by
  have hstart : ∀ session now, call ≠ .start session now := by
    rintro session now rfl
    cases hcounts
  cases hstep with
  | begun _ ended session hend => exact absurd hend (not_sessionEnd hopening hstart)
  | exhausted _ ended _ hend => exact absurd hend (not_sessionEnd hopening hstart)
  | openWritten send now hopening hpending => exact hpending
  | _ =>
      rw [countsOpen_same rfl] at hcounts
      cases hcounts

theorem count_le (h : HandshakeInv begun t history) (hstep : TrackerStep t call es t') :
    openWrites (history ++ [⟨t, call, es, t'⟩]) ≤ EDGE_MAX_RETRY + 1 := by
  rw [openWrites_append, h.count]
  split_ifs with hcounts
  · exact Nat.succ_le_succ (h.budget (counted_step h.opening hstep hcounts))
  · exact h.bound

theorem handshakeInv_step (h : HandshakeInv begun t history) (hstep : TrackerStep t call es t')
    (hw : WindowInv t') (hstart : ∀ session now, call ≠ .start session now)
    (hopening' : t'.state = .opening) :
    HandshakeInv begun t' (history ++ [⟨t, call, es, t'⟩]) := by
  have hopening := h.opening
  -- a call that is not counted
  have hquiet : ∀ {es : List TrackerEvent} {t' : CommandTracker}, WindowInv t' →
      t'.state = .opening → t'.openingAt = t.openingAt → t'.openSends = t.openSends →
      (t'.openPending = true → t.openSends ≤ EDGE_MAX_RETRY) →
      HandshakeInv begun t' (history ++ [⟨t, call, es, t'⟩]) := by
    intro es t' hw hstate hsince hsends hbudget
    refine ⟨hw, hstate, hsince.trans h.since, ?_, hsends ▸ h.bound, hsends ▸ hbudget⟩
    rw [openWrites_append, countsOpen_same hsends, h.count, hsends]
    rfl
  cases hstep with
  | ignored => exact hquiet hw hopening' rfl rfl h.budget
  | begun _ ended session hend => exact absurd hend (not_sessionEnd hopening hstart)
  | exhausted _ ended _ hend => exact absurd hend (not_sessionEnd hopening hstart)
  | openFailed => cases hopening'
  | openUnwritten => cases hopening'
  | openWritten send now _ hpending =>
      have hcounts : Visit.countsOpen
          ⟨t, .onWritten send true now, [], t.openWritten now⟩ = true := decide_eq_true rfl
      refine ⟨hw, hopening', h.since, ?_, Nat.succ_le_succ (h.budget hpending), ?_⟩
      · rw [openWrites_append, if_pos hcounts, h.count]
        rfl
      · exact fun hpending' => by cases hpending'
  | openRetried now _ hidle hbudget => exact hquiet hw hopening' rfl rfl fun _ => hbudget
  | openRejected p now highWater _ hbudget => exact hquiet hw hopening' rfl rfl fun _ => hbudget
  | opened => cases hopening'
  | submitted type args now hcan => cases hopening.symm.trans (canSubmit_spec hcan).1
  | dataWritten send now e hready => cases hopening.symm.trans hready
  | receipt p now seq e hready => cases hopening.symm.trans hready
  | result p now seq e hready => cases hopening.symm.trans hready
  | resultAgain p now seq hready => cases hopening.symm.trans hready
  | retried now hready => cases hopening.symm.trans hready

theorem Handshaking.opening {calls : List TrackerCall} (h : Handshaking t calls) :
    t.state = .opening := by
  cases calls with
  | nil => exact h
  | cons call rest => exact h.1

/-- The budget along a handshake. -/
theorem handshakeInv_run (calls : List TrackerCall) (h : HandshakeInv begun t history)
    (hcalls : Handshaking t calls) :
    HandshakeInv begun (runTracker t calls).1 (history ++ visits t calls) := by
  induction calls generalizing t history with
  | nil => simpa [runTracker, visits] using h
  | cons call rest ih =>
      obtain ⟨-, hstart, hrest⟩ := hcalls
      have hnext := handshakeInv_step h (call_step h.window call) (windowInv_call h.window call)
        hstart hrest.opening
      have := ih hnext hrest
      rwa [List.append_assoc] at this

/-! ## The lifetime -/

theorem canSend_open {s : CommandSend} {now : TimePoint} (htype : s.type = EDGE_TYPE_SR_OPEN)
    (hlate : now - t.openingAt ≥ Ms EDGE_COMMAND_LIFETIME_MS) : t.canSend s now = false := by
  unfold canSend
  by_cases hsession : s.session ≠ t.session
  · rw [if_pos hsession]
  · rw [if_neg hsession, if_pos htype]
    exact decide_eq_false fun h => absurd hlate (not_le.mpr h.2.2.2)

theorem tick_expired {now : TimePoint} (hopening : t.state = .opening)
    (hlate : now - t.openingAt ≥ Ms EDGE_COMMAND_LIFETIME_MS) : (t.tick now).1.state = .failed := by
  rw [tick, if_pos hopening, tickOpening, if_pos hlate]

/-- The call that makes the tracker ready. -/
theorem ready_step (hopening : t.state = .opening) (hstep : TrackerStep t call es t')
    (hready : t'.state = .ready) : ∃ p now, call = .onFrame EDGE_TYPE_SR_OPEN_ACK p now ∧
      edgeU64BeRead p = t.session ∧ edgeU64BeRead (p.drop 8) = t.session ∧ t.openSends ≠ 0 ∧
      now - t.openingAt < Ms EDGE_COMMAND_LIFETIME_MS := by
  cases hstep with
  | begun => cases hready
  | exhausted _ ended _ hend hmax hfailed => cases hfailed.symm.trans hready
  | openFailed => cases hready
  | openUnwritten => cases hready
  | opened p now _ hsent htime hsession hwater => exact ⟨p, now, rfl, hsession, hwater, hsent, htime⟩
  | _ => cases hopening.symm.trans hready

/-- **The handshake is bounded.** Until it ends, and with the call that ends it, at most four writes
of an OPEN are counted; four seconds after it began no OPEN is sent, a tick fails it and no other
call makes it ready; it becomes ready only by an acknowledgement of the current session with the
current session as high-water mark, after an OPEN of this handshake was written; and no command is
accepted before. -/
theorem handshake_bounded (before : List TrackerCall) (call : TrackerCall)
    (during : List TrackerCall) (hbegins : Begins (runTracker new before).1 call)
    (hduring : Handshaking ((runTracker new before).1.call call).1 during) :
    let start := ((runTracker new before).1.call call).1
    let t := (runTracker start during).1
    (∀ next, openWrites (visits start (during ++ [next])) ≤ 4) ∧
    (∀ s now, s.type = EDGE_TYPE_SR_OPEN → now - call.now ≥ Ms EDGE_COMMAND_LIFETIME_MS →
      t.canSend s now = false) ∧
    (∀ now, now - call.now ≥ Ms EDGE_COMMAND_LIFETIME_MS → (t.tick now).1.state = .failed) ∧
    (∀ next, (t.call next).1.state = .ready → next.now - call.now < Ms EDGE_COMMAND_LIFETIME_MS ∧
      openWrites (visits start during) ≥ 1 ∧
      ∃ p, next = .onFrame EDGE_TYPE_SR_OPEN_ACK p next.now ∧
        edgeU64BeRead p = t.session ∧ edgeU64BeRead (p.drop 8) = t.session) ∧
    (∀ type args now, t.submit type args now = (t, none)) := by
  intro start t
  have hinv := trackerInv_runTracker before trackerInv_new
  obtain ⟨session, hstart⟩ := begun_of_begins hinv.window hbegins
  have hbegun : HandshakeInv call.now start [] := by
    show HandshakeInv call.now ((runTracker new before).1.call call).1 []
    rw [hstart]
    exact handshakeInv_begun _ session call.now
  have h : HandshakeInv call.now t (visits start during) := handshakeInv_run during hbegun hduring
  refine ⟨?_, ?_, ?_, ?_, ?_⟩
  · intro next
    rw [visits_append]
    exact count_le h (call_step h.window next)
  · exact fun s now htype hlate => canSend_open htype (h.since ▸ hlate)
  · exact fun now hlate => tick_expired h.opening (h.since ▸ hlate)
  · intro next hready
    obtain ⟨p, now, rfl, hsession, hwater, hsent, htime⟩ :=
      ready_step h.opening (call_step h.window next) hready
    refine ⟨h.since ▸ htime, ?_, p, rfl, hsession, hwater⟩
    rw [h.count]
    exact Nat.one_le_iff_ne_zero.mpr hsent
  · intro type args now
    have hclosed : t.canSubmit = false := by simp [canSubmit, h.opening]
    rw [submit, if_pos (.inl hclosed)]

/-- A handshake whose first OPEN was written and which was rejected once. -/
theorem handshake_bounded_run :
    let during : List TrackerCall :=
      [.onWritten ⟨EDGE_TYPE_SR_OPEN, [], 7, 0, 0⟩ true 1, .onFrame EDGE_TYPE_SR_OPEN_ACK
        (edgeU64BeWrite 7 ++ edgeU64BeWrite 9 ++ [EDGE_RC_BAD_PARAM]) 2]
    let start := (new.call (.start 7 0)).1
    Handshaking start during ∧ (runTracker start during).1.session = 10 ∧
      ∀ next, openWrites (visits start (during ++ [next])) ≤ 4 := by
  intro during start
  have hduring : Handshaking start during := by
    refine ⟨rfl, fun _ _ h => (by cases h), rfl, fun _ _ h => (by cases h), ?_⟩
    show TrackerState.opening = _
    rfl
  exact ⟨hduring, by decide,
    (handshake_bounded [] (.start 7 0) during ⟨rfl, .inl (by decide)⟩ hduring).1⟩

end CommandTracker

end EdgeGateway
