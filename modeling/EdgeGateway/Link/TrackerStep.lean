import EdgeGateway.Link.TrackerInvariant

set_option autoImplicit false

/-! # What one call of the sender can do

`TrackerStep` has one constructor for each outcome of a call, with the guards under which the code
comes to it, what is handed out and the tracker that is left. `call_step` is the inversion of the
five calls; the laws about windows, identities, retries and handshakes are case analyses over it.
-/

namespace EdgeGateway

open CommandTracker

/-- The time a call is given. -/
def TrackerCall.now : TrackerCall → TimePoint
  | .start _ now => now
  | .submit _ _ now => now
  | .onFrame _ _ now => now
  | .onWritten _ _ now => now
  | .tick now => now

namespace CommandTracker

/-- The tracker without its commands in flight. -/
def drained (t : CommandTracker) : CommandTracker := { t with entries := KeyMap.empty }

/-- The completions of all commands in flight. -/
def cancelled (t : CommandTracker) (error : UInt8 → String) : List TrackerEvent :=
  t.entries.toList.map fun entry => .finish t.session (failure entry (error entry.1))

/-- The completion of a command by its result. -/
def completion (t : CommandTracker) (seq : UInt8) (e : Entry) (p : List UInt8) : TrackerEvent :=
  .finish t.session ⟨seq, e.type, p.drop 10, ""⟩

/-- The handshake waits for the write of its OPEN. -/
def reopened (t : CommandTracker) (session : UInt64) : CommandTracker :=
  { t with session := session, openPending := true }

/-- The OPEN of the handshake was written. -/
def openWritten (t : CommandTracker) (now : TimePoint) : CommandTracker :=
  { t with openPending := false, openSends := t.openSends + 1, openSentAt := now }

/-- The frame of a command was written. -/
def dataWritten (t : CommandTracker) (seq : UInt8) (now : TimePoint) : CommandTracker :=
  { t with entries := t.entries.modify seq (·.written now) }

end CommandTracker

/-- Why a call from `t` gives up the session, and what it hands out for it. -/
inductive SessionEnd (t : CommandTracker) : TrackerCall → List TrackerEvent → Prop
  /-- The application asks for a new session. -/
  | start (session : UInt64) (now : TimePoint) :
      SessionEnd t (.start session now) (t.cancelled fun _ => "session_aborted")
  /-- A command cannot be recovered. -/
  | lost (now : TimePoint) (error : UInt8 → String) (hready : t.state = .ready) :
      SessionEnd t (.tick now) (t.cancelled error)
  /-- The frame of a command was not written, or too late. -/
  | unwritten (send : CommandSend) (success : Bool) (now : TimePoint) (e : Entry)
      (error : UInt8 → String) (hready : t.state = .ready) (hsession : send.session = t.session)
      (htype : send.type = EDGE_TYPE_SR_COMMAND) (hentry : t.entries.find? send.seq = some e)
      (hpending : e.pending = true) (hattempt : send.attempt = e.sends) :
      SessionEnd t (.onWritten send success now) (t.cancelled error)
  /-- The last command of the session is completed. -/
  | rollover (p : List UInt8) (now : TimePoint) (seq : UInt8) (e : Entry)
      (hready : t.state = .ready) (hsession : edgeU64BeRead p = t.session)
      (hseq : p.getD 8 0 = seq) (hentry : t.entries.find? seq = some e) (hsent : e.sends ≠ 0)
      (hnext : t.next = 256) :
      SessionEnd t (.onFrame EDGE_TYPE_SR_RESULT p now)
        [t.completion seq e p, .send (t.resultAck seq)]

/-- The outcomes of a call from `t`. -/
inductive TrackerStep (t : CommandTracker) :
    TrackerCall → List TrackerEvent → CommandTracker → Prop
  /-- Nothing happens. -/
  | ignored (call : TrackerCall) : TrackerStep t call [] t
  /-- The session is given up for a new one. -/
  | begun (call : TrackerCall) (ended : List TrackerEvent) (session : UInt64)
      (hend : SessionEnd t call ended) (hlt : t.session < session) :
      TrackerStep t call (ended ++ [.send (t.drained.openSession session call.now).openSend])
        (t.drained.openSession session call.now)
  /-- The session is given up, and there is no session number left. -/
  | exhausted (call : TrackerCall) (ended : List TrackerEvent) (t' : CommandTracker)
      (hend : SessionEnd t call ended) (hmax : t.session = SESSION_MAX)
      (hfailed : t'.state = .failed) (hempty : t'.entries = KeyMap.empty)
      (hsession : t'.session = t.session) (hnext : t'.next = t.next) :
      TrackerStep t call ended t'
  /-- The handshake fails. -/
  | openFailed (call : TrackerCall) (hopening : t.state = .opening)
      (hcall : (∃ now, call = .tick now) ∨
        ∃ p now, call = .onFrame EDGE_TYPE_SR_OPEN_ACK p now) :
      TrackerStep t call [] { t with state := .failed }
  /-- An OPEN was not written, or too late. -/
  | openUnwritten (send : CommandSend) (success : Bool) (now : TimePoint)
      (hopening : t.state = .opening) (hpending : t.openPending = true)
      (hsession : send.session = t.session) (htype : send.type = EDGE_TYPE_SR_OPEN)
      (hattempt : send.attempt = t.openSends) :
      TrackerStep t (.onWritten send success now) []
        { t with openPending := false, state := .failed }
  /-- An OPEN was written. -/
  | openWritten (send : CommandSend) (now : TimePoint) (hopening : t.state = .opening)
      (hpending : t.openPending = true) (hsession : send.session = t.session)
      (htype : send.type = EDGE_TYPE_SR_OPEN) (hattempt : send.attempt = t.openSends)
      (htime : now - t.openingAt < Ms EDGE_COMMAND_LIFETIME_MS) :
      TrackerStep t (.onWritten send true now) [] (t.openWritten now)
  /-- An OPEN is sent again. -/
  | openRetried (now : TimePoint) (hopening : t.state = .opening) (hidle : t.openPending = false)
      (hbudget : t.openSends ≤ EDGE_MAX_RETRY)
      (htime : now - t.openingAt < Ms EDGE_COMMAND_LIFETIME_MS) :
      TrackerStep t (.tick now) [.send (t.reopened t.session).openSend] (t.reopened t.session)
  /-- A rejected OPEN is sent again above the node's session. -/
  | openRejected (p : List UInt8) (now : TimePoint) (highWater : UInt64)
      (hopening : t.state = .opening) (hbudget : t.openSends ≤ EDGE_MAX_RETRY)
      (htime : now - t.openingAt < Ms EDGE_COMMAND_LIFETIME_MS)
      (hwater : t.session ≤ highWater) (hmax : highWater ≠ SESSION_MAX) :
      TrackerStep t (.onFrame EDGE_TYPE_SR_OPEN_ACK p now)
        [.send (t.reopened (highWater + 1)).openSend] (t.reopened (highWater + 1))
  /-- The node has confirmed the session. -/
  | opened (p : List UInt8) (now : TimePoint) (hopening : t.state = .opening)
      (hsent : t.openSends ≠ 0) (htime : now - t.openingAt < Ms EDGE_COMMAND_LIFETIME_MS)
      (hsession : edgeU64BeRead p = t.session) (hwater : edgeU64BeRead (p.drop 8) = t.session)
      (hrc : p.getD 16 0 = EDGE_RC_OK) :
      TrackerStep t (.onFrame EDGE_TYPE_SR_OPEN_ACK p now) []
        { t with state := .ready, openPending := false }
  /-- A command is accepted and sent. -/
  | submitted (type : UInt8) (args : List UInt8) (now : TimePoint) (hcan : t.canSubmit = true)
      (hargs : args.length ≤ EDGE_SR_ARGS_MAX) :
      TrackerStep t (.submit type args now)
        [.submit ⟨t.session, UInt8.ofNat t.next, type, args⟩ now,
          .send (t.dataSend (UInt8.ofNat t.next) (Entry.new type args now))]
        (t.submitted (Entry.new type args now))
  /-- The frame of a command was written. -/
  | dataWritten (send : CommandSend) (now : TimePoint) (e : Entry) (hready : t.state = .ready)
      (hsession : send.session = t.session) (htype : send.type = EDGE_TYPE_SR_COMMAND)
      (hentry : t.entries.find? send.seq = some e) (hpending : e.pending = true)
      (hreceived : e.received = false) (hattempt : send.attempt = e.sends)
      (htime : now - e.queuedAt < Ms EDGE_COMMAND_LIFETIME_MS) :
      TrackerStep t (.onWritten send true now) [] (t.dataWritten send.seq now)
  /-- A command was received. -/
  | receipt (p : List UInt8) (now : TimePoint) (seq : UInt8) (e : Entry)
      (hready : t.state = .ready) (hsession : edgeU64BeRead p = t.session)
      (hseq : p.getD 8 0 = seq) (hentry : t.entries.find? seq = some e) (hsent : e.sends ≠ 0) :
      TrackerStep t (.onFrame EDGE_TYPE_SR_RECEIVED p now) [] (t.receive seq)
  /-- A command is completed by its result, which is acknowledged. -/
  | result (p : List UInt8) (now : TimePoint) (seq : UInt8) (e : Entry)
      (hready : t.state = .ready) (hsession : edgeU64BeRead p = t.session)
      (hseq : p.getD 8 0 = seq) (hentry : t.entries.find? seq = some e) (hsent : e.sends ≠ 0)
      (hmore : t.next = 256 → ((t.receive seq).finished seq).entries ≠ KeyMap.empty) :
      TrackerStep t (.onFrame EDGE_TYPE_SR_RESULT p now)
        [t.completion seq e p, .send (t.resultAck seq)] ((t.receive seq).finished seq)
  /-- A result that comes again is acknowledged again. -/
  | resultAgain (p : List UInt8) (now : TimePoint) (seq : UInt8) (hready : t.state = .ready)
      (hsession : edgeU64BeRead p = t.session) (hseq : p.getD 8 0 = seq)
      (hlt : seq.toNat < t.next) (hcompleted : t.completed seq = true) :
      TrackerStep t (.onFrame EDGE_TYPE_SR_RESULT p now) [.send (t.resultAck seq)] t
  /-- No command is lost, and those that are due are sent again. -/
  | retried (now : TimePoint) (hready : t.state = .ready)
      (hlost : ∀ entry ∈ t.entries.toList, entry.2.lost now = false) :
      TrackerStep t (.tick now) ((t.retry now).2.send.map .send) (t.retry now).1

namespace CommandTracker

variable {call : TrackerCall} {t : CommandTracker}

/-- The outcome `r` of a call from `t`. -/
def StepsTo (call : TrackerCall) (t : CommandTracker) (r : CommandTracker × TrackerActions) :
    Prop :=
  TrackerStep t call (r.2.events t.session) r.1

theorem stepsTo_ignored : StepsTo call t (t, {}) := TrackerStep.ignored call

theorem stepsTo_failed (hopening : t.state = .opening)
    (hcall : (∃ now, call = .tick now) ∨
      ∃ p now, call = .onFrame EDGE_TYPE_SR_OPEN_ACK p now) :
    StepsTo call t ({ t with state := .failed }, {}) :=
  TrackerStep.openFailed call hopening hcall

/-! ## The end of a session -/

theorem events_open (session : UInt64) (actions : TrackerActions) (send : CommandSend) :
    ({ actions with send := actions.send ++ [send] } : TrackerActions).events session =
      actions.events session ++ [.send send] := by
  simp [TrackerActions.events]

/-- `begin` after the end of the session `t` is in; `u` is `t` with its entries gone. -/
theorem begin_step (session : UInt64) {actions : TrackerActions} {u : CommandTracker}
    (hend : SessionEnd t call (actions.events t.session)) (hempty : u.entries = KeyMap.empty)
    (hsession : u.session = t.session) (hnext : u.next = t.next)
    (hsent : u.openSentAt = t.openSentAt) :
    StepsTo call t (begin session call.now actions u) := by
  unfold begin StepsTo
  split_ifs with hmax
  · exact TrackerStep.exhausted call _ _ hend (hsession ▸ hmax.2) rfl hempty hsession hnext
  · have hopen : u.openSession (u.nextSession session) call.now =
        t.drained.openSession (u.nextSession session) call.now := by
      simp only [openSession, drained, hempty, hsent]
    rw [events_open, hopen]
    exact .begun call _ _ hend (hsession ▸ lt_nextSession hmax)

theorem cancelled_eq (t : CommandTracker) (error : UInt8 → String) :
    t.cancelled error = TrackerActions.events t.session
      { finished := t.entries.toList.map fun entry => failure entry (error entry.1) } := by
  simp [cancelled, TrackerActions.events, Function.comp_def]

theorem start_step (session : UInt64) (now : TimePoint) (t : CommandTracker) :
    StepsTo (.start session now) t (t.start session now) := by
  refine begin_step (u := t.drained) session ?_ rfl rfl rfl rfl
  rw [← cancelled_eq t fun _ => "session_aborted"]
  exact .start session now

theorem abort_step (call : TrackerCall) (failedSeq : UInt8) (reason : String)
    (hend : ∀ error, SessionEnd t call (t.cancelled error)) :
    StepsTo call t (t.abort failedSeq reason call.now) := by
  refine begin_step (u := t.drained) t.session ?_ rfl rfl rfl rfl
  rw [← cancelled_eq t fun seq => if seq = failedSeq then reason else "session_aborted"]
  exact hend _

/-! ## Submitting and writing -/

theorem submit_step (type : UInt8) (args : List UInt8) (now : TimePoint) (hw : WindowInv t) :
    TrackerStep t (.submit type args now) (submitEvents type args now (t.submit type args now).2)
      (t.submit type args now).1 := by
  unfold submit
  split_ifs with hreject
  · exact .ignored _
  · rw [not_or, Bool.not_eq_false, not_lt] at hreject
    have hnew := hw.next_new (canSubmit_spec hreject.1).2.1
    dsimp only
    rw [KeyMap.find?_emplace hnew, if_pos rfl]
    exact .submitted type args now hreject.1 hreject.2

theorem onOpenWritten_step {send : CommandSend} {success : Bool} {now : TimePoint}
    (hsession : send.session = t.session) (htype : send.type = EDGE_TYPE_SR_OPEN) :
    StepsTo (.onWritten send success now) t (t.onOpenWritten send success now) := by
  unfold onOpenWritten
  split_ifs with hskip hfail
  · exact stepsTo_ignored
  · push Not at hskip
    exact TrackerStep.openUnwritten send success now hskip.1 (by simpa using hskip.2.1) hsession
      htype hskip.2.2
  · push Not at hskip hfail
    obtain ⟨hopening, hpending, hattempt⟩ := hskip
    obtain rfl : success = true := by simpa using hfail.1
    exact TrackerStep.openWritten send now hopening (by simpa using hpending) hsession htype
      hattempt hfail.2

theorem onDataWritten_step {send : CommandSend} {success : Bool} {now : TimePoint}
    (hready : t.state = .ready) (hsession : send.session = t.session)
    (htype : send.type = EDGE_TYPE_SR_COMMAND) :
    StepsTo (.onWritten send success now) t (t.onDataWritten send success now) := by
  unfold onDataWritten
  cases hentry : t.entries.find? send.seq with
  | none => exact stepsTo_ignored
  | some e =>
      dsimp only
      split_ifs with hold hlate hfailed
      · exact stepsTo_ignored
      · push Not at hold
        exact abort_step (.onWritten send success now) send.seq "timeout" fun error =>
          .unwritten send success now e error hready hsession htype hentry (by simpa using hold.1)
            hold.2.2
      · push Not at hold
        exact abort_step (.onWritten send success now) send.seq "send_failed" fun error =>
          .unwritten send success now e error hready hsession htype hentry (by simpa using hold.1)
            hold.2.2
      · push Not at hold hlate
        obtain ⟨hpending, hreceived, hattempt⟩ := hold
        obtain rfl : success = true := by simpa using hfailed
        exact TrackerStep.dataWritten send now e hready hsession htype hentry
          (by simpa using hpending) (by simpa using hreceived) hattempt hlate

theorem onWritten_step (send : CommandSend) (success : Bool) (now : TimePoint)
    (t : CommandTracker) :
    StepsTo (.onWritten send success now) t (t.onWritten send success now) := by
  unfold onWritten
  split_ifs with hsession hopen hskip
  · exact stepsTo_ignored
  · exact onOpenWritten_step (not_not.mp hsession) hopen
  · exact stepsTo_ignored
  · push Not at hskip
    exact onDataWritten_step hskip.1 (not_not.mp hsession) hskip.2

/-! ## Frames -/

theorem onOpenAck_step {p : List UInt8} (now : TimePoint) (hsession : edgeU64BeRead p = t.session) :
    StepsTo (.onFrame EDGE_TYPE_SR_OPEN_ACK p now) t (t.onOpenAck p now) := by
  unfold onOpenAck
  dsimp only
  split_ifs with hskip hlate hok hreject hlast
  · exact stepsTo_ignored
  · push Not at hskip
    exact stepsTo_failed hskip.2.1 (.inr ⟨p, now, rfl⟩)
  · push Not at hskip hlate
    exact TrackerStep.opened p now hskip.2.1 hskip.2.2 hlate hsession hok.2 hok.1
  · push Not at hskip
    exact stepsTo_failed hskip.2.1 (.inr ⟨p, now, rfl⟩)
  · push Not at hskip hlate hlast
    exact TrackerStep.openRejected p now _ hskip.2.1 hlast.2 hlate hreject.2 hlast.1
  · exact stepsTo_ignored

theorem onReceived_step {p : List UInt8} (now : TimePoint) (hready : t.state = .ready)
    (hsession : edgeU64BeRead p = t.session) :
    StepsTo (.onFrame EDGE_TYPE_SR_RECEIVED p now) t (t.onReceived (p.getD 8 0) p, {}) := by
  unfold onReceived
  cases hentry : t.entries.find? (p.getD 8 0) with
  | none => exact stepsTo_ignored
  | some e =>
      dsimp only
      split_ifs with haccept
      · exact TrackerStep.receipt p now _ e hready hsession rfl hentry haccept.2
      · exact stepsTo_ignored

theorem onResult_step {p : List UInt8} (now : TimePoint) (hready : t.state = .ready)
    (hsession : edgeU64BeRead p = t.session) (hlt : (p.getD 8 0).toNat < t.next) :
    StepsTo (.onFrame EDGE_TYPE_SR_RESULT p now) t (t.onResult (p.getD 8 0) p now) := by
  unfold onResult
  split_ifs with hbad hdone
  · exact stepsTo_ignored
  · exact TrackerStep.resultAgain p now _ hready hsession rfl hlt hdone
  · cases hentry : t.entries.find? (p.getD 8 0) with
    | none => exact stepsTo_ignored
    | some e =>
        dsimp only
        split_ifs with hunsent
        · exact stepsTo_ignored
        · unfold rollover
          split_ifs with hlast
          · exact begin_step _ (.rollover p now _ e hready hsession rfl hentry hunsent hlast.1)
              (KeyMap.size_eq_zero.mp hlast.2) rfl rfl rfl
          · refine TrackerStep.result p now _ e hready hsession rfl hentry hunsent fun hnext => ?_
            exact fun hempty => hlast ⟨hnext, KeyMap.size_eq_zero.mpr hempty⟩

theorem onFrame_step (type : UInt8) (p : List UInt8) (now : TimePoint) (t : CommandTracker) :
    StepsTo (.onFrame type p now) t (t.onFrame type p now) := by
  unfold onFrame
  dsimp only
  split_ifs with hbad hopenAck hskip hseq hreceived hother
  · exact stepsTo_ignored
  · push Not at hbad
    subst hopenAck
    exact onOpenAck_step now hbad.2.2
  · exact stepsTo_ignored
  · exact stepsTo_ignored
  · push Not at hbad hskip
    subst hreceived
    exact onReceived_step now hskip.1 hbad.2.2
  · exact stepsTo_ignored
  · push Not at hbad hskip hother hseq
    subst hother
    exact onResult_step now hskip.1 hbad.2.2 hseq

/-! ## Ticks -/

theorem tickOpening_step (now : TimePoint) (hopening : t.state = .opening) :
    StepsTo (.tick now) t (t.tickOpening now) := by
  unfold tickOpening
  split_ifs with hlate hdue hbudget
  · exact stepsTo_failed hopening (.inl ⟨now, rfl⟩)
  · exact stepsTo_failed hopening (.inl ⟨now, rfl⟩)
  · push Not at hlate hbudget
    exact TrackerStep.openRetried now hopening hdue.1 hbudget hlate
  · exact stepsTo_ignored

theorem tick_step (now : TimePoint) (t : CommandTracker) :
    StepsTo (.tick now) t (t.tick now) := by
  unfold tick
  split_ifs with hopening hready
  · exact tickOpening_step now hopening
  · exact stepsTo_ignored
  · cases hfind : t.entries.toList.find? fun entry => entry.2.lost now with
    | none =>
        refine TrackerStep.retried now (not_not.mp hready) fun entry hentry => ?_
        simpa using List.find?_eq_none.mp hfind entry hentry
    | some entry =>
        exact abort_step (.tick now) entry.1 "timeout" fun error =>
          .lost now error (not_not.mp hready)

/-- **Every call is one of the outcomes.** -/
theorem call_step (hw : WindowInv t) (call : TrackerCall) :
    TrackerStep t call (t.call call).2 (t.call call).1 := by
  cases call with
  | start session now => exact start_step session now t
  | submit type args now => exact submit_step type args now hw
  | onFrame type p now => exact onFrame_step type p now t
  | onWritten send success now => exact onWritten_step send success now t
  | tick now => exact tick_step now t

/-! ## What a call does to the counters and to one entry -/

variable {t' : CommandTracker} {es : List TrackerEvent}

theorem session_le_step (hstep : TrackerStep t call es t') : t.session ≤ t'.session := by
  cases hstep with
  | begun _ ended session hend hlt => exact UInt64.le_of_lt hlt
  | exhausted _ ended _ hend hmax hfailed hempty hsession => exact hsession ▸ UInt64.le_refl _
  | openRejected p now highWater hopening hbudget htime hwater hmax =>
      exact UInt64.le_trans hwater (UInt64.le_of_lt (lt_session_succ hmax))
  | _ => exact UInt64.le_refl _

theorem next_le_step (hstep : TrackerStep t call es t') (hsame : t'.session = t.session) :
    t.next ≤ t'.next := by
  cases hstep with
  | begun _ ended session hend hlt => exact absurd (hsame ▸ hlt) (UInt64.lt_irrefl _)
  | exhausted _ ended _ hend hmax hfailed hempty hsession hnext => exact hnext ▸ Nat.le_refl _
  | submitted => exact Nat.le_succ _
  | _ => exact Nat.le_refl _

end CommandTracker

/-- Where an entry comes from that is there after a call from `t`. -/
inductive EntryStep (t : CommandTracker) (call : TrackerCall) (seq : UInt8) : Entry → Prop
  | created (type : UInt8) (args : List UInt8) (now : TimePoint)
      (hcall : call = .submit type args now) (hseq : seq.toNat = t.next) :
      EntryStep t call seq (Entry.new type args now)
  | kept (e : Entry) (hentry : t.entries.find? seq = some e) : EntryStep t call seq e
  | received (e : Entry) (hentry : t.entries.find? seq = some e) :
      EntryStep t call seq { e with received := true }
  | written (send : CommandSend) (now : TimePoint) (e : Entry)
      (hcall : call = .onWritten send true now) (hsession : send.session = t.session)
      (htype : send.type = EDGE_TYPE_SR_COMMAND) (hseq : send.seq = seq)
      (hentry : t.entries.find? seq = some e) (hpending : e.pending = true)
      (hattempt : send.attempt = e.sends) : EntryStep t call seq (e.written now)
  | retried (now : TimePoint) (e : Entry) (hcall : call = .tick now)
      (hentry : t.entries.find? seq = some e) (hdue : e.due now = true)
      (hlost : e.lost now = false) : EntryStep t call seq { e with pending := true }

namespace CommandTracker

variable {call : TrackerCall} {t t' : CommandTracker} {es : List TrackerEvent}

theorem entry_receive {seq seq' : UInt8} {e' : Entry}
    (h : (t.receive seq).entries.find? seq' = some e') : EntryStep t call seq' e' := by
  rw [receive_entries] at h
  split_ifs at h
  · obtain ⟨e, he, rfl⟩ := Option.map_eq_some_iff.mp h
    exact .received e he
  · exact .kept e' h

/-- **Entries only change in four ways**, and only while the session stays. -/
theorem entry_step (hw : WindowInv t) (hstep : TrackerStep t call es t') {seq : UInt8} {e' : Entry}
    (h : t'.entries.find? seq = some e') :
    t'.session = t.session ∧ EntryStep t call seq e' := by
  cases hstep with
  | begun _ ended session => cases h
  | exhausted _ ended _ hend hmax hfailed hempty =>
      rw [hempty] at h
      cases h
  | openRejected p now highWater hopening =>
      rw [show (t.reopened (highWater + 1)).entries = t.entries from rfl,
        hw.idle (by rw [hopening]; decide)] at h
      cases h
  | submitted type args now hcan =>
      obtain ⟨-, hlt, -⟩ := canSubmit_spec hcan
      refine ⟨rfl, ?_⟩
      change (t.entries.emplace _ _).find? seq = some e' at h
      rw [KeyMap.find?_emplace (hw.next_new hlt)] at h
      split_ifs at h with hseq
      · obtain rfl := Option.some.inj h
        exact .created type args now rfl (by rw [hseq, ofNat_next_toNat hlt])
      · exact .kept e' h
  | dataWritten send now e hready hsession htype hentry hpending hreceived hattempt =>
      refine ⟨rfl, ?_⟩
      change (t.entries.modify _ _).find? seq = some e' at h
      rw [KeyMap.find?_modify] at h
      split_ifs at h with hseq
      · subst hseq
        rw [hentry] at h
        obtain rfl := Option.some.inj h
        exact .written send now e rfl hsession htype rfl hentry hpending hattempt
      · exact .kept e' h
  | receipt => exact ⟨rfl, entry_receive h⟩
  | result p now seq' =>
      refine ⟨rfl, ?_⟩
      change ((t.receive seq').entries.erase seq').find? seq = some e' at h
      rw [KeyMap.find?_erase] at h
      split_ifs at h
      exact entry_receive h
  | retried now hready hlost =>
      refine ⟨rfl, ?_⟩
      obtain ⟨e, he, rfl⟩ := Option.map_eq_some_iff.mp h
      unfold Entry.retried
      split_ifs with hdue
      · exact .retried now e rfl he hdue (hlost (seq, e) (KeyMap.mem_toList.mpr he))
      · exact .kept e he
  | _ => exact ⟨rfl, .kept e' h⟩

end CommandTracker

end EdgeGateway
