import EdgeGateway.Basic.Steps
import EdgeGateway.Link.CommandTracker
import EdgeGateway.Protocol.Sr

set_option autoImplicit false

/-! # The sender's calls as sequences of elementary actions

The five calls of `CommandTracker`, what they return as a record of events, and the elementary
actions they are made of. As for the receiver, `call_acts` is the only place where the five calls
are taken apart.
-/

namespace EdgeGateway

/-! ## Calls -/

/-- A call of the tracker's interface. -/
inductive TrackerCall
  | start (session : UInt64) (now : TimePoint)
  | submit (type : UInt8) (args : List UInt8) (now : TimePoint)
  | onFrame (type : UInt8) (p : List UInt8) (now : TimePoint)
  | onWritten (send : CommandSend) (success : Bool) (now : TimePoint)
  | tick (now : TimePoint)

/-- What a call returns: a command is accepted, a frame is to be sent, a command of a session is
completed. -/
inductive TrackerEvent
  | submit (c : Command) (now : TimePoint)
  | send (s : CommandSend)
  | finish (session : UInt64) (completion : CommandCompletion)
  deriving DecidableEq

/-- The record of the returned actions; completions are those of the session before the call. -/
def TrackerActions.events (session : UInt64) (actions : TrackerActions) : List TrackerEvent :=
  actions.finished.map (.finish session) ++ actions.send.map .send

/-- The record of an accepted command. -/
def submitEvents (type : UInt8) (args : List UInt8) (now : TimePoint) :
    Option CommandSend → List TrackerEvent
  | none => []
  | some s => [.submit ⟨s.session, s.seq, type, args⟩ now, .send s]

def CommandTracker.call (t : CommandTracker) : TrackerCall → CommandTracker × List TrackerEvent
  | .start session now => (t.start session now).map id (·.events t.session)
  | .submit type args now => (t.submit type args now).map id (submitEvents type args now)
  | .onFrame type p now => (t.onFrame type p now).map id (·.events t.session)
  | .onWritten send success now => (t.onWritten send success now).map id (·.events t.session)
  | .tick now => (t.tick now).map id (·.events t.session)

/-- The frame a call brings. -/
def TrackerCall.frame : TrackerCall → Option (UInt8 × List UInt8)
  | .onFrame type p _ => some (type, p)
  | _ => none

/-! ## Actions -/

namespace CommandTracker

/-- `t'` differs from `t` in the handshake's bookkeeping only. -/
structure SameData (t t' : CommandTracker) : Prop where
  session : t'.session = t.session
  base : t'.base = t.base
  next : t'.next = t.next
  received : t'.received = t.received
  completed : t'.completed = t.completed
  types : t'.types = t.types
  entries : t'.entries = t.entries

/-- The tracker after a command was accepted. -/
def submitted (t : CommandTracker) (e : Entry) : CommandTracker :=
  { t with
    next := t.next + 1
    entries := t.entries.emplace (UInt8.ofNat t.next) e
    types := Function.update t.types (UInt8.ofNat t.next) e.type }

/-- The tracker after the result of a received command was taken. -/
def finished (t : CommandTracker) (seq : UInt8) : CommandTracker :=
  { t with
    completed := Function.update t.completed seq true
    entries := t.entries.erase seq }

end CommandTracker

open CommandTracker

/-- The elementary actions of the sender in the given call. -/
inductive TrackerAct (call : TrackerCall) :
    CommandTracker → List TrackerEvent → CommandTracker → Prop
  /-- The handshake's timers and counters, or its failure. -/
  | handshake (t t' : CommandTracker) (hdata : SameData t t')
      (hstate : t'.state = t.state ∨ t.state = .opening ∧ t'.state = .failed) :
      TrackerAct call t [] t'
  /-- There is no session number left. -/
  | exhausted (t : CommandTracker) (hempty : t.entries = KeyMap.empty) :
      TrackerAct call t [] { t with state := .failed }
  /-- A new session begins: the one before has ended, or the application asks for it. -/
  | begin (t : CommandTracker) (session : UInt64) (now : TimePoint)
      (hwhy : t.state = .ready ∨ ∃ session' now', call = .start session' now')
      (hempty : t.entries = KeyMap.empty) (hlt : t.session < session) :
      TrackerAct call t [] (t.openSession session now)
  /-- A rejected handshake goes on above the node's session. -/
  | rejected (t : CommandTracker) (p : List UInt8) (highWater : UInt64)
      (hframe : call.frame = some (EDGE_TYPE_SR_OPEN_ACK, p)) (hstate : t.state = .opening)
      (hsession : edgeU64BeRead p = t.session) (hwater : edgeU64BeRead (p.drop 8) = highWater)
      (hle : t.session ≤ highWater) (hmax : highWater ≠ SESSION_MAX) :
      TrackerAct call t [] { t with session := highWater + 1, openPending := true }
  /-- The OPEN of the current session is sent. -/
  | openSent (t : CommandTracker) : TrackerAct call t [.send t.openSend] t
  /-- The node has confirmed the session. -/
  | ready (t : CommandTracker) (p : List UInt8) (hframe : call.frame = some (EDGE_TYPE_SR_OPEN_ACK, p))
      (hstate : t.state = .opening) (hsession : edgeU64BeRead p = t.session)
      (hwater : edgeU64BeRead (p.drop 8) = t.session) (hrc : p.getD 16 0 = EDGE_RC_OK) :
      TrackerAct call t [] { t with state := .ready, openPending := false }
  /-- A command is accepted. -/
  | submit (t : CommandTracker) (type : UInt8) (args : List UInt8) (now : TimePoint)
      (hcan : t.canSubmit = true) (hargs : args.length ≤ EDGE_SR_ARGS_MAX) :
      TrackerAct call t [.submit ⟨t.session, UInt8.ofNat t.next, type, args⟩ now]
        (t.submitted (Entry.new type args now))
  /-- The frame of a command is sent. -/
  | dataSent (t : CommandTracker) (seq : UInt8) (e : Entry)
      (hentry : t.entries.find? seq = some e) : TrackerAct call t [.send (t.dataSend seq e)] t
  /-- A receipt, or a result that proves one. -/
  | received (t : CommandTracker) (type : UInt8) (p : List UInt8) (seq : UInt8) (e : Entry)
      (hframe : call.frame = some (type, p))
      (htype : type = EDGE_TYPE_SR_RECEIVED ∨ type = EDGE_TYPE_SR_RESULT)
      (hsession : edgeU64BeRead p = t.session) (hseq : p.getD 8 0 = seq)
      (hentry : t.entries.find? seq = some e) : TrackerAct call t [] (t.receive seq)
  /-- A command is completed by its result. -/
  | result (t : CommandTracker) (p : List UInt8) (seq : UInt8) (e : Entry)
      (hframe : call.frame = some (EDGE_TYPE_SR_RESULT, p))
      (hsession : edgeU64BeRead p = t.session)
      (hseq : p.getD 8 0 = seq) (hentry : t.entries.find? seq = some e) :
      TrackerAct call t [.finish t.session ⟨seq, e.type, p.drop 10, ""⟩] (t.finished seq)
  /-- A result is acknowledged. -/
  | ackSent (t : CommandTracker) (seq : UInt8) (hcompleted : t.completed seq = true) :
      TrackerAct call t [.send (t.resultAck seq)] t
  /-- Flags and timers of the entries change. -/
  | entries (t : CommandTracker) (entries : KeyMap UInt8 Entry)
      (hsame : ∀ seq, (entries.find? seq).map (fun e => (e.type, e.args, e.queuedAt, e.received)) =
        (t.entries.find? seq).map (fun e => (e.type, e.args, e.queuedAt, e.received))) :
      TrackerAct call t [] { t with entries := entries }
  /-- The commands in flight are completed without a result. -/
  | cancel (t : CommandTracker) (error : UInt8 → String)
      (herror : ∀ seq, error seq ≠ "") :
      TrackerAct call t
        (t.entries.toList.map fun entry => .finish t.session (failure entry (error entry.1)))
        { t with entries := KeyMap.empty }

/-! ## The calls -/

namespace CommandTracker

variable {call : TrackerCall}

/-- A call from `t` with the result `r` is a run of actions with the same record. -/
def Acts (call : TrackerCall) (t : CommandTracker) (r : CommandTracker × TrackerActions) : Prop :=
  Steps (TrackerAct call) t (r.2.events t.session) r.1

theorem acts_refl (t : CommandTracker) : Acts call t (t, {}) := Steps.refl t

theorem acts_handshake {t t' : CommandTracker} (hdata : SameData t t')
    (hstate : t'.state = t.state ∨ t.state = .opening ∧ t'.state = .failed) :
    Acts call t (t', {}) :=
  Steps.single (.handshake t t' hdata hstate)

theorem acts_failed {t : CommandTracker} (h : t.state = .opening) :
    Acts call t ({ t with state := .failed }, {}) :=
  acts_handshake ⟨rfl, rfl, rfl, rfl, rfl, rfl, rfl⟩ (.inr ⟨h, rfl⟩)

/-- `begin` adds its OPEN to actions that are already recorded. -/
theorem begin_acts (session : UInt64) (now : TimePoint) {actions : TrackerActions}
    {t t' : CommandTracker} (h : Acts call t (t', actions))
    (hwhy : t'.state = .ready ∨ ∃ session' now', call = .start session' now')
    (hempty : t'.entries = KeyMap.empty) : Acts call t (begin session now actions t') := by
  unfold begin
  split_ifs with hmax
  · have := Steps.trans h (Steps.single (.exhausted t' hempty))
    rwa [List.append_nil] at this
  · have hopen : Steps (TrackerAct call) t' [.send (t'.openSession _ now).openSend]
        (t'.openSession (t'.nextSession session) now) :=
      (Steps.single (TrackerAct.begin t' _ now hwhy hempty (lt_nextSession hmax))).trans
        (Steps.single (TrackerAct.openSent _))
    have := Steps.trans h hopen
    simpa [Acts, TrackerActions.events] using this

theorem cancel_acts (error : UInt8 → String) (herror : ∀ seq, error seq ≠ "")
    (t : CommandTracker) :
    Acts call t ({ t with entries := KeyMap.empty },
      { finished := t.entries.toList.map fun entry => failure entry (error entry.1) }) := by
  have : Steps (TrackerAct call) t _ _ := Steps.single (.cancel t error herror)
  simpa [Acts, TrackerActions.events, Function.comp_def] using this

theorem start_acts (session : UInt64) (now : TimePoint) (t : CommandTracker) :
    Acts (.start session now) t (t.start session now) :=
  begin_acts session now (cancel_acts (fun _ => "session_aborted") (fun _ => by decide) t)
    (.inr ⟨session, now, rfl⟩) rfl

theorem abort_acts (failedSeq : UInt8) {reason : String} (hreason : reason ≠ "") (now : TimePoint)
    {t : CommandTracker} (hready : t.state = .ready) :
    Acts call t (t.abort failedSeq reason now) := by
  refine begin_acts t.session now (cancel_acts
    (fun seq => if seq = failedSeq then reason else "session_aborted") ?_ t) (.inl hready) rfl
  intro seq
  split_ifs
  · exact hreason
  · decide

theorem rollover_acts (now : TimePoint) {actions : TrackerActions} {t t' : CommandTracker}
    (h : Acts call t (t', actions)) (hready : t'.state = .ready) :
    Acts call t (t'.rollover now actions) := by
  unfold rollover
  split_ifs with hlast
  · exact begin_acts t'.session now h (.inl hready) (KeyMap.size_eq_zero.mp hlast.2)
  · exact h

theorem submit_acts (type : UInt8) (args : List UInt8) (now : TimePoint) (t : CommandTracker) :
    Steps (TrackerAct call) t (submitEvents type args now (t.submit type args now).2)
      (t.submit type args now).1 := by
  unfold submit
  split_ifs with hreject
  · exact Steps.refl t
  · rw [not_or, Bool.not_eq_false, not_lt] at hreject
    have haccept : Steps (TrackerAct call) t _ _ :=
      Steps.single (.submit t type args now hreject.1 hreject.2)
    refine haccept.trans (Steps.single (.dataSent _ (UInt8.ofNat t.next) _ ?_))
    show (t.entries.emplace _ _).find? _ = some (((t.entries.emplace _ _).find? _).getD _)
    rw [KeyMap.find?_emplace_self, Option.getD_some]

/-! ### Writing -/

theorem onOpenWritten_acts (send : CommandSend) (success : Bool) (now : TimePoint)
    (t : CommandTracker) : Acts call t (t.onOpenWritten send success now) := by
  unfold onOpenWritten
  split_ifs with hskip hfail
  · exact acts_refl t
  · push Not at hskip
    exact acts_handshake ⟨rfl, rfl, rfl, rfl, rfl, rfl, rfl⟩ (.inr ⟨hskip.1, rfl⟩)
  · exact acts_handshake ⟨rfl, rfl, rfl, rfl, rfl, rfl, rfl⟩ (.inl rfl)

/-- Updates of one entry that keep what identifies the command. -/
theorem entries_acts (t : CommandTracker) (entries : KeyMap UInt8 Entry)
    (hsame : ∀ seq, (entries.find? seq).map (fun e => (e.type, e.args, e.queuedAt, e.received)) =
      (t.entries.find? seq).map (fun e => (e.type, e.args, e.queuedAt, e.received))) :
    Acts call t ({ t with entries := entries }, {}) :=
  Steps.single (.entries t entries hsame)

theorem onDataWritten_acts (send : CommandSend) (success : Bool) (now : TimePoint)
    {t : CommandTracker} (hready : t.state = .ready) :
    Acts call t (t.onDataWritten send success now) := by
  unfold onDataWritten
  cases hentry : t.entries.find? send.seq with
  | none => exact acts_refl t
  | some e =>
      dsimp only
      split_ifs
      · exact acts_refl t
      · exact abort_acts _ (by decide) now hready
      · exact abort_acts _ (by decide) now hready
      · refine entries_acts t _ fun seq => ?_
        rw [KeyMap.find?_modify]
        split_ifs
        · rw [Option.map_map]
          rfl
        · rfl

theorem onWritten_acts (send : CommandSend) (success : Bool) (now : TimePoint)
    (t : CommandTracker) : Acts call t (t.onWritten send success now) := by
  unfold onWritten
  split_ifs with hsession hopen hskip
  · exact acts_refl t
  · exact onOpenWritten_acts send success now t
  · exact acts_refl t
  · exact onDataWritten_acts send success now (not_not.mp (not_or.mp hskip).1)

/-! ### Frames -/

theorem onOpenAck_acts {p : List UInt8} (now : TimePoint) {t : CommandTracker}
    (hframe : call.frame = some (EDGE_TYPE_SR_OPEN_ACK, p))
    (hsession : edgeU64BeRead p = t.session) : Acts call t (t.onOpenAck p now) := by
  unfold onOpenAck
  dsimp only
  split_ifs with hskip hlate hok hreject hlast
  · exact acts_refl t
  · push Not at hskip
    exact acts_failed hskip.2.1
  · push Not at hskip
    exact Steps.single (.ready t p hframe hskip.2.1 hsession hok.2 hok.1)
  · push Not at hskip
    exact acts_failed hskip.2.1
  · push Not at hskip hlast
    exact (Steps.single (TrackerAct.rejected t p _ hframe hskip.2.1 hsession rfl
      hreject.2 hlast.1)).trans
      (Steps.single (.openSent _))
  · exact acts_refl t

theorem onReceived_acts {seq : UInt8} {p : List UInt8} {t : CommandTracker}
    (hframe : call.frame = some (EDGE_TYPE_SR_RECEIVED, p))
    (hsession : edgeU64BeRead p = t.session) (hseq : p.getD 8 0 = seq) :
    Acts call t (t.onReceived seq p, {}) := by
  unfold onReceived
  cases hentry : t.entries.find? seq with
  | none => exact acts_refl t
  | some e =>
      dsimp only
      split_ifs
      · exact Steps.single (.received t _ p seq e hframe (.inl rfl) hsession hseq hentry)
      · exact acts_refl t

theorem onResult_acts {seq : UInt8} {p : List UInt8} (now : TimePoint) {t : CommandTracker}
    (hframe : call.frame = some (EDGE_TYPE_SR_RESULT, p)) (hready : t.state = .ready)
    (hsession : edgeU64BeRead p = t.session) (hseq : p.getD 8 0 = seq) :
    Acts call t (t.onResult seq p now) := by
  unfold onResult
  split_ifs with hbad hdone
  · exact acts_refl t
  · exact Steps.single (.ackSent t seq hdone)
  · cases hentry : t.entries.find? seq with
    | none => exact acts_refl t
    | some e =>
        dsimp only
        split_ifs with hunsent
        · exact acts_refl t
        · refine rollover_acts now ?_ hready
          have hreceive := Steps.single (TrackerAct.received t EDGE_TYPE_SR_RESULT p seq e
            hframe (.inr rfl) hsession hseq hentry)
          have hentry' : (t.receive seq).entries.find? seq = some { e with received := true } := by
            show (t.entries.modify seq _).find? seq = _
            rw [KeyMap.find?_modify, if_pos rfl, hentry]
            rfl
          have hfinish := Steps.single (TrackerAct.result (t.receive seq) p seq _ hframe hsession hseq
            hentry')
          refine (hreceive.trans hfinish).trans (Steps.single (.ackSent _ seq ?_))
          simp [CommandTracker.finished]

theorem onFrame_acts (type : UInt8) (p : List UInt8) (now : TimePoint) (t : CommandTracker) :
    Acts (.onFrame type p now) t (t.onFrame type p now) := by
  unfold onFrame
  dsimp only
  split_ifs with hbad hopenAck hskip hseq hreceived hother
  · exact acts_refl t
  · push Not at hbad
    subst hopenAck
    exact onOpenAck_acts now rfl hbad.2.2
  · exact acts_refl t
  · exact acts_refl t
  · push Not at hbad
    subst hreceived
    exact onReceived_acts rfl hbad.2.2 rfl
  · exact acts_refl t
  · push Not at hbad hskip hother
    subst hother
    exact onResult_acts now rfl hskip.1 hbad.2.2 rfl

/-! ### Ticks -/

theorem tickOpening_acts (now : TimePoint) {t : CommandTracker} (hstate : t.state = .opening) :
    Acts call t (t.tickOpening now) := by
  unfold tickOpening
  split_ifs
  · exact acts_failed hstate
  · exact acts_failed hstate
  · have hpending : Acts call t ({ t with openPending := true }, {}) :=
      acts_handshake ⟨rfl, rfl, rfl, rfl, rfl, rfl, rfl⟩ (.inl rfl)
    exact Steps.trans hpending (Steps.single (TrackerAct.openSent _))
  · exact acts_refl t

/-- Queueing retransmissions of entries in flight. -/
theorem dataSent_acts {t : CommandTracker} (entries : List (UInt8 × Entry))
    (h : ∀ entry ∈ entries, t.entries.find? entry.1 = some entry.2) :
    Steps (TrackerAct call) t (entries.map fun entry => .send (t.dataSend entry.1 entry.2)) t := by
  induction entries with
  | nil => exact Steps.refl t
  | cons entry rest ih =>
      rw [List.forall_mem_cons] at h
      exact (Steps.single (.dataSent t entry.1 entry.2 h.1)).trans (ih h.2)

theorem retry_acts (now : TimePoint) (t : CommandTracker) : Acts call t (t.retry now) := by
  have hentries : Acts call t ({ t with entries := t.entries.map (·.retried now) }, {}) := by
    refine entries_acts t _ fun seq => ?_
    rw [KeyMap.find?_map, Option.map_map]
    congr 1
    funext e
    simp only [Function.comp_apply, Entry.retried]
    split_ifs <;> rfl
  have hsent : Steps (TrackerAct call) _ _ _ := dataSent_acts
    (t := { t with entries := t.entries.map (·.retried now) })
    ((t.entries.toList.filter fun entry => entry.2.due now).map
      fun entry => (entry.1, entry.2.retried now)) (by
      intro entry hmem
      obtain ⟨⟨seq, e⟩, he, rfl⟩ := List.mem_map.mp hmem
      rw [KeyMap.find?_map, KeyMap.mem_toList.mp (List.mem_of_mem_filter he)]
      rfl)
  have := Steps.trans hentries hsent
  simpa [Acts, retry, TrackerActions.events, Function.comp_def, dataSend] using this

theorem tick_acts (now : TimePoint) (t : CommandTracker) : Acts call t (t.tick now) := by
  unfold tick
  split_ifs with hopening hready
  · exact tickOpening_acts now hopening
  · exact acts_refl t
  · cases t.entries.toList.find? fun entry => entry.2.lost now with
    | none => exact retry_acts now t
    | some entry => exact abort_acts entry.1 (by decide) now (not_not.mp hready)

/-- **Every call is a run of actions** with the same record. -/
theorem call_acts (t : CommandTracker) (call : TrackerCall) :
    Steps (TrackerAct call) t (t.call call).2 (t.call call).1 := by
  cases call with
  | start session now => exact start_acts session now t
  | submit type args now => exact submit_acts type args now t
  | onFrame type p now => exact onFrame_acts type p now t
  | onWritten send success now => exact onWritten_acts send success now t
  | tick now => exact tick_acts now t

end CommandTracker

end EdgeGateway
