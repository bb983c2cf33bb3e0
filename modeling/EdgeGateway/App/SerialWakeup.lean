import EdgeGateway.App.SerialOutput

set_option autoImplicit false

/-! # Wake-ups of the serial channel

The channel is edge-triggered: a frame that waits is written when the last write was refused for
lack of room, or when the channel was registered after the frame was queued. One order of events
breaks this: a write fails for good while the front frame is a command of the current session that
waits for this write. Its callback queues the OPEN of the next session into the queue that was just
emptied, while the registration still stands.
-/

namespace EdgeGateway

variable {κ σ : Type}

/-! ## Reading the record -/

/-- For every frame that was not completed, whether the channel was registered since it was queued;
and whether the last write was refused for lack of room. -/
structure WakeRecord where
  flags : List Bool := []
  blocked : Bool := false

def WakeRecord.next (r : WakeRecord) : LinkEvent κ → WakeRecord
  | .queued _ _ => { r with flags := r.flags ++ [false] }
  | .completed _ _ => { r with flags := r.flags.tail }
  | .armed _ => { r with flags := r.flags.map fun _ => true }
  | .wrote _ => { r with blocked := false }
  | .interrupted => { r with blocked := false }
  | .blocked => { r with blocked := true }
  | .failed => { r with blocked := false }

def wakeRecord (trace : List (LinkEvent κ)) : WakeRecord := trace.foldl WakeRecord.next {}

@[simp] theorem wakeRecord_append (trace : List (LinkEvent κ)) (e : LinkEvent κ) :
    wakeRecord (trace ++ [e]) = (wakeRecord trace).next e := by
  simp [wakeRecord]

theorem wakeRecord_record (s : Linked κ σ) (e : LinkEvent κ) :
    wakeRecord (s.record e).link.trace = (wakeRecord s.link.trace).next e :=
  wakeRecord_append s.link.trace e

/-- There is a flag for every frame that was not completed. -/
def Linked.Flagged (doomed : List (PendingWrite κ)) (s : Linked κ σ) : Prop :=
  (wakeRecord s.link.trace).flags.length = doomed.length + s.link.output.length

section Flags

variable {s s' : Linked κ σ} {doomed doomed' : List (PendingWrite κ)}

theorem flagged_reacts (h : Reacts s s') (hs : s.Flagged doomed) : s'.Flagged doomed := by
  cases h with
  | queued type payload tag link hsend =>
      obtain ⟨-, houtput, htrace⟩ := NodeLink.send_eq_some hsend
      show (wakeRecord link.trace).flags.length = doomed.length + link.output.length
      rw [htrace, houtput, wakeRecord_append]
      simp only [WakeRecord.next, List.length_append, List.length_cons, List.length_nil]
      have : (wakeRecord s.link.trace).flags.length = doomed.length + s.link.output.length := hs
      omega
  | owner => exact hs
  | armed out =>
      unfold Linked.Flagged
      rw [wakeRecord_record]
      show ((wakeRecord s.link.trace).flags.map _).length = _
      rw [List.length_map]
      exact hs

theorem flagged_move (h : LinkMove (doomed, s) (doomed', s')) (hs : s.Flagged doomed) :
    s'.Flagged doomed' := by
  unfold Linked.Flagged at hs ⊢
  cases h with
  | reacts _ h => exact flagged_reacts h hs
  | noted _ e he =>
      rw [wakeRecord_record]
      rcases he with rfl | rfl
      · exact hs
      · exact hs
  | wrote _ p rest n houtput hlt =>
      rw [wakeRecord_record]
      rw [houtput] at hs
      exact hs
  | finished _ p rest n houtput hall =>
      rw [wakeRecord_record, wakeRecord_record]
      rw [houtput] at hs
      simp only [WakeRecord.next, List.length_tail]
      show (wakeRecord s.link.trace).flags.length - 1 = 0 + rest.length
      simp only [List.length_nil, List.length_cons] at hs
      omega
  | cancelled _ p rest houtput hoffset =>
      rw [wakeRecord_record]
      rw [houtput] at hs
      simp only [WakeRecord.next, List.length_tail]
      show (wakeRecord s.link.trace).flags.length - 1 = 0 + rest.length
      simp only [List.length_nil, List.length_cons] at hs
      omega
  | failed =>
      rw [wakeRecord_record]
      exact hs.trans (Nat.add_comm _ _)
  | dropped p =>
      rw [wakeRecord_record]
      simp only [WakeRecord.next, List.length_tail]
      show (wakeRecord s.link.trace).flags.length - 1 = doomed'.length + s.link.output.length
      rw [List.length_cons] at hs
      omega

theorem flagged_moves {x y : List (PendingWrite κ) × Linked κ σ} (h : LinkMoves x y)
    (hx : x.2.Flagged x.1) : y.2.Flagged y.1 := by
  induction h with
  | refl => exact hx
  | tail _ hstep ih => exact flagged_move hstep ih

end Flags

/-! ## Commands whose failure opens a session -/

namespace CommandTracker

variable {t : CommandTracker} {send : CommandSend}

/-- The write of this command is the one the tracker waits for, and there is a next session. -/
def Restarts (t : CommandTracker) (send : CommandSend) : Prop :=
  send.type = EDGE_TYPE_SR_COMMAND ∧ send.session = t.session ∧ t.session ≠ SESSION_MAX ∧
    t.state = .ready ∧ ∃ e, t.entries.find? send.seq = some e ∧ e.pending = true ∧
      e.received = false ∧ send.attempt = e.sends

/-- Aborting a session sends the OPEN of the next one. -/
theorem abort_send (seq : UInt8) (reason : String) (now : TimePoint) :
    (t.abort seq reason now).2.send =
      if t.session = SESSION_MAX then []
      else [(t.openSession (t.session + 1) now).openSend] := by
  unfold abort begin
  dsimp only
  by_cases hmax : t.session = SESSION_MAX
  · rw [if_pos ⟨UInt64.le_refl _, hmax⟩, if_pos hmax]
  · rw [if_neg fun h => hmax h.2, if_neg hmax]
    simp only [nextSession, UInt64.le_refl, if_true, List.nil_append]
    rfl

theorem onWritten_restarts (h : t.Restarts send) (now : TimePoint) :
    (t.onWritten send false now).2.send = [(t.openSession (t.session + 1) now).openSend] := by
  obtain ⟨htype, hsession, hmax, hready, e, hentry, hpending, hreceived, hattempt⟩ := h
  have hopen : send.type ≠ EDGE_TYPE_SR_OPEN := by rw [htype]; decide
  unfold onWritten
  rw [if_neg (not_not.mpr hsession), if_neg hopen, if_neg (by simp [hready, htype])]
  unfold onDataWritten
  rw [hentry]
  dsimp only
  rw [if_neg (by simp [hpending, hreceived, hattempt])]
  split_ifs with hlate hfailed
  · rw [abort_send, if_neg hmax]
  · rw [abort_send, if_neg hmax]
  · exact absurd rfl hfailed

theorem onWritten_quiet (h : ¬ t.Restarts send) (now : TimePoint) :
    (t.onWritten send false now).2.send = [] := by
  unfold onWritten
  split_ifs with hsession hopen hready
  · rfl
  · unfold onOpenWritten
    split_ifs
    · rfl
    · rfl
    · rfl
  · rfl
  · push Not at hsession hready
    unfold onDataWritten
    cases hentry : t.entries.find? send.seq with
    | none => rfl
    | some e =>
        dsimp only
        split_ifs with hold
        · rfl
        all_goals
          push Not at hold
          have hmax : t.session = SESSION_MAX := by
            by_contra hmax
            exact h ⟨hready.2, hsession, hmax, hready.1, e, hentry, by simpa using hold.1,
              by simpa using hold.2.1, hold.2.2⟩
        · rw [abort_send, if_pos hmax]
        · rw [abort_send, if_pos hmax]
        · rfl

end CommandTracker

namespace GatewayApp

/-! ## The callbacks of a queue that is discarded -/

/-- Past the frames whose callbacks are still to come, the front frame has a registration. -/
structure Woken (waiting : Nat) (s : GatewayApp) : Prop where
  channel : s.owner.channel ≠ none
  length : (wakeRecord s.link.trace).flags.length = waiting + s.link.output.length
  front : s.owner.channel = some true →
    s.link.output ≠ [] ∧ (wakeRecord s.link.trace).flags[waiting]? = some true

/-- The front frame has none, and the reactor sees no reason for one. -/
structure Asleep (waiting : Nat) (s : GatewayApp) : Prop where
  length : (wakeRecord s.link.trace).flags.length = waiting + s.link.output.length
  channel : s.owner.channel = some true
  output : s.link.output ≠ []
  front : (wakeRecord s.link.trace).flags[waiting]? = some false
  blocked : (wakeRecord s.link.trace).blocked = false

variable {s s' : GatewayApp} {waiting : Nat}

theorem send_spec {link link' : NodeLink CommandSend} {type : UInt8} {payload : List UInt8}
    {send : CommandSend} (h : link.send type payload send = some link') :
    ∃ p, link'.output = link.output ++ [p] ∧
      wakeRecord link'.trace = (wakeRecord link.trace).next (.queued p.frame send) := by
  obtain ⟨-, houtput, htrace⟩ := NodeLink.send_eq_some h
  exact ⟨_, houtput, htrace ▸ wakeRecord_append link.trace _⟩

/-- What `updateSerialWriteInterest` finds and does. -/
theorem update_cases (s : GatewayApp) :
    (updateSerialWriteInterest s = s ∧
      (s.owner.channel = none ∨ s.owner.channel = some s.link.hasPendingOutput)) ∨
    (s.owner.channel = some (!s.link.hasPendingOutput) ∧ updateSerialWriteInterest s =
      { s.record (.armed s.link.hasPendingOutput) with
        owner := { s.owner with channel := some s.link.hasPendingOutput } }) := by
  unfold updateSerialWriteInterest
  cases hchannel : s.owner.channel with
  | none => exact .inl ⟨rfl, .inl rfl⟩
  | some out =>
      dsimp only
      split_ifs with hsame
      · exact .inl ⟨rfl, .inr (congrArg some hsame)⟩
      · exact .inr ⟨congrArg some (Bool.eq_not.mpr hsame), rfl⟩

theorem pending_iff : s.link.hasPendingOutput = true ↔ s.link.output ≠ [] := by
  simp [NodeLink.hasPendingOutput]

theorem woken_serves (h : Serves s s') (hs : s.Woken waiting) : s'.Woken waiting := by
  cases h with
  | queued type payload send link hsend =>
      obtain ⟨p, houtput, hrecord⟩ := send_spec hsend
      refine ⟨hs.channel, ?_, ?_⟩
      · show (wakeRecord link.trace).flags.length = waiting + link.output.length
        rw [hrecord, houtput]
        simp only [WakeRecord.next, List.length_append, List.length_cons, List.length_nil]
        have := hs.length
        omega
      · intro hchannel
        obtain ⟨-, hfront⟩ := hs.front hchannel
        show link.output ≠ [] ∧ (wakeRecord link.trace).flags[waiting]? = some true
        rw [hrecord, houtput]
        refine ⟨by simp, ?_⟩
        exact (List.getElem?_append_left (List.getElem?_eq_some_iff.mp hfront).1).trans hfront
  | owner owner hchannel =>
      exact ⟨hchannel.symm ▸ hs.channel, hs.length, fun h => hs.front (hchannel.symm.trans h)⟩
  | updated =>
      rcases update_cases s with ⟨hsame, -⟩ | ⟨hchannel, hupdate⟩
      · rw [hsame]
        exact hs
      · rw [hupdate]
        refine ⟨Option.some_ne_none _, ?_, ?_⟩
        · show (wakeRecord (s.record _).link.trace).flags.length = _
          rw [wakeRecord_record]
          simp only [WakeRecord.next, List.length_map]
          exact hs.length
        · intro hout
          have hpending : s.link.hasPendingOutput = true := Option.some.inj hout
          have hne := pending_iff.mp hpending
          refine ⟨hne, ?_⟩
          show (wakeRecord (s.record _).link.trace).flags[waiting]? = some true
          rw [wakeRecord_record]
          have hlt : waiting < (wakeRecord s.link.trace).flags.length := by
            have := hs.length
            have := List.length_pos_iff.mpr hne
            omega
          simp [WakeRecord.next, hlt]

theorem asleep_serves (h : Serves s s') (hs : s.Asleep waiting) : s'.Asleep waiting := by
  cases h with
  | queued type payload send link hsend =>
      obtain ⟨p, houtput, hrecord⟩ := send_spec hsend
      have hlt := (List.getElem?_eq_some_iff.mp hs.front).1
      refine ⟨?_, hs.channel, ?_, ?_, ?_⟩
      · show (wakeRecord link.trace).flags.length = waiting + link.output.length
        rw [hrecord, houtput]
        simp only [WakeRecord.next, List.length_append, List.length_cons, List.length_nil]
        have := hs.length
        omega
      · show link.output ≠ []
        rw [houtput]
        simp
      · show (wakeRecord link.trace).flags[waiting]? = some false
        rw [hrecord]
        exact (List.getElem?_append_left hlt).trans hs.front
      · show (wakeRecord link.trace).blocked = false
        rw [hrecord]
        exact hs.blocked
  | owner owner hchannel =>
      exact ⟨hs.length, hchannel.trans hs.channel, hs.output, hs.front, hs.blocked⟩
  | updated =>
      -- the registration is for output already
      rcases update_cases s with ⟨hsame, -⟩ | ⟨hchannel, -⟩
      · rw [hsame]
        exact hs
      · rw [hs.channel, pending_iff.mpr hs.output] at hchannel
        cases hchannel

theorem woken_serving (h : Serving s s') (hs : s.Woken waiting) : s'.Woken waiting := by
  induction h with
  | refl => exact hs
  | tail _ hstep ih => exact woken_serves hstep ih

theorem asleep_serving (h : Serving s s') (hs : s.Asleep waiting) : s'.Asleep waiting := by
  induction h with
  | refl => exact hs
  | tail _ hstep ih => exact asleep_serves hstep ih

/-- A frame that is completed takes its flag with it. -/
theorem flags_completed (tag : CommandSend) (success : Bool)
    (h : (wakeRecord s.link.trace).flags.length = waiting + 1 + s.link.output.length) :
    (wakeRecord (s.record (.completed tag success)).link.trace).flags.length =
      waiting + s.link.output.length := by
  rw [wakeRecord_record]
  simp only [WakeRecord.next, List.length_tail]
  omega

/-- The callbacks of the frames behind the first one. -/
def discardRest (rest : List (PendingWrite CommandSend)) (s : GatewayApp) : GatewayApp :=
  rest.foldl (fun s pending =>
    hooks.onComplete pending.tag false (s.record (.completed pending.tag false))) s

theorem woken_discardRest (rest : List (PendingWrite CommandSend)) :
    ∀ s : GatewayApp, s.Woken rest.length → (discardRest rest s).Woken 0 := by
  induction rest with
  | nil => exact fun s hs => hs
  | cons p rest ih =>
      intro s hs
      refine ih _ (woken_serving (serving_complete serving_queue p.tag false _) ?_)
      refine ⟨hs.channel, flags_completed p.tag false hs.length, ?_⟩
      · intro hchannel
        obtain ⟨hne, hfront⟩ := hs.front hchannel
        rw [wakeRecord_record]
        exact ⟨hne, (List.getElem?_tail ..).trans hfront⟩

theorem asleep_discardRest (rest : List (PendingWrite CommandSend)) :
    ∀ s : GatewayApp, s.Asleep rest.length → (discardRest rest s).Asleep 0 := by
  induction rest with
  | nil => exact fun s hs => hs
  | cons p rest ih =>
      intro s hs
      refine ih _ (asleep_serving (serving_complete serving_queue p.tag false _) ?_)
      refine ⟨flags_completed p.tag false hs.length, hs.channel, hs.output, ?_, ?_⟩
      · rw [wakeRecord_record]
        exact (List.getElem?_tail ..).trans hs.front
      · rw [wakeRecord_record]
        exact hs.blocked

/-- The callback of the first frame queues nothing: the registration for output ends. -/
theorem woken_complete {send : CommandSend} (h : ¬ s.owner.tracker.Restarts send)
    (hchannel : s.owner.channel = some true) (houtput : s.link.output = [])
    (hlength : (wakeRecord s.link.trace).flags.length = waiting) :
    (complete queueTransmission send false s).Woken waiting := by
  let r := s.owner.tracker.onWritten send false s.owner.now.1
  let owner := r.2.finished.foldl Reactor.deliver (s.owner.now.2.advance r)
  have hsame : owner.channel = some true := (deliver_all_channel _ _).trans hchannel
  have hpending : s.link.hasPendingOutput = false := by simp [NodeLink.hasPendingOutput, houtput]
  have hcomplete : complete queueTransmission send false s =
      updateSerialWriteInterest { s with owner := owner } := by
    show updateSerialWriteInterest (r.2.send.foldl _ { s with owner := owner }) = _
    rw [CommandTracker.onWritten_quiet h]
    rfl
  rw [hcomplete]
  rcases update_cases { s with owner := owner } with ⟨-, hnone | hsome⟩ | ⟨-, hupdate⟩
  · cases hsame.symm.trans hnone
  · cases (hsame.symm.trans hsome).trans (congrArg some hpending)
  · rw [hupdate]
    refine ⟨Option.some_ne_none _, ?_, ?_⟩
    · show (wakeRecord (s.record _).link.trace).flags.length = waiting + s.link.output.length
      rw [wakeRecord_record, houtput]
      simpa [WakeRecord.next] using hlength
    · intro hout
      cases (congrArg some hpending).symm.trans hout

/-- The callback of the first frame queues an OPEN: the registration stays as it is. -/
theorem asleep_complete {send : CommandSend} (h : s.owner.tracker.Restarts send)
    (hchannel : s.owner.channel = some true) (houtput : s.link.output = [])
    (hlength : (wakeRecord s.link.trace).flags.length = waiting)
    (hblocked : (wakeRecord s.link.trace).blocked = false) :
    (complete queueTransmission send false s).Asleep waiting := by
  let r := s.owner.tracker.onWritten send false s.owner.now.1
  let owner := r.2.finished.foldl Reactor.deliver (s.owner.now.2.advance r)
  have hsame : owner.channel = some true := (deliver_all_channel _ _).trans hchannel
  let opening := (s.owner.tracker.openSession (s.owner.tracker.session + 1) s.owner.now.1).openSend
  have hsize : opening.payload.length ≤ EDGE_PAYLOAD_MAX := by
    show (edgeU64BeWrite _).length ≤ EDGE_PAYLOAD_MAX
    rw [edgeU64BeWrite_length]
    decide
  obtain ⟨link, hlink⟩ := Option.isSome_iff_exists.mp
    (NodeLink.send_isSome opening.type opening s.link hsize)
  have hcomplete : complete queueTransmission send false s =
      updateSerialWriteInterest ⟨link, owner⟩ := by
    show updateSerialWriteInterest (r.2.send.foldl _ { s with owner := owner }) = _
    rw [CommandTracker.onWritten_restarts h]
    show updateSerialWriteInterest (queueTransmission opening { s with owner := owner }) = _
    unfold queueTransmission queueTransmissionIn
    rw [hlink]
  rw [hcomplete]
  obtain ⟨p, hqueue, hrecord⟩ := send_spec hlink
  rw [houtput] at hqueue
  refine asleep_serves (.updated _) ⟨?_, hsame, ?_, ?_, ?_⟩
  · show (wakeRecord link.trace).flags.length = waiting + link.output.length
    rw [hrecord, hqueue, ← hlength]
    simp [WakeRecord.next]
  · show link.output ≠ []
    rw [hqueue]
    simp
  · show (wakeRecord link.trace).flags[waiting]? = some false
    rw [hrecord, ← hlength]
    simp [WakeRecord.next]
  · show (wakeRecord link.trace).blocked = false
    rw [hrecord]
    exact hblocked

/-! ## The end of `flushOutput` -/

/-- When frames wait, the last write was refused for lack of room, or the channel was registered
after the front frame was queued. -/
def Awake (s : GatewayApp) : Prop :=
  s.link.hasPendingOutput = true → (wakeRecord s.link.trace).blocked = true ∨
    (wakeRecord s.link.trace).flags.head? = some true

/-- A write fails for good while the front frame is a command that waits for it. -/
def LiveFailure (turn : WriteResult) (s : GatewayApp) : Prop :=
  ∃ p rest, s.link.output = p :: rest ∧ (turn = .failed ∨ turn = .accepted 0) ∧
    (p.offset = 0 → (hooks.canSend p.tag s.owner).1 = true) ∧ s.owner.tracker.Restarts p.tag

/-- One of the turns of the loop is such a failure. -/
def FailsLive : List WriteResult → GatewayApp → Prop
  | [], _ => False
  | turn :: turns, s => LiveFailure turn s ∨
      (flushTurn hooks turn s).2 = none ∧ FailsLive turns (flushTurn hooks turn s).1

/-- What a turn comes to. -/
inductive Turn (turn : WriteResult) (s : GatewayApp) : GatewayApp × Option FlushEnd → Prop
  | going (s' : GatewayApp) (hlive : ¬ LiveFailure turn s)
      (hregistered : s.Registered → s'.Registered) : Turn turn s (s', none)
  | drained (hempty : s.link.output = []) : Turn turn s (s, some .drained)
  | blocked (s' : GatewayApp) (hlive : ¬ LiveFailure turn s)
      (hblocked : (wakeRecord s'.link.trace).blocked = true) : Turn turn s (s', some .blocked)
  | failed (p : PendingWrite CommandSend) (rest : List (PendingWrite CommandSend)) (owner : Reactor)
      (houtput : s.link.output = p :: rest) (hchannel : owner.channel = s.owner.channel)
      (htracker : owner.tracker = s.owner.tracker)
      (hlive : LiveFailure turn s ↔ s.owner.tracker.Restarts p.tag) :
      Turn turn s
        (discardOutput hooks (Linked.record { s with owner := owner } .failed), some .failed)

theorem writeFront_turn {p : PendingWrite CommandSend} {rest : List (PendingWrite CommandSend)}
    (houtput : s.link.output = p :: rest) (hlt : p.offset < p.frame.length) (turn : WriteResult)
    (owner : Reactor) (hchannel : owner.channel = s.owner.channel)
    (htracker : owner.tracker = s.owner.tracker)
    (hcan : p.offset = 0 → (hooks.canSend p.tag s.owner).1 = true) :
    Turn turn s (writeFront hooks turn { s with owner := owner }) := by
  have hsound : ¬ (turn = .failed ∨ turn = .accepted 0) → ¬ LiveFailure turn s :=
    fun hturn ⟨_, _, _, hfails, _⟩ => hturn hfails
  have hexact : turn = .failed ∨ turn = .accepted 0 →
      (LiveFailure turn s ↔ s.owner.tracker.Restarts p.tag) := by
    intro hfails
    constructor
    · rintro ⟨p', rest', houtput', -, -, hrestarts⟩
      obtain ⟨rfl, -⟩ := List.cons.inj (houtput.symm.trans houtput')
      exact hrestarts
    · exact fun hrestarts => ⟨p, rest, houtput, hfails, hcan, hrestarts⟩
  have hnonzero : ∀ {n : Nat}, ¬ min n (p.frame.length - p.offset) = 0 →
      ¬ (WriteResult.accepted n = .failed ∨ WriteResult.accepted n = .accepted 0) := by
    rintro n hne (hfails | hfails)
    · cases hfails
    · cases hfails
      exact hne (Nat.zero_min _)
  unfold writeFront
  dsimp only
  rw [houtput]
  cases turn with
  | accepted n =>
      dsimp only
      split_ifs with hzero hall
      · have hn : n = 0 := by omega
        exact .failed p rest owner houtput hchannel htracker (hexact (.inr (by rw [hn])))
      · refine .going _ (hsound (hnonzero hzero)) fun hs => ?_
        exact complete_registered p.tag true (hchannel.symm ▸ hs.channel)
      · refine .going _ (hsound (hnonzero hzero)) fun hs => ?_
        show owner.channel = some true
        rw [hchannel, hs, pending_iff.mpr (by rw [houtput]; exact List.cons_ne_nil p rest)]
  | interrupted =>
      refine .going _ (hsound (by rintro (hfails | hfails) <;> cases hfails)) fun hs => ?_
      exact hchannel.trans hs
  | wouldBlock =>
      refine .blocked _ (hsound (by rintro (hfails | hfails) <;> cases hfails)) ?_
      rw [wakeRecord_record]
      rfl
  | failed => exact .failed p rest owner houtput hchannel htracker (hexact (.inl rfl))

theorem flushTurn_turn (hs : s.Streams []) (turn : WriteResult) :
    Turn turn s (flushTurn hooks turn s) := by
  unfold flushTurn
  cases houtput : s.link.output with
  | nil => exact .drained houtput
  | cons p rest =>
      have hwaits := hs.stream.waits
      rw [List.nil_append, houtput] at hwaits
      dsimp only
      split_ifs with hzero hcancel
      · refine .going _ ?_ fun hs => ?_
        · rintro ⟨p', rest', houtput', -, hcan, -⟩
          obtain ⟨rfl, -⟩ := List.cons.inj (houtput.symm.trans houtput')
          exact Bool.false_ne_true (hcancel.symm.trans (hcan hzero))
        · unfold completeFront
          rw [houtput]
          exact complete_registered p.tag false hs.channel
      · exact writeFront_turn houtput hwaits.2.1 turn _ rfl rfl fun _ => by simpa using hcancel
      · exact writeFront_turn houtput hwaits.2.1 turn s.owner rfl rfl fun h => absurd h hzero

theorem serves_blocked (h : Serves s s') :
    (wakeRecord s'.link.trace).blocked = (wakeRecord s.link.trace).blocked := by
  cases h with
  | queued type payload send link hsend =>
      obtain ⟨p, -, hrecord⟩ := send_spec hsend
      show (wakeRecord link.trace).blocked = _
      rw [hrecord]
      rfl
  | owner => rfl
  | updated =>
      rcases update_cases s with ⟨hsame, -⟩ | ⟨-, hupdate⟩
      · rw [hsame]
      · rw [hupdate]
        show (wakeRecord (s.record _).link.trace).blocked = _
        rw [wakeRecord_record]
        rfl

/-- A failed write leaves a frame that is not woken exactly when the callback of the front frame
queued it. -/
theorem discard_awake {p : PendingWrite CommandSend} {rest : List (PendingWrite CommandSend)}
    (hs : s.Registered) (hflagged : s.Flagged []) (houtput : s.link.output = p :: rest) :
    (updateSerialWriteInterest (discardOutput hooks (s.record .failed))).Awake ↔
      ¬ s.owner.tracker.Restarts p.tag := by
  have hdiscard : discardOutput hooks (s.record .failed) = discardRest rest
      (complete queueTransmission p.tag false
        (((s.setOutput []).record .failed).record (.completed p.tag false))) := by
    show List.foldl _ _ s.link.output = _
    rw [houtput]
    rfl
  let first := ((s.setOutput []).record .failed).record (.completed p.tag false)
  have hchannel : first.owner.channel = some true := by
    show s.owner.channel = some true
    rw [hs, pending_iff.mpr (by rw [houtput]; exact List.cons_ne_nil p rest)]
  have hrecord : wakeRecord first.link.trace =
      ((wakeRecord s.link.trace).next (LinkEvent.failed (κ := CommandSend))).next
        (.completed p.tag false) := by
    rw [wakeRecord_record, wakeRecord_record]
    rfl
  have hlength : (wakeRecord first.link.trace).flags.length = rest.length := by
    rw [hrecord]
    have : (wakeRecord s.link.trace).flags.length = 0 + s.link.output.length := hflagged
    rw [houtput, List.length_cons] at this
    simp only [WakeRecord.next, List.length_tail]
    omega
  rw [hdiscard]
  constructor
  · intro hawake hrestarts
    have hblocked : (wakeRecord first.link.trace).blocked = false := by
      rw [hrecord]
      rfl
    have hasleep : Asleep 0 (updateSerialWriteInterest (discardRest rest _)) :=
      asleep_serves (.updated _) (asleep_discardRest rest _
        (asleep_complete (s := first) hrestarts hchannel rfl hlength hblocked))
    rcases hawake (pending_iff.mpr hasleep.output) with h | h
    · exact Bool.false_ne_true (hasleep.blocked.symm.trans h)
    · rw [List.head?_eq_getElem?, hasleep.front] at h
      cases h
  · intro hquiet hpending
    have hwoken : Woken 0 (discardRest rest _) := woken_discardRest rest _
      (woken_complete (s := first) hquiet hchannel rfl hlength)
    have hfront := (woken_serves (.updated _) hwoken).front
    rw [update_registered hwoken.channel] at hfront
    refine .inr ?_
    rw [List.head?_eq_getElem?]
    exact (hfront (congrArg some hpending)).2

/-- Without frames there is nothing to wake up for. -/
theorem awake_idle (h : s.link.output = []) : s.Awake := fun hpending =>
  absurd h (pending_iff.mp hpending)

theorem update_output (s : GatewayApp) :
    (updateSerialWriteInterest s).link.output = s.link.output := by
  rcases update_cases s with ⟨hsame, -⟩ | ⟨-, hupdate⟩
  · rw [hsame]
  · rw [hupdate]
    rfl

theorem flush_awake (turns : List WriteResult) : ∀ s : GatewayApp, s.Registered → s.Streams [] →
    s.Flagged [] → (flushOutput hooks turns s).2 ≠ .unfinished →
    ((s.onSerialWriteEvent turns).Awake ↔ ¬ FailsLive turns s) := by
  induction turns with
  | nil =>
      intro s hs _ _ hreturned
      refine iff_of_true (awake_idle ?_) id
      by_contra hpending
      exact hreturned (by rw [flushOutput, if_pos (pending_iff.mpr fun h => hpending
        ((update_output s).trans h))])
  | cons turn turns ih =>
      intro s hs hstreams hflagged hreturned
      have hmoves := moves_flushTurn hooks_obey turn s
      have hturn := flushTurn_turn hstreams turn
      unfold onSerialWriteEvent
      unfold flushOutput at hreturned ⊢
      unfold FailsLive
      generalize flushTurn hooks turn s = r at hmoves hturn hreturned ⊢
      cases hturn with
      | going s' hlive hregistered =>
          have hnext := ih s' (hregistered hs) (streams_moves hmoves hstreams)
            (flagged_moves hmoves hflagged) hreturned
          rw [or_iff_right hlive, and_iff_right rfl]
          exact hnext
      | drained hempty =>
          refine iff_of_true (awake_idle ((update_output s).trans hempty)) ?_
          rintro (⟨p, rest, houtput, -⟩ | ⟨hgoing, -⟩)
          · cases hempty.symm.trans houtput
          · cases hgoing
      | blocked s' hlive hblocked =>
          refine iff_of_true (fun _ => .inl ?_) ?_
          · exact (serves_blocked (.updated s')).trans hblocked
          · rintro (h | ⟨hgoing, -⟩)
            · exact hlive h
            · cases hgoing
      | failed p rest owner houtput hchannel htracker hlive =>
          have hdiscard := discard_awake (s := { s with owner := owner }) (hchannel.trans hs)
            hflagged houtput
          refine hdiscard.trans (not_congr ?_)
          show owner.tracker.Restarts p.tag ↔ _
          rw [htracker, ← hlive]
          exact ⟨.inl, fun h => h.resolve_right fun hgoing => by cases hgoing.1⟩

/-- **When `onSerialWriteEvent` returns with frames that wait, they will be written**: the last write
was refused for lack of room, or the channel was registered after the front frame was queued;
except after a write that failed for good while the front frame was a command waiting for it. -/
theorem output_awake (clock : Nat → TimePoint) (arrivals : Nat → List Downlink)
    (events : List AppEvent) (turns : List WriteResult) :
    let s := (init clock arrivals).runEvents events
    (flushOutput hooks turns s).2 ≠ .unfinished →
      ((s.onSerialWriteEvent turns).Awake ↔ ¬ FailsLive turns s) := by
  intro s hreturned
  have hflagged : s.Flagged [] := run_rule (J := fun s => s.Flagged []) (fun _ => rfl)
    (fun _ _ h hs => flagged_moves h hs) clock arrivals events
  exact flush_awake turns s (registered_run clock arrivals events)
    (streams_run clock arrivals events) hflagged hreturned

/-- One light query, and the handshake it begins. -/
def oneQuery : Nat → List Downlink := fun n =>
  if n = 0 then [⟨7, ⟨EDGE_TYPE_QUERY_LIGHT, []⟩⟩] else []

def handshake : List AppEvent :=
  [.downlink false [] 1, .writable [.accepted 64],
    .serial [⟨EDGE_TYPE_SR_OPEN_ACK, openAckPayload 1 1 EDGE_RC_OK⟩], .downlink false [] 1]

theorem output_awake_blocked :
    (((init (fun _ => 0) oneQuery).runEvents handshake).onSerialWriteEvent
      [.accepted 3, .wouldBlock]).Awake := by
  refine (output_awake (fun _ => 0) oneQuery handshake [.accepted 3, .wouldBlock]
    (by decide +kernel)).mpr ?_
  rintro (⟨p, rest, -, hfails, -⟩ | ⟨-, ⟨p, rest, -, hfails, -⟩ | ⟨-, h⟩⟩)
  · rcases hfails with hfails | hfails <;> cases hfails
  · rcases hfails with hfails | hfails <;> cases hfails
  · exact h

/-- **The OPEN after a failed write is not woken**: the write of the query fails, and the OPEN of the
next session waits in a queue whose registration is older. -/
theorem output_asleep :
    ¬ ∀ (clock : Nat → TimePoint) (arrivals : Nat → List Downlink) (events : List AppEvent)
      (turns : List WriteResult), let s := (init clock arrivals).runEvents events
      (flushOutput hooks turns s).2 ≠ .unfinished → (s.onSerialWriteEvent turns).Awake := by
  intro hawake
  have hwaits := hawake (fun _ => 0) oneQuery handshake [.failed] (by decide +kernel)
    (by decide +kernel)
  exact absurd hwaits (by decide +kernel)

end GatewayApp

end EdgeGateway
