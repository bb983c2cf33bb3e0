import EdgeGateway.App.GatewayApp
import EdgeGateway.Basic.Ledger

set_option autoImplicit false

/-! # The reactor's book of requests

The request map keeps book of the commands in flight. Between a call of the tracker and the end of
`applyTrackerActions` it is behind by the completions not yet delivered; at every boundary of an
event it agrees with the tracker.
-/

namespace EdgeGateway

/-! ## Invariant -/

/-- The commands for which the book may have this id. -/
def AssignedTo (assigned : List (Downlink × Command)) (id : RequestId) (k : Ticket) : Prop :=
  ∃ a ∈ assigned, a.1.id = id ∧ a.2.ticket = k

/-- A completion handed over is the tracker's, of the command that was submitted for the id. -/
structure Answers (log : List TrackerEvent) (a : Downlink × Command) (id : RequestId)
    (completion : CommandCompletion) : Prop where
  id : a.1.id = id
  finish : .finish a.2.session completion ∈ log
  seq : completion.seq = a.2.seq
  type : completion.type = a.2.type

/-- What was submitted for a request is the request's command. -/
structure Assigned (popped : List Downlink) (log : List TrackerEvent) (a : Downlink × Command) :
    Prop where
  popped : a.1 ∈ popped
  submitted : a.2 ∈ submits log
  type : a.2.type = a.1.command.type
  args : a.2.args = a.1.command.arg

namespace Reactor

/-- The books: `owed` are the commands without an answer, `held` the requests that were popped and
are not yet booked. -/
structure Books (s : Reactor) (owed : List Ticket) (held : List RequestId) : Prop where
  tracker : s.tracker.TrackerInv s.log
  ledger : Ledger (fun k : Ticket => k.2.1) (AssignedTo s.assigned) s.requests owed
  counted : (s.popped.map Downlink.id).Perm
    (s.calls.map CoreCall.id ++ s.requests.toList.map Prod.snd ++ held)
  answered : ∀ id completion, .finished id completion ∈ s.calls →
    ∃ a ∈ s.assigned, Answers s.log a id completion
  assigned : ∀ a ∈ s.assigned, Assigned s.popped s.log a
  encoded : s.encodingFailures = 0

/-- The books at the boundary of an event. -/
def Balanced (s : Reactor) : Prop := s.Books s.tracker.inflight []

theorem balanced_init (clock : Nat → TimePoint) (arrivals : Nat → List Downlink) :
    (init clock arrivals).Balanced where
  tracker := CommandTracker.trackerInv_new
  ledger := by
    rw [CommandTracker.inflight_empty rfl]
    exact Ledger.empty _ _
  counted := by simp [init]
  answered := fun _ _ h => by cases h
  assigned := fun _ h => by cases h
  encoded := rfl

variable {s : Reactor} {owed : List Ticket} {held : List RequestId}

/-! ## What leaves the books alone -/

theorem Books.now (h : s.Books owed held) : s.now.2.Books owed held := ⟨h.1, h.2, h.3, h.4, h.5, h.6⟩

theorem Books.channel (h : s.Books owed held) (out : Option Bool) :
    Books { s with channel := out } owed held :=
  ⟨h.1, h.2, h.3, h.4, h.5, h.6⟩

theorem Books.cmdQueue (h : s.Books owed held) (queue : List Downlink)
    (arrivals : Nat → List Downlink) :
    Books { s with cmdQueue := queue, arrivals := arrivals } owed held :=
  ⟨h.1, h.2, h.3, h.4, h.5, h.6⟩

theorem poll_eq (s : Reactor) : ∃ queue,
    s.poll = { s with cmdQueue := queue, arrivals := fun n => s.arrivals (n + 1) } := by
  unfold poll
  refine List.foldlRecOn (motive := fun r : Reactor => ∃ queue,
    r = { s with cmdQueue := queue, arrivals := fun n => s.arrivals (n + 1) })
    (s.arrivals 0) _ ⟨s.cmdQueue, rfl⟩ ?_
  rintro _ ⟨queue, rfl⟩ d _
  unfold tryPush
  split_ifs
  · exact ⟨queue, rfl⟩
  · exact ⟨_, rfl⟩

theorem Books.poll (h : s.Books owed held) : s.poll.Books owed held := by
  obtain ⟨queue, heq⟩ := poll_eq s
  rw [heq]
  exact h.cmdQueue queue _

theorem poll_tracker (s : Reactor) : s.poll.tracker = s.tracker := by
  obtain ⟨queue, heq⟩ := poll_eq s
  rw [heq]

theorem Balanced.now (h : s.Balanced) : s.now.2.Balanced := Books.now h

theorem Balanced.channel (h : s.Balanced) (out : Option Bool) :
    Balanced { s with channel := out } :=
  Books.channel h out

theorem Balanced.poll (h : s.Balanced) : s.poll.Balanced := by
  unfold Balanced
  rw [poll_tracker]
  exact Books.poll h

/-! ## Requests -/

/-- A request that is popped is held until it is booked or rejected. -/
theorem Balanced.tryPop {d : Downlink} {s' : Reactor} (h : s.Balanced)
    (hpop : s.tryPop = some (d, s')) : s'.Books s'.tracker.inflight [d.id] ∧ d ∈ s'.popped := by
  have hpoll := h.poll
  unfold Reactor.tryPop at hpop
  cases hqueue : s.poll.cmdQueue with
  | nil => rw [hqueue] at hpop; cases hpop
  | cons d' rest =>
      rw [hqueue] at hpop
      obtain ⟨rfl, rfl⟩ := Prod.mk.inj (Option.some.inj hpop)
      refine ⟨?_, by simp⟩
      exact {
        tracker := hpoll.tracker
        ledger := hpoll.ledger
        counted := by
          simp only [List.map_append, List.map_cons, List.map_nil]
          have := hpoll.counted
          rw [List.append_nil] at this
          exact this.append_right _
        answered := hpoll.answered
        assigned := fun a ha => { hpoll.assigned a ha with
          popped := List.mem_append_left _ (hpoll.assigned a ha).popped }
        encoded := hpoll.encoded }

theorem Books.reject {id : RequestId} (h : s.Books owed (id :: held)) (error : String) :
    (s.commandRejected id error).Books owed held where
  tracker := h.tracker
  ledger := h.ledger
  counted := by
    show List.Perm _ ((s.calls ++ [CoreCall.rejected id error]).map CoreCall.id ++ _ ++ held)
    refine h.counted.trans ?_
    simp only [List.map_append, List.map_cons, List.map_nil, CoreCall.id, List.append_assoc,
      List.singleton_append]
    exact (List.perm_middle).append_left _
  answered := by
    intro id' completion hcall
    rcases List.mem_append.mp hcall with hcall | hcall
    · exact h.answered id' completion hcall
    · simp at hcall
  assigned := h.assigned
  encoded := h.encoded

/-! ## Completions -/

/-- Delivering the completion of a command settles the command. -/
theorem Books.deliver {session : UInt64} {done : CommandCompletion}
    (h : s.Books (finishTicket (session, done) :: owed) held) (hlog : .finish session done ∈ s.log) :
    (s.deliver done).Books owed held := by
  obtain ⟨id, hfind, a, ha, hid, hticket⟩ := h.ledger.lookup List.mem_cons_self
  change s.requests.find? done.seq = some id at hfind
  obtain ⟨hsession, hseq, htype⟩ : a.2.session = session ∧ a.2.seq = done.seq ∧
      a.2.type = done.type := by
    simpa [Command.ticket, finishTicket] using hticket
  unfold Reactor.deliver
  rw [hfind]
  constructor
  case tracker => exact h.tracker
  case ledger => exact h.ledger.settle
  case counted =>
    refine h.counted.trans ?_
    simp only [commandFinished, List.map_append, List.map_cons, List.map_nil, CoreCall.id]
    have hrequests := (KeyMap.toList_erase_perm hfind).map Prod.snd
    calc
      List.Perm (s.calls.map CoreCall.id ++ s.requests.toList.map Prod.snd ++ held)
          (s.calls.map CoreCall.id ++ (id :: (s.requests.erase done.seq).toList.map Prod.snd)
            ++ held) := (hrequests.append_left _).append_right _
      List.Perm _ (s.calls.map CoreCall.id ++ [id] ++
          (s.requests.erase done.seq).toList.map Prod.snd ++ held) := by simp
  case answered =>
    intro id' completion hcall
    rcases List.mem_append.mp hcall with hcall | hcall
    · exact h.answered id' completion hcall
    · obtain ⟨rfl, rfl⟩ : id' = id ∧ completion = done := by simpa using hcall
      exact ⟨a, ha, hid, hsession.symm ▸ hlog, hseq.symm, htype.symm⟩
  case assigned => exact h.assigned
  case encoded => exact h.encoded

@[simp] theorem deliver_tracker (s : Reactor) (done : CommandCompletion) :
    (s.deliver done).tracker = s.tracker := by
  unfold deliver
  cases s.requests.find? done.seq <;> rfl

@[simp] theorem deliver_log (s : Reactor) (done : CommandCompletion) :
    (s.deliver done).log = s.log := by
  unfold deliver
  cases s.requests.find? done.seq <;> rfl

/-- The books are behind by the completions of `actions`, which the tracker has returned. -/
structure Behind (s : Reactor) (session : UInt64) (actions : TrackerActions) : Prop where
  books : s.Books
    (actions.finished.map (fun done => finishTicket (session, done)) ++ s.tracker.inflight) []
  finished : ∀ done ∈ actions.finished, .finish session done ∈ s.log
  send : ∀ f ∈ actions.send, .send f ∈ s.log

/-- Delivering the completions brings the books up to date. -/
theorem Behind.deliver {session : UInt64} {actions : TrackerActions} (h : s.Behind session actions) :
    let s' := actions.finished.foldl Reactor.deliver s
    s'.Balanced ∧ ∀ f ∈ actions.send, .send f ∈ s'.log := by
  obtain ⟨sends, finished⟩ := actions
  induction finished generalizing s with
  | nil => exact ⟨h.books, h.send⟩
  | cons done rest ih =>
      have hdone : .finish session done ∈ s.log := h.finished done List.mem_cons_self
      apply ih
      exact {
        books := by
          rw [deliver_tracker]
          exact Books.deliver h.books hdone
        finished := by
          rw [deliver_log]
          exact fun d hd => h.finished d (List.mem_cons_of_mem _ hd)
        send := by
          rw [deliver_log]
          exact h.send }

/-- After a call of the tracker the books are behind by its completions. -/
theorem Balanced.advance {r : CommandTracker × TrackerActions} (call : TrackerCall)
    (h : s.Balanced) (hcall : s.tracker.call call = (r.1, r.2.events s.tracker.session)) :
    (s.advance r).Behind s.tracker.session r.2 := by
  have htracker : r.1.TrackerInv (s.log ++ r.2.events s.tracker.session) := by
    have := CommandTracker.trackerInv_call call h.tracker
    rwa [hcall] at this
  have hsettles : ((r.2.finished.map fun done => finishTicket (s.tracker.session, done)) ++
      r.1.inflight).Perm s.tracker.inflight := by
    have := CommandTracker.call_settles h.tracker.window call
    rw [hcall] at this
    simpa [CommandTracker.Settles, finishes_events, submits_events, Function.comp_def] using this
  refine { books := ?_, finished := ?_, send := ?_ }
  · exact {
      tracker := htracker
      ledger := h.ledger.perm hsettles.symm
      counted := h.counted
      answered := by
        intro id completion hmem
        obtain ⟨a, ha, hanswers⟩ := h.answered id completion hmem
        exact ⟨a, ha, { hanswers with finish := List.mem_append_left _ hanswers.finish }⟩
      assigned := fun a ha => { h.assigned a ha with
        submitted := by
          show a.2 ∈ submits (s.log ++ _)
          rw [submits_append]
          exact List.mem_append_left _ (h.assigned a ha).submitted }
      encoded := h.encoded }
  · intro done hdone
    exact List.mem_append_right _ (List.mem_append_left _ (List.mem_map_of_mem hdone))
  · intro f hf
    exact List.mem_append_right _ (List.mem_append_right _ (List.mem_map_of_mem hf))

/-! ## Commands -/

theorem inflight_distinct (t : CommandTracker) : (t.inflight.map fun k => k.2.1).Nodup := by
  rw [CommandTracker.inflight, List.map_map]
  exact t.entries.nodup_keys_toList

/-- The call of the tracker in `accept`. -/
def submitCall (d : Downlink) (now : TimePoint) : TrackerCall :=
  .submit d.command.type d.command.arg now

/-- The command a transmission that was accepted is the first one of. -/
def commandOf (d : Downlink) (send : CommandSend) : Command :=
  ⟨send.session, send.seq, d.command.type, d.command.arg⟩

theorem call_submitCall (s : Reactor) (d : Downlink) (now : TimePoint) :
    s.tracker.call (submitCall d now) = ((s.accept d now).1.tracker,
      submitEvents d.command.type d.command.arg now (s.accept d now).2) :=
  rfl

/-- A request the tracker does not take stays held. -/
theorem Books.accept_none {d : Downlink} (h : s.Books s.tracker.inflight held) (now : TimePoint)
    (hsend : (s.accept d now).2 = none) :
    (s.accept d now).1.Books (s.accept d now).1.tracker.inflight held := by
  have hcall := call_submitCall s d now
  rw [hsend] at hcall
  have htracker := CommandTracker.trackerInv_call (submitCall d now) h.tracker
  have hsettles := CommandTracker.call_settles h.tracker.window (submitCall d now)
  rw [hcall] at htracker hsettles
  change CommandTracker.TrackerInv _ (s.log ++ []) at htracker
  rw [List.append_nil] at htracker
  change List.Perm (s.accept d now).1.tracker.inflight (s.tracker.inflight ++ []) at hsettles
  rw [List.append_nil] at hsettles
  have heq : (s.accept d now).1 = { s with tracker := (s.accept d now).1.tracker } := by
    unfold accept at hsend ⊢
    dsimp only at hsend ⊢
    rw [hsend]
    simp [submitEvents]
  rw [heq]
  exact ⟨htracker, h.ledger.perm hsettles.symm, h.counted, h.answered, h.assigned, h.encoded⟩

section Accepted

variable {d : Downlink} {now : TimePoint} {send : CommandSend}

theorem accept_log (hsend : (s.accept d now).2 = some send) :
    (s.accept d now).1.log = s.log ++ [.submit (commandOf d send) now, .send send] := by
  unfold accept at hsend ⊢
  dsimp only at hsend ⊢
  rw [hsend]
  rfl

theorem accept_assigned (hsend : (s.accept d now).2 = some send) :
    (s.accept d now).1.assigned = s.assigned ++ [(d, commandOf d send)] := by
  unfold accept at hsend ⊢
  dsimp only at hsend ⊢
  rw [hsend]
  rfl

/-- One more command is in flight, under a number that was not in use. -/
theorem accept_owed (hw : s.tracker.WindowInv) (hsend : (s.accept d now).2 = some send) :
    ((commandOf d send).ticket :: s.tracker.inflight).Perm (s.accept d now).1.tracker.inflight ∧
      ∀ k ∈ s.tracker.inflight, k.2.1 ≠ send.seq := by
  have hcall := call_submitCall s d now
  have hsettles := CommandTracker.call_settles hw (submitCall d now)
  rw [hcall, hsend] at hsettles
  change List.Perm (s.accept d now).1.tracker.inflight
    (s.tracker.inflight ++ [(commandOf d send).ticket]) at hsettles
  have hperm := (List.perm_append_singleton _ _).symm.trans hsettles.symm
  refine ⟨hperm, ?_⟩
  -- the numbers in flight differ, also those after the call
  have hnodup := (hperm.map fun k => k.2.1).nodup_iff.mpr (inflight_distinct _)
  have hnot := (List.nodup_cons.mp hnodup).1
  intro k hk heq
  apply hnot
  show send.seq ∈ _
  rw [← heq]
  exact List.mem_map_of_mem (f := fun k : Ticket => k.2.1) hk

/-- A request the tracker takes is booked under the number of its command. -/
theorem Books.accept_some (h : s.Books s.tracker.inflight (d.id :: held)) (hd : d ∈ s.popped)
    (hsend : (s.accept d now).2 = some send) :
    let owner := (s.accept d now).1
    Books { owner with requests := owner.requests.emplace send.seq d.id }
      owner.tracker.inflight held := by
  obtain ⟨howed, hnew⟩ := accept_owed h.tracker.window hsend
  have hlog := accept_log hsend
  have hassigned := accept_assigned hsend
  have hold : ∀ a ∈ s.assigned, a ∈ (s.accept d now).1.assigned := by
    intro a ha
    rw [hassigned]
    exact List.mem_append_left _ ha
  have hsubmits : submits (s.accept d now).1.log = submits s.log ++ [commandOf d send] := by
    rw [hlog, submits_append]
    rfl
  refine { tracker := ?_, ledger := ?_, counted := ?_, answered := ?_, assigned := ?_,
           encoded := h.encoded }
  · have htracker := CommandTracker.trackerInv_call (submitCall d now) h.tracker
    rw [call_submitCall, hsend] at htracker
    show CommandTracker.TrackerInv _ (s.accept d now).1.log
    rw [hlog]
    exact htracker
  · have hledger : Ledger (fun k : Ticket => k.2.1) (AssignedTo (s.accept d now).1.assigned)
        s.requests s.tracker.inflight :=
      h.ledger.mono fun _ _ ⟨a, ha, heq⟩ => ⟨a, hold a ha, heq⟩
    have hrel : AssignedTo (s.accept d now).1.assigned d.id (commandOf d send).ticket :=
      ⟨(d, commandOf d send), by rw [hassigned]; simp, rfl, rfl⟩
    exact (hledger.book hnew hrel).perm howed
  · have hrequests :=
      (KeyMap.toList_emplace_perm (h.ledger.find?_eq_none hnew) d.id).map Prod.snd
    refine h.counted.trans ?_
    calc
      List.Perm (s.calls.map CoreCall.id ++ s.requests.toList.map Prod.snd ++ d.id :: held)
          (s.calls.map CoreCall.id ++ (d.id :: s.requests.toList.map Prod.snd) ++ held) := by
        simp only [List.append_assoc, List.cons_append]
        exact List.perm_middle.append_left _
      List.Perm _ (s.calls.map CoreCall.id ++
          (s.requests.emplace send.seq d.id).toList.map Prod.snd ++ held) :=
        (hrequests.symm.append_left _).append_right _
  · intro id completion hcall
    obtain ⟨a, ha, hanswers⟩ := h.answered id completion hcall
    refine ⟨a, hold a ha, { hanswers with finish := ?_ }⟩
    show _ ∈ (s.accept d now).1.log
    rw [hlog]
    exact List.mem_append_left _ hanswers.finish
  · intro a ha
    change a ∈ (s.accept d now).1.assigned at ha
    rw [hassigned, List.mem_append, List.mem_singleton] at ha
    rcases ha with ha | rfl
    · refine { h.assigned a ha with submitted := ?_ }
      show _ ∈ submits (s.accept d now).1.log
      rw [hsubmits]
      exact List.mem_append_left _ (h.assigned a ha).submitted
    · refine { popped := hd, submitted := ?_, type := rfl, args := rfl }
      show _ ∈ submits (s.accept d now).1.log
      rw [hsubmits]
      simp

end Accepted

/-! ## The end -/

theorem foldl_commandRejected (error : String) (ds : List Downlink) (s : Reactor) :
    ds.foldl (fun s d => s.commandRejected d.id error) s =
      { s with calls := s.calls ++ ds.map fun d => .rejected d.id error } := by
  induction ds generalizing s with
  | nil => simp
  | cons d rest ih =>
      rw [List.foldl_cons, ih]
      simp [commandRejected]

theorem foldl_commandFinished (completion : UInt8 → CommandCompletion)
    (requests : List (UInt8 × RequestId)) (s : Reactor) :
    requests.foldl (fun s request => s.commandFinished request.2 (completion request.1)) s =
      { s with
        calls := s.calls ++ requests.map fun request =>
          .finished request.2 (completion request.1) } := by
  induction requests generalizing s with
  | nil => simp
  | cons request rest ih =>
      rw [List.foldl_cons, ih]
      simp [commandFinished]

end Reactor

/-! ## The output side -/

namespace GatewayApp

theorem updateSerialWriteInterest_owner (s : GatewayApp) :
    ∃ out, (updateSerialWriteInterest s).owner = { s.owner with channel := out } := by
  unfold updateSerialWriteInterest
  cases s.owner.channel with
  | none => exact ⟨s.owner.channel, rfl⟩
  | some out =>
      dsimp only
      split_ifs
      · exact ⟨s.owner.channel, rfl⟩
      · exact ⟨_, rfl⟩

/-- A frame the tracker returned is queued; nothing else changes. -/
theorem queueTransmission_owner {send : CommandSend} (s : GatewayApp)
    (h : send.payload.length ≤ EDGE_PAYLOAD_MAX) : (queueTransmission send s).owner = s.owner := by
  obtain ⟨link, hlink⟩ := Option.isSome_iff_exists.mp
    (NodeLink.send_isSome send.type send s.link h)
  unfold queueTransmission queueTransmissionIn
  rw [hlink]

theorem queueTransmission_all {sends : List CommandSend} {s : GatewayApp}
    (h : ∀ f ∈ sends, f.payload.length ≤ EDGE_PAYLOAD_MAX) :
    (sends.foldl (fun s send => queueTransmission send s) s).owner = s.owner := by
  induction sends generalizing s with
  | nil => rfl
  | cons send rest ih =>
      rw [List.forall_mem_cons] at h
      rw [List.foldl_cons, ih h.2, queueTransmission_owner s h.1]

theorem balanced_update {s : GatewayApp} (h : s.owner.Balanced) :
    (updateSerialWriteInterest s).owner.Balanced := by
  obtain ⟨out, heq⟩ := updateSerialWriteInterest_owner s
  rw [heq]
  exact h.channel out

theorem balanced_apply {s : GatewayApp} {session : UInt64} {actions : TrackerActions}
    (h : s.owner.Behind session actions) :
    (applyTrackerActions queueTransmission actions s).owner.Balanced := by
  obtain ⟨hbalanced, hsend⟩ := h.deliver
  unfold applyTrackerActions
  apply balanced_update
  rw [queueTransmission_all fun f hf => hbalanced.tracker.record.sent_length f (hsend f hf)]
  exact hbalanced

theorem balanced_complete (send : CommandSend) (sent : Bool) (s : GatewayApp)
    (h : s.owner.Balanced) : (complete queueTransmission send sent s).owner.Balanced :=
  balanced_apply (h.now.advance (.onWritten send sent _) rfl)

/-! ## Events -/

theorem balanced_timer {s : GatewayApp} (h : s.owner.Balanced) :
    s.onCommandTimerEvent.owner.Balanced :=
  balanced_apply (h.now.advance (.tick _) rfl)

theorem balanced_dispatch {s : GatewayApp} (h : s.owner.Balanced) (frame : Frame) :
    (s.dispatchFrame frame).owner.Balanced := by
  unfold dispatchFrame
  split_ifs
  · exact balanced_apply (h.now.advance (.onFrame frame.type frame.payload _) rfl)
  · exact h

theorem balanced_serial {s : GatewayApp} (h : s.owner.Balanced) (frames : List Frame) :
    (s.onSerialEvent frames).owner.Balanced :=
  List.foldlRecOn (motive := fun s : GatewayApp => s.owner.Balanced) frames dispatchFrame h
    fun _ hs frame _ => balanced_dispatch hs frame

theorem balanced_writable {s : GatewayApp} (h : s.owner.Balanced) (turns : List WriteResult) :
    (s.onSerialWriteEvent turns).owner.Balanced := by
  have hflush : (flushOutput hooks turns s).1.owner.Balanced :=
    flushOutput_owner (fun _ _ h => h.now) balanced_complete turns h
  exact balanced_update hflush

theorem balanced_replace {s : GatewayApp} (h : s.owner.Balanced) (activates : Bool) :
    (s.replaceSerial activates).owner.Balanced := by
  unfold replaceSerial
  dsimp only
  split_ifs
  · exact h.channel _
  · apply balanced_apply
    have hbehind := (h.channel none).now.advance
      (.start s.owner.tracker.session (s.owner.clock 0)) rfl
    exact ⟨hbehind.books.channel _, hbehind.finished, hbehind.send⟩

theorem balanced_first {s : GatewayApp} (h : s.owner.Balanced) (epoch : Int) :
    (s.startFirst epoch).owner.Balanced := by
  unfold startFirst
  dsimp only
  split_ifs
  · exact balanced_apply
      (h.poll.now.advance (.start (epochSession epoch) _) rfl)
  · exact h.poll

/-- A request that was popped is booked, or rejected at once. -/
theorem balanced_submit {s : GatewayApp} {d : Downlink}
    (h : s.owner.Books s.owner.tracker.inflight [d.id]) (hd : d ∈ s.owner.popped) :
    (submitDownlink s d).owner.Balanced := by
  unfold submitDownlink
  dsimp only
  cases hsend : (s.now.2.owner.accept d s.now.1).2 with
  | none => exact (h.now.accept_none s.now.1 hsend).reject _
  | some send =>
      have hbooks := h.now.accept_some hd hsend
      dsimp only
      rw [queueTransmission_owner]
      · exact hbooks
      · refine hbooks.tracker.record.sent_length send ?_
        show _ ∈ (s.now.2.owner.accept d s.now.1).1.log
        rw [Reactor.accept_log hsend]
        simp

theorem balanced_loop (n : Nat) {s : GatewayApp} (h : s.owner.Balanced) :
    (downlinkLoop n s).owner.Balanced := by
  induction n generalizing s with
  | zero => exact h
  | succ n ih =>
      have hpoll := h.poll
      unfold downlinkLoop
      dsimp only
      split_ifs
      · exact hpoll
      · cases hpop : s.owner.poll.tryPop with
        | none => exact hpoll
        | some popped => exact ih ((hpoll.tryPop hpop).1.reject _)
      · exact hpoll
      · cases hpop : s.owner.poll.tryPop with
        | none => exact hpoll
        | some popped =>
            obtain ⟨hbooks, hd⟩ := hpoll.tryPop hpop
            exact ih (balanced_submit hbooks hd)

theorem balanced_downlink {s : GatewayApp} (h : s.owner.Balanced) (stopping : Bool)
    (replacements : List Bool) (epoch : Int) :
    (s.onDownlinkEvent stopping replacements epoch).owner.Balanced := by
  unfold onDownlinkEvent
  split_ifs
  · exact h
  · have hreplaced : (replacements.foldl replaceSerial s).owner.Balanced :=
      List.foldlRecOn (motive := fun s : GatewayApp => s.owner.Balanced) replacements replaceSerial
        h fun _ hs activates _ => balanced_replace hs activates
    exact balanced_update (balanced_loop _ (balanced_first hreplaced epoch))

/-- **The books balance at every boundary of an event.** -/
theorem balanced_run (clock : Nat → TimePoint) (arrivals : Nat → List Downlink)
    (events : List AppEvent) : ((init clock arrivals).runEvents events).owner.Balanced := by
  refine List.foldlRecOn (motive := fun s : GatewayApp => s.owner.Balanced) events handle
    ((Reactor.balanced_init clock arrivals).channel _) ?_
  intro s hs event _
  cases event with
  | downlink stopping replacements epoch => exact balanced_downlink hs stopping replacements epoch
  | timer => exact balanced_timer hs
  | serial frames => exact balanced_serial hs frames
  | writable turns => exact balanced_writable hs turns

/-! ## Results -/

/-- What the shutdown adds to the calls, with the requests `queue` that still waited. -/
def lastCalls (queue : List Downlink) (requests : KeyMap UInt8 RequestId) : List CoreCall :=
  queue.map (fun d => .rejected d.id "gateway_shutdown") ++
    requests.toList.map fun request => .finished request.2 ⟨request.1, 0, [], "gateway_shutdown"⟩

theorem shutdown_owner (s : GatewayApp) : ∃ queue,
    s.shutdown.owner.popped = s.owner.popped ++ queue ∧
      s.shutdown.owner.calls = s.owner.calls ++ lastCalls queue s.owner.requests ∧
      s.shutdown.owner.requests = KeyMap.empty ∧
      s.shutdown.owner.encodingFailures = s.owner.encodingFailures := by
  obtain ⟨queue, hpoll⟩ := Reactor.poll_eq s.owner
  refine ⟨queue, ?_⟩
  unfold shutdown lastCalls
  dsimp only
  rw [Reactor.foldl_commandRejected,
    Reactor.foldl_commandFinished fun seq => ⟨seq, 0, [], "gateway_shutdown"⟩, hpoll]
  exact ⟨rfl, List.append_assoc _ _ _, rfl, rfl⟩

/-- A completion handed over at the end names a command in flight. -/
theorem shutdown_completion {s : Reactor} (h : s.Balanced) {request : UInt8 × RequestId}
    (hmem : request ∈ s.requests.toList) : ∃ a ∈ s.assigned, Assigned s.popped s.log a ∧
      a.1.id = request.2 ∧ a.2.seq = request.1 ∧ a.2.ticket ∈ s.tracker.inflight := by
  obtain ⟨k, hk, hseq, a, ha, hid, hticket⟩ :=
    h.ledger.owner request.1 request.2 (KeyMap.mem_toList.mp hmem)
  refine ⟨a, ha, h.assigned a ha, hid, ?_, hticket ▸ hk⟩
  rw [← hseq, ← hticket]
  rfl

/-- **The reactor keeps book of every request.** After any events: the request map has exactly the
numbers in flight; every request popped has one answer or is booked, and after the shutdown every
one has one answer; a completion handed over by the loop is the tracker's, of the command submitted
for its id, one handed over by the shutdown names a command in flight; no frame fails to encode. -/
theorem reactor_keeps_book (clock : Nat → TimePoint) (arrivals : Nat → List Downlink)
    (events : List AppEvent) :
    let app := (init clock arrivals).runEvents events
    let s := app.owner
    let e := app.shutdown.owner
    ((∀ seq, (s.requests.find? seq).isSome = (s.tracker.entries.find? seq).isSome) ∧
      e.requests = KeyMap.empty) ∧
    ((s.popped.map Downlink.id).Perm (s.calls.map CoreCall.id ++ s.requests.toList.map Prod.snd) ∧
      (e.popped.map Downlink.id).Perm (e.calls.map CoreCall.id)) ∧
    (∀ id completion, .finished id completion ∈ s.calls →
      ∃ a ∈ s.assigned, Assigned s.popped s.log a ∧ Answers s.log a id completion) ∧
    (∃ last, e.calls = s.calls ++ last ∧ ∀ id completion, .finished id completion ∈ last →
      ∃ a ∈ s.assigned, Assigned s.popped s.log a ∧ a.1.id = id ∧
        a.2.ticket ∈ s.tracker.inflight ∧ completion = ⟨a.2.seq, 0, [], "gateway_shutdown"⟩) ∧
    s.encodingFailures = 0 ∧ e.encodingFailures = 0 := by
  intro app s e
  have h : s.Balanced := balanced_run clock arrivals events
  obtain ⟨queue, hpopped, hcalls, hrequests, hencoded⟩ := shutdown_owner app
  refine ⟨⟨?_, hrequests⟩, ⟨?_, ?_⟩, ?_, ⟨_, hcalls, ?_⟩, h.encoded, hencoded.trans h.encoded⟩
  · intro seq
    rw [Bool.eq_iff_iff, h.ledger.keys seq, Option.isSome_iff_exists]
    simp [CommandTracker.inflight, KeyMap.mem_toList]
  · simpa using h.counted
  · have hcounted := h.counted
    rw [List.append_nil] at hcounted
    show List.Perm (app.shutdown.owner.popped.map _) (app.shutdown.owner.calls.map _)
    rw [hpopped, hcalls]
    simp only [lastCalls, List.map_append, List.map_map, Function.comp_def, CoreCall.id]
    calc
      List.Perm (s.popped.map Downlink.id ++ queue.map Downlink.id)
          (s.calls.map CoreCall.id ++ s.requests.toList.map Prod.snd ++ queue.map Downlink.id) :=
        hcounted.append_right _
      List.Perm _ (s.calls.map CoreCall.id ++ (queue.map Downlink.id ++
          s.requests.toList.map Prod.snd)) := by
        rw [List.append_assoc]
        exact List.perm_append_comm.append_left _
  · intro id completion hcall
    obtain ⟨a, ha, hanswers⟩ := h.answered id completion hcall
    exact ⟨a, ha, h.assigned a ha, hanswers⟩
  · intro id completion hmem
    rcases List.mem_append.mp hmem with hmem | hmem
    · obtain ⟨d, -, heq⟩ := List.mem_map.mp hmem
      cases heq
    · obtain ⟨request, hrequest, heq⟩ := List.mem_map.mp hmem
      obtain ⟨rfl, rfl⟩ := CoreCall.finished.inj heq
      obtain ⟨a, ha, hassigned, hid, hseq, hinflight⟩ := shutdown_completion h hrequest
      exact ⟨a, ha, hassigned, hid, hinflight, by rw [hseq]⟩

/-- **After the shutdown the map is behind the tracker**, which is not told: here one query is in
flight. -/
theorem requests_behind_after_shutdown :
    ¬ ∀ (clock : Nat → TimePoint) (arrivals : Nat → List Downlink) (events : List AppEvent),
      let e := ((init clock arrivals).runEvents events).shutdown.owner
      ∀ seq, (e.requests.find? seq).isSome = (e.tracker.entries.find? seq).isSome := by
  intro h
  have hseq := h (fun _ => 0) (fun n => if n = 0 then [⟨7, ⟨EDGE_TYPE_QUERY_LIGHT, []⟩⟩] else [])
    [.downlink false [] 1, .writable [.accepted 64],
      .serial [⟨EDGE_TYPE_SR_OPEN_ACK, openAckPayload 1 1 EDGE_RC_OK⟩], .downlink false [] 1] 0
  exact absurd hseq (by decide +kernel)

end GatewayApp

end EdgeGateway
