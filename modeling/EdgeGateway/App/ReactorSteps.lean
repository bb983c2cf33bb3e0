import EdgeGateway.App.SerialOutput
import EdgeGateway.Protocol.SrHooks

set_option autoImplicit false

/-! # The steps of the reactor

Whatever the reactor does with its tracker, its queue and its book is a run of small steps: a call
of the tracker whose completions are delivered at once, a look at the queue, a command taken from it
that is accepted or rejected. What holds along such runs holds over every event; and the frames that
are queued are those the calls have returned.
-/

namespace EdgeGateway

open GatewayApp

/-- The calls of the tracker besides `submit`. `F` says which frames may come in; a session is
started when there is none, or where `R` allows it. -/
def Allowed (F : UInt8 → List UInt8 → Prop) (R : Prop) (t : CommandTracker) : TrackerCall → Prop
  | .start _ _ => t.state = .closed ∨ R
  | .submit _ _ _ => False
  | .onFrame type p _ => F type p
  | .onWritten _ _ _ => True
  | .tick _ => True

/-- A step of the reactor. -/
inductive Reactor.Step (F : UInt8 → List UInt8 → Prop) (R : Prop) : Reactor → Reactor → Prop
  /-- The clock is read. -/
  | now (s : Reactor) : Step F R s s.now.2
  | channel (s : Reactor) (out : Option Bool) : Step F R s { s with channel := out }
  | unencoded (s : Reactor) : Step F R s { s with encodingFailures := s.encodingFailures + 1 }
  | poll (s : Reactor) : Step F R s s.poll
  /-- A command is popped and rejected. -/
  | rejected (s owner : Reactor) (d : Downlink) (hpop : s.tryPop = some (d, owner)) :
      Step F R s (owner.commandRejected d.id "link_failed")
  /-- A command is popped, but the tracker does not take it. -/
  | refused (s owner : Reactor) (d : Downlink) (hpop : s.tryPop = some (d, owner))
      (hsend : (owner.now.2.accept d owner.now.1).2 = none) :
      Step F R s ((owner.now.2.accept d owner.now.1).1.commandRejected d.id "link_failed")
  /-- A command is popped, the tracker takes it, and the request is booked. -/
  | accepted (s owner : Reactor) (d : Downlink) (hpop : s.tryPop = some (d, owner))
      (send : CommandSend) (hsend : (owner.now.2.accept d owner.now.1).2 = some send) :
      Step F R s { (owner.now.2.accept d owner.now.1).1 with
        requests := (owner.now.2.accept d owner.now.1).1.requests.emplace send.seq d.id }
  /-- A call of the tracker, and its completions. -/
  | called (s : Reactor) (call : TrackerCall) (hallowed : Allowed F R s.tracker call)
      (r : CommandTracker × TrackerActions)
      (hcall : s.tracker.call call = (r.1, r.2.events s.tracker.session)) :
      Step F R s (r.2.finished.foldl Reactor.deliver (s.advance r))

abbrev Reactor.Run (F : UInt8 → List UInt8 → Prop) (R : Prop) : Reactor → Reactor → Prop :=
  Relation.ReflTransGen (Reactor.Step F R)

/-! ## The calls of the tracker -/

/-- A call of the tracker; if it brings a frame, `F` allows it. -/
def Called (F : UInt8 → List UInt8 → Prop) (t : CommandTracker) (es : List TrackerEvent)
    (t' : CommandTracker) : Prop :=
  ∃ call : TrackerCall, (∀ type p, call.frame = some (type, p) → F type p) ∧
    t.call call = (t', es)

namespace Reactor

variable {F : UInt8 → List UInt8 → Prop} {R : Prop} {s s' : Reactor}

/-- A command is popped behind those popped before. -/
theorem tryPop_eq_some {d : Downlink} (h : s.tryPop = some (d, s')) :
    ∃ rest, s.poll.cmdQueue = d :: rest ∧
      s' = { s.poll with cmdQueue := rest, popped := s.poll.popped ++ [d] } := by
  unfold tryPop at h
  cases hqueue : s.poll.cmdQueue with
  | nil =>
      rw [hqueue] at h
      cases h
  | cons d' rest =>
      rw [hqueue] at h
      obtain ⟨rfl, rfl⟩ := Prod.mk.inj (Option.some.inj h)
      exact ⟨rest, rfl, rfl⟩

theorem tryPop_tracker {d : Downlink} (h : s.tryPop = some (d, s')) :
    s'.tracker = s.tracker ∧ s'.log = s.log := by
  obtain ⟨queue, heq⟩ := poll_eq s
  obtain ⟨rest, -, rfl⟩ := tryPop_eq_some h
  rw [heq]
  exact ⟨rfl, rfl⟩

theorem deliver_all (finished : List CommandCompletion) (s : Reactor) :
    (finished.foldl deliver s).tracker = s.tracker ∧ (finished.foldl deliver s).log = s.log := by
  refine List.foldlRecOn
    (motive := fun r : Reactor => r.tracker = s.tracker ∧ r.log = s.log) finished _ ⟨rfl, rfl⟩ ?_
  intro r hr done _
  exact ⟨(deliver_tracker r done).trans hr.1, (deliver_log r done).trans hr.2⟩

/-- A step calls the tracker once, or not at all. -/
theorem Step.calls (h : Step F R s s') :
    ∃ es, Steps (Called F) s.tracker es s'.tracker ∧ s'.log = s.log ++ es := by
  have hquiet : s'.tracker = s.tracker ∧ s'.log = s.log →
      ∃ es, Steps (Called F) s.tracker es s'.tracker ∧ s'.log = s.log ++ es := fun hsame =>
    ⟨[], hsame.1 ▸ Steps.refl _, hsame.2.trans (List.append_nil _).symm⟩
  have haccept : ∀ (owner : Reactor) (d : Downlink) (now : TimePoint),
      s.tryPop = some (d, owner) → ∃ es, Called F s.tracker es (owner.accept d now).1.tracker ∧
        (owner.accept d now).1.log = s.log ++ es := by
    intro owner d now hpop
    obtain ⟨htracker, hlog⟩ := tryPop_tracker hpop
    refine ⟨_, ⟨submitCall d now, (fun _ _ hframe => by cases hframe), ?_⟩, congrArg (· ++ _) hlog⟩
    rw [← htracker]
    rfl
  cases h with
  | poll =>
      obtain ⟨queue, heq⟩ := poll_eq s
      rw [heq] at hquiet ⊢
      exact hquiet ⟨rfl, rfl⟩
  | rejected owner d hpop =>
      obtain ⟨htracker, hlog⟩ := tryPop_tracker hpop
      exact hquiet ⟨htracker, hlog⟩
  | refused owner d hpop =>
      obtain ⟨es, hcalled, hlog⟩ := haccept owner d owner.now.1 hpop
      exact ⟨es, Steps.single hcalled, hlog⟩
  | accepted owner d hpop =>
      obtain ⟨es, hcalled, hlog⟩ := haccept owner d owner.now.1 hpop
      exact ⟨es, Steps.single hcalled, hlog⟩
  | called call hallowed r hcall =>
      obtain ⟨htracker, hlog⟩ := deliver_all r.2.finished (s.advance r)
      rw [htracker, hlog]
      refine ⟨_, Steps.single ⟨call, ?_, hcall⟩, rfl⟩
      intro type p hframe
      cases call with
      | onFrame =>
          obtain ⟨rfl, rfl⟩ := Prod.mk.inj (Option.some.inj hframe)
          exact hallowed
      | _ => cases hframe
  | _ => exact hquiet ⟨rfl, rfl⟩

theorem Run.calls (h : Run F R s s') :
    ∃ es, Steps (Called F) s.tracker es s'.tracker ∧ s'.log = s.log ++ es := by
  induction h with
  | refl => exact ⟨[], Steps.refl _, (List.append_nil _).symm⟩
  | tail _ hstep ih =>
      obtain ⟨es, hsteps, hlog⟩ := ih
      obtain ⟨es', hsteps', hlog'⟩ := hstep.calls
      exact ⟨es ++ es', hsteps.trans hsteps', by rw [hlog', hlog, List.append_assoc]⟩

theorem Run.sent (h : Run F R s s') {send : CommandSend} (hsend : .send send ∈ s.log) :
    .send send ∈ s'.log := by
  obtain ⟨es, -, hlog⟩ := h.calls
  rw [hlog]
  exact List.mem_append_left _ hsend

end Reactor

/-! ## What the reactor queues -/

/-- From `s` to `s'` the reactor has made its steps, and has queued frames of its tracker. -/
structure Follows (F : UInt8 → List UInt8 → Prop) (R : Prop) (s s' : GatewayApp) : Prop where
  run : Reactor.Run F R s.owner s'.owner
  trace : ∃ events, s'.link.trace = s.link.trace ++ events ∧ ∀ frame send,
    .queued frame send ∈ events →
      .send send ∈ s'.owner.log ∧ frame = buildFrame send.type send.payload

namespace Follows

variable {F : UInt8 → List UInt8 → Prop} {R : Prop} {s s' s'' : GatewayApp}

theorem sent (h : Follows F R s s') {send : CommandSend} (hsend : .send send ∈ s.owner.log) :
    .send send ∈ s'.owner.log :=
  h.run.sent hsend

theorem refl (s : GatewayApp) : Follows F R s s where
  run := .refl
  trace := ⟨[], (List.append_nil _).symm, fun _ _ h => by cases h⟩

theorem trans (h : Follows F R s s') (h' : Follows F R s' s'') : Follows F R s s'' := by
  obtain ⟨events, htrace, hqueued⟩ := h.trace
  obtain ⟨events', htrace', hqueued'⟩ := h'.trace
  refine ⟨h.run.trans h'.run, events ++ events', ?_, fun frame send hmem => ?_⟩
  · rw [htrace', htrace, List.append_assoc]
  · rcases List.mem_append.mp hmem with hmem | hmem
    · obtain ⟨hsend, hframe⟩ := hqueued frame send hmem
      exact ⟨h'.sent hsend, hframe⟩
    · exact hqueued' frame send hmem

/-- A step of the reactor that leaves the link alone. -/
theorem step {owner : Reactor} (h : Reactor.Step F R s.owner owner) :
    Follows F R s { s with owner := owner } where
  run := .single h
  trace := ⟨[], (List.append_nil _).symm, fun _ _ h => by cases h⟩

/-- The link changes, and nothing but new frames is recorded. -/
theorem link {link : NodeLink CommandSend} (events : List (LinkEvent CommandSend))
    (htrace : link.trace = s.link.trace ++ events)
    (hqueued : ∀ frame send, .queued frame send ∉ events) : Follows F R s { s with link := link } where
  run := .refl
  trace := ⟨events, htrace, fun frame send h => absurd h (hqueued frame send)⟩

theorem setOutput (s : GatewayApp) (output : List (PendingWrite CommandSend)) :
    Follows F R s (s.setOutput output) :=
  .link [] (List.append_nil _).symm fun _ _ h => by cases h

theorem record (s : GatewayApp) {e : LinkEvent CommandSend}
    (he : ∀ frame send, e ≠ .queued frame send) : Follows F R s (s.record e) :=
  .link [e] rfl fun frame send h => he frame send (List.mem_singleton.mp h).symm

end Follows

namespace GatewayApp

variable {F : UInt8 → List UInt8 → Prop} {R : Prop}

theorem follows_now (s : GatewayApp) : Follows F R s s.now.2 := .step (.now s.owner)

theorem follows_update (s : GatewayApp) : Follows F R s (updateSerialWriteInterest s) := by
  unfold updateSerialWriteInterest
  cases s.owner.channel with
  | none => exact .refl s
  | some out =>
      dsimp only
      split_ifs
      · exact .refl s
      · exact (Follows.record (e := .armed s.link.hasPendingOutput) s fun _ _ h => by cases h).trans
          (.step (.channel _ _))

/-! ## Actions of the tracker -/

theorem follows_sends {queue : CommandSend → GatewayApp → GatewayApp}
    (hqueue : ∀ send s, .send send ∈ s.owner.log → Follows F R s (queue send s))
    (sends : List CommandSend) : ∀ s : GatewayApp, (∀ send ∈ sends, .send send ∈ s.owner.log) →
      Follows F R s (sends.foldl (fun s send => queue send s) s) := by
  induction sends with
  | nil => exact fun s _ => .refl s
  | cons send rest ih =>
      intro s hlog
      have hfirst := hqueue send s (hlog send List.mem_cons_self)
      refine hfirst.trans (ih _ fun f hf => ?_)
      exact hfirst.sent (hlog f (List.mem_cons_of_mem _ hf))

/-- The frames of the actions, once the completions are delivered. -/
theorem follows_actions {queue : CommandSend → GatewayApp → GatewayApp}
    (hqueue : ∀ send s, .send send ∈ s.owner.log → Follows F R s (queue send s))
    (actions : TrackerActions) (s : GatewayApp)
    (hlog : ∀ send ∈ actions.send, .send send ∈ s.owner.log) :
    Follows F R { s with owner := actions.finished.foldl Reactor.deliver s.owner }
      (applyTrackerActions queue actions s) := by
  refine (follows_sends hqueue actions.send _ fun send hsend => ?_).trans (follows_update _)
  rw [(Reactor.deliver_all actions.finished s.owner).2]
  exact hlog send hsend

/-- A call of the tracker, with its actions. -/
theorem follows_call {queue : CommandSend → GatewayApp → GatewayApp}
    (hqueue : ∀ send s, .send send ∈ s.owner.log → Follows F R s (queue send s))
    (call : TrackerCall) (s : GatewayApp) (hallowed : Allowed F R s.owner.tracker call)
    {r : CommandTracker × TrackerActions}
    (hcall : s.owner.tracker.call call = (r.1, r.2.events s.owner.tracker.session)) :
    Follows F R s (applyTrackerActions queue r.2 { s with owner := s.owner.advance r }) := by
  have hcalled : Follows F R s
      { s with owner := r.2.finished.foldl Reactor.deliver (s.owner.advance r) } :=
    .step (.called s.owner call hallowed r hcall)
  refine hcalled.trans (follows_actions hqueue r.2 { s with owner := s.owner.advance r }
    fun send hsend => ?_)
  exact List.mem_append_right _ (List.mem_append_right _ (List.mem_map_of_mem hsend))

theorem follows_complete {queue : CommandSend → GatewayApp → GatewayApp}
    (hqueue : ∀ send s, .send send ∈ s.owner.log → Follows F R s (queue send s))
    (send : CommandSend) (sent : Bool) (s : GatewayApp) :
    Follows F R s (complete queue send sent s) :=
  (follows_now s).trans (follows_call hqueue (.onWritten send sent s.now.1) _ trivial rfl)

theorem follows_queueIn (rounds : Nat) : ∀ (send : CommandSend) (s : GatewayApp),
    .send send ∈ s.owner.log → Follows F R s (queueTransmissionIn rounds send s) := by
  induction rounds with
  | zero => exact fun _ s _ => .refl s
  | succ rounds ih =>
      intro send s hlog
      unfold queueTransmissionIn
      cases hsend : s.link.send send.type send.payload send with
      | some link =>
          obtain ⟨-, -, htrace⟩ := NodeLink.send_eq_some hsend
          refine ⟨.refl, _, htrace, fun frame tag hmem => ?_⟩
          obtain ⟨rfl, rfl⟩ := LinkEvent.queued.inj (List.mem_singleton.mp hmem)
          exact ⟨hlog, rfl⟩
      | none => exact (Follows.step (.unencoded s.owner)).trans (follows_complete ih send false _)

theorem follows_queue (send : CommandSend) (s : GatewayApp) (hlog : .send send ∈ s.owner.log) :
    Follows F R s (queueTransmission send s) :=
  follows_queueIn 3 send s hlog

/-! ## Events -/

/-- The tracker after the tick of a timer event. -/
def ticked (s : GatewayApp) : GatewayApp :=
  let r := s.owner.tracker.tick (s.owner.clock 0)
  { s with owner := r.2.finished.foldl Reactor.deliver (s.owner.now.2.advance r) }

theorem follows_ticked (s : GatewayApp) : Follows F R s s.ticked :=
  (follows_now s).trans (.step (.called _ (.tick s.now.1) trivial _ rfl))

/-- A timer event is its tick, and the frames that come from it. -/
theorem follows_tick (s : GatewayApp) : Follows F R s.ticked s.onCommandTimerEvent :=
  let r := s.owner.tracker.tick (s.owner.clock 0)
  follows_actions follows_queue r.2 { s with owner := s.owner.now.2.advance r } fun _ hsend =>
    List.mem_append_right _ (List.mem_append_right _ (List.mem_map_of_mem hsend))

theorem follows_timer (s : GatewayApp) : Follows F R s s.onCommandTimerEvent :=
  (follows_ticked s).trans (follows_tick s)

theorem follows_dispatch (s : GatewayApp) (frame : Frame)
    (hF : srUplink frame.type = true → F frame.type frame.payload) :
    Follows F R s (s.dispatchFrame frame) := by
  unfold dispatchFrame
  split_ifs with hsr
  · exact (follows_now s).trans (follows_call follows_queue
      (.onFrame frame.type frame.payload s.now.1) _ (hF (decide_eq_true hsr)) rfl)
  · exact .refl s

theorem follows_serial (frames : List Frame) : ∀ s : GatewayApp,
    (∀ f ∈ frames, srUplink f.type = true → F f.type f.payload) →
      Follows F R s (s.onSerialEvent frames) := by
  induction frames with
  | nil => exact fun s _ => .refl s
  | cons frame rest ih =>
      intro s hF
      exact (follows_dispatch s frame (hF frame List.mem_cons_self)).trans
        (ih _ fun f hf => hF f (List.mem_cons_of_mem _ hf))

theorem follows_first (s : GatewayApp) (epoch : Int) : Follows F R s (s.startFirst epoch) := by
  have hpolled : Follows F R s { s with owner := s.owner.poll } := .step (.poll s.owner)
  refine hpolled.trans ?_
  unfold startFirst
  dsimp only
  split_ifs with hclosed
  · exact (follows_now _).trans
      (follows_call follows_queue (.start (epochSession epoch) _) _ (.inl hclosed.2) rfl)
  · exact .refl _

/-- The reactor after the call that starts the first session. -/
def started (s : GatewayApp) (epoch : Int) : GatewayApp :=
  let r := s.owner.poll.tracker.start (epochSession epoch) (s.owner.poll.clock 0)
  { s with owner := r.2.finished.foldl Reactor.deliver (s.owner.poll.now.2.advance r) }

theorem follows_start {s : GatewayApp} (epoch : Int) (hqueue : s.owner.poll.cmdQueue ≠ [])
    (hclosed : s.owner.tracker.state = .closed) :
    Follows F R s (s.started epoch) ∧ Follows F R (s.started epoch) (s.startFirst epoch) := by
  have hpolled : s.owner.poll.tracker.state = .closed := by
    rw [Reactor.poll_tracker]
    exact hclosed
  let r := s.owner.poll.tracker.start (epochSession epoch) (s.owner.poll.clock 0)
  constructor
  · have hread : Follows F R s { s with owner := s.owner.poll.now.2 } :=
      (Follows.step (.poll s.owner)).trans (.step (.now s.owner.poll))
    exact hread.trans (.step (.called s.owner.poll.now.2
      (.start (epochSession epoch) (s.owner.poll.clock 0)) (.inl hpolled) r rfl))
  · unfold startFirst
    dsimp only
    rw [if_pos ⟨hqueue, hpolled⟩]
    exact follows_actions follows_queue r.2 { s with owner := s.owner.poll.now.2.advance r }
      fun _ hsend => List.mem_append_right _ (List.mem_append_right _ (List.mem_map_of_mem hsend))

/-- A command is popped and submitted. -/
theorem follows_submit {s : GatewayApp} {d : Downlink} {owner : Reactor}
    (hpop : s.owner.tryPop = some (d, owner)) :
    Follows F R s (submitDownlink { s with owner := owner } d) := by
  unfold submitDownlink now
  dsimp only
  cases hsend : (owner.now.2.accept d owner.now.1).2 with
  | none => exact .step (.refused s.owner owner d hpop hsend)
  | some send =>
      have hlog : .send send ∈ (owner.now.2.accept d owner.now.1).1.log := by
        rw [Reactor.accept_log hsend]
        simp
      have hbooked : Follows F R s { s with owner := { (owner.now.2.accept d owner.now.1).1 with
          requests := (owner.now.2.accept d owner.now.1).1.requests.emplace send.seq d.id } } :=
        .step (.accepted s.owner owner d hpop send hsend)
      exact hbooked.trans (follows_queue send _ hlog)

theorem follows_loop (n : Nat) : ∀ s : GatewayApp, Follows F R s (downlinkLoop n s) := by
  induction n with
  | zero => exact fun s => .refl s
  | succ n ih =>
      intro s
      have hpolled : Follows F R s { s with owner := s.owner.poll } := .step (.poll s.owner)
      refine hpolled.trans ?_
      unfold downlinkLoop
      dsimp only
      split_ifs
      · exact .refl _
      · cases hpop : s.owner.poll.tryPop with
        | none => exact .refl _
        | some popped => exact Follows.trans (.step (.rejected s.owner.poll popped.2 popped.1 hpop)) (ih _)
      · exact .refl _
      · cases hpop : s.owner.poll.tryPop with
        | none => exact .refl _
        | some popped => exact Follows.trans (follows_submit hpop) (ih _)

/-- The downlink event once the links that wait were taken. -/
theorem follows_served (s : GatewayApp) (epoch : Int) :
    Follows F R s (updateSerialWriteInterest (downlinkLoop kDownlinkBatchSize (s.startFirst epoch))) :=
  ((follows_first s epoch).trans (follows_loop _ _)).trans (follows_update _)

theorem follows_downlink (s : GatewayApp) (stopping : Bool) (epoch : Int) :
    Follows F R s (s.onDownlinkEvent stopping [] epoch) := by
  unfold onDownlinkEvent
  split_ifs
  · exact .refl s
  · exact follows_served s epoch

/-- A link is replaced: the steps of the reactor, with a new session. -/
theorem run_replace (s : GatewayApp) (activates : Bool) (hR : R) :
    Reactor.Run F R s.owner (s.replaceSerial activates).owner := by
  unfold replaceSerial
  dsimp only
  have hdropped : Reactor.Run F R s.owner { s.owner with channel := none } :=
    .single (.channel s.owner none)
  split_ifs
  · exact hdropped.tail (.channel _ _)
  · let owner : Reactor := { s.owner with channel := some false }
    let r := s.owner.tracker.start s.owner.tracker.session (s.owner.clock 0)
    -- the channel of the new link is registered before the tracker is called
    have hread : Reactor.Run F R s.owner owner.now.2 :=
      (Relation.ReflTransGen.single (.channel s.owner (some false))).tail (.now owner)
    let fresh : GatewayApp := { link := { output := [], trace := [.armed false] }, owner := owner.now.2 }
    have hcalled : Follows F R fresh
        (applyTrackerActions queueTransmission r.2 { fresh with owner := fresh.owner.advance r }) :=
      follows_call follows_queue (.start s.owner.tracker.session (s.owner.clock 0)) fresh (.inr hR) rfl
    exact hread.trans hcalled.run

theorem run_downlink (s : GatewayApp) (stopping : Bool) (replacements : List Bool) (epoch : Int)
    (hR : R) : Reactor.Run F R s.owner (s.onDownlinkEvent stopping replacements epoch).owner := by
  unfold onDownlinkEvent
  split_ifs
  · exact .refl
  · have hreplaced : Reactor.Run F R s.owner (replacements.foldl replaceSerial s).owner :=
      List.foldlRecOn (motive := fun u : GatewayApp => Reactor.Run F R s.owner u.owner) replacements
        replaceSerial .refl fun u hu activates _ => hu.trans (run_replace u activates hR)
    exact hreplaced.trans (follows_served _ epoch).run

/-! ## Writing -/

theorem follows_completed (s : GatewayApp) (send : CommandSend) (sent : Bool)
    (output : List (PendingWrite CommandSend)) :
    Follows F R s (hooks.onComplete send sent
      ((s.setOutput output).record (.completed send sent))) := by
  have hrecorded : Follows F R s ((s.setOutput output).record (.completed send sent)) :=
    (Follows.setOutput s output).trans
      (Follows.record (e := .completed send sent) (s.setOutput output) fun _ _ h => by cases h)
  exact hrecorded.trans (follows_complete follows_queue send sent _)

theorem follows_completeFront (s : GatewayApp) (sent : Bool) :
    Follows F R s (completeFront hooks sent s) := by
  unfold completeFront
  cases s.link.output with
  | nil => exact .refl s
  | cons p rest => exact follows_completed s p.tag sent rest

theorem follows_discard (s : GatewayApp) : Follows F R s (discardOutput hooks s) := by
  unfold discardOutput
  refine List.foldlRecOn (motive := fun u : GatewayApp => Follows F R s u) s.link.output _
    (Follows.setOutput s []) ?_
  intro u hu p _
  exact hu.trans (follows_completed u p.tag false u.link.output)

theorem follows_failed (s : GatewayApp) :
    Follows F R s (discardOutput hooks (s.record .failed)) :=
  (Follows.record s fun _ _ h => by cases h).trans (follows_discard _)

theorem follows_writeFront (turn : WriteResult) (s : GatewayApp) :
    Follows F R s (writeFront hooks turn s).1 := by
  unfold writeFront
  cases s.link.output with
  | nil => exact .refl s
  | cons p rest =>
      cases turn with
      | accepted n =>
          have hwrote : ∀ (output : List (PendingWrite CommandSend)) (bytes : List UInt8),
              Follows F R s ((s.setOutput output).record (.wrote bytes)) := fun output bytes =>
            (Follows.setOutput s output).trans
              (Follows.record (e := .wrote bytes) (s.setOutput output) fun _ _ h => by cases h)
          dsimp only
          split_ifs
          · exact follows_failed s
          · dsimp only
            exact Follows.trans (hwrote _ _) (follows_completeFront _ true)
          · exact hwrote _ _
      | interrupted => exact Follows.record s fun _ _ h => by cases h
      | wouldBlock => exact Follows.record s fun _ _ h => by cases h
      | failed => exact follows_failed s

theorem follows_flushTurn (turn : WriteResult) (s : GatewayApp) :
    Follows F R s (flushTurn hooks turn s).1 := by
  unfold flushTurn
  cases s.link.output with
  | nil => exact .refl s
  | cons p rest =>
      have hasked : Follows F R s { s with owner := (hooks.canSend p.tag s.owner).2 } :=
        .step (.now s.owner)
      dsimp only
      split_ifs
      · exact hasked.trans (follows_completeFront _ false)
      · exact hasked.trans (follows_writeFront turn _)
      · exact follows_writeFront turn s

theorem follows_flush (turns : List WriteResult) :
    ∀ s : GatewayApp, Follows F R s (flushOutput hooks turns s).1 := by
  induction turns with
  | nil => exact fun s => .refl s
  | cons turn turns ih =>
      intro s
      have hturn := follows_flushTurn (F := F) (R := R) turn s
      unfold flushOutput
      generalize flushTurn hooks turn s = r at hturn
      obtain ⟨s', ending⟩ := r
      cases ending with
      | none => exact hturn.trans (ih s')
      | some e => exact hturn

theorem follows_writable (s : GatewayApp) (turns : List WriteResult) :
    Follows F R s (s.onSerialWriteEvent turns) :=
  (follows_flush turns s).trans (follows_update _)

end GatewayApp

end EdgeGateway
