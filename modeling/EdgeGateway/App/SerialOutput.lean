import EdgeGateway.App.Bookkeeping
import EdgeGateway.Link.SerialStream

set_option autoImplicit false

/-! # What the serial reactor does to its link

Between the calls of `flushOutput` the reactor queues frames and registers the channel, and its
completion callback does nothing else to the link. So the byte stream of every port is that of whole
frames, and at the end of an event the channel is registered for `EPOLLOUT` when frames wait.
-/

namespace EdgeGateway

open GatewayApp

/-- A step of the reactor outside `flushOutput` and `replaceSerialLink`. -/
inductive Serves : GatewayApp → GatewayApp → Prop
  | queued (s : GatewayApp) (type : UInt8) (payload : List UInt8) (send : CommandSend)
      (link : NodeLink CommandSend) (hsend : s.link.send type payload send = some link) :
      Serves s { s with link := link }
  | owner (s : GatewayApp) (owner : Reactor) (hchannel : owner.channel = s.owner.channel) :
      Serves s { s with owner := owner }
  | updated (s : GatewayApp) : Serves s (updateSerialWriteInterest s)

abbrev Serving : GatewayApp → GatewayApp → Prop := Relation.ReflTransGen Serves

namespace GatewayApp

variable {s s' : GatewayApp}

/-! ## The steps of each function -/

@[simp] theorem poll_channel (s : Reactor) : s.poll.channel = s.channel := by
  obtain ⟨queue, heq⟩ := Reactor.poll_eq s
  rw [heq]

@[simp] theorem deliver_channel (s : Reactor) (done : CommandCompletion) :
    (s.deliver done).channel = s.channel := by
  unfold Reactor.deliver
  cases s.requests.find? done.seq <;> rfl

theorem deliver_all_channel (finished : List CommandCompletion) (s : Reactor) :
    (finished.foldl Reactor.deliver s).channel = s.channel := by
  induction finished generalizing s with
  | nil => rfl
  | cons done rest ih => rw [List.foldl_cons, ih, deliver_channel]

theorem tryPop_channel {owner owner' : Reactor} {d : Downlink}
    (h : owner.tryPop = some (d, owner')) : owner'.channel = owner.channel := by
  unfold Reactor.tryPop at h
  cases hqueue : owner.poll.cmdQueue with
  | nil =>
      rw [hqueue] at h
      cases h
  | cons d' rest =>
      rw [hqueue] at h
      obtain ⟨-, rfl⟩ := Prod.mk.inj (Option.some.inj h)
      exact poll_channel owner

/-- A change of what the reactor holds, before further steps. -/
theorem serving_owner (owner : Reactor) (hchannel : owner.channel = s.owner.channel)
    (h : Serving { s with owner := owner } s') : Serving s s' :=
  .head (.owner s owner hchannel) h

theorem serving_sends {queue : CommandSend → GatewayApp → GatewayApp}
    (hqueue : ∀ send s, Serving s (queue send s)) (sends : List CommandSend) (s : GatewayApp) :
    Serving s (sends.foldl (fun s send => queue send s) s) := by
  induction sends generalizing s with
  | nil => exact .refl
  | cons send rest ih => exact (hqueue send s).trans (ih _)

theorem serving_apply {queue : CommandSend → GatewayApp → GatewayApp}
    (hqueue : ∀ send s, Serving s (queue send s)) (actions : TrackerActions) (s : GatewayApp) :
    Serving s (applyTrackerActions queue actions s) := by
  refine serving_owner _ (deliver_all_channel actions.finished s.owner) ?_
  exact (serving_sends hqueue actions.send _).tail (.updated _)

theorem serving_complete {queue : CommandSend → GatewayApp → GatewayApp}
    (hqueue : ∀ send s, Serving s (queue send s)) (send : CommandSend) (sent : Bool)
    (s : GatewayApp) : Serving s (complete queue send sent s) :=
  serving_owner (s.owner.now.2.advance (s.owner.tracker.onWritten send sent s.owner.now.1)) rfl
    (serving_apply hqueue _ _)

theorem serving_queueIn (rounds : Nat) :
    ∀ (send : CommandSend) (s : GatewayApp), Serving s (queueTransmissionIn rounds send s) := by
  induction rounds with
  | zero => exact fun _ _ => .refl
  | succ rounds ih =>
      intro send s
      unfold queueTransmissionIn
      cases hsend : s.link.send send.type send.payload send with
      | some link => exact .single (.queued s _ _ send link hsend)
      | none =>
          exact serving_owner
            { s.owner with encodingFailures := s.owner.encodingFailures + 1 } rfl
            (serving_complete ih send false _)

theorem serving_queue (send : CommandSend) (s : GatewayApp) :
    Serving s (queueTransmission send s) :=
  serving_queueIn 3 send s

theorem serving_timer (s : GatewayApp) : Serving s s.onCommandTimerEvent :=
  serving_owner (s.owner.now.2.advance (s.owner.tracker.tick s.owner.now.1)) rfl
    (serving_apply serving_queue _ _)

theorem serving_dispatch (s : GatewayApp) (frame : Frame) : Serving s (s.dispatchFrame frame) := by
  unfold dispatchFrame
  split_ifs
  · let r := s.owner.tracker.onFrame frame.type frame.payload s.owner.now.1
    exact serving_owner (s.owner.now.2.advance r) rfl (serving_apply serving_queue _ _)
  · exact .refl

theorem serving_serial (frames : List Frame) (s : GatewayApp) :
    Serving s (s.onSerialEvent frames) := by
  unfold onSerialEvent
  induction frames generalizing s with
  | nil => exact .refl
  | cons frame rest ih => exact (serving_dispatch s frame).trans (ih _)

theorem serving_first (s : GatewayApp) (epoch : Int) : Serving s (s.startFirst epoch) := by
  refine serving_owner _ (poll_channel s.owner) ?_
  unfold startFirst
  dsimp only
  split_ifs
  · let r := s.owner.poll.tracker.start (epochSession epoch) s.owner.poll.now.1
    exact serving_owner (s.owner.poll.now.2.advance r) rfl (serving_apply serving_queue _ _)
  · exact .refl

theorem serving_submit (s : GatewayApp) (d : Downlink) : Serving s (submitDownlink s d) := by
  unfold submitDownlink
  dsimp only
  let accepted := (s.owner.now.2.accept d s.owner.now.1).1
  cases (s.now.2.owner.accept d s.now.1).2 with
  | none => exact serving_owner (accepted.commandRejected d.id "link_failed") rfl .refl
  | some send =>
      exact serving_owner
        { accepted with requests := accepted.requests.emplace send.seq d.id } rfl
        (serving_queue send _)

theorem serving_loop (n : Nat) (s : GatewayApp) : Serving s (downlinkLoop n s) := by
  induction n generalizing s with
  | zero => exact .refl
  | succ n ih =>
      refine serving_owner _ (poll_channel s.owner) ?_
      unfold downlinkLoop
      dsimp only
      split_ifs
      · exact .refl
      · cases hpop : s.owner.poll.tryPop with
        | none => exact .refl
        | some popped =>
            have hchannel := tryPop_channel hpop
            exact serving_owner (popped.2.commandRejected popped.1.id "link_failed")
              hchannel (ih _)
      · exact .refl
      · cases hpop : s.owner.poll.tryPop with
        | none => exact .refl
        | some popped =>
            exact serving_owner popped.2 (tryPop_channel hpop)
              ((serving_submit _ popped.1).trans (ih _))

/-- The downlink event once the links that wait were taken. -/
theorem serving_downlink (s : GatewayApp) (epoch : Int) :
    Serving s (downlinkLoop kDownlinkBatchSize (s.startFirst epoch)) :=
  (serving_first s epoch).trans (serving_loop kDownlinkBatchSize _)

/-! ## The byte stream -/

theorem reacts_of_serves (h : Serves s s') : Relation.ReflTransGen Reacts s s' := by
  cases h with
  | queued type payload send link hsend => exact .single (.queued s type payload send link hsend)
  | owner owner => exact .single (.owner s owner)
  | updated =>
      unfold updateSerialWriteInterest
      cases s.owner.channel with
      | none => exact .refl
      | some out =>
          dsimp only
          split_ifs
          · exact .refl
          · exact (Relation.ReflTransGen.single (.armed s _)).tail (.owner _ _)

theorem reacts_of_serving (h : Serving s s') : Relation.ReflTransGen Reacts s s' := by
  induction h with
  | refl => exact .refl
  | tail _ hstep ih => exact ih.trans (reacts_of_serves hstep)

/-- **The completion callback keeps the contract of the link.** -/
theorem hooks_obey : hooks.Obeys := fun send sent s =>
  reacts_of_serving (serving_complete serving_queue send sent s)

theorem moves_of_serving (doomed : List (PendingWrite CommandSend)) (h : Serving s s') :
    LinkMoves (doomed, s) (doomed, s') :=
  moves_reaction doomed (reacts_of_serving h)

theorem moves_register (s : GatewayApp) : LinkMoves ([], s) ([], registerSerialEvent s) :=
  .head (.reacts [] (.armed s s.link.hasPendingOutput)) (.single (.reacts [] (.owner _ _)))

section Rule

variable {J : GatewayApp → Prop} (hopened : ∀ owner, J (.opened owner))
  (hmoves : ∀ s s' : GatewayApp, LinkMoves ([], s) ([], s') → J s → J s')

include hopened hmoves

/-- A link that is activated begins anew. -/
theorem replace_rule (activates : Bool) (hs : J s) : J (s.replaceSerial activates) := by
  unfold replaceSerial
  dsimp only
  split_ifs
  · exact hmoves _ _ (.head (.reacts [] (.owner s _)) (moves_register _)) hs
  · let r := s.owner.tracker.start s.owner.tracker.session s.owner.now.1
    let owner := Reactor.advance { s.owner.now.2 with channel := none } r
    refine hmoves (.opened owner) _ ?_ (hopened owner)
    exact (moves_register _).trans (moves_of_serving [] (serving_apply serving_queue r.2 _))

theorem downlink_rule (stopping : Bool) (replacements : List Bool) (epoch : Int) (hs : J s) :
    J (s.onDownlinkEvent stopping replacements epoch) := by
  unfold onDownlinkEvent
  split_ifs
  · exact hs
  · have hreplaced : J (replacements.foldl replaceSerial s) :=
      List.foldlRecOn (motive := J) replacements replaceSerial hs
        fun _ hs activates _ => replace_rule hopened hmoves activates hs
    exact hmoves _ _ (moves_of_serving [] ((serving_downlink _ epoch).tail (.updated _))) hreplaced

/-- **The rule of the reactor's links.** What holds on a new link and is kept by the moves of a link
holds at the end of every event. -/
theorem run_rule (clock : Nat → TimePoint) (arrivals : Nat → List Downlink)
    (events : List AppEvent) : J ((init clock arrivals).runEvents events) := by
  refine List.foldlRecOn (motive := J) events handle
    (hmoves _ _ (moves_register _) (hopened (Reactor.init clock arrivals))) ?_
  intro s hs event _
  cases event with
  | downlink stopping replacements epoch =>
      exact downlink_rule hopened hmoves stopping replacements epoch hs
  | timer => exact hmoves _ _ (moves_of_serving [] (serving_timer s)) hs
  | serial frames => exact hmoves _ _ (moves_of_serving [] (serving_serial frames s)) hs
  | writable turns =>
      refine hmoves _ _ ?_ hs
      exact (moves_flushOutput hooks_obey turns s).trans (moves_of_serving [] (.single (.updated _)))

end Rule

/-- **In every run of the reactor each port takes whole frames**, in the sense of
`serial_output_stream`. -/
theorem streams_run (clock : Nat → TimePoint) (arrivals : Nat → List Downlink)
    (events : List AppEvent) : ((init clock arrivals).runEvents events).Streams [] :=
  run_rule (J := fun s => s.Streams []) streams_opened (fun _ _ h hs => streams_moves h hs)
    clock arrivals events

/-! ## The registration -/

/-- The channel is registered, and for `EPOLLOUT` when frames wait. -/
def Registered (s : GatewayApp) : Prop := s.owner.channel = some s.link.hasPendingOutput

theorem update_registered (h : s.owner.channel ≠ none) :
    (updateSerialWriteInterest s).Registered := by
  unfold updateSerialWriteInterest
  cases hchannel : s.owner.channel with
  | none => exact absurd hchannel h
  | some out =>
      dsimp only
      split_ifs with hsame
      · exact hchannel.trans (congrArg some hsame)
      · rfl

theorem serves_channel (h : Serves s s') (hs : s.owner.channel ≠ none) :
    s'.owner.channel ≠ none := by
  cases h with
  | queued => exact hs
  | owner owner hchannel => exact hchannel.symm ▸ hs
  | updated =>
      rw [update_registered hs]
      exact Option.some_ne_none _

theorem serving_channel (h : Serving s s') (hs : s.owner.channel ≠ none) :
    s'.owner.channel ≠ none := by
  induction h with
  | refl => exact hs
  | tail _ hstep ih => exact serves_channel hstep ih

theorem Registered.channel (h : s.Registered) : s.owner.channel ≠ none := by
  rw [h]
  exact Option.some_ne_none _

theorem apply_registered (actions : TrackerActions) (hs : s.owner.channel ≠ none) :
    (applyTrackerActions queueTransmission actions s).Registered := by
  refine update_registered (serving_channel (serving_sends serving_queue actions.send _) ?_)
  show (actions.finished.foldl Reactor.deliver s.owner).channel ≠ none
  rwa [deliver_all_channel]

theorem complete_registered (send : CommandSend) (sent : Bool) (hs : s.owner.channel ≠ none) :
    (complete queueTransmission send sent s).Registered :=
  apply_registered _ hs

theorem dispatch_registered (frame : Frame) (hs : s.Registered) :
    (s.dispatchFrame frame).Registered := by
  unfold dispatchFrame
  split_ifs
  · exact apply_registered _ hs.channel
  · exact hs

theorem replace_registered (activates : Bool) : (s.replaceSerial activates).Registered := by
  unfold replaceSerial
  dsimp only
  split_ifs
  · rfl
  · exact apply_registered _ (Option.some_ne_none _)

/-- Draining the queue keeps the registration as long as the callback does. -/
theorem flushOutput_channel (turns : List WriteResult) (hs : s.owner.channel ≠ none) :
    (flushOutput hooks turns s).1.owner.channel ≠ none :=
  flushOutput_owner (J := fun owner : Reactor => owner.channel ≠ none) (fun _ _ h => h)
    (fun send sent _ h => serving_channel (serving_complete serving_queue send sent _) h) turns hs

/-- **At the end of every event the registration is up to date.** -/
theorem registered_run (clock : Nat → TimePoint) (arrivals : Nat → List Downlink)
    (events : List AppEvent) : ((init clock arrivals).runEvents events).Registered := by
  refine List.foldlRecOn (motive := fun s : GatewayApp => s.Registered) events handle rfl ?_
  intro s hs event _
  cases event with
  | downlink stopping replacements epoch =>
      show (s.onDownlinkEvent stopping replacements epoch).Registered
      unfold onDownlinkEvent
      split_ifs
      · exact hs
      · have hreplaced : (replacements.foldl replaceSerial s).Registered :=
          List.foldlRecOn (motive := fun s : GatewayApp => s.Registered) replacements replaceSerial
            hs fun _ _ activates _ => replace_registered activates
        exact update_registered (serving_channel (serving_downlink _ epoch) hreplaced.channel)
  | timer => exact apply_registered _ hs.channel
  | serial frames =>
      exact List.foldlRecOn (motive := fun s : GatewayApp => s.Registered) frames dispatchFrame hs
        fun _ hs frame _ => dispatch_registered frame hs
  | writable turns => exact update_registered (flushOutput_channel turns hs.channel)

end GatewayApp

end EdgeGateway
