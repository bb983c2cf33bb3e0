import EdgeGateway.App.ReactorSteps
import EdgeGateway.Link.SerialInput
import EdgeGateway.System.NodeSimulator
import EdgeGateway.System.SrGuarantees

set_option autoImplicit false

/-! # Gateway and node over two byte streams

The serial reactor with its output queue, its parser and its tracker, and the simulator at the other
end. What either side writes is a stream of bytes that the other side reads in pieces of any size;
no byte is lost, but the simulator drops answers and measurements and writes noise, and the gateway
writes in pieces, cancels frames and repeats them. Whatever the two do, it is a run of `SrSystem`,
where whole frames are sent and delivered.
-/

namespace EdgeGateway

/-! ## The system -/

/-- `up` and `down` are how much of the other side's bytes gateway and node have read; `parser` and
`heard` belong to the gateway. -/
structure WireSystem where
  app : GatewayApp
  parser : EdgeParser
  up : Nat
  heard : List Frame
  node : SimNode
  down : Nat

/-- What the two sides find when they start: memory of any content, and the inputs to come. -/
structure WireSetup where
  clock : Nat → TimePoint
  arrivals : Nat → List Downlink
  gatewayMemory : EdgeParser
  nodeMemory : EdgeParser
  srMemory : EdgeSrNode UInt32
  periodS : Int
  noAck : Bool
  rolls : Nat → Bool
  noise : Nat → Nat
  nodeClock : Nat → UInt32

namespace WireSystem

def initNode (setup : WireSetup) : SimNode where
  parser := edgeParserInit setup.nodeMemory true
  node := edgeSrNodeInit setup.srMemory
  port := ⟨⟨0, setup.periodS⟩, setup.noAck, setup.rolls, setup.noise, setup.nodeClock, [], []⟩
  heard := []
  done := []

def init (setup : WireSetup) : WireSystem where
  app := GatewayApp.init setup.clock setup.arrivals
  parser := edgeParserInit setup.gatewayMemory true
  up := 0
  heard := []
  node := initNode setup
  down := 0

/-- What the gateway's port took. -/
def downlink (s : WireSystem) : List UInt8 := accepted s.app.link.trace

/-- What the node's port took. -/
def uplink (s : WireSystem) : List UInt8 := s.node.port.written

def unreadUp (s : WireSystem) : List UInt8 := s.uplink.drop s.up

def unreadDown (s : WireSystem) : List UInt8 := s.downlink.drop s.down

/-- A readable serial port: `turns` is what the reads return. -/
def serial (s : WireSystem) (turns : List ReadResult) : WireSystem :=
  let (parser, frames, _) := drainAndParse turns s.parser
  { s with
    app := s.app.onSerialEvent frames
    parser := parser
    up := s.up + (readBytes turns).length
    heard := s.heard ++ frames }

/-- A turn of the simulator, which reads at most 128 bytes. -/
def turn (s : WireSystem) (n : Nat) (due : Bool) : WireSystem :=
  let buf := s.unreadDown.take (min n 128)
  { s with node := s.node.turn buf due, down := s.down + buf.length }

/-- The steps of the two sides. The serial link is neither replaced nor broken: no write fails for
good. -/
inductive Step : WireSystem → WireSystem → Prop
  | downlink (s : WireSystem) (stopping : Bool) (epoch : Int) :
      Step s { s with app := s.app.onDownlinkEvent stopping [] epoch }
  | timer (s : WireSystem) : Step s { s with app := s.app.onCommandTimerEvent }
  | writable (s : WireSystem) (turns : List WriteResult)
      (hport : .failed ∉ (s.app.onSerialWriteEvent turns).link.trace) :
      Step s { s with app := s.app.onSerialWriteEvent turns }
  | serial (s : WireSystem) (turns : List ReadResult) (hread : readBytes turns <+: s.unreadUp) :
      Step s (s.serial turns)
  | turn (s : WireSystem) (n : Nat) (due : Bool) : Step s (s.turn n due)

abbrev Run : WireSystem → WireSystem → Prop := Relation.ReflTransGen Step

/-- The system of whole frames behind the bytes. -/
def frames (s : WireSystem) : SrSystem UInt32 where
  tracker := s.app.owner.tracker
  node := s.node.node
  sent := s.app.owner.log
  done := s.node.done

end WireSystem

/-! ## Runs of the frames -/

section Frames

variable {σ τ : Type} [Clock τ]

/-- Calls of the tracker are steps of the system, when the frames they bring were emitted. -/
theorem run_of_calls {F : UInt8 → List UInt8 → Prop} {done : List (NodeEvent τ)}
    (hF : ∀ type p, F type p → .emit type p ∈ done) {t t' : CommandTracker}
    {es : List TrackerEvent} (h : Steps (Called F) t es t') (n : EdgeSrNode τ)
    (log : List TrackerEvent) :
    SrSystem.Run σ ⟨t, n, log, done⟩ ⟨t', n, log ++ es, done⟩ := by
  induction h with
  | refl => rw [List.append_nil]
  | @tail t u es es' _ hcall ih =>
      obtain ⟨call, hframe, heq⟩ := hcall
      have hstep := SrSystem.Step.tracker (σ := σ) (⟨t, n, log ++ es, done⟩ : SrSystem τ) call
        fun type p hp => hF type p (hframe type p hp)
      have hnext : SrSystem.trackerCall (⟨t, n, log ++ es, done⟩ : SrSystem τ) call =
          ⟨u, n, log ++ (es ++ es'), done⟩ := by
        unfold SrSystem.trackerCall
        rw [heq, List.append_assoc]
      rw [hnext] at hstep
      exact ih.tail hstep

theorem run_of_follows {F : UInt8 → List UInt8 → Prop} {done : List (NodeEvent τ)}
    (hF : ∀ type p, F type p → .emit type p ∈ done) {app app' : GatewayApp}
    {R : Prop} (h : Follows F R app app') (n : EdgeSrNode τ) :
    SrSystem.Run σ ⟨app.owner.tracker, n, app.owner.log, done⟩
      ⟨app'.owner.tracker, n, app'.owner.log, done⟩ := by
  obtain ⟨es, hsteps, hlog⟩ := h.run.calls
  rw [hlog]
  exact run_of_calls hF hsteps n app.owner.log

end Frames

/-! ## Invariant -/

namespace WireSystem

/-- What a side has read, and what its parser has made of it. -/
structure Read (memory : EdgeParser) (stream : List UInt8) (n : Nat) (parser : EdgeParser)
    (heard : List Frame) : Prop where
  parsed : edgeParserFeedBytes (edgeParserInit memory true) (stream.take n) = (parser, heard)
  le : n ≤ stream.length

section Reading

variable {memory parser : EdgeParser} {stream : List UInt8} {n : Nat} {heard : List Frame}

theorem Read.start (memory : EdgeParser) (stream : List UInt8) :
    Read memory stream 0 (edgeParserInit memory true) [] :=
  ⟨rfl, Nat.zero_le _⟩

/-- The stream goes on. -/
theorem Read.longer (h : Read memory stream n parser heard) {stream' : List UInt8}
    (hbegins : stream <+: stream') : Read memory stream' n parser heard := by
  obtain ⟨rest, rfl⟩ := hbegins
  refine ⟨?_, ?_⟩
  · rw [List.take_append_of_le_length h.le]
    exact h.parsed
  · rw [List.length_append]
    exact Nat.le_add_right_of_le h.le

/-- More of it is read. -/
theorem Read.more (h : Read memory stream n parser heard) {bytes : List UInt8}
    (hbytes : bytes <+: stream.drop n) :
    Read memory stream (n + bytes.length) (edgeParserFeedBytes parser bytes).1
      (heard ++ (edgeParserFeedBytes parser bytes).2) := by
  obtain ⟨rest, hrest⟩ := hbytes
  have htake : stream.take (n + bytes.length) = stream.take n ++ bytes := by
    rw [List.take_add, ← hrest, List.take_left]
  have hlength := congrArg List.length hrest
  rw [List.length_append, List.length_drop] at hlength
  refine ⟨?_, ?_⟩
  · rw [htake, edgeParserFeedBytes_append, h.parsed]
  · have := h.le
    omega

/-- Of a stream of frames a side has found those that it has read to the end. -/
theorem Read.heard_begins (h : Read memory stream n parser heard) {whole : List UInt8}
    {frames : List Frame} (hstream : FrameStream whole frames) (hbegins : stream <+: whole) :
    heard <+: frames := by
  have hpart : stream.take n <+: whole := (List.take_prefix n stream).trans hbegins
  have hfound := hstream.feed_part (p := edgeParserInit memory true) ⟨rfl, .inl rfl⟩ hpart
  rwa [h.parsed] at hfound

end Reading

/-- The bytes against the frames. -/
structure Inv (setup : WireSetup) (s : WireSystem) : Prop where
  frames : SrSystem.Run SimPort (SrSystem.init setup.srMemory) s.frames
  events : ∃ events, s.app = (GatewayApp.init setup.clock setup.arrivals).runEvents events
  queued : ∀ frame send, .queued frame send ∈ s.app.link.trace →
    .send send ∈ s.app.owner.log ∧ frame = buildFrame send.type send.payload
  whole : .failed ∉ s.app.link.trace
  up : Read setup.gatewayMemory s.uplink s.up s.parser s.heard
  down : Read setup.nodeMemory s.downlink s.down s.node.parser s.node.heard
  node : s.node.Inv 0

variable {setup : WireSetup} {s s' : WireSystem}

theorem init_inv (setup : WireSetup) : (init setup).Inv setup where
  frames := .refl
  events := ⟨[], rfl⟩
  queued := fun _ _ h => by cases List.mem_singleton.mp h
  whole := fun h => by cases List.mem_singleton.mp h
  up := .start setup.gatewayMemory []
  down := .start setup.nodeMemory []
  node := ⟨⟨.nil, fun _ h => by cases h⟩, ⟨[], .start⟩, fun _ _ h => by cases h⟩

/-- The streams of the gateway's link hold. -/
theorem Inv.streams (h : s.Inv setup) : s.app.Streams [] := by
  obtain ⟨events, heq⟩ := h.events
  rw [heq]
  exact GatewayApp.streams_run setup.clock setup.arrivals events

/-- The books of the reactor balance. -/
theorem Inv.balanced (h : s.Inv setup) : s.app.owner.Balanced := by
  obtain ⟨events, heq⟩ := h.events
  rw [heq]
  exact GatewayApp.balanced_run setup.clock setup.arrivals events

/-- What the gateway's port took begins a stream of frames that the tracker has sent. -/
theorem Inv.downlink_stream (h : s.Inv setup) : ∃ whole frames, FrameStream whole frames ∧
    s.downlink <+: whole ∧
      ∀ f ∈ frames, ∃ send, .send send ∈ s.app.owner.log ∧ f = ⟨send.type, send.payload⟩ := by
  obtain ⟨kept, hkept, hbegins⟩ := accepted_whole h.streams h.whole
  have hframe : ∀ f ∈ kept, .send f.2 ∈ s.app.owner.log ∧ Fits ⟨f.2.type, f.2.payload⟩ ∧
      f.1 = Frame.bytes ⟨f.2.type, f.2.payload⟩ := fun f hf => by
    obtain ⟨hsend, hbuild⟩ := h.queued f.1 f.2 (mem_frames.mp (hkept f hf))
    have hne := (h.streams.stream.encoded f (hkept f hf)).1
    have hfits : Fits ⟨f.2.type, f.2.payload⟩ := by
      by_contra hlong
      rw [hbuild] at hne
      exact hne (buildFrame_eq_nil (Nat.lt_of_not_le hlong))
    exact ⟨hsend, hfits, hbuild.trans (buildFrame_eq_bytes ⟨f.2.type, f.2.payload⟩ hfits)⟩
  let frames := kept.map fun f => (⟨f.2.type, f.2.payload⟩ : Frame)
  have hwire : (kept.map Prod.fst).flatten = wire frames := by
    unfold wire
    rw [List.flatMap_def, List.map_map]
    refine congrArg List.flatten (List.map_congr_left fun f hf => ?_)
    exact (hframe f hf).2.2
  refine ⟨wire frames, frames, .wire fun f hf => ?_, hwire ▸ hbegins, fun f hf => ?_⟩
  · obtain ⟨g, hg, rfl⟩ := List.mem_map.mp hf
    exact (hframe g hg).2.1
  · obtain ⟨g, hg, rfl⟩ := List.mem_map.mp hf
    exact ⟨g.2, (hframe g hg).1, rfl⟩

/-- Whatever the node has found was sent by the tracker. -/
theorem Inv.heard_down (h : s.Inv setup) {memory parser : EdgeParser} {n : Nat}
    {heard : List Frame} (hread : Read memory s.downlink n parser heard) :
    ∀ f ∈ heard, ∃ send, .send send ∈ s.app.owner.log ∧ f = ⟨send.type, send.payload⟩ := by
  obtain ⟨whole, frames, hstream, hbegins, hsent⟩ := h.downlink_stream
  intro f hf
  exact hsent f ((hread.heard_begins hstream hbegins).subset hf)

/-- Whatever the gateway has found was written by the node, and emitted if it is a receiver's. -/
theorem Inv.heard_up (h : s.Inv setup) {memory parser : EdgeParser} {n : Nat}
    {heard : List Frame} (hread : Read memory s.uplink n parser heard) :
    ∀ f ∈ heard, srUplink f.type = true → .emit f.type f.payload ∈ s.node.done := by
  have hbegins := hread.heard_begins h.node.streams.stream (List.prefix_refl _)
  exact fun f hf => h.node.streams.emitted f (hbegins.subset hf)

/-- Outside of writing nothing fails. -/
theorem whole_of_serving {app app' : GatewayApp} (h : Serving app app')
    (hwhole : .failed ∉ app.link.trace) : .failed ∉ app'.link.trace := by
  induction h with
  | refl => exact hwhole
  | @tail u v _ hstep ih =>
      cases hstep with
      | queued type payload send link hsend =>
          obtain ⟨-, -, htrace⟩ := NodeLink.send_eq_some hsend
          show .failed ∉ link.trace
          rw [htrace]
          simpa using ih
      | owner owner => exact ih
      | updated =>
          unfold GatewayApp.updateSerialWriteInterest
          cases u.owner.channel with
          | none => exact ih
          | some out =>
              dsimp only
              split_ifs
              · exact ih
              · show .failed ∉ u.link.trace ++ [_]
                simpa using ih

/-- An event of the reactor. -/
theorem Inv.reactor (h : s.Inv setup) (event : AppEvent) {F : UInt8 → List UInt8 → Prop}
    (hF : ∀ type p, F type p → .emit type p ∈ s.node.done)
    (hfollows : Follows F False s.app (s.app.handle event))
    (hwhole : .failed ∉ (s.app.handle event).link.trace) :
    Inv setup { s with app := s.app.handle event } where
  frames := h.frames.trans (run_of_follows hF hfollows s.node.node)
  events := by
    obtain ⟨events, heq⟩ := h.events
    refine ⟨events ++ [event], ?_⟩
    show s.app.handle event = (events ++ [event]).foldl GatewayApp.handle _
    rw [List.foldl_append, heq]
    rfl
  queued := fun frame send hmem => by
    obtain ⟨events, htrace, hqueued⟩ := hfollows.trace
    rw [htrace] at hmem
    rcases List.mem_append.mp hmem with hmem | hmem
    · obtain ⟨hsend, hframe⟩ := h.queued frame send hmem
      exact ⟨hfollows.sent hsend, hframe⟩
    · exact hqueued frame send hmem
  whole := hwhole
  up := h.up
  down := by
    obtain ⟨events, htrace, -⟩ := hfollows.trace
    refine h.down.longer ?_
    show accepted s.app.link.trace <+: accepted (s.app.handle event).link.trace
    rw [htrace]
    unfold accepted
    rw [List.flatMap_append]
    exact List.prefix_append _ _
  node := h.node

/-- A turn of the node is a run of its calls. -/
theorem run_of_onFrame {t : CommandTracker} {sent : List TrackerEvent} (frames : List Frame) :
    ∀ node : SimNode,
      (∀ f ∈ frames, ∃ send, .send send ∈ sent ∧ f = ⟨send.type, send.payload⟩) →
      SrSystem.Run SimPort ⟨t, node.node, sent, node.done⟩
        ⟨t, (frames.foldl SimNode.onFrame node).node, sent,
          (frames.foldl SimNode.onFrame node).done⟩ := by
  induction frames with
  | nil => exact fun _ _ => .refl
  | cons f frames ih =>
      intro node hsent
      obtain ⟨send, hsend, rfl⟩ := hsent f List.mem_cons_self
      have hstep : SrSystem.Step SimPort (⟨t, node.node, sent, node.done⟩ : SrSystem UInt32) _ :=
        .node _ (.onFrame SimPort.hooks node.port send.type (some send.payload))
          ⟨send, hsend, rfl, rfl⟩
      exact (Relation.ReflTransGen.single hstep).trans
        (ih (node.onFrame ⟨send.type, send.payload⟩) fun g hg => hsent g (List.mem_cons_of_mem _ hg))

theorem Inv.turn (h : s.Inv setup) (n : Nat) (due : Bool) : (s.turn n due).Inv setup := by
  let buf := s.unreadDown.take (min n 128)
  have hread := h.down.more (List.take_prefix _ _ : buf <+: s.unreadDown)
  obtain ⟨hwritten, hparser, hheard⟩ := s.node.turn_written buf due
  have hsent : ∀ f ∈ (edgeParserFeedBytes s.node.parser buf).2,
      ∃ send, .send send ∈ s.app.owner.log ∧ f = ⟨send.type, send.payload⟩ := fun f hf =>
    h.heard_down hread f (List.mem_append_right _ hf)
  have hfed := @run_of_onFrame s.app.owner.tracker s.app.owner.log _
    { s.node with parser := (edgeParserFeedBytes s.node.parser buf).1 } hsent
  have hticked : SrSystem.Step SimPort (⟨s.app.owner.tracker, (s.node.feed buf).node,
      s.app.owner.log, (s.node.feed buf).done⟩ : SrSystem UInt32) _ :=
    .node _ (.tick SimPort.hooks (s.node.feed buf).port) trivial
  have hrun := h.frames.trans (hfed.tail hticked)
  have hframes : (s.turn n due).frames = ⟨s.app.owner.tracker, (s.node.feed buf).tick.node,
      s.app.owner.log, (s.node.feed buf).tick.done⟩ := by
    cases due <;> rfl
  refine { frames := ?_, events := h.events, queued := h.queued, whole := h.whole,
           up := h.up.longer hwritten, down := ?_, node := h.node.turn buf due }
  · rw [hframes]
    exact hrun
  · show Read _ _ _ (s.node.turn buf due).parser (s.node.turn buf due).heard
    rw [hparser, hheard]
    exact hread

theorem Inv.serial (h : s.Inv setup) {turns : List ReadResult}
    (hturns : readBytes turns <+: s.unreadUp) : (s.serial turns).Inv setup := by
  have hread := h.up.more hturns
  let frames := (edgeParserFeedBytes s.parser (readBytes turns)).2
  have hemitted : ∀ f ∈ frames, srUplink f.type = true → .emit f.type f.payload ∈ s.node.done :=
    fun f hf => h.heard_up hread f (List.mem_append_right _ hf)
  have hfollows : Follows (fun type p => .emit type p ∈ s.node.done) False s.app _ :=
    GatewayApp.follows_serial frames s.app hemitted
  have hreactor := h.reactor (.serial frames) (fun _ _ hp => hp) hfollows
    (whole_of_serving (GatewayApp.serving_serial frames s.app) h.whole)
  unfold WireSystem.serial
  rw [drainAndParse_eq]
  exact { hreactor with up := hread }

theorem Inv.step (h : s.Inv setup) (hstep : Step s s') : s'.Inv setup := by
  have hnone : ∀ (type : UInt8) (p : List UInt8), False → .emit type p ∈ s.node.done :=
    fun _ _ hfalse => hfalse.elim
  cases hstep with
  | downlink stopping epoch =>
      refine h.reactor (.downlink stopping [] epoch) hnone
        (GatewayApp.follows_downlink s.app stopping epoch) ?_
      show .failed ∉ (s.app.onDownlinkEvent stopping [] epoch).link.trace
      unfold GatewayApp.onDownlinkEvent
      split_ifs
      · exact h.whole
      · exact whole_of_serving ((GatewayApp.serving_downlink s.app epoch).tail (.updated _)) h.whole
  | timer =>
      exact h.reactor .timer hnone (GatewayApp.follows_timer s.app)
        (whole_of_serving (GatewayApp.serving_timer s.app) h.whole)
  | writable turns hport =>
      exact h.reactor (.writable turns) hnone (GatewayApp.follows_writable s.app turns) hport
  | serial turns hturns => exact h.serial hturns
  | turn n due => exact h.turn n due

theorem inv_run (h : Run (init setup) s) : s.Inv setup := by
  induction h with
  | refl => exact init_inv setup
  | tail _ hstep ih => exact ih.step hstep

/-! ## Results -/

/-- Of what was submitted for a request, the node has executed nothing else. -/
theorem Inv.executed (h : s.Inv setup) {a : Downlink × Command} (ha : a ∈ s.app.owner.assigned)
    {x : Command × List UInt8} (hx : x ∈ executionsOf a.2.session a.2.seq s.node.done) :
    x.1 = a.2 ∧ executionsOf a.2.session a.2.seq s.node.done = [x] := by
  have hframes := SrSystem.inv_run h.frames
  have hbooks := h.balanced
  obtain ⟨hexecute, hsession, hseq⟩ := mem_executionsOf.mp hx
  have hstored := hframes.node.record.execute_stored x.1 (mem_executes.mpr ⟨x.2, hexecute⟩)
  -- the number was given to one command only
  have hunique := hframes.tracker.record.submitted_unique (hframes.stored x.1 hstored)
  have hsame : a.2 ∈ (submits s.app.owner.log).filter
      fun d => d.session = x.1.session ∧ d.seq = x.1.seq :=
    List.mem_filter.mpr ⟨(hbooks.assigned a ha).submitted, by simp [hsession, hseq]⟩
  have heq : a.2 = x.1 := List.mem_singleton.mp (hunique ▸ hsame)
  refine ⟨heq.symm, ?_⟩
  rw [← hsession, ← hseq]
  exact hframes.node.record.executionsOf_eq hexecute

deriving instance DecidableEq for LinkEvent

/-- The gateway's events, one turn of the node, and the gateway reads what came back. -/
def exchange (s : WireSystem) : WireSystem :=
  let s := { s with app := s.app.onDownlinkEvent false [] 1 }
  let s := { s with app := s.app.onSerialWriteEvent [.accepted 64] }
  let s := s.turn 64 true
  s.serial [.data s.unreadUp, .wouldBlock]

theorem run_exchange (s : WireSystem)
    (hport : .failed ∉ ((s.app.onDownlinkEvent false [] 1).onSerialWriteEvent
      [.accepted 64]).link.trace) : Run s s.exchange := by
  let s₁ : WireSystem := { s with app := s.app.onDownlinkEvent false [] 1 }
  let s₂ : WireSystem := { s₁ with app := s₁.app.onSerialWriteEvent [.accepted 64] }
  have hread : readBytes [.data (s₂.turn 64 true).unreadUp, .wouldBlock] <+:
      (s₂.turn 64 true).unreadUp := by
    show (s₂.turn 64 true).unreadUp ++ [] <+: _
    rw [List.append_nil]
  exact (((Relation.ReflTransGen.single (.downlink s false 1)).tail
    (.writable s₁ [.accepted 64] hport)).tail (.turn s₂ 64 true)).tail (.serial _ _ hread)

end WireSystem

end EdgeGateway
