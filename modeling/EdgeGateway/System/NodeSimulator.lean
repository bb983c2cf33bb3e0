import EdgeGateway.Pipeline.TelemetryDecoder
import EdgeGateway.Protocol.FrameStream
import EdgeGateway.Protocol.SrHooks

set_option autoImplicit false

/-! # The node simulator

`NodeSim` of the tool `node-sim`: it feeds what it reads to a parser and the receiver, reports in
turns, and mixes noise into what it writes. The outcomes of its rolls, how much of each noise the
port takes and the readings of its clock are inputs. A frame is written as a whole.
-/

namespace EdgeGateway

/-! ## Data -/

/-- What the hooks of the receiver reach. `sim` has `tick_` and the period; `rolls`, `noise` and
`clock` are what is to come. The last two fields record what went to the port: the bytes, and the
frames in them. -/
structure SimPort where
  sim : NodeSim
  noAck : Bool
  rolls : Nat → Bool
  noise : Nat → Nat
  clock : Nat → UInt32
  written : List UInt8
  sent : List Frame

/-- The simulator. `heard` are the frames that its parser has delivered, `done` is the record of the
receiver's calls. -/
structure SimNode where
  parser : EdgeParser
  node : EdgeSrNode UInt32
  port : SimPort
  heard : List Frame
  done : List (NodeEvent UInt32)

/-! ## Sending -/

/-- The bytes `sendRaw` mixes in; the second one looks like the beginning of a header. -/
def noiseBytes : List UInt8 := [0xFF, 0xAA, 0x13]

namespace SimPort

def roll (s : SimPort) : Bool × SimPort :=
  (s.rolls 0, { s with rolls := fun n => s.rolls (n + 1) })

/-- Of the noise the port takes any part, and none where the roll says so. -/
def sendRaw (frame : List UInt8) (s : SimPort) : SimPort :=
  { s with
    noise := fun n => s.noise (n + 1)
    written := s.written ++ (noiseBytes.take (s.noise 0) ++ frame) }

/-- A payload pointer with its length is a list; `buildFrame` is `edge_frame_encode` on lists. -/
def sendFrame (type : UInt8) (payload : List UInt8) (s : SimPort) : SimPort :=
  let frame := buildFrame type payload
  if frame = [] then s else { s.sendRaw frame with sent := s.sent ++ [⟨type, payload⟩] }

/-- `emit`; without acknowledgements nothing is rolled. -/
def emit (type : UInt8) (payload : List UInt8) (s : SimPort) : SimPort :=
  if s.noAck then s
  else
    let (drop, s) := s.roll
    if drop then s else s.sendFrame type payload

/-- A measurement, dropped or sent. -/
def sendReading (type : UInt8) (payload : List UInt8) (s : SimPort) : SimPort :=
  let (drop, s) := s.roll
  if drop then s else s.sendFrame type payload

def reportOnce (s : SimPort) : SimPort :=
  let s := { s with sim := { s.sim with tick := s.sim.tick + 1 } }
  let sim := s.sim
  let s := s.sendReading EDGE_TYPE_DHT11 (edgeU16BeWrite sim.tempX10 ++ edgeU16BeWrite sim.humiX10)
  let s := s.sendReading EDGE_TYPE_BH1750 (edgeU16BeWrite sim.lux)
  let s := s.sendFrame EDGE_TYPE_STATUS [EDGE_STATUS_BIT_DHT11 ||| EDGE_STATUS_BIT_BH1750]
  s.sendFrame EDGE_TYPE_HEARTBEAT []

/-- `hooks_`. -/
def hooks : EdgeSrHooks UInt32 SimPort where
  nowMs s := (s.clock 0, { s with clock := fun n => s.clock (n + 1) })
  execute seq type args s :=
    ((NodeSim.execute seq type args s.sim).1,
      { s with sim := (NodeSim.execute seq type args s.sim).2 })
  emit := emit

end SimPort

/-! ## The loop -/

namespace SimNode

/-- A call of the receiver. -/
def call (s : SimNode) (c : NodeCall UInt32 SimPort) : SimNode :=
  { s with
    node := (c.run s.node).node
    port := (c.run s.node).user
    done := s.done ++ (c.run s.node).events }

def onFrame (s : SimNode) (f : Frame) : SimNode :=
  { s.call (.onFrame SimPort.hooks s.port f.type (some f.payload)) with heard := s.heard ++ [f] }

def tick (s : SimNode) : SimNode := s.call (.tick SimPort.hooks s.port)

/-- `edge_parser_feed_buf` with the simulator's callback. -/
def feed (s : SimNode) (buf : List UInt8) : SimNode :=
  let (parser, frames) := edgeParserFeedBytes s.parser buf
  frames.foldl onFrame { s with parser := parser }

/-- One turn of `run`: `buf` is what was read, if anything, and `due` whether it is time for the
next report. -/
def turn (s : SimNode) (buf : List UInt8) (due : Bool) : SimNode :=
  let s := (s.feed buf).tick
  if due then { s with port := s.port.reportOnce } else s

end SimNode

/-! ## What goes to the port -/

namespace SimPort

/-- The port has a stream of frames, and those of the receiver have been emitted. -/
structure Streams (s : SimPort) (done : List (NodeEvent UInt32)) : Prop where
  stream : FrameStream s.written s.sent
  emitted : ∀ f ∈ s.sent, srUplink f.type = true → .emit f.type f.payload ∈ done

variable {s : SimPort} {done : List (NodeEvent UInt32)}

theorem noise_hdr1 (k : Nat) : EDGE_HDR1 ∉ noiseBytes.take k := fun h =>
  absurd (List.mem_of_mem_take h) (by decide)

/-- A frame that fits is written behind its noise; others are not sent. -/
theorem sendFrame_cases (type : UInt8) (payload : List UInt8) (s : SimPort) :
    s.sendFrame type payload = s ∨ Fits ⟨type, payload⟩ ∧ s.sendFrame type payload =
      { s.sendRaw (Frame.bytes ⟨type, payload⟩) with sent := s.sent ++ [⟨type, payload⟩] } := by
  unfold sendFrame
  dsimp only
  split_ifs with hempty
  · exact .inl rfl
  · have hfits : Fits ⟨type, payload⟩ := by
      by_contra hlong
      exact hempty (buildFrame_eq_nil (Nat.lt_of_not_le hlong))
    refine .inr ⟨hfits, ?_⟩
    rw [buildFrame_eq_bytes ⟨type, payload⟩ hfits]

/-- Nothing is written, and the record goes on. -/
theorem Streams.quiet (h : s.Streams done) {s' : SimPort} (later : List (NodeEvent UInt32))
    (hwritten : s'.written = s.written) (hsent : s'.sent = s.sent) :
    s'.Streams (done ++ later) where
  stream := by
    rw [hwritten, hsent]
    exact h.stream
  emitted := fun f hf hsr => List.mem_append_left _ (h.emitted f (hsent ▸ hf) hsr)

theorem Streams.sendFrame (h : s.Streams done) {type : UInt8} {payload : List UInt8}
    (hemitted : srUplink type = true → .emit type payload ∈ done) :
    (s.sendFrame type payload).Streams done := by
  rcases s.sendFrame_cases type payload with heq | ⟨hfits, heq⟩
  · rw [heq]
    exact h
  · rw [heq]
    refine ⟨h.stream.frame (noise_hdr1 _) hfits, fun f hf hsr => ?_⟩
    rcases List.mem_append.mp hf with hf | hf
    · exact h.emitted f hf hsr
    · obtain rfl := List.mem_singleton.mp hf
      exact hemitted hsr

theorem Streams.emit (h : s.Streams done) (type : UInt8) (payload : List UInt8) :
    (s.emit type payload).Streams (done ++ [.emit type payload]) := by
  have hmore : s.roll.2.Streams (done ++ [.emit type payload]) := h.quiet _ rfl rfl
  unfold SimPort.emit
  dsimp only
  split_ifs
  · exact h.quiet _ rfl rfl
  · exact hmore
  · exact hmore.sendFrame fun _ => by simp

theorem Streams.sendReading (h : s.Streams done) {type : UInt8} (payload : List UInt8)
    (hreport : srUplink type = false) : (s.sendReading type payload).Streams done := by
  have hroll : s.roll.2.Streams done := ⟨h.stream, h.emitted⟩
  unfold SimPort.sendReading
  dsimp only
  split_ifs
  · exact hroll
  · exact hroll.sendFrame fun hsr => absurd (hreport.symm.trans hsr) Bool.false_ne_true

theorem Streams.reportOnce (h : s.Streams done) : s.reportOnce.Streams done := by
  have hticked : SimPort.Streams { s with sim := { s.sim with tick := s.sim.tick + 1 } } done :=
    ⟨h.stream, h.emitted⟩
  unfold SimPort.reportOnce
  refine ((hticked.sendReading _ rfl).sendReading _ rfl |>.sendFrame ?_).sendFrame ?_
  · exact fun hsr => absurd hsr (by decide)
  · exact fun hsr => absurd hsr (by decide)

/-- **The hooks keep the stream.** -/
theorem keeps_streams : hooks.Keeps fun s done => s.Streams done where
  nowMs := fun _ _ h => h.quiet _ rfl rfl
  execute := fun _ _ _ h => h.quiet _ rfl rfl
  emit := fun _ _ type payload _ h => Streams.emit h type payload
  close := fun _ _ _ h => h.quiet _ rfl rfl
  store := fun _ _ _ h => h.quiet _ rfl rfl

end SimPort

/-! ## Reports -/

/-- The frames of a report; `measured` and `light` say which of the two measurements was sent. -/
def reportFrames (sim : NodeSim) (measured light : Bool) : List Frame :=
  (if measured then
    [⟨EDGE_TYPE_DHT11, edgeU16BeWrite sim.tempX10 ++ edgeU16BeWrite sim.humiX10⟩] else []) ++
  ((if light then [⟨EDGE_TYPE_BH1750, edgeU16BeWrite sim.lux⟩] else []) ++
    [⟨EDGE_TYPE_STATUS, [EDGE_STATUS_BIT_DHT11 ||| EDGE_STATUS_BIT_BH1750]⟩,
      ⟨EDGE_TYPE_HEARTBEAT, []⟩])

/-- What these frames say, in tenths. -/
def reportReadings (sim : NodeSim) (measured light : Bool) :
    List (TelemetryPipeline.Reading Nat) :=
  (if measured then
    [⟨bytes "temperature", sim.tempX10.toNat⟩, ⟨bytes "humidity", sim.humiX10.toNat⟩] else []) ++
  ((if light then [⟨bytes "illuminance", sim.lux.toNat * 10⟩] else []) ++
    [⟨bytes "status_dht11", 10⟩, ⟨bytes "status_bh1750", 10⟩])

/-- The reports between two counts of `tick_`: their frames and their readings. -/
inductive Reported (start : UInt32) :
    UInt32 → List Frame → List (TelemetryPipeline.Reading Nat) → Prop
  | start : Reported start start [] []
  | report {tick : UInt32} {frames : List Frame} {readings : List (TelemetryPipeline.Reading Nat)}
      (h : Reported start tick frames readings) (sim : NodeSim) (measured light : Bool)
      (htick : sim.tick = tick + 1) :
      Reported start (tick + 1) (frames ++ reportFrames sim measured light)
        (readings ++ reportReadings sim measured light)

theorem reportFrames_not_sr (sim : NodeSim) (measured light : Bool) :
    (reportFrames sim measured light).filter (fun f => !srUplink f.type) =
      reportFrames sim measured light := by
  cases measured <;> cases light <;> rfl

namespace SimPort

theorem sendFrame_fits {f : Frame} (hf : Fits f) (s : SimPort) :
    (s.sendFrame f.type f.payload).sent = s.sent ++ [f] ∧
      (s.sendFrame f.type f.payload).sim = s.sim := by
  have hne : buildFrame f.type f.payload ≠ [] := by
    rw [buildFrame_eq_bytes f hf]
    exact Frame.bytes_ne_nil hf
  unfold sendFrame
  rw [if_neg hne]
  exact ⟨rfl, rfl⟩

theorem sendReading_cases {f : Frame} (hf : Fits f) (s : SimPort) :
    ∃ kept : Bool, (s.sendReading f.type f.payload).sent = s.sent ++ (if kept then [f] else []) ∧
      (s.sendReading f.type f.payload).sim = s.sim := by
  unfold sendReading
  dsimp only
  split_ifs with hdrop
  · exact ⟨false, (List.append_nil _).symm, rfl⟩
  · obtain ⟨hsent, hsim⟩ := sendFrame_fits hf s.roll.2
    exact ⟨true, hsent, hsim⟩

/-- What one report sends. -/
theorem reportOnce_cases (s : SimPort) : ∃ measured light, s.reportOnce.sim.tick = s.sim.tick + 1 ∧
    s.reportOnce.sent = s.sent ++
      reportFrames { s.sim with tick := s.sim.tick + 1 } measured light := by
  let sim : NodeSim := { s.sim with tick := s.sim.tick + 1 }
  let dht : Frame := ⟨EDGE_TYPE_DHT11, edgeU16BeWrite sim.tempX10 ++ edgeU16BeWrite sim.humiX10⟩
  let bh : Frame := ⟨EDGE_TYPE_BH1750, edgeU16BeWrite sim.lux⟩
  let status : Frame := ⟨EDGE_TYPE_STATUS, [EDGE_STATUS_BIT_DHT11 ||| EDGE_STATUS_BIT_BH1750]⟩
  let beat : Frame := ⟨EDGE_TYPE_HEARTBEAT, []⟩
  have hdht : Fits dht := by
    show (edgeU16BeWrite sim.tempX10 ++ edgeU16BeWrite sim.humiX10).length ≤ EDGE_PAYLOAD_MAX
    rw [List.length_append, edgeU16BeWrite_length, edgeU16BeWrite_length]
    decide
  have hbh : Fits bh := by
    show (edgeU16BeWrite sim.lux).length ≤ EDGE_PAYLOAD_MAX
    rw [edgeU16BeWrite_length]
    decide
  have hstatus : Fits status := show (1 : Nat) ≤ EDGE_PAYLOAD_MAX by decide
  have hbeat : Fits beat := show (0 : Nat) ≤ EDGE_PAYLOAD_MAX by decide
  obtain ⟨measured, hsent₁, hsim₁⟩ := sendReading_cases hdht { s with sim := sim }
  obtain ⟨light, hsent₂, hsim₂⟩ :=
    sendReading_cases hbh (sendReading dht.type dht.payload { s with sim := sim })
  obtain ⟨hsent₃, hsim₃⟩ := sendFrame_fits hstatus
    (sendReading bh.type bh.payload (sendReading dht.type dht.payload { s with sim := sim }))
  obtain ⟨hsent₄, hsim₄⟩ := sendFrame_fits hbeat (sendFrame status.type status.payload
    (sendReading bh.type bh.payload (sendReading dht.type dht.payload { s with sim := sim })))
  refine ⟨measured, light, ?_, ?_⟩
  · have hsim : s.reportOnce.sim = sim := hsim₄.trans (hsim₃.trans (hsim₂.trans hsim₁))
    rw [hsim]
  · have hsent : s.reportOnce.sent = ((s.sent ++ (if measured then [dht] else [])) ++
        (if light then [bh] else [])) ++ [status] ++ [beat] := by
      refine hsent₄.trans ?_
      rw [hsent₃, hsent₂, hsent₁]
    rw [hsent]
    simp only [List.append_assoc]
    rfl

/-- The reports among the frames that went to the port, since `tick_` was `start`. -/
def Reports (start : UInt32) (s : SimPort) : Prop :=
  ∃ readings, Reported start s.sim.tick (s.sent.filter fun f => !srUplink f.type) readings

theorem Reports.quiet {start : UInt32} {s s' : SimPort} (h : s.Reports start)
    (htick : s'.sim.tick = s.sim.tick)
    (hsent : (s'.sent.filter fun f => !srUplink f.type) = s.sent.filter fun f => !srUplink f.type) :
    s'.Reports start := by
  unfold Reports
  rw [htick, hsent]
  exact h

theorem Reports.emit {start : UInt32} {s : SimPort} (h : s.Reports start) {type : UInt8}
    (payload : List UInt8) (htype : srUplink type = true) : (s.emit type payload).Reports start := by
  unfold SimPort.emit
  dsimp only
  split_ifs
  · exact h
  · exact h
  · rcases s.roll.2.sendFrame_cases type payload with heq | ⟨-, heq⟩
    · rw [heq]
      exact h
    · rw [heq]
      refine h.quiet rfl ?_
      show (s.sent ++ [_]).filter _ = _
      rw [List.filter_append, List.filter_cons_of_neg (by simp [htype]), List.filter_nil,
        List.append_nil]

theorem Reports.reportOnce {start : UInt32} {s : SimPort} (h : s.Reports start) :
    s.reportOnce.Reports start := by
  obtain ⟨readings, hreported⟩ := h
  obtain ⟨measured, light, htick, hsent⟩ := s.reportOnce_cases
  refine ⟨readings ++ reportReadings { s.sim with tick := s.sim.tick + 1 } measured light, ?_⟩
  rw [htick, hsent, List.filter_append, reportFrames_not_sr]
  exact hreported.report _ measured light rfl

theorem execute_tick (seq type : UInt8) (args : List UInt8) (sim : NodeSim) :
    (NodeSim.execute seq type args sim).2.tick = sim.tick := by
  unfold NodeSim.execute
  split_ifs <;> rfl

/-- The hooks of the receiver send no report. -/
theorem keeps_reports (start : UInt32) : hooks.Keeps fun s _ => s.Reports start where
  nowMs := fun _ _ h => h
  execute := fun s _ c h => h.quiet (execute_tick c.seq c.type c.args s.sim) rfl
  emit := fun _ _ _ payload htype h => h.emit payload htype
  close := fun _ _ _ h => h
  store := fun _ _ _ h => h

end SimPort

/-! ## The simulator's invariant -/

namespace SimPort

/-- What was written stays written. -/
theorem sendFrame_written (type : UInt8) (payload : List UInt8) (s : SimPort) :
    s.written <+: (s.sendFrame type payload).written := by
  unfold sendFrame
  dsimp only
  split_ifs
  · exact List.prefix_refl _
  · exact List.prefix_append _ _

theorem emit_written (type : UInt8) (payload : List UInt8) (s : SimPort) :
    s.written <+: (s.emit type payload).written := by
  unfold emit
  dsimp only
  split_ifs
  · exact List.prefix_refl _
  · exact List.prefix_refl _
  · exact sendFrame_written type payload s.roll.2

theorem sendReading_written (type : UInt8) (payload : List UInt8) (s : SimPort) :
    s.written <+: (s.sendReading type payload).written := by
  unfold sendReading
  dsimp only
  split_ifs
  · exact List.prefix_refl _
  · exact sendFrame_written type payload s.roll.2

theorem reportOnce_written (s : SimPort) : s.written <+: s.reportOnce.written := by
  unfold reportOnce
  dsimp only
  refine List.IsPrefix.trans ?_ (sendFrame_written _ _ _)
  refine List.IsPrefix.trans ?_ (sendFrame_written _ _ _)
  refine List.IsPrefix.trans ?_ (sendReading_written _ _ _)
  exact sendReading_written _ _ { s with sim := { s.sim with tick := s.sim.tick + 1 } }

theorem keeps_written (before : List UInt8) : hooks.Keeps fun s _ => before <+: s.written where
  nowMs := fun _ _ h => h
  execute := fun _ _ _ h => h
  emit := fun s _ type payload _ h => h.trans (emit_written type payload s)
  close := fun _ _ _ h => h
  store := fun _ _ _ h => h

/-- Every result is one of `NodeSim::execute`. -/
theorem keeps_executed : hooks.Keeps fun _ done => ∀ c raw, .execute c raw ∈ done →
    ∃ sim : NodeSim, raw = (sim.execute c.seq c.type c.args).1 where
  nowMs := fun _ _ h c raw hmem => h c raw (by simpa using hmem)
  execute := fun s done c h c' raw hmem => by
    rcases List.mem_append.mp hmem with hmem | hmem
    · exact h c' raw hmem
    · obtain ⟨rfl, rfl⟩ := NodeEvent.execute.inj (List.mem_singleton.mp hmem)
      exact ⟨s.sim, rfl⟩
  emit := fun _ _ _ _ _ h c raw hmem => h c raw (by simpa using hmem)
  close := fun _ _ _ h c raw hmem => h c raw (by simpa using hmem)
  store := fun _ _ _ h c raw hmem => h c raw (by simpa using hmem)

end SimPort

namespace SimNode

/-- What the port was given, what of it are reports, and where the results come from. -/
structure Inv (start : UInt32) (s : SimNode) : Prop where
  streams : s.port.Streams s.done
  reports : s.port.Reports start
  executed : ∀ c raw, .execute c raw ∈ s.done →
    ∃ sim : NodeSim, raw = (sim.execute c.seq c.type c.args).1

variable {start : UInt32} {s : SimNode}

theorem Inv.frame (h : s.Inv start) (f : Frame) : (s.onFrame f).Inv start where
  streams := (SimPort.keeps_streams.behind s.done).onFrame f.type (some f.payload)
    (by rw [List.append_nil]; exact h.streams)
  reports := (SimPort.keeps_reports start).onFrame f.type (some f.payload) h.reports
  executed := (SimPort.keeps_executed.behind s.done).onFrame f.type (some f.payload)
    (by rw [List.append_nil]; exact h.executed)

theorem Inv.tick (h : s.Inv start) : s.tick.Inv start where
  streams := (SimPort.keeps_streams.behind s.done).tick
    (by rw [List.append_nil]; exact h.streams)
  reports := (SimPort.keeps_reports start).tick h.reports
  executed := (SimPort.keeps_executed.behind s.done).tick
    (by rw [List.append_nil]; exact h.executed)

theorem Inv.frames (h : s.Inv start) (frames : List Frame) :
    (frames.foldl onFrame s).Inv start :=
  List.foldlRecOn (motive := fun s : SimNode => s.Inv start) frames onFrame h
    fun _ hs f _ => hs.frame f

theorem Inv.turn (h : s.Inv start) (buf : List UInt8) (due : Bool) : (s.turn buf due).Inv start := by
  have hparsed : Inv start { s with parser := (edgeParserFeedBytes s.parser buf).1 } :=
    ⟨h.streams, h.reports, h.executed⟩
  have hticked : ((s.feed buf).tick).Inv start := (hparsed.frames _).tick
  unfold SimNode.turn
  dsimp only
  split_ifs
  · exact ⟨hticked.streams.reportOnce, hticked.reports.reportOnce, hticked.executed⟩
  · exact hticked

/-- What the frames of a turn leave of the simulator. -/
theorem frames_written (frames : List Frame) : ∀ s : SimNode,
    s.port.written <+: (frames.foldl onFrame s).port.written ∧
      (frames.foldl onFrame s).parser = s.parser ∧
      (frames.foldl onFrame s).heard = s.heard ++ frames := by
  induction frames with
  | nil => exact fun s => ⟨List.prefix_refl _, rfl, (List.append_nil _).symm⟩
  | cons f frames ih =>
      intro s
      obtain ⟨hwritten, hparser, hheard⟩ := ih (s.onFrame f)
      have hfirst : s.port.written <+: (s.onFrame f).port.written :=
        (SimPort.keeps_written s.port.written).onFrame f.type (some f.payload) (List.prefix_refl _)
      refine ⟨hfirst.trans hwritten, hparser, ?_⟩
      rw [List.foldl_cons, hheard]
      exact List.append_assoc s.heard [f] frames

theorem turn_written (s : SimNode) (buf : List UInt8) (due : Bool) :
    s.port.written <+: (s.turn buf due).port.written ∧
      (s.turn buf due).parser = (edgeParserFeedBytes s.parser buf).1 ∧
      (s.turn buf due).heard = s.heard ++ (edgeParserFeedBytes s.parser buf).2 := by
  obtain ⟨hwritten, hparser, hheard⟩ := frames_written (edgeParserFeedBytes s.parser buf).2
    { s with parser := (edgeParserFeedBytes s.parser buf).1 }
  have hticked : s.port.written <+: (s.feed buf).tick.port.written :=
    (SimPort.keeps_written s.port.written).tick hwritten
  unfold turn
  dsimp only
  split_ifs
  · exact ⟨hticked.trans (SimPort.reportOnce_written _), hparser, hheard⟩
  · exact ⟨hticked, hparser, hheard⟩

end SimNode

end EdgeGateway
