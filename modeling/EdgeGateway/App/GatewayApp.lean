import EdgeGateway.Link.NodeLink
import EdgeGateway.Link.TrackerInvariant

set_option autoImplicit false

/-! # The serial reactor of the gateway

`GatewayApp` as far as the serial reactor goes: the command queue, the tracker, the request map and
the output queue, driven by the events of the loop. The core submits commands at any time, so new
ones may be there at every look at the queue; every reading of the clock is arbitrary. Wake-ups of
the event loop and telemetry are left out: events come in any order here.
-/

namespace EdgeGateway

/-! ## Data -/

/-- A translated command: protocol type and argument bytes. -/
structure DownCmd where
  type : UInt8
  arg : List UInt8
  deriving DecidableEq

/-- Requests are numbered from one on; the 64-bit counter does not wrap in the life of a process. -/
abbrev RequestId := Nat

structure Downlink where
  id : RequestId
  command : DownCmd
  deriving DecidableEq

/-- A call of `commandFinished` or `commandRejected`. -/
inductive CoreCall
  | finished (id : RequestId) (completion : CommandCompletion)
  | rejected (id : RequestId) (error : String)
  deriving DecidableEq

def CoreCall.id : CoreCall → RequestId
  | .finished id _ => id
  | .rejected id _ => id

/-- `GatewayCore::kMaxCommands`. -/
def kMaxCommands : Nat := 512

def kDownlinkBatchSize : Nat := 32

/-- What the reactor holds besides the link. `channel` is the registration of the serial channel,
with the interest in `EPOLLOUT`; `clock` and `arrivals` are the readings and submissions to come.
The last five fields record what happened. -/
structure Reactor where
  tracker : CommandTracker
  requests : KeyMap UInt8 RequestId
  cmdQueue : List Downlink
  channel : Option Bool
  clock : Nat → TimePoint
  arrivals : Nat → List Downlink
  log : List TrackerEvent
  popped : List Downlink
  assigned : List (Downlink × Command)
  calls : List CoreCall
  encodingFailures : Nat

abbrev GatewayApp := Linked CommandSend Reactor

namespace Reactor

def init (clock : Nat → TimePoint) (arrivals : Nat → List Downlink) : Reactor where
  tracker := CommandTracker.new
  requests := KeyMap.empty
  cmdQueue := []
  channel := none
  clock := clock
  arrivals := arrivals
  log := []
  popped := []
  assigned := []
  calls := []
  encodingFailures := 0

/-- `Clock::now`. -/
def now (s : Reactor) : TimePoint × Reactor :=
  (s.clock 0, { s with clock := fun n => s.clock (n + 1) })

/-- `try_push` on the command queue. -/
def tryPush (s : Reactor) (d : Downlink) : Reactor :=
  if s.cmdQueue.length ≥ kMaxCommands then s else { s with cmdQueue := s.cmdQueue ++ [d] }

/-- The submissions that come before the next look at the queue. -/
def poll (s : Reactor) : Reactor :=
  (s.arrivals 0).foldl tryPush { s with arrivals := fun n => s.arrivals (n + 1) }

def tryPop (s : Reactor) : Option (Downlink × Reactor) :=
  match s.poll.cmdQueue with
  | [] => none
  | d :: rest => some (d, { s.poll with cmdQueue := rest, popped := s.poll.popped ++ [d] })

/-- The tracker after a call; `log` has what the call returned. -/
def advance (s : Reactor) (r : CommandTracker × TrackerActions) : Reactor :=
  { s with tracker := r.1, log := s.log ++ r.2.events s.tracker.session }

/-- The tracker after `submit`. -/
def accept (s : Reactor) (d : Downlink) (now : TimePoint) : Reactor × Option CommandSend :=
  let r := s.tracker.submit d.command.type d.command.arg now
  let es := submitEvents d.command.type d.command.arg now r.2
  ({ s with
      tracker := r.1
      log := s.log ++ es
      assigned := s.assigned ++ (submits es).map fun c => (d, c) }, r.2)

def commandRejected (s : Reactor) (id : RequestId) (error : String) : Reactor :=
  { s with calls := s.calls ++ [.rejected id error] }

def commandFinished (s : Reactor) (id : RequestId) (completion : CommandCompletion) : Reactor :=
  { s with calls := s.calls ++ [.finished id completion] }

/-- The first loop of `applyTrackerActions`. -/
def deliver (s : Reactor) (done : CommandCompletion) : Reactor :=
  match s.requests.find? done.seq with
  | none => s
  | some id => { s.commandFinished id done with requests := s.requests.erase done.seq }

end Reactor

/-! ## Output -/

namespace GatewayApp

def now (s : GatewayApp) : TimePoint × GatewayApp :=
  (s.owner.now.1, { s with owner := s.owner.now.2 })

/-- Nothing is done while the serial channel is not registered. -/
def updateSerialWriteInterest (s : GatewayApp) : GatewayApp :=
  match s.owner.channel with
  | none => s
  | some out =>
      if out = s.link.hasPendingOutput then s
      else
        let s := s.record (.armed s.link.hasPendingOutput)
        { s with owner := { s.owner with channel := some s.link.hasPendingOutput } }

/-- `queue` is `queueTransmission`. -/
def applyTrackerActions (queue : CommandSend → GatewayApp → GatewayApp) (actions : TrackerActions)
    (s : GatewayApp) : GatewayApp :=
  let s := { s with owner := actions.finished.foldl Reactor.deliver s.owner }
  updateSerialWriteInterest (actions.send.foldl (fun s send => queue send s) s)

/-- The completion callback of a frame. -/
def complete (queue : CommandSend → GatewayApp → GatewayApp) (send : CommandSend) (sent : Bool)
    (s : GatewayApp) : GatewayApp :=
  let (now, s) := s.now
  let r := s.owner.tracker.onWritten send sent now
  applyTrackerActions queue r.2 { s with owner := s.owner.advance r }

/-- `rounds` bounds the nesting of frames that cannot be encoded: a command that fails opens a
session, and an OPEN that fails sends nothing more. -/
def queueTransmissionIn : Nat → CommandSend → GatewayApp → GatewayApp
  | 0, _, s => s
  | rounds + 1, send, s =>
      match s.link.send send.type send.payload send with
      | some link => { s with link := link }
      | none =>
          let s := { s with
            owner := { s.owner with encodingFailures := s.owner.encodingFailures + 1 } }
          complete (queueTransmissionIn rounds) send false s

def queueTransmission (send : CommandSend) (s : GatewayApp) : GatewayApp :=
  queueTransmissionIn 3 send s

/-- The two callbacks `queueTransmission` gives to the link. -/
def hooks : LinkHooks CommandSend Reactor where
  canSend send owner := (owner.tracker.canSend send owner.now.1, owner.now.2)
  onComplete := complete queueTransmission

/-! ## Events -/

def registerSerialEvent (s : GatewayApp) : GatewayApp :=
  let s := s.record (.armed s.link.hasPendingOutput)
  { s with owner := { s.owner with channel := some s.link.hasPendingOutput } }

/-- A link that was prepared is activated, or not; the old one's callbacks are dropped with it. -/
def replaceSerial (s : GatewayApp) (activates : Bool) : GatewayApp :=
  let s := { s with owner := { s.owner with channel := none } }
  if activates = false then registerSerialEvent s
  else
    let (now, s) := s.now
    let r := s.owner.tracker.start s.owner.tracker.session now
    let s : GatewayApp := { link := {}, owner := s.owner.advance r }
    applyTrackerActions queueTransmission r.2 (registerSerialEvent s)

def startFirst (s : GatewayApp) (epoch : Int) : GatewayApp :=
  let s := { s with owner := s.owner.poll }
  if s.owner.cmdQueue ≠ [] ∧ s.owner.tracker.state = .closed then
    let (now, s) := s.now
    let r := s.owner.tracker.start (epochSession epoch) now
    applyTrackerActions queueTransmission r.2 { s with owner := s.owner.advance r }
  else s

/-- A popped command goes to the tracker. -/
def submitDownlink (s : GatewayApp) (d : Downlink) : GatewayApp :=
  let (now, s) := s.now
  let (owner, send) := s.owner.accept d now
  match send with
  | some send =>
      queueTransmission send
        { s with owner := { owner with requests := owner.requests.emplace send.seq d.id } }
  | none => { s with owner := owner.commandRejected d.id "link_failed" }

/-- The loop of `onDownlinkEvent`. -/
def downlinkLoop : Nat → GatewayApp → GatewayApp
  | 0, s => s
  | n + 1, s =>
      let s := { s with owner := s.owner.poll }
      if s.owner.cmdQueue = [] then s
      else if s.owner.tracker.state = .failed then
        match s.owner.tryPop with
        | none => s
        | some (d, owner) =>
            downlinkLoop n { s with owner := owner.commandRejected d.id "link_failed" }
      else if s.owner.tracker.canSubmit = false then s
      else
        match s.owner.tryPop with
        | none => s
        | some (d, owner) => downlinkLoop n (submitDownlink { s with owner := owner } d)

/-- `replacements` are the links waiting, each with whether it can be activated. -/
def onDownlinkEvent (s : GatewayApp) (stopping : Bool) (replacements : List Bool) (epoch : Int) :
    GatewayApp :=
  if stopping then s
  else
    let s := replacements.foldl replaceSerial s
    let s := startFirst s epoch
    updateSerialWriteInterest (downlinkLoop kDownlinkBatchSize s)

def onCommandTimerEvent (s : GatewayApp) : GatewayApp :=
  let (now, s) := s.now
  let r := s.owner.tracker.tick now
  applyTrackerActions queueTransmission r.2 { s with owner := s.owner.advance r }

/-- Other frames are telemetry. -/
def dispatchFrame (s : GatewayApp) (frame : Frame) : GatewayApp :=
  if frame.type = EDGE_TYPE_SR_RECEIVED ∨ frame.type = EDGE_TYPE_SR_RESULT ∨
      frame.type = EDGE_TYPE_SR_OPEN_ACK then
    let (now, s) := s.now
    let r := s.owner.tracker.onFrame frame.type frame.payload now
    applyTrackerActions queueTransmission r.2 { s with owner := s.owner.advance r }
  else s

/-- `frames` are those the parser finds in the bytes that are read. -/
def onSerialEvent (s : GatewayApp) (frames : List Frame) : GatewayApp :=
  frames.foldl dispatchFrame s

def onSerialWriteEvent (s : GatewayApp) (turns : List WriteResult) : GatewayApp :=
  updateSerialWriteInterest (flushOutput hooks turns s).1

/-- `~GatewayApp`: the queue takes nothing any more, and everything that waits is answered. -/
def shutdown (s : GatewayApp) : GatewayApp :=
  let owner := s.owner.poll
  let owner := { owner with cmdQueue := [], popped := owner.popped ++ owner.cmdQueue }
  let owner := s.owner.poll.cmdQueue.foldl
    (fun owner d => owner.commandRejected d.id "gateway_shutdown") owner
  let owner := owner.requests.toList.foldl
    (fun owner request =>
      owner.commandFinished request.2 ⟨request.1, 0, [], "gateway_shutdown"⟩) owner
  { s with owner := { owner with requests := KeyMap.empty } }

end GatewayApp

/-! ## Runs -/

/-- An event of the loop, with what it finds. -/
inductive AppEvent
  | downlink (stopping : Bool) (replacements : List Bool) (epoch : Int)
  | timer
  | serial (frames : List Frame)
  | writable (turns : List WriteResult)

namespace GatewayApp

def handle (s : GatewayApp) : AppEvent → GatewayApp
  | .downlink stopping replacements epoch => s.onDownlinkEvent stopping replacements epoch
  | .timer => s.onCommandTimerEvent
  | .serial frames => s.onSerialEvent frames
  | .writable turns => s.onSerialWriteEvent turns

/-- `run` registers the serial channel before the loop begins. -/
def init (clock : Nat → TimePoint) (arrivals : Nat → List Downlink) : GatewayApp :=
  registerSerialEvent { link := {}, owner := Reactor.init clock arrivals }

def runEvents (s : GatewayApp) (events : List AppEvent) : GatewayApp := events.foldl handle s

end GatewayApp

end EdgeGateway
