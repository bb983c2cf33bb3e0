import EdgeGateway.App.GatewayApp
import EdgeGateway.Basic.Tally

set_option autoImplicit false

/-! # The threads of the gateway around `GatewayCore`

MQTT callbacks, the core worker, the query worker, the serial reactor, the management worker and the
main thread, each taking one step at a time: a step makes at most one access to what threads share,
and any thread may be next. Posting a task, pushing and popping a request, reading or changing an
atomic are such accesses. What the reactor does between popping a request and answering it is left
open here.
-/

namespace EdgeGateway

/-! ## Executors -/

/-- `TaskExecutor`, a bounded mailbox with a reserve for completions. -/
structure TaskExecutor (capacity reserve : Nat) (α : Type) where
  tasks : List α := []
  closed : Bool := false

def TaskExecutor.post {capacity reserve : Nat} {α : Type} (e : TaskExecutor capacity reserve α)
    (task : α) (completion : Bool) : Option (TaskExecutor capacity reserve α) :=
  let limit := capacity + if completion then reserve else 0
  if e.closed ∨ e.tasks.length ≥ limit then none else some { e with tasks := e.tasks ++ [task] }

/-- `GatewayCore::kMaxQueries`. -/
def kMaxQueries : Nat := 32

/-! ## Tasks -/

/-- A publication that ends a command; `msg` is the message it answers. -/
structure Publication where
  msg : Nat
  topic : String
  payload : String
  deriving DecidableEq

/-- The tasks of the core worker; `http` tells whether the request passes all checks up to the
limit on queries. -/
inductive CoreTask
  | mqtt (msg : Nat) (topic payload : List UInt8)
  | telemetry (readings : List (String × String))
  | http (query : Bool)
  | answer (call : CoreCall)
  | queryDone
  | barrier

/-- The tasks of the management worker. -/
inductive ManageTask
  | terminal (p : Publication)
  | uplink (topic payload : String)
  | reload

/-! ## Threads -/

/-- Where a call of the MQTT message handler is: `credited` has a credit and will post, `refused`
failed to post and will release. -/
inductive MqttStage
  | called
  | checked
  | credited
  | refused
  deriving DecidableEq

structure MqttCall where
  msg : Nat
  topic : List UInt8
  payload : List UInt8
  stage : MqttStage

/-- What the core worker does next. -/
inductive CoreWork
  | idle
  | task (t : CoreTask)
  | submit (id : RequestId) (cmd : DownCmd)
  | push (id : RequestId) (cmd : DownCmd)
  | publish (p : Publication)
  | uplink (readings : List (String × String))
  | query
  | exited

inductive QueryWork
  | idle
  | running
  | exited
  deriving DecidableEq

/-- What the management worker does next; `release` has published and will run `done`. -/
inductive ManageWork
  | idle
  | task (t : ManageTask)
  | release (msg : Nat)
  | exited

/-- The main thread: the loop, then `~GatewayApp` with `GatewayCore::stop`. -/
inductive Phase
  | loop
  | stopped
  | reloadsJoined
  | queueClosed
  | draining
  | drained
  | awaiting
  | closingQueries
  | closingCore
  | closingManage
  | joiningMqtt
  | done
  deriving DecidableEq

def Phase.rank : Phase → Nat
  | .loop => 0
  | .stopped => 1
  | .reloadsJoined => 2
  | .queueClosed => 3
  | .draining => 4
  | .drained => 5
  | .awaiting => 6
  | .closingQueries => 7
  | .closingCore => 8
  | .closingManage => 9
  | .joiningMqtt => 10
  | .done => 11

/-! ## State -/

/-- The shared state and the place of every thread. `held` are the requests the reactor has popped
and not answered. The last four fields record what happened: the messages accepted, those whose
terminal task has run, the terminal publications, and the completions and terminal publications
that an executor refused. -/
structure Gateway where
  calls : List MqttCall := []
  nextMsg : Nat := 0
  admitted : Nat := 0
  accepting : Bool := true
  core : TaskExecutor 1024 (kMaxCommands + kMaxQueries + 8) CoreTask := {}
  coreWork : CoreWork := .idle
  nextId : RequestId := 1
  pending : List (RequestId × Nat) := []
  queries : Nat := 0
  query : TaskExecutor kMaxQueries 0 Unit := {}
  queryWork : QueryWork := .idle
  cmdQueue : List Downlink := []
  cmdClosed : Bool := false
  held : List RequestId := []
  manage : TaskExecutor 1024 (kMaxCommands + 16) ManageTask := {}
  manageWork : ManageWork := .idle
  reloadPending : Bool := false
  stopping : Bool := false
  reached : Bool := false
  phase : Phase := .loop
  accepted : List Nat := []
  settled : List Nat := []
  published : List Publication := []
  refused : Nat := 0

/-- Translation of a message and formatting of a value, as the core uses them. -/
structure CoreText where
  translate : List UInt8 → List UInt8 → Except String DownCmd
  formatValue : Nat → Nat → String

/-! ## The core worker -/

def EDGE_TEMP_SCALE : Nat := 10

def EDGE_HUMI_SCALE : Nat := 10

def edgeU16BeRead (p : List UInt8) : Nat := (p.getD 0 0).toNat * 256 + (p.getD 1 0).toNat

/-- Topic and payload of `handleFinished`. -/
def finishedMessage (text : CoreText) (result : CommandCompletion) : String × String :=
  let ack := "gateway/ack/" ++ toString result.seq.toNat
  let resp := "gateway/resp/" ++ toString result.seq.toNat
  let data := result.result.drop 1
  if result.error ≠ "" then (ack, result.error)
  else if result.result = [] then (ack, "invalid_result")
  else if result.result.getD 0 0 ≠ EDGE_RC_OK then
    (ack, "err," ++ toString (result.result.getD 0 0).toNat)
  else if result.type = EDGE_TYPE_QUERY_TH ∧ result.result.length = 5 then
    (resp, "ok," ++ text.formatValue (edgeU16BeRead data) EDGE_TEMP_SCALE ++ "," ++
      text.formatValue (edgeU16BeRead (data.drop 2)) EDGE_HUMI_SCALE)
  else if result.type = EDGE_TYPE_QUERY_LIGHT ∧ result.result.length = 3 then
    (resp, "ok," ++ toString (edgeU16BeRead data))
  else if result.type = EDGE_TYPE_SET_PERIOD ∧ result.result.length = 1 then (ack, "ok")
  else (ack, "invalid_result")

namespace Gateway

def releaseCommand (s : Gateway) : Gateway := { s with admitted := s.admitted - 1 }

/-- Both ways to end a request: an id that is not pending is ignored. -/
def endRequest (s : Gateway) (id : RequestId) (message : String × String) : Gateway :=
  match takeKey id s.pending with
  | none => { s with coreWork := .idle }
  | some (msg, rest) =>
      { s with pending := rest, coreWork := .publish ⟨msg, message.1, message.2⟩ }

def reject (s : Gateway) (id : RequestId) (error : String) : Gateway :=
  s.endRequest id ("gateway/ack/rejected", error)

def handleFinished (text : CoreText) (s : Gateway) (id : RequestId) (result : CommandCompletion) :
    Gateway :=
  s.endRequest id (finishedMessage text result)

/-- The ids in `pending_` are a set. -/
def handleMqtt (text : CoreText) (s : Gateway) (msg : Nat) (topic payload : List UInt8) :
    Gateway :=
  match text.translate topic payload with
  | .error error => { s with coreWork := .publish ⟨msg, "gateway/ack/rejected", error⟩ }
  | .ok cmd =>
      { s with
        nextId := s.nextId + 1
        pending :=
          if s.pending.any (·.1 = s.nextId) then s.pending else s.pending ++ [(s.nextId, msg)]
        coreWork := .submit s.nextId cmd }

def handleHttp (s : Gateway) (query : Bool) : Gateway :=
  if query ∧ s.queries < kMaxQueries then
    { s with queries := s.queries + 1, coreWork := .query }
  else { s with coreWork := .idle }

def runCoreTask (text : CoreText) (s : Gateway) : CoreTask → Gateway
  | .mqtt msg topic payload => s.handleMqtt text msg topic payload
  | .telemetry readings => { s with coreWork := .uplink readings }
  | .http query => s.handleHttp query
  | .answer (.finished id result) => s.handleFinished text id result
  | .answer (.rejected id error) => s.reject id error
  | .queryDone => { s with queries := s.queries - 1, coreWork := .idle }
  | .barrier => { s with reached := true, coreWork := .idle }

/-- `publishCommand`: the credit goes along with the task, or back. -/
def publishCommand (s : Gateway) (p : Publication) : Gateway :=
  match s.manage.post (.terminal p) true with
  | some manage => { s with manage := manage, coreWork := .idle }
  | none => { s.releaseCommand with coreWork := .idle, refused := s.refused + 1 }

/-- `try_push` in `submitCommand`. -/
def pushCommand (s : Gateway) (id : RequestId) (cmd : DownCmd) : Gateway :=
  if s.cmdClosed ∨ s.cmdQueue.length ≥ kMaxCommands then s.reject id "gateway_busy"
  else { s with cmdQueue := s.cmdQueue ++ [⟨id, cmd⟩], coreWork := .idle }

def publishUplink (s : Gateway) : List (String × String) → Gateway
  | [] => { s with coreWork := .idle }
  | (device, value) :: rest =>
      let manage := s.manage.post (.uplink ("gateway/up/" ++ device) value) false
      { s with manage := manage.getD s.manage, coreWork := .uplink rest }

def postQuery (s : Gateway) : Gateway :=
  match s.query.post () false with
  | some query => { s with query := query, coreWork := .idle }
  | none => { s with queries := s.queries - 1, coreWork := .idle }

def coreStep (text : CoreText) (s : Gateway) : Gateway :=
  match s.coreWork with
  | .idle =>
      match s.core.tasks with
      | t :: rest => { s with core := { s.core with tasks := rest }, coreWork := .task t }
      | [] => if s.core.closed then { s with coreWork := .exited } else s
  | .task t => s.runCoreTask text t
  | .submit id cmd =>
      if s.stopping then s.reject id "gateway_busy" else { s with coreWork := .push id cmd }
  | .push id cmd => s.pushCommand id cmd
  | .publish p => s.publishCommand p
  | .uplink readings => s.publishUplink readings
  | .query => s.postQuery
  | .exited => s

/-! ## The other threads -/

/-- `mqttMessage` one access at a time, called from the message handler. -/
def callStep (s : Gateway) (c : MqttCall) : Option MqttCall × Gateway :=
  match c.stage with
  | .called =>
      if s.accepting = false ∨ c.topic.length > 256 ∨ c.payload.length > 4096 then (none, s)
      else (some { c with stage := .checked }, s)
  | .checked =>
      if s.admitted ≥ kMaxCommands then (none, s)
      else (some { c with stage := .credited }, { s with admitted := s.admitted + 1 })
  | .credited =>
      match s.core.post (.mqtt c.msg c.topic c.payload) false with
      | some core => (none, { s with core := core, accepted := s.accepted ++ [c.msg] })
      | none => (some { c with stage := .refused }, s)
  | .refused => (none, s.releaseCommand)

def mqttStep (s : Gateway) (i : Nat) : Gateway :=
  match pick i s.calls with
  | none => s
  | some (before, c, behind) =>
      let r := s.callStep c
      { r.2 with calls := before ++ r.1.toList ++ behind }

/-- The message handler is called; it reads `stopping_` first. -/
def arrive (s : Gateway) (topic payload : List UInt8) : Gateway :=
  if s.stopping then s
  else { s with
    calls := s.calls ++ [⟨s.nextMsg, topic, payload, .called⟩]
    nextMsg := s.nextMsg + 1 }

/-- A query is over, whether it threw or not. -/
def queryStep (s : Gateway) : Gateway :=
  match s.queryWork with
  | .idle =>
      match s.query.tasks with
      | _ :: rest => { s with query := { s.query with tasks := rest }, queryWork := .running }
      | [] => if s.query.closed then { s with queryWork := .exited } else s
  | .running =>
      match s.core.post .queryDone true with
      | some core => { s with core := core, queryWork := .idle }
      | none => { s with queryWork := .idle, refused := s.refused + 1 }
  | .exited => s

def runManageTask (s : Gateway) : ManageTask → Gateway
  | .terminal p => { s with published := s.published ++ [p], manageWork := .release p.msg }
  | .uplink _ _ => { s with manageWork := .idle }
  | .reload => { s with reloadPending := false, manageWork := .idle }

def manageStep (s : Gateway) : Gateway :=
  match s.manageWork with
  | .idle =>
      match s.manage.tasks with
      | t :: rest => { s with manage := { s.manage with tasks := rest }, manageWork := .task t }
      | [] => if s.manage.closed then { s with manageWork := .exited } else s
  | .task t => s.runManageTask t
  | .release msg =>
      { s.releaseCommand with settled := s.settled ++ [msg], manageWork := .idle }
  | .exited => s

/-- Requests are popped and answered by the reactor, and by the main thread that drains. -/
def serves (s : Gateway) : Bool := s.phase = .loop ∨ s.phase = .draining

def pop (s : Gateway) : Gateway :=
  match s.cmdQueue with
  | [] => s
  | d :: rest => if s.serves then { s with cmdQueue := rest, held := s.held ++ [d.id] } else s

/-- `commandFinished` and `commandRejected`. -/
def postAnswer (s : Gateway) (call : CoreCall) : Gateway :=
  match s.core.post (.answer call) true with
  | some core => { s with core := core }
  | none => { s with refused := s.refused + 1 }

/-- An answer to a request that is held; `result` chooses which. -/
def answer (s : Gateway) (i : Nat) (result : Except String CommandCompletion) : Gateway :=
  match pick i s.held with
  | none => s
  | some (before, id, behind) =>
      if s.serves then
        let s := { s with held := before ++ behind }
        match result with
        | .ok completion => s.postAnswer (.finished id completion)
        | .error error => s.postAnswer (.rejected id error)
      else s

/-- An ordinary task of the core, refused when there is no room. -/
def postOrdinary (s : Gateway) (t : CoreTask) : Gateway :=
  { s with core := (s.core.post t false).getD s.core }

/-- `GatewayCore::telemetry`, called by the reactor. -/
def telemetry (s : Gateway) (readings : List (String × String)) : Gateway :=
  if s.phase = .loop ∧ s.accepting then s.postOrdinary (.telemetry readings) else s

/-- `GatewayCore::httpRequest`, called by the HTTP thread until it is joined. -/
def httpRequest (s : Gateway) (query : Bool) : Gateway :=
  if s.phase.rank < Phase.draining.rank ∧ s.stopping = false ∧ s.accepting then
    s.postOrdinary (.http query)
  else s

/-- Called by the management reactor until it is joined; reloads are merged. -/
def requestReload (s : Gateway) : Gateway :=
  if s.phase.rank < Phase.reloadsJoined.rank ∧ s.stopping = false ∧ s.reloadPending = false then
    match s.manage.post .reload true with
    | some manage => { s with manage := manage, reloadPending := true }
    | none => s
  else s

def requestStop (s : Gateway) : Gateway :=
  if s.phase.rank < Phase.reloadsJoined.rank then { s with stopping := true } else s

/-- The main thread; `stopping_` or a failure of the HTTP server ends the loop. -/
def mainStep (s : Gateway) : Gateway :=
  match s.phase with
  | .loop => { s with phase := .stopped, stopping := true }
  | .stopped => { s with phase := .reloadsJoined }
  | .reloadsJoined => { s with phase := .queueClosed, cmdClosed := true }
  | .queueClosed => { s with phase := .draining }
  | .draining =>
      if s.cmdQueue = [] ∧ s.held = [] then { s with phase := .drained, accepting := false } else s
  | .drained =>
      match s.core.post .barrier true with
      | some core => { s with core := core, phase := .awaiting }
      | none =>
          { s with
            phase := .closingQueries
            query := { s.query with closed := true }
            refused := s.refused + 1 }
  | .awaiting =>
      if s.reached then
        { s with phase := .closingQueries, query := { s.query with closed := true } }
      else s
  | .closingQueries =>
      if s.queryWork = .exited then
        { s with phase := .closingCore, core := { s.core with closed := true } }
      else s
  | .closingCore =>
      match s.coreWork with
      | .exited => { s with phase := .closingManage, manage := { s.manage with closed := true } }
      | _ => s
  | .closingManage =>
      match s.manageWork with
      | .exited => { s with phase := .joiningMqtt }
      | _ => s
  | .joiningMqtt => if s.calls.isEmpty then { s with phase := .done } else s
  | .done => s

end Gateway

/-! ## Interleavings -/

/-- Which thread is next, with what comes from outside. -/
inductive GatewayAction
  | arrive (topic payload : List UInt8)
  | mqtt (i : Nat)
  | core
  | query
  | manage
  | main
  | pop
  | answer (i : Nat) (result : Except String CommandCompletion)
  | telemetry (readings : List (String × String))
  | http (query : Bool)
  | reload
  | stop

namespace Gateway

def step (text : CoreText) (s : Gateway) : GatewayAction → Gateway
  | .arrive topic payload => s.arrive topic payload
  | .mqtt i => s.mqttStep i
  | .core => s.coreStep text
  | .query => s.queryStep
  | .manage => s.manageStep
  | .main => s.mainStep
  | .pop => s.pop
  | .answer i result => s.answer i result
  | .telemetry readings => s.telemetry readings
  | .http query => s.httpRequest query
  | .reload => s.requestReload
  | .stop => s.requestStop

/-- A run from the start of the loop; an action that is not possible does nothing. -/
def run (text : CoreText) (actions : List GatewayAction) : Gateway :=
  actions.foldl (step text) {}

end Gateway

end EdgeGateway
