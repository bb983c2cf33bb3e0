import EdgeGateway.App.GatewayCore
import EdgeGateway.App.HttpQuery
import Mathlib.Logic.Relation

set_option autoImplicit false

/-! # `GatewayCore` and its callers

The class on its own, with requests told apart: any threads call it, and `stop` may be called at any
time. Of commands only the credits and the ids are kept. The callers keep to the contract of the
class: each command that was submitted is finished or rejected at most once, and `done` runs at most
once for each publication that was taken.
-/

namespace EdgeGateway

/-! ## Data -/

namespace GatewayCore

/-- What a query captures; the reply is that of the request `id`. -/
structure QueryTask (δ : Type) where
  id : Nat
  db : δ
  device : List UInt8
  n : Int

/-- The tasks of the core worker; a query that threw has no rows. -/
inductive Task (ν : Type)
  | mqtt
  | telemetry
  | http (id : Nat) (request : HttpRequest)
  | answer (id : RequestId)
  | queryDone (id : Nat) (rows : Option (List (DataRow ν)))
  | barrier

/-- What the core worker does next. -/
inductive Work (δ ν : Type)
  | idle
  | task (t : Task ν)
  | submit (id : RequestId)
  | publish
  | release
  | query (task : QueryTask δ)
  | exited

inductive QueryWork (δ : Type)
  | idle
  | running (task : QueryTask δ)
  | exited

/-- Where the owner is in `stop`. -/
inductive Stage
  | running
  | closing
  | awaiting
  | joiningQueries
  | joiningCore
  | done
  deriving DecidableEq

def Stage.rank : Stage → Nat
  | .running => 0
  | .closing => 1
  | .awaiting => 2
  | .joiningQueries => 3
  | .joiningCore => 4
  | .done => 5

/-- What a step of the core worker gets from outside. -/
structure Outside (δ : Type) where
  config : HttpRuntimeConfig
  database : Option δ
  translated : Bool
  submitted : Bool
  published : Bool

end GatewayCore

/-- The members of the class; then the calls under way, with the HTTP requests numbered, the commands
submitted and not answered, and the publications taken whose `done` has not run. The last three
record what happened: the HTTP requests accepted, the replies given, and the answers that came when
the core was closed. -/
structure GatewayCore (δ ν : Type) where
  accepting : Bool := true
  admitted : Nat := 0
  nextId : RequestId := 1
  pending : List RequestId := []
  queries : Int := 0
  core : TaskExecutor 1024 (kMaxCommands + kMaxQueries + 8) (GatewayCore.Task ν) := {}
  work : GatewayCore.Work δ ν := .idle
  query : TaskExecutor kMaxQueries 0 (GatewayCore.QueryTask δ) := {}
  queryWork : GatewayCore.QueryWork δ := .idle
  stage : GatewayCore.Stage := .running
  reached : Bool := false
  mqttCalls : List MqttStage := []
  telemetryCalls : Nat := 0
  httpCalls : List (Nat × HttpRequest) := []
  nextCall : Nat := 0
  held : List RequestId := []
  publishing : Nat := 0
  accepted : List Nat := []
  replies : List (Nat × HttpResponse) := []
  dropped : List RequestId := []

namespace GatewayCore

variable {δ ν : Type}

/-! ## Calls from other threads -/

/-- `httpRequest` up to the read of `accepting_`. -/
def httpRequest (request : HttpRequest) (s : GatewayCore δ ν) : GatewayCore δ ν :=
  if s.accepting then
    { s with httpCalls := s.httpCalls ++ [(s.nextCall, request)], nextCall := s.nextCall + 1 }
  else s

/-- The post of `httpRequest`; the call returns whether it was taken. -/
def postHttp (id : Nat) (request : HttpRequest) (s : GatewayCore δ ν) : GatewayCore δ ν :=
  match s.core.post (.http id request) false with
  | some core => { s with core := core, accepted := s.accepted ++ [id] }
  | none => s

def mqttMessage (s : GatewayCore δ ν) : GatewayCore δ ν :=
  if s.accepting then { s with mqttCalls := s.mqttCalls ++ [.checked] } else s

/-- The rest of `mqttMessage` one access at a time; the call goes on with the stage that is left. -/
def mqttStep (stage : MqttStage) (s : GatewayCore δ ν) : Option MqttStage × GatewayCore δ ν :=
  match stage with
  | .called => (none, s)
  | .checked =>
      if s.admitted ≥ kMaxCommands then (none, s)
      else (some .credited, { s with admitted := s.admitted + 1 })
  | .credited =>
      match s.core.post .mqtt false with
      | some core => (none, { s with core := core })
      | none => (some .refused, s)
  | .refused => (none, { s with admitted := s.admitted - 1 })

def mqttCall (before : List MqttStage) (stage : MqttStage) (after : List MqttStage)
    (s : GatewayCore δ ν) : GatewayCore δ ν :=
  let r := s.mqttStep stage
  { r.2 with mqttCalls := before ++ r.1.toList ++ after }

def telemetry (s : GatewayCore δ ν) : GatewayCore δ ν :=
  if s.accepting then { s with telemetryCalls := s.telemetryCalls + 1 } else s

def postTelemetry (s : GatewayCore δ ν) : GatewayCore δ ν :=
  { s with
    telemetryCalls := s.telemetryCalls - 1
    core := (s.core.post .telemetry false).getD s.core }

/-- `commandFinished` and `commandRejected`, for a command that waits for its answer. -/
def answer (id : RequestId) (s : GatewayCore δ ν) : GatewayCore δ ν :=
  match s.core.post (.answer id) true with
  | some core => { s with held := s.held.erase id, core := core }
  | none => { s with held := s.held.erase id, dropped := s.dropped ++ [id] }

/-- `done` of a publication. -/
def publicationDone (s : GatewayCore δ ν) : GatewayCore δ ν :=
  { s with publishing := s.publishing - 1, admitted := s.admitted - 1 }

/-! ## The core worker -/

/-- The reply is the last thing that a task does. -/
def reply (id : Nat) (response : HttpResponse) (s : GatewayCore δ ν) : GatewayCore δ ν :=
  { s with replies := s.replies ++ [(id, response)], work := .idle }

def handleHttp (asset : WebAsset) (outside : Outside δ) (id : Nat) (request : HttpRequest)
    (s : GatewayCore δ ν) : GatewayCore δ ν :=
  match routeHttp asset outside.config request with
  | .error response => s.reply id response
  | .ok (device, n) =>
      if s.queries ≥ kMaxQueries then s.reply id queryQueueFull
      else
        match outside.database with
        | none => s.reply id databaseUnavailable
        | some db => { s with queries := s.queries + 1, work := .query ⟨id, db, device, n⟩ }

/-- The post to the query executor in `handleHttp`. -/
def postQuery (task : QueryTask δ) (s : GatewayCore δ ν) : GatewayCore δ ν :=
  match s.query.post task false with
  | some query => { s with query := query, work := .idle }
  | none => { s with queries := s.queries - 1 }.reply task.id queryQueueFull

def handleMqtt (translated : Bool) (s : GatewayCore δ ν) : GatewayCore δ ν :=
  if translated then
    { s with
      nextId := s.nextId + 1
      pending := s.pending.insert s.nextId
      work := .submit s.nextId }
  else { s with work := .publish }

/-- `handleFinished` and `reject`: an id that is not pending is ignored. -/
def endCommand (id : RequestId) (s : GatewayCore δ ν) : GatewayCore δ ν :=
  if id ∈ s.pending then { s with pending := s.pending.erase id, work := .publish }
  else { s with work := .idle }

/-- Telemetry goes to the publisher and the pipeline and touches nothing here. -/
def runTask (asset : WebAsset) (formatValue : ν → List UInt8) (outside : Outside δ)
    (s : GatewayCore δ ν) : Task ν → GatewayCore δ ν
  | .mqtt => s.handleMqtt outside.translated
  | .telemetry => { s with work := .idle }
  | .http id request => s.handleHttp asset outside id request
  | .answer id => s.endCommand id
  | .queryDone id rows =>
      { s with queries := s.queries - 1 }.reply id (queryResponse formatValue rows)
  | .barrier => { s with reached := true, work := .idle }

/-- `publishCommand` is `publish` and, when the publication is not taken, `release`. -/
def coreStep (asset : WebAsset) (formatValue : ν → List UInt8) (outside : Outside δ)
    (s : GatewayCore δ ν) : GatewayCore δ ν :=
  match s.work with
  | .idle =>
      match s.core.tasks with
      | t :: rest => { s with core := { s.core with tasks := rest }, work := .task t }
      | [] => if s.core.closed then { s with work := .exited } else s
  | .task t => s.runTask asset formatValue outside t
  | .submit id =>
      if outside.submitted then { s with held := s.held ++ [id], work := .idle }
      else s.endCommand id
  | .publish =>
      if outside.published then { s with publishing := s.publishing + 1, work := .idle }
      else { s with work := .release }
  | .release => { s with admitted := s.admitted - 1, work := .idle }
  | .query task => s.postQuery task
  | .exited => s

/-! ## The query worker and the owner -/

/-- A query ends with its rows, or without when it throws. -/
def queryStep (rows : Option (List (DataRow ν))) (s : GatewayCore δ ν) : GatewayCore δ ν :=
  match s.queryWork with
  | .idle =>
      match s.query.tasks with
      | task :: rest => { s with query := { s.query with tasks := rest }, queryWork := .running task }
      | [] => if s.query.closed then { s with queryWork := .exited } else s
  | .running task =>
      { s with
        core := (s.core.post (.queryDone task.id rows) true).getD s.core
        queryWork := .idle }
  | .exited => s

def QueryWork.isExited : QueryWork δ → Bool
  | .exited => true
  | _ => false

def Work.isExited : Work δ ν → Bool
  | .exited => true
  | _ => false

/-- `stop`, from one access to the next; without a barrier it does not wait. -/
def stop (s : GatewayCore δ ν) : GatewayCore δ ν :=
  match s.stage with
  | .running => { s with stage := .closing, accepting := false }
  | .closing =>
      match s.core.post .barrier true with
      | some core => { s with stage := .awaiting, core := core }
      | none => { s with stage := .joiningQueries, query := { s.query with closed := true } }
  | .awaiting =>
      if s.reached then { s with stage := .joiningQueries, query := { s.query with closed := true } }
      else s
  | .joiningQueries =>
      if s.queryWork.isExited then
        { s with stage := .joiningCore, core := { s.core with closed := true } }
      else s
  | .joiningCore => if s.work.isExited then { s with stage := .done } else s
  | .done => s

/-! ## Runs -/

variable (asset : WebAsset) (formatValue : ν → List UInt8)

/-- Any thread takes the next step. -/
inductive Step : GatewayCore δ ν → GatewayCore δ ν → Prop
  | http (s : GatewayCore δ ν) (request : HttpRequest) : Step s (s.httpRequest request)
  | postHttp (s : GatewayCore δ ν) (before : List (Nat × HttpRequest)) (id : Nat)
      (request : HttpRequest) (after : List (Nat × HttpRequest))
      (h : s.httpCalls = before ++ (id, request) :: after) :
      Step s ({ s with httpCalls := before ++ after }.postHttp id request)
  | mqtt (s : GatewayCore δ ν) : Step s s.mqttMessage
  | mqttCall (s : GatewayCore δ ν) (before : List MqttStage) (stage : MqttStage)
      (after : List MqttStage) (h : s.mqttCalls = before ++ stage :: after) :
      Step s (s.mqttCall before stage after)
  | telemetry (s : GatewayCore δ ν) : Step s s.telemetry
  | postTelemetry (s : GatewayCore δ ν) (h : 0 < s.telemetryCalls) : Step s s.postTelemetry
  | answer (s : GatewayCore δ ν) (id : RequestId) (h : id ∈ s.held) : Step s (s.answer id)
  | done (s : GatewayCore δ ν) (h : 0 < s.publishing) : Step s s.publicationDone
  | core (s : GatewayCore δ ν) (outside : Outside δ) :
      Step s (s.coreStep asset formatValue outside)
  | query (s : GatewayCore δ ν) (rows : Option (List (DataRow ν))) : Step s (s.queryStep rows)
  | stop (s : GatewayCore δ ν) : Step s s.stop

abbrev Run : GatewayCore δ ν → GatewayCore δ ν → Prop :=
  Relation.ReflTransGen (Step asset formatValue)

end GatewayCore

end EdgeGateway
