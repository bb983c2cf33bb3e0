import EdgeGateway.App.GatewayCore
import EdgeGateway.Basic.Steps
import EdgeGateway.Core.ConfigReload
import Mathlib.Logic.Function.Basic

set_option autoImplicit false

/-! # Signals and hot reload

`ManagementReactor` with the callbacks that `GatewayApp` gives it, the reloads on the management
worker, and the part of `~GatewayApp` that ends both threads. A step is one access to what threads
share. What another process does, raising a signal or writing the file, may come at any time. Log
lines are left out, and with them `all_applied`.
-/

namespace EdgeGateway

/-! ## Threads -/

/-- The managed signals. -/
inductive Signal
  | hup
  | int
  | term
  deriving DecidableEq

/-- The channels of the loop: `signal_fd_` and `stop_fd_`. -/
inductive ManagementChannel
  | signals
  | wake
  deriving DecidableEq

/-- Where the thread `gateway-admin` is: between two handlers; in `onSignals` before and after its
read; in `requestStop`, for `failed_` or not; in `requestReload` before each of its accesses; in
`onStop`; in `run` after an exception. -/
inductive ManagementPoint
  | loop
  | onSignals
  | taken (signals : List Signal)
  | requestStop (failed : Bool)
  | requestReload
  | exchange
  | post
  | refused
  | onStop
  | threw
  | quit
  | failed
  | ended
  deriving DecidableEq

/-- The tasks of the management worker: `terminal` is a publication that ends a command. -/
inductive WorkerTask
  | ordinary
  | terminal
  | reload
  deriving DecidableEq

/-- Where the management worker is; the points after `reading` are those of `reloadConfig`. -/
inductive WorkerPoint
  | idle
  | task (t : WorkerTask)
  | reading
  | level (changes : ReloadResult)
  | database (changes : ReloadResult)
  | mqtt (changes : ReloadResult)
  | serial (changes : ReloadResult)
  | release
  | exited
  deriving DecidableEq

/-- The main thread: in its loop, then in `~GatewayApp`. -/
inductive MainPoint
  | loop
  | stopping
  | waking
  | joining
  | joined
  | draining
  | done
  deriving DecidableEq

/-! ## State -/

/-- What a reload can rebuild. -/
inductive Resource
  | db
  | mqtt
  | serial
  deriving DecidableEq

/-- How a rebuild ends: the new resource was handed over, the old one kept, or something was thrown
that is no `std::exception`. -/
inductive Rebuild
  | delivered
  | kept
  | threw
  deriving DecidableEq

/-- `requested` and `merged` are the outcomes of the exchange in `requestReload`. -/
inductive ManagementEvent
  | shutdown
  | failed
  | requested
  | merged
  | refused
  | skipped
  | read (file : Option (List UInt8))
  | delivered (r : Resource)
  | kept (r : Resource)
  | threw
  | released
  deriving DecidableEq

/-- `built` is the configuration from which each resource in use was built; for the database and the
serial port, the last one handed over. -/
structure Management where
  file : Option (List UInt8)
  pending : List Signal := []
  reactorStopping : Bool := false
  shutdownSent : Bool := false
  wake : Bool := false
  running : Bool := true
  round : List ManagementChannel := []
  point : ManagementPoint := .loop
  stopping : Bool := false
  managementFailed : Bool := false
  reloadPending : Bool := false
  worker : TaskExecutor 1024 (kMaxCommands + 16) WorkerTask := {}
  work : WorkerPoint := .idle
  config : ConfigManager
  level : Int
  built : Resource → Config
  main : MainPoint := .loop

/-- Whether a reload with these differences rebuilds `r`. -/
def ReloadResult.requires (changes : ReloadResult) : Resource → Bool
  | .db => changes.dbSwapRequired
  | .mqtt => changes.mqttRebuildRequired
  | .serial => changes.serialRebuildRequired

namespace Management

/-- After the start of all services, with the configuration of `init`. -/
def started (m : ConfigManager) (file : Option (List UInt8)) : Management where
  file := file
  config := m
  level := m.current.logLevel
  built := fun _ => m.current

/-! ## The management reactor -/

/-- The channels that `epoll_wait` finds, in an order that is not known. -/
def ready (wakeFirst : Bool) (s : Management) : List ManagementChannel :=
  let signals := if s.pending = [] then [] else [ManagementChannel.signals]
  let wake := if s.wake then [ManagementChannel.wake] else []
  if wakeFirst then wake ++ signals else signals ++ wake

/-- `EventLoop::loop` between two handlers; `fault` is an `epoll_wait` that fails. -/
def loop (wakeFirst fault : Bool) (s : Management) : Management :=
  match s.round with
  | .signals :: rest => { s with round := rest, point := .onSignals }
  | .wake :: rest => { s with round := rest, point := .onStop }
  | [] =>
      if s.running then
        if fault then { s with point := .threw } else { s with round := s.ready wakeFirst }
      else { s with point := .ended }

/-- The read in `onSignals`. Pending signals of one kind are one. -/
def onSignals (fault : Bool) (s : Management) : Management :=
  if fault then { s with point := .threw }
  else if s.pending = [] then { s with point := .loop }
  else { s with pending := [], point := .taken s.pending }

/-- `onSignals` after the read. -/
def dispatch (signals : List Signal) (s : Management) : Management :=
  if s.reactorStopping then { s with point := .loop }
  else
    let terminate := Signal.term ∈ signals ∨ Signal.int ∈ signals
    let reload := Signal.hup ∈ signals
    if terminate ∧ s.shutdownSent = false then
      { s with shutdownSent := true, point := .requestStop false }
    else if reload ∧ s.shutdownSent = false then { s with point := .requestReload }
    else { s with point := .loop }

def requestStop (failed : Bool) (s : Management) : Management :=
  { s with stopping := true, point := if failed then .ended else .loop }

/-- The last part of `requestReload`. -/
def postReload (s : Management) : Management :=
  match s.worker.post .reload true with
  | some worker => { s with worker := worker, point := .loop }
  | none => { s with point := .refused }

def onStop (fault : Bool) (s : Management) : Management :=
  if fault then { s with point := .threw }
  else { s with wake := false, running := false, point := .loop }

/-- One step of `gateway-admin`, with what it says. -/
def reactorStep (wakeFirst fault : Bool) (s : Management) : Management × List ManagementEvent :=
  match s.point with
  | .loop => (s.loop wakeFirst fault, [])
  | .onSignals => (s.onSignals fault, [])
  | .taken signals => (s.dispatch signals, [])
  | .requestStop failed => (s.requestStop failed, if failed then [] else [.shutdown])
  | .requestReload => ({ s with point := if s.stopping then .loop else .exchange }, [])
  | .exchange =>
      if s.reloadPending then ({ s with point := .loop }, [.merged])
      else ({ s with reloadPending := true, point := .post }, [.requested])
  | .post => (s.postReload, [])
  | .refused => ({ s with reloadPending := false, point := .loop }, [.refused])
  | .onStop => (s.onStop fault, [])
  | .threw => ({ s with reactorStopping := true, point := .quit }, [])
  | .quit => ({ s with running := false, point := .failed }, [])
  | .failed => ({ s with managementFailed := true, point := .requestStop true }, [.failed])
  | .ended => (s, [])

/-! ## The management worker -/

/-- One branch of `reloadConfig`. -/
def rebuild (r : Resource) (next : WorkerPoint) (changes : ReloadResult) (outcome : Rebuild)
    (s : Management) : Management × List ManagementEvent :=
  if changes.requires r then
    match outcome with
    | .delivered =>
        ({ s with built := Function.update s.built r s.config.current, work := next },
          [.delivered r])
    | .kept => ({ s with work := next }, [.kept r])
    | .threw => ({ s with work := .release }, [.threw])
  else ({ s with work := next }, [])

def reloadDatabase (changes : ReloadResult) (outcome : Rebuild) (s : Management) :
    Management × List ManagementEvent :=
  s.rebuild .db (.mqtt changes) changes outcome

/-- The old client is destroyed once the new one has taken its place. -/
def reloadMqtt (changes : ReloadResult) (outcome : Rebuild) (s : Management) :
    Management × List ManagementEvent :=
  s.rebuild .mqtt (.serial changes) changes outcome

def reloadSerial (changes : ReloadResult) (outcome : Rebuild) (s : Management) :
    Management × List ManagementEvent :=
  s.rebuild .serial .release changes outcome

/-- `ConfigManager::reload`, of whatever the file is now. -/
def readConfig (s : Management) : Management × List ManagementEvent :=
  let (changes, config) := s.config.reload s.file
  ({ s with config := config, work := if changes.ok then .level changes else .release },
    [.read s.file])

/-- One step of the management worker, with what it says. -/
def workerStep (outcome : Rebuild) (s : Management) : Management × List ManagementEvent :=
  match s.work with
  | .idle =>
      match s.worker.tasks with
      | t :: rest => ({ s with worker := { s.worker with tasks := rest }, work := .task t }, [])
      | [] => (if s.worker.closed then { s with work := .exited } else s, [])
  | .task .reload =>
      if s.stopping then ({ s with work := .release }, [.skipped])
      else ({ s with work := .reading }, [])
  | .task _ => ({ s with work := .idle }, [])
  | .reading => s.readConfig
  | .level changes => ({ s with level := s.config.current.logLevel, work := .database changes }, [])
  | .database changes => s.reloadDatabase changes outcome
  | .mqtt changes => s.reloadMqtt changes outcome
  | .serial changes => s.reloadSerial changes outcome
  | .release => ({ s with reloadPending := false, work := .idle }, [.released])
  | .exited => (s, [])

/-! ## The main thread and the others -/

/-- `httpFailed` is another reason to leave the loop. -/
def mainStep (httpFailed : Bool) (s : Management) : Management :=
  match s.main with
  | .loop => if s.stopping ∨ httpFailed then { s with stopping := true, main := .stopping } else s
  | .stopping => { s with reactorStopping := true, main := .waking }
  | .waking => { s with wake := true, main := .joining }
  | .joining => if s.point = .ended then { s with main := .joined } else s
  | .joined => { s with worker := { s.worker with closed := true }, main := .draining }
  | .draining => if s.work = .exited then { s with main := .done } else s
  | .done => s

/-- A task of another thread. The core has at most `kMaxCommands` terminal publications on their
way. -/
def postTask (t : WorkerTask) (s : Management) : Management :=
  match t with
  | .ordinary => { s with worker := (s.worker.post t false).getD s.worker }
  | .terminal =>
      if s.worker.tasks.count .terminal < kMaxCommands then
        { s with worker := (s.worker.post t true).getD s.worker }
      else s
  | .reload => s

def raise (signal : Signal) (s : Management) : Management :=
  if signal ∈ s.pending then s else { s with pending := s.pending ++ [signal] }

end Management

/-- Whose turn it is, with what the system answers. -/
inductive ManagementAction
  | raise (signal : Signal)
  | write (file : Option (List UInt8))
  | reactor (wakeFirst fault : Bool)
  | worker (outcome : Rebuild)
  | main (httpFailed : Bool)
  | post (t : WorkerTask)
  deriving DecidableEq

namespace Management

def step (s : Management) : ManagementAction → Management × List ManagementEvent
  | .raise signal => (s.raise signal, [])
  | .write file => ({ s with file := file }, [])
  | .reactor wakeFirst fault => s.reactorStep wakeFirst fault
  | .worker outcome => s.workerStep outcome
  | .main httpFailed => (s.mainStep httpFailed, [])
  | .post t => (s.postTask t, [])

/-- The runs of all threads, with everything they say. -/
abbrev Run : Management → List ManagementEvent → Management → Prop :=
  Steps fun s es s' => ∃ a, s.step a = (s', es)

/-- The run in which the threads take their turns as listed. -/
def play (s : Management) : List ManagementAction → Management × List ManagementEvent
  | [] => (s, [])
  | a :: rest => ((play (s.step a).1 rest).1, (s.step a).2 ++ (play (s.step a).1 rest).2)

theorem run_play (s : Management) (actions : List ManagementAction) :
    s.Run (s.play actions).2 (s.play actions).1 := by
  induction actions generalizing s with
  | nil => exact .refl s
  | cons a rest ih => exact (Steps.single ⟨a, rfl⟩).trans (ih (s.step a).1)

end Management

end EdgeGateway
