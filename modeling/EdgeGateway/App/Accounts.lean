import EdgeGateway.App.GatewayCore

set_option autoImplicit false

/-! # What the threads of the gateway owe

Every accepted message, every pending request and every query is carried by exactly one place of
the system: a task in a mailbox, a thread at work, the command queue, the reactor. The credits, the
room in the mailboxes and the end of a shutdown all follow from this balance.
-/

namespace EdgeGateway

/-! ## Debts -/

/-- Something to be brought to an end. -/
inductive Debt
  | message (msg : Nat)
  | request (id : RequestId)
  | query

def Debt.messages : Debt → Nat
  | .message _ => 1
  | _ => 0

def Debt.requests : Debt → Nat
  | .request _ => 1
  | _ => 0

def Debt.queries : Debt → Nat
  | .query => 1
  | _ => 0

def Debt.request? (id : RequestId) : Debt → Nat
  | .request id' => if id' = id then 1 else 0
  | _ => 0

def CoreTask.debt : CoreTask → Option Debt
  | .mqtt msg _ _ => some (.message msg)
  | .answer call => some (.request call.id)
  | .queryDone => some .query
  | _ => none

/-- Tasks that are posted without a reserved place. -/
def CoreTask.ordinary : CoreTask → Nat
  | .mqtt _ _ _ => 1
  | .telemetry _ => 1
  | .http _ => 1
  | _ => 0

def CoreTask.barriers : CoreTask → Nat
  | .barrier => 1
  | _ => 0

def CoreWork.debt : CoreWork → Option Debt
  | .task t => t.debt
  | .submit id _ => some (.request id)
  | .push id _ => some (.request id)
  | .publish p => some (.message p.msg)
  | .query => some .query
  | _ => none

def CoreWork.barriers : CoreWork → Nat
  | .task t => t.barriers
  | _ => 0

def QueryWork.debt : QueryWork → Option Debt
  | .running => some .query
  | _ => none

def ManageTask.debt : ManageTask → Option Debt
  | .terminal p => some (.message p.msg)
  | _ => none

def ManageTask.ordinary : ManageTask → Nat
  | .uplink _ _ => 1
  | _ => 0

def ManageTask.reloads : ManageTask → Nat
  | .reload => 1
  | _ => 0

def ManageWork.debt : ManageWork → Option Debt
  | .task t => t.debt
  | .release msg => some (.message msg)
  | _ => none

def ManageWork.reloads : ManageWork → Nat
  | .task t => t.reloads
  | _ => 0

/-- The message that is published and still holds its credit. -/
def ManageWork.released : ManageWork → Option Nat
  | .release msg => some msg
  | _ => none

/-- A call that has a credit and has not posted. -/
def MqttCall.credit (c : MqttCall) : Option Nat :=
  match c.stage with
  | .credited => some c.msg
  | .refused => some c.msg
  | _ => none

attribute [simp] Debt.messages Debt.requests Debt.queries CoreTask.debt CoreTask.ordinary
  CoreTask.barriers CoreWork.debt CoreWork.barriers QueryWork.debt ManageTask.debt
  ManageTask.ordinary ManageTask.reloads ManageWork.debt ManageWork.reloads ManageWork.released
  CoreCall.id

/-- The main thread has come as far as another phase. -/
def Phase.since (phase other : Phase) : Bool := decide (other.rank ≤ phase.rank)

theorem Phase.since_of_le {phase other earlier : Phase} (h : phase.since other = true)
    (hle : earlier.rank ≤ other.rank) : phase.since earlier = true :=
  decide_eq_true (Nat.le_trans hle (of_decide_eq_true h))

/-- A task of the core is ordinary, ends a request or a query, or is the barrier. -/
theorem coreTask_length (tasks : List CoreTask) :
    tasks.length = tally some CoreTask.ordinary tasks + tally CoreTask.debt Debt.requests tasks +
      tally CoreTask.debt Debt.queries tasks + tally some CoreTask.barriers tasks := by
  induction tasks with
  | nil => rfl
  | cons t tasks ih =>
      rw [List.length_cons, ih]
      cases t <;> simp <;> omega

theorem manageTask_length (tasks : List ManageTask) :
    tasks.length = tally some ManageTask.ordinary tasks +
      tally ManageTask.debt Debt.messages tasks + tally some ManageTask.reloads tasks := by
  induction tasks with
  | nil => rfl
  | cons t tasks ih =>
      rw [List.length_cons, ih]
      cases t <;> simp <;> omega

/-! ## Posting -/

namespace TaskExecutor

variable {capacity reserve : Nat} {α : Type} {e e' : TaskExecutor capacity reserve α} {task : α}
  {completion : Bool}

theorem post_eq_some (h : e.post task completion = some e') :
    e.closed = false ∧ e.tasks.length < capacity + (if completion then reserve else 0) ∧
      e' = { e with tasks := e.tasks ++ [task] } := by
  unfold post at h
  dsimp only at h
  by_cases hfull :
      e.closed ∨ e.tasks.length ≥ capacity + (if completion then reserve else 0)
  · rw [if_pos hfull] at h
    cases h
  · rw [if_neg hfull] at h
    obtain ⟨hopen, hroom⟩ := not_or.mp hfull
    exact ⟨Bool.eq_false_iff.mpr hopen, Nat.not_le.mp hroom, (Option.some.inj h).symm⟩

/-- An open executor with room takes a completion. -/
theorem post_completion (hopen : e.closed = false) (hroom : e.tasks.length < capacity + reserve) :
    e.post task true = some { e with tasks := e.tasks ++ [task] } := by
  unfold post
  refine if_neg (not_or.mpr ⟨?_, Nat.not_le.mpr hroom⟩)
  rw [hopen]
  exact Bool.false_ne_true

end TaskExecutor

/-! ## Invariant -/

namespace Gateway

/-- What has been taken on. -/
def opened (s : Gateway) (w : Debt → Nat) : Nat :=
  tally (fun msg => some (.message msg)) w s.accepted +
    tally (fun p => some (.request p.1)) w s.pending + s.queries * w .query

/-- Where it is: with the core, on the way through the reactor, with the query worker, with the
management worker, or settled. -/
def carried (s : Gateway) (w : Debt → Nat) : Nat :=
  tally CoreTask.debt w s.core.tasks + weigh w s.coreWork.debt +
    tally (fun p => some (.message p.2)) w s.pending +
    tally (fun d => some (.request d.id)) w s.cmdQueue +
    tally (fun id => some (.request id)) w s.held +
    tally (fun _ => some .query) w s.query.tasks + weigh w s.queryWork.debt +
    tally ManageTask.debt w s.manage.tasks + weigh w s.manageWork.debt +
    tally (fun msg => some (.message msg)) w s.settled

structure Accounts (s : Gateway) : Prop where
  balance : ∀ w, s.opened w = s.carried w
  credits : s.admitted + s.settled.length =
    tally MqttCall.credit (fun _ => 1) s.calls + s.accepted.length
  budget : s.admitted ≤ kMaxCommands
  queries : s.queries ≤ kMaxQueries
  published : ∀ w, tally (fun p => some p.msg) w s.published =
    tally some w s.settled + weigh w s.manageWork.released
  fresh : ∀ msg, (s.calls.map MqttCall.msg ++ s.accepted).count msg ≤
    if msg < s.nextMsg then 1 else 0
  ids : ∀ p ∈ s.pending, p.1 < s.nextId

/-- Room in the mailboxes; there is one barrier and at most one reload at a time. -/
structure Rooms (s : Gateway) : Prop where
  core : tally some CoreTask.ordinary s.core.tasks ≤ 1024
  manage : tally some ManageTask.ordinary s.manage.tasks ≤ 1024
  barrier : tally some CoreTask.barriers s.core.tasks + s.coreWork.barriers + s.reached.toNat =
    (s.phase.since .awaiting).toNat
  reload : tally some ManageTask.reloads s.manage.tasks + s.manageWork.reloads ≤
    s.reloadPending.toNat

/-- What holds from which phase of the shutdown on. -/
structure Closing (s : Gateway) : Prop where
  stopping : s.phase.since .stopped → s.stopping = true
  cmdClosed : s.cmdClosed = s.phase.since .queueClosed
  drained : s.phase.since .drained → s.cmdQueue = [] ∧ s.held = []
  query : s.query.closed = s.phase.since .closingQueries
  core : s.core.closed = s.phase.since .closingCore
  manage : s.manage.closed = s.phase.since .closingManage
  queryExited : s.queryWork = .exited → s.query.closed = true ∧ s.query.tasks = []
  coreExited : s.coreWork = .exited → s.core.closed = true ∧ s.core.tasks = []
  manageExited : s.manageWork = .exited → s.manage.closed = true ∧ s.manage.tasks = []
  queryOver : s.phase.since .closingCore → s.queryWork = .exited
  coreOver : s.phase.since .closingManage → s.coreWork = .exited
  manageOver : s.phase.since .joiningMqtt → s.manageWork = .exited
  callsOver : s.phase.since .done → s.calls = []

structure Inv (s : Gateway) : Prop where
  accounts : s.Accounts
  rooms : s.Rooms
  closing : s.Closing
  refused : s.refused = 0

theorem inv_init : Inv {} where
  accounts := {
    balance := fun w => by simp [opened, carried]
    credits := rfl
    budget := Nat.zero_le _
    queries := Nat.zero_le _
    published := fun w => by simp
    fresh := fun msg => by simp
    ids := fun p hp => by cases hp }
  rooms := ⟨Nat.zero_le _, Nat.zero_le _, rfl, Nat.zero_le _⟩
  closing := {
    stopping := fun h => by cases h
    cmdClosed := rfl
    drained := fun h => by cases h
    query := rfl
    core := rfl
    manage := rfl
    queryExited := fun h => by cases h
    coreExited := fun h => by cases h
    manageExited := fun h => by cases h
    queryOver := fun h => by cases h
    coreOver := fun h => by cases h
    manageOver := fun h => by cases h
    callsOver := fun h => by cases h }
  refused := rfl

/-! ## Room -/

variable {s : Gateway}

theorem opened_messages : s.opened Debt.messages = s.accepted.length := by
  simp [opened, tally_total]

theorem opened_requests : s.opened Debt.requests = s.pending.length := by
  simp [opened, tally_total]

theorem opened_queries : s.opened Debt.queries = s.queries := by
  simp [opened, tally_total]

namespace Accounts

/-- Where the accepted messages are. -/
theorem messages (h : s.Accounts) :
    s.accepted.length = tally CoreTask.debt Debt.messages s.core.tasks +
      weigh Debt.messages s.coreWork.debt + s.pending.length +
      tally ManageTask.debt Debt.messages s.manage.tasks +
      weigh Debt.messages s.manageWork.debt + s.settled.length := by
  have hbalance := h.balance Debt.messages
  have hquery : weigh Debt.messages s.queryWork.debt = 0 := by
    cases s.queryWork <;> rfl
  rw [opened_messages, carried, hquery] at hbalance
  simpa [tally_total] using hbalance

/-- As many messages are on their way as there are credits in use by accepted messages. -/
theorem waiting_le (h : s.Accounts) :
    s.pending.length + tally ManageTask.debt Debt.messages s.manage.tasks ≤ kMaxCommands := by
  have hmessages := h.messages
  have hcredits := h.credits
  have hbudget := h.budget
  omega

theorem requests_le (h : s.Accounts) :
    tally CoreTask.debt Debt.requests s.core.tasks ≤ kMaxCommands := by
  have hbalance := h.balance Debt.requests
  have hwaiting := h.waiting_le
  rw [opened_requests, carried] at hbalance
  omega

theorem queries_le (h : s.Accounts) :
    tally CoreTask.debt Debt.queries s.core.tasks ≤ kMaxQueries := by
  have hbalance := h.balance Debt.queries
  have hqueries := h.queries
  rw [opened_queries, carried] at hbalance
  omega

/-- A request that is carried is pending. -/
theorem pending_of_carried (h : s.Accounts) {id : RequestId}
    (hcarried : 0 < s.carried (Debt.request? id)) : ∃ p ∈ s.pending, p.1 = id := by
  have hopened : s.opened (Debt.request? id) =
      tally (fun p => some (.request p.1)) (Debt.request? id) s.pending := by
    simp [opened, tally_total, Debt.request?]
  rw [← h.balance, hopened] at hcarried
  obtain ⟨p, hp, hweight⟩ := exists_of_tally_pos hcarried
  refine ⟨p, hp, ?_⟩
  by_contra hne
  exact absurd hweight (by simp [Debt.request?, hne])

end Accounts

/-- The reserve of the core's mailbox is never used up. -/
theorem Inv.core_room (h : s.Inv) :
    s.core.tasks.length < 1024 + (kMaxCommands + kMaxQueries + 8) := by
  have hordinary := h.rooms.core
  have hrequests := h.accounts.requests_le
  have hqueries := h.accounts.queries_le
  have hbarrier := h.rooms.barrier
  have hone := (s.phase.since .awaiting).toNat_le
  rw [coreTask_length]
  omega

/-- Nor is that of the management worker. -/
theorem Inv.manage_room (h : s.Inv) : s.manage.tasks.length < 1024 + (kMaxCommands + 16) := by
  have hordinary := h.rooms.manage
  have hwaiting := h.accounts.waiting_le
  have hreload := h.rooms.reload
  have hpending := s.reloadPending.toNat_le
  rw [manageTask_length]
  omega

end Gateway

end EdgeGateway
