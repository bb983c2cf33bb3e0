import EdgeGateway.App.Accounts
import EdgeGateway.App.HttpCore

set_option autoImplicit false

/-! # What `GatewayCore` owes its callers

Every accepted HTTP request, every query, every credit and every pending command is in exactly one
place: with a caller, in a mailbox, with a worker, or recorded. The room in the mailboxes and the
replies at the end of `stop` follow from this balance.
-/

namespace EdgeGateway

namespace GatewayCore

/-! ## Debts -/

/-- Something that must be given or given back. -/
inductive Debt
  | reply (id : Nat)
  | query
  | credit
  | command (id : RequestId)

def Debt.queries : Debt → Nat
  | .query => 1
  | _ => 0

def Debt.credits : Debt → Nat
  | .credit => 1
  | _ => 0

def Debt.commands : Debt → Nat
  | .command _ => 1
  | _ => 0

def Debt.command? (id : RequestId) : Debt → Nat
  | .command id' => if id' = id then 1 else 0
  | _ => 0

/-- The weight of replies alone. -/
def Debt.replies (w : Nat → Nat) : Debt → Nat
  | .reply id => w id
  | _ => 0

variable {δ ν : Type}

def Task.debts : Task ν → List Debt
  | .mqtt => [.credit]
  | .http id _ => [.reply id]
  | .answer id => [.command id]
  | .queryDone id _ => [.reply id, .query]
  | _ => []

/-- Tasks that are posted without a reserved place. -/
def Task.ordinary : Task ν → Nat
  | .mqtt => 1
  | .telemetry => 1
  | .http _ _ => 1
  | _ => 0

def Task.barriers : Task ν → Nat
  | .barrier => 1
  | _ => 0

def QueryTask.debts (task : QueryTask δ) : List Debt := [.reply task.id, .query]

def Work.debts : Work δ ν → List Debt
  | .task t => t.debts
  | .submit id => [.command id]
  | .publish => [.credit]
  | .release => [.credit]
  | .query q => q.debts
  | _ => []

def Work.barriers : Work δ ν → Nat
  | .task t => t.barriers
  | _ => 0

def QueryWork.debts : QueryWork δ → List Debt
  | .running task => task.debts
  | _ => []

/-- A call of `mqttMessage` that has a credit and has not posted. -/
def stageDebts : MqttStage → List Debt
  | .credited => [.credit]
  | .refused => [.credit]
  | _ => []

attribute [simp] Debt.queries Debt.credits Debt.commands Debt.command? Debt.replies Task.debts Task.ordinary
  Task.barriers QueryTask.debts Work.debts Work.barriers QueryWork.debts stageDebts

/-- The weight of all debts in a list of places. -/
def owing {α : Type} (debts : α → List Debt) (w : Debt → Nat) (l : List α) : Nat :=
  tally some (fun a => tally some w (debts a)) l

section Owing

variable {α : Type} (debts : α → List Debt) (w : Debt → Nat)

@[simp] theorem owing_nil : owing debts w [] = 0 := rfl

@[simp] theorem owing_cons (a : α) (l : List α) :
    owing debts w (a :: l) = tally some w (debts a) + owing debts w l := rfl

@[simp] theorem owing_append (l l' : List α) :
    owing debts w (l ++ l') = owing debts w l + owing debts w l' :=
  tally_append ..

theorem owing_erase [DecidableEq α] {a : α} {l : List α} (h : a ∈ l) :
    owing debts w l = tally some w (debts a) + owing debts w (l.erase a) :=
  tally_erase _ h

/-- Places with one debt of the weight each. -/
theorem owing_length (h : ∀ a, tally some w (debts a) = 1) (l : List α) :
    owing debts w l = l.length := by
  induction l with
  | nil => rfl
  | cons a l ih =>
      rw [owing_cons, ih, h, List.length_cons]
      omega

/-- Places without any. -/
theorem owing_zero {debts : α → List Debt} {w : Debt → Nat}
    (h : ∀ a, tally some w (debts a) = 0) (l : List α) : owing debts w l = 0 := by
  induction l with
  | nil => rfl
  | cons a l ih => rw [owing_cons, ih, h]

/-- Places with one reply each. -/
theorem owing_replies (f : α → Nat) (w : Nat → Nat) (l : List α) :
    owing (fun a => [.reply (f a)]) (Debt.replies w) l = tally some w (l.map f) := by
  induction l with
  | nil => rfl
  | cons a l ih =>
      rw [owing_cons, ih]
      simp

end Owing

/-- A task of the core is ordinary, answers a command, ends a query, or is the barrier. -/
theorem task_length (tasks : List (Task ν)) :
    tasks.length = tally some Task.ordinary tasks + owing Task.debts Debt.commands tasks +
      owing Task.debts Debt.queries tasks + tally some Task.barriers tasks := by
  induction tasks with
  | nil => rfl
  | cons t tasks ih =>
      rw [List.length_cons, ih]
      cases t <;> simp <;> omega

/-- An ordinary task finds fewer than 1024 tasks of all kinds. -/
theorem ordinary_room {tasks : List (Task ν)} (hroom : tasks.length < 1024 + 0) (t : Task ν) :
    tally some Task.ordinary (tasks ++ [t]) ≤ 1024 := by
  have hlength := task_length tasks
  have hone : t.ordinary ≤ 1 := by cases t <;> simp
  rw [tally_append, tally_cons, tally_nil, weigh_some]
  omega

/-! ## Invariant -/

/-- What has been taken on. -/
def opened (s : GatewayCore δ ν) (w : Debt → Nat) : Nat :=
  owing (fun id => [.reply id]) w s.accepted + s.queries.toNat * w .query +
    s.admitted * w .credit + owing (fun id => [.command id]) w s.pending

/-- Where it is. A pending command has its credit, too. -/
def carried (s : GatewayCore δ ν) (w : Debt → Nat) : Nat :=
  owing Task.debts w s.core.tasks + tally some w s.work.debts +
    owing QueryTask.debts w s.query.tasks + tally some w s.queryWork.debts +
    owing stageDebts w s.mqttCalls + owing (fun _ => [.credit]) w s.pending +
    owing (fun id => [.command id]) w s.held + s.publishing * w .credit +
    owing (fun p => [.reply p.1]) w s.replies + owing (fun id => [.command id]) w s.dropped

structure Accounts (s : GatewayCore δ ν) : Prop where
  balance : ∀ w, s.opened w = s.carried w
  queries : 0 ≤ s.queries ∧ s.queries ≤ kMaxQueries
  budget : s.admitted ≤ kMaxCommands
  fresh : ∀ id, (s.httpCalls.map Prod.fst ++ s.accepted).count id ≤ if id < s.nextCall then 1 else 0
  ids : ∀ id ∈ s.pending, id < s.nextId
  ordinary : tally some Task.ordinary s.core.tasks ≤ 1024

/-- What the owner has done, and what is over for the workers. -/
structure Closing (s : GatewayCore δ ν) : Prop where
  barrier : tally some Task.barriers s.core.tasks + s.work.barriers + s.reached.toNat =
    if 2 ≤ s.stage.rank then 1 else 0
  query : s.query.closed = true ↔ 3 ≤ s.stage.rank
  core : s.core.closed = true ↔ 4 ≤ s.stage.rank
  queryExited : s.queryWork.isExited = true → s.query.closed = true ∧ s.query.tasks = []
  coreExited : s.work.isExited = true → s.core.closed = true ∧ s.core.tasks = []
  queryOver : 4 ≤ s.stage.rank → s.queryWork.isExited = true
  coreOver : 5 ≤ s.stage.rank → s.work.isExited = true

structure Inv (s : GatewayCore δ ν) : Prop where
  accounts : s.Accounts
  closing : s.Closing

theorem inv_init : Inv ({} : GatewayCore δ ν) where
  accounts := {
    balance := fun w => by simp [opened, carried]
    queries := ⟨le_rfl, Int.natCast_nonneg _⟩
    budget := Nat.zero_le _
    fresh := fun id => by simp
    ids := fun id h => by cases h
    ordinary := Nat.zero_le _ }
  closing := {
    barrier := rfl
    query := by simp [Stage.rank]
    core := by simp [Stage.rank]
    queryExited := fun h => by cases h
    coreExited := fun h => by cases h
    queryOver := fun h => by cases h
    coreOver := fun h => by cases h }

/-! ## Room -/

variable {s : GatewayCore δ ν}

namespace Accounts

/-- The queries in progress are counted. -/
theorem queries_eq (h : s.Accounts) :
    s.queries.toNat = owing Task.debts Debt.queries s.core.tasks +
      tally some Debt.queries s.work.debts + s.query.tasks.length +
      tally some Debt.queries s.queryWork.debts := by
  have hbalance := h.balance Debt.queries
  have hstages : owing stageDebts Debt.queries s.mqttCalls = 0 :=
    owing_zero (fun c => by cases c <;> rfl) _
  unfold opened carried at hbalance
  rw [owing_length QueryTask.debts _ (by simp), hstages] at hbalance
  simpa [owing_zero] using hbalance

/-- Every pending command has a credit. -/
theorem pending_le (h : s.Accounts) : s.pending.length ≤ kMaxCommands := by
  have hbalance := h.balance Debt.credits
  have hbudget := h.budget
  have hreplies : owing (fun id => [.reply id]) Debt.credits s.accepted = 0 := owing_zero (by simp) _
  have hcommands : owing (fun id => [.command id]) Debt.credits s.pending = 0 :=
    owing_zero (by simp) _
  unfold opened carried at hbalance
  rw [hreplies, hcommands, owing_length (fun _ => [.credit]) _ (by simp) s.pending]
    at hbalance
  simp only [Debt.credits] at hbalance
  omega

/-- Every answer in the mailbox is for a pending command. -/
theorem answers_le (h : s.Accounts) : owing Task.debts Debt.commands s.core.tasks ≤ kMaxCommands := by
  have hbalance := h.balance Debt.commands
  have hpending := h.pending_le
  have hreplies : owing (fun id => [.reply id]) Debt.commands s.accepted = 0 :=
    owing_zero (by simp) _
  unfold opened carried at hbalance
  rw [hreplies, owing_length (fun id => [.command id]) _ (by simp) s.pending]
    at hbalance
  simp only [Debt.commands] at hbalance
  omega

/-- What the core worker has to end is pending. -/
theorem pending_of_work (h : s.Accounts) {id : RequestId} (hdebts : s.work.debts = [.command id]) :
    id ∈ s.pending := by
  have hbalance := h.balance (Debt.command? id)
  have hreplies : owing (fun id => [.reply id]) (Debt.command? id) s.accepted = 0 :=
    owing_zero (by simp) _
  rw [opened, carried, hdebts, hreplies] at hbalance
  have hpos : 0 < owing (fun id => [.command id]) (Debt.command? id) s.pending := by
    simp only [Debt.command?, tally_cons, tally_nil, weigh_some, if_true] at hbalance ⊢
    omega
  obtain ⟨id', hmem, hweight⟩ := exists_of_tally_pos hpos
  have heq : id' = id := by
    by_contra hne
    simp [hne] at hweight
  exact heq ▸ hmem

end Accounts

namespace Inv

/-- The reserve of the core's mailbox is never used up. -/
theorem core_room (h : s.Inv) :
    s.core.tasks.length < 1024 + (kMaxCommands + kMaxQueries + 8) := by
  have hqueries : owing Task.debts Debt.queries s.core.tasks ≤ kMaxQueries := by
    have hcount := h.accounts.queries_eq
    have hlimit := h.accounts.queries.2
    omega
  have hbarrier : tally some Task.barriers s.core.tasks ≤ 1 := by
    have hone := h.closing.barrier
    split_ifs at hone <;> omega
  calc s.core.tasks.length
      = tally some Task.ordinary s.core.tasks + owing Task.debts Debt.commands s.core.tasks +
          owing Task.debts Debt.queries s.core.tasks + tally some Task.barriers s.core.tasks :=
        task_length _
    _ ≤ 1024 + kMaxCommands + kMaxQueries + 1 := by
        have hordinary := h.accounts.ordinary
        have hanswers := h.accounts.answers_le
        omega
    _ < 1024 + (kMaxCommands + kMaxQueries + 8) := by omega

/-- The core takes completions until it is closed. -/
theorem core_takes (h : s.Inv) (hopen : s.core.closed = false) (t : Task ν) :
    s.core.post t true = some { s.core with tasks := s.core.tasks ++ [t] } :=
  TaskExecutor.post_completion hopen h.core_room

/-- The query executor takes a query when one more may be counted. -/
theorem query_takes (h : s.Inv) (hopen : s.query.closed = false)
    (hlimit : s.queries < kMaxQueries + tally some Debt.queries s.work.debts) (q : QueryTask δ) :
    (s.query.post q false).isSome := by
  have hcount := h.accounts.queries_eq
  have hnonneg := h.accounts.queries.1
  unfold TaskExecutor.post
  rw [if_neg]
  · rfl
  · rw [hopen]
    simp only [Bool.false_eq_true, false_or, if_false, not_le]
    omega

end Inv

end GatewayCore

end EdgeGateway
