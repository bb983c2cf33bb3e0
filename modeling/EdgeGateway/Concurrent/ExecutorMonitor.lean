import EdgeGateway.App.Accounts
import EdgeGateway.Basic.Steps

set_option autoImplicit false

/-! # The worker thread of a `TaskExecutor`

Posts, the loop of the worker and `stop`, with the mutex and the condition variable `ready_`. The
worker is outside the mutex, about to test its condition; or it waits; or it runs a task. The owner
is in `stop` between the assignment of `closed_` and the notification, or joins the worker. A task
that throws ends like any other. Tasks are run one at a time in the order in which they were taken,
and `stop` returns when all of them have been run.
-/

namespace EdgeGateway

/-! ## Threads -/

inductive ExecutorWorker (α : Type)
  | testing
  | waiting
  | running (task : α)
  | exited

/-- Where the owner is in `stop`. -/
inductive ExecutorOwner
  | outside
  | notifying
  | joining
  | stopped
  deriving DecidableEq

inductive ExecutorEvent (α : Type)
  | posted (task : α)
  | refused (task : α) (completion : Bool)
  | started (task : α)
  | finished (task : α) (threw : Bool)
  | closing
  | stopped
  deriving DecidableEq

/-- The executor with its worker and its owner. -/
structure ExecutorMonitor (capacity reserve : Nat) (α : Type) where
  box : TaskExecutor capacity reserve α := {}
  worker : ExecutorWorker α := .testing
  owner : ExecutorOwner := .outside

variable {capacity reserve : Nat} {α : Type}

namespace ExecutorWorker

/-- A notification reaches the worker when it waits. -/
def notified : ExecutorWorker α → ExecutorWorker α
  | .waiting => .testing
  | w => w

def task? : ExecutorWorker α → Option α
  | .running task => some task
  | _ => none

/-- What a worker has still to do besides its tasks, once the executor is closed. -/
def work : ExecutorWorker α → Nat
  | .exited => 0
  | .testing => 1
  | .waiting => 2
  | .running _ => 2

@[simp] theorem notified_task? (w : ExecutorWorker α) : w.notified.task? = w.task? := by
  cases w <;> rfl

theorem notified_ne_waiting (w : ExecutorWorker α) : w.notified ≠ .waiting := by
  cases w <;> exact fun h => by cases h

theorem notified_eq_exited {w : ExecutorWorker α} (h : w.notified = .exited) : w = .exited := by
  cases w <;> cases h
  rfl

theorem notified_work_le (w : ExecutorWorker α) : w.notified.work ≤ w.work := by
  cases w <;> first | exact Nat.le_refl _ | exact Nat.le_succ 1

end ExecutorWorker

def ExecutorOwner.work : ExecutorOwner → Nat
  | .notifying => 2
  | .joining => 1
  | _ => 0

namespace ExecutorMonitor

/-! ## Steps -/

/-- The critical section of `run`. -/
def test (s : ExecutorMonitor capacity reserve α) :
    ExecutorMonitor capacity reserve α × List (ExecutorEvent α) :=
  match s.box.tasks with
  | task :: rest =>
      ({ s with box := { s.box with tasks := rest }, worker := .running task }, [.started task])
  | [] => ({ s with worker := if s.box.closed then .exited else .waiting }, [])

/-- The worker, or the owner in `stop`, goes on. -/
inductive Work : ExecutorMonitor capacity reserve α → List (ExecutorEvent α) →
    ExecutorMonitor capacity reserve α → Prop
  | test {s : ExecutorMonitor capacity reserve α} (h : s.worker = .testing) :
      Work s s.test.2 s.test.1
  | spurious {s : ExecutorMonitor capacity reserve α} (h : s.worker = .waiting) :
      Work s [] { s with worker := .testing }
  | finish {s : ExecutorMonitor capacity reserve α} {task : α} (threw : Bool)
      (h : s.worker = .running task) :
      Work s [.finished task threw] { s with worker := .testing }
  | notifyAll {s : ExecutorMonitor capacity reserve α} (h : s.owner = .notifying) :
      Work s [] { s with worker := s.worker.notified, owner := .joining }
  | join {s : ExecutorMonitor capacity reserve α} (h : s.owner = .joining)
      (hexit : s.worker = .exited) : Work s [.stopped] { s with owner := .stopped }

/-- Any thread posts, and the owner may call `stop` again when it has returned. -/
inductive Step : ExecutorMonitor capacity reserve α → List (ExecutorEvent α) →
    ExecutorMonitor capacity reserve α → Prop
  | post {s : ExecutorMonitor capacity reserve α} {task : α} {completion : Bool}
      {box : TaskExecutor capacity reserve α} (h : s.box.post task completion = some box) :
      Step s [.posted task] { s with box := box, worker := s.worker.notified }
  | postFails {s : ExecutorMonitor capacity reserve α} {task : α} {completion : Bool}
      (h : s.box.post task completion = none) : Step s [.refused task completion] s
  | close {s : ExecutorMonitor capacity reserve α} (h : s.owner = .outside ∨ s.owner = .stopped) :
      Step s [.closing] { s with box := { s.box with closed := true }, owner := .notifying }
  | work {s s' : ExecutorMonitor capacity reserve α} {es : List (ExecutorEvent α)}
      (h : Work s es s') : Step s es s'

def Run (es : List (ExecutorEvent α)) (s : ExecutorMonitor capacity reserve α) : Prop :=
  Steps Step {} es s

end ExecutorMonitor

/-! ## What the events say -/

namespace ExecutorEvent

@[simp] def posted? : ExecutorEvent α → Option α
  | .posted task => some task
  | _ => none

@[simp] def started? : ExecutorEvent α → Option α
  | .started task => some task
  | _ => none

@[simp] def finished? : ExecutorEvent α → Option α
  | .finished task _ => some task
  | _ => none

def allPosted (es : List (ExecutorEvent α)) : List α := es.filterMap posted?

def allStarted (es : List (ExecutorEvent α)) : List α := es.filterMap started?

def allFinished (es : List (ExecutorEvent α)) : List α := es.filterMap finished?

@[simp] theorem allPosted_concat (es : List (ExecutorEvent α)) (e : ExecutorEvent α) :
    allPosted (es ++ [e]) = allPosted es ++ e.posted?.toList := by
  unfold allPosted
  rw [List.filterMap_append]
  cases e <;> rfl

@[simp] theorem allStarted_concat (es : List (ExecutorEvent α)) (e : ExecutorEvent α) :
    allStarted (es ++ [e]) = allStarted es ++ e.started?.toList := by
  unfold allStarted
  rw [List.filterMap_append]
  cases e <;> rfl

@[simp] theorem allFinished_concat (es : List (ExecutorEvent α)) (e : ExecutorEvent α) :
    allFinished (es ++ [e]) = allFinished es ++ e.finished?.toList := by
  unfold allFinished
  rw [List.filterMap_append]
  cases e <;> rfl

/-- Whether an event may come after these. -/
def Justified (capacity reserve : Nat) (before : List (ExecutorEvent α)) : ExecutorEvent α → Prop
  | .posted _ => closing ∉ before ∧
      (allPosted before).length < (allStarted before).length + (capacity + reserve)
  | .refused _ completion => closing ∈ before ∨
      (allStarted before).length + (capacity + if completion then reserve else 0) ≤
        (allPosted before).length
  | .started task => allStarted before = allFinished before ∧
      ∃ rest, allPosted before = allStarted before ++ task :: rest
  | .finished task _ => allStarted before = allFinished before ++ [task]
  | .closing => True
  | .stopped => closing ∈ before ∧ allFinished before = allPosted before

end ExecutorEvent

open ExecutorEvent

namespace ExecutorMonitor

/-! ## Invariant -/

/-- The threads among themselves. -/
structure Inv (s : ExecutorMonitor capacity reserve α) : Prop where
  waits : s.worker = .waiting → s.box.tasks = [] ∧ (s.box.closed = true → s.owner = .notifying)
  exits : s.worker = .exited → s.box.tasks = [] ∧ s.box.closed = true
  closes : s.box.closed = true ↔ s.owner ≠ .outside

/-- The executor against all events so far. -/
structure History (s : ExecutorMonitor capacity reserve α) (log : List (ExecutorEvent α)) :
    Prop where
  fifo : allPosted log = allStarted log ++ s.box.tasks
  running : allStarted log = allFinished log ++ s.worker.task?.toList
  closed : s.box.closed = true ↔ .closing ∈ log

variable {s s' : ExecutorMonitor capacity reserve α} {es log : List (ExecutorEvent α)}

theorem init_inv : Inv ({} : ExecutorMonitor capacity reserve α) where
  waits := fun h => by cases h
  exits := fun h => by cases h
  closes := by simp

theorem init_history : History ({} : ExecutorMonitor capacity reserve α) [] where
  fifo := rfl
  running := rfl
  closed := by simp

/-- The worker takes the oldest task, or there is none. -/
theorem test_cases (s : ExecutorMonitor capacity reserve α) :
    (∃ task rest, s.box.tasks = task :: rest ∧
      s.test = ({ s with box := { s.box with tasks := rest }, worker := .running task },
        [.started task])) ∨
    (s.box.tasks = [] ∧ s.box.closed = true ∧ s.test = ({ s with worker := .exited }, [])) ∨
    (s.box.tasks = [] ∧ s.box.closed = false ∧ s.test = ({ s with worker := .waiting }, [])) := by
  unfold test
  cases htasks : s.box.tasks with
  | cons task rest => exact .inl ⟨task, rest, rfl, rfl⟩
  | nil =>
      cases hclosed : s.box.closed with
      | true => exact .inr (.inl ⟨rfl, rfl, rfl⟩)
      | false => exact .inr (.inr ⟨rfl, rfl, rfl⟩)

theorem Inv.work (h : Inv s) (hstep : Work s es s') : Inv s' := by
  cases hstep with
  | test hworker =>
      rcases s.test_cases with ⟨task, rest, htasks, heq⟩ | ⟨htasks, hclosed, heq⟩ |
        ⟨htasks, hopen, heq⟩
      · rw [heq]
        exact ⟨fun hw => (by cases hw), fun hw => (by cases hw), h.closes⟩
      · rw [heq]
        exact ⟨fun hw => (by cases hw), fun _ => ⟨htasks, hclosed⟩, h.closes⟩
      · rw [heq]
        refine ⟨fun _ => ⟨htasks, fun hclosed => ?_⟩, fun hw => (by cases hw), h.closes⟩
        rw [hopen] at hclosed
        cases hclosed
  | spurious hworker => exact ⟨fun hw => (by cases hw), fun hw => (by cases hw), h.closes⟩
  | finish threw hworker => exact ⟨fun hw => (by cases hw), fun hw => (by cases hw), h.closes⟩
  | notifyAll howner =>
      refine ⟨fun hw => absurd hw (ExecutorWorker.notified_ne_waiting _), fun hw => ?_, ?_⟩
      · exact h.exits (ExecutorWorker.notified_eq_exited hw)
      · have hclosed : s.box.closed = true := h.closes.mpr (by rw [howner]; decide)
        simp [hclosed]
  | join howner hexit =>
      refine ⟨fun hw => ?_, fun _ => h.exits hexit, ?_⟩
      · rw [hexit] at hw
        cases hw
      · have hclosed : s.box.closed = true := (h.exits hexit).2
        simp [hclosed]

theorem Inv.step (h : Inv s) (hstep : Step s es s') : Inv s' := by
  cases hstep with
  | post hpost =>
      obtain ⟨hopen, -, rfl⟩ := TaskExecutor.post_eq_some hpost
      refine ⟨fun hw => absurd hw (ExecutorWorker.notified_ne_waiting _), fun hw => ?_, h.closes⟩
      rw [(h.exits (ExecutorWorker.notified_eq_exited hw)).2] at hopen
      cases hopen
  | postFails hpost => exact h
  | close howner =>
      refine ⟨fun hw => ⟨(h.waits hw).1, fun _ => rfl⟩, fun hw => ⟨(h.exits hw).1, rfl⟩, ?_⟩
      simp
  | work hwork => exact h.work hwork

theorem post_eq_none {box : TaskExecutor capacity reserve α} {task : α} {completion : Bool}
    (h : box.post task completion = none) :
    box.closed = true ∨ box.tasks.length ≥ capacity + if completion then reserve else 0 := by
  unfold TaskExecutor.post at h
  dsimp only at h
  by_contra hnot
  rw [if_neg hnot] at h
  cases h

/-- A step without an event and with the same tasks. -/
theorem History.silent (h : History s log) (htasks : s'.box = s.box)
    (hrunning : s'.worker.task? = s.worker.task?) : History s' (log ++ []) := by
  rw [List.append_nil]
  exact ⟨by rw [htasks]; exact h.fifo, by rw [hrunning]; exact h.running,
    by rw [htasks]; exact h.closed⟩

/-- One step of the worker or the owner, and why its event could come. -/
theorem History.work (h : History s log) (hinv : Inv s) (hstep : Work s es s') :
    History s' (log ++ es) ∧ ∀ e ∈ es, e.Justified capacity reserve log := by
  have hfifo := h.fifo
  have hrunning := h.running
  cases hstep with
  | test hworker =>
      rw [hworker] at hrunning
      have hsame : allStarted log = allFinished log := hrunning.trans (List.append_nil _)
      rcases s.test_cases with ⟨task, rest, htasks, heq⟩ | ⟨htasks, hclosed, heq⟩ |
        ⟨htasks, hopen, heq⟩
      · rw [htasks] at hfifo
        rw [heq]
        refine ⟨⟨?_, ?_, ?_⟩, ?_⟩
        · simp [hfifo]
        · simp [hsame, ExecutorWorker.task?]
        · simp [h.closed]
        · intro e he
          rw [List.mem_singleton.mp he]
          exact ⟨hsame, rest, hfifo⟩
      · rw [heq]
        refine ⟨h.silent rfl ?_, fun e he => by cases he⟩
        rw [hworker]
        rfl
      · rw [heq]
        refine ⟨h.silent rfl ?_, fun e he => by cases he⟩
        rw [hworker]
        rfl
  | spurious hworker =>
      refine ⟨h.silent rfl ?_, fun e he => by cases he⟩
      rw [hworker]
      rfl
  | @finish task threw hworker =>
      rw [hworker] at hrunning
      refine ⟨⟨?_, ?_, ?_⟩, ?_⟩
      · simpa using hfifo
      · simpa [ExecutorWorker.task?] using hrunning
      · simp [h.closed]
      · intro e he
        rw [List.mem_singleton.mp he]
        exact hrunning
  | notifyAll howner => exact ⟨h.silent rfl (by simp), fun e he => by cases he⟩
  | join howner hexit =>
      obtain ⟨htasks, hclosed⟩ := hinv.exits hexit
      rw [htasks, List.append_nil] at hfifo
      rw [hexit] at hrunning
      refine ⟨⟨?_, ?_, ?_⟩, ?_⟩
      · simpa [htasks] using hfifo
      · simpa [hexit, ExecutorWorker.task?] using hrunning
      · simp [h.closed]
      · intro e he
        rw [List.mem_singleton.mp he]
        exact ⟨h.closed.mp hclosed,
          (hfifo.trans (hrunning.trans (List.append_nil _))).symm⟩

theorem History.step (h : History s log) (hinv : Inv s) (hstep : Step s es s') :
    History s' (log ++ es) ∧ ∀ e ∈ es, e.Justified capacity reserve log := by
  have hlength : (allPosted log).length = (allStarted log).length + s.box.tasks.length := by
    rw [h.fifo, List.length_append]
  cases hstep with
  | @post task completion box hpost =>
      obtain ⟨hopen, hroom, rfl⟩ := TaskExecutor.post_eq_some hpost
      have hle : (if completion = true then reserve else 0) ≤ reserve := by
        split_ifs <;> omega
      refine ⟨⟨?_, ?_, ?_⟩, ?_⟩
      · simp [h.fifo]
      · simpa using h.running
      · simp [h.closed]
      · intro e he
        rw [List.mem_singleton.mp he]
        refine ⟨?_, by omega⟩
        rw [← h.closed, hopen]
        exact Bool.false_ne_true
  | @postFails task completion hpost =>
      refine ⟨⟨?_, ?_, ?_⟩, ?_⟩
      · simpa using h.fifo
      · simpa using h.running
      · simp [h.closed]
      · intro e he
        rw [List.mem_singleton.mp he]
        rcases post_eq_none hpost with hclosed | hfull
        · exact .inl (h.closed.mp hclosed)
        · refine .inr ?_
          omega
  | close howner =>
      refine ⟨⟨?_, ?_, ?_⟩, ?_⟩
      · simpa using h.fifo
      · simpa using h.running
      · simp
      · intro e he
        rw [List.mem_singleton.mp he]
        trivial
  | work hwork => exact h.work hinv hwork

/-! ## Runs -/

theorem Work.single (h : Work s es s') : es = [] ∨ ∃ e, es = [e] := by
  cases h with
  | test hworker =>
      rcases s.test_cases with ⟨task, rest, -, heq⟩ | ⟨-, -, heq⟩ | ⟨-, -, heq⟩
      · exact .inr ⟨_, by rw [heq]⟩
      · exact .inl (by rw [heq])
      · exact .inl (by rw [heq])
  | spurious hworker => exact .inl rfl
  | finish threw hworker => exact .inr ⟨_, rfl⟩
  | notifyAll howner => exact .inl rfl
  | join howner hexit => exact .inr ⟨_, rfl⟩

theorem Step.single (h : Step s es s') : es = [] ∨ ∃ e, es = [e] := by
  cases h with
  | post hpost => exact .inr ⟨_, rfl⟩
  | postFails hpost => exact .inr ⟨_, rfl⟩
  | close howner => exact .inr ⟨_, rfl⟩
  | work hwork => exact hwork.single

theorem run_inv (h : Run es s) : Inv s :=
  Steps.preserves (fun _ _ _ h hstep => h.step hstep) h init_inv

theorem run_history (h : Run es s) : History s es ∧
    ∀ before e after, es = before ++ e :: after → e.Justified capacity reserve before := by
  have key : ∀ (s : ExecutorMonitor capacity reserve α) log new t, (Inv s ∧ History s log) →
      Step s new t → (Inv t ∧ History t (log ++ new)) ∧
        (new = [] ∨ ∃ e, new = [e] ∧ e.Justified capacity reserve log) := by
    intro s log new t ⟨hinv, hhist⟩ hstep
    obtain ⟨hhist', hjust⟩ := hhist.step hinv hstep
    refine ⟨⟨hinv.step hstep, hhist'⟩, ?_⟩
    rcases hstep.single with rfl | ⟨e, rfl⟩
    · exact .inl rfl
    · exact .inr ⟨e, rfl, hjust e (List.mem_singleton.mpr rfl)⟩
  obtain ⟨⟨-, hhist⟩, hjust⟩ := Steps.justified key h ⟨init_inv, init_history⟩
  exact ⟨hhist, hjust⟩

/-- **The tasks are run one at a time, each once and in the order in which they were taken.** Started
are those that are finished and at most one more; the others are queued. A post is refused only after
`stop` was called or when the executor is full to its limit, the reserve being there for completions
alone; and when `stop` returns everything that was ever taken has been run, whether it threw or
not. -/
theorem runs_in_order (h : Run es s) :
    allPosted es = allStarted es ++ s.box.tasks ∧
      allStarted es = allFinished es ++ s.worker.task?.toList ∧
      ∀ before e after, es = before ++ e :: after → e.Justified capacity reserve before := by
  obtain ⟨hhist, hjust⟩ := run_history h
  exact ⟨hhist.fifo, hhist.running, hjust⟩

/-! ## Progress -/

/-- What the worker and the owner in `stop` have still to do. -/
def remaining (s : ExecutorMonitor capacity reserve α) : Nat :=
  3 * s.box.tasks.length + s.worker.work + s.owner.work

theorem Work.remaining_lt (h : Work s es s') (hclosed : s.box.closed = true) :
    s'.remaining < s.remaining := by
  unfold remaining
  cases h with
  | test hworker =>
      rcases s.test_cases with ⟨task, rest, htasks, heq⟩ | ⟨htasks, -, heq⟩ | ⟨-, hopen, -⟩
      · rw [heq, hworker, htasks, List.length_cons]
        show 3 * rest.length + 2 + s.owner.work < 3 * (rest.length + 1) + 1 + s.owner.work
        omega
      · rw [heq, hworker, htasks]
        show 3 * 0 + 0 + s.owner.work < 3 * 0 + 1 + s.owner.work
        omega
      · rw [hclosed] at hopen
        cases hopen
  | spurious hworker =>
      rw [hworker]
      show 3 * s.box.tasks.length + 1 + s.owner.work < 3 * s.box.tasks.length + 2 + s.owner.work
      omega
  | finish threw hworker =>
      rw [hworker]
      show 3 * s.box.tasks.length + 1 + s.owner.work < 3 * s.box.tasks.length + 2 + s.owner.work
      omega
  | notifyAll howner =>
      have := s.worker.notified_work_le
      rw [howner]
      show 3 * s.box.tasks.length + s.worker.notified.work + 1 <
        3 * s.box.tasks.length + s.worker.work + 2
      omega
  | join howner hexit =>
      rw [howner]
      exact Nat.lt_succ_self _

/-- **The worker is never left asleep and `stop` always returns.** While the worker waits there is no
task, and nobody has closed the executor without being about to notify. Once it is closed, every step
of the worker and of the owner leaves less to do, and one of them can go on until `stop` has
returned. -/
theorem executor_drains (h : Run es s) :
    (s.worker = .waiting → s.box.tasks = [] ∧ (.closing ∈ es → s.owner = .notifying)) ∧
      (.closing ∈ es →
        (∀ new t, Work s new t → t.remaining < s.remaining) ∧
        (s.owner ≠ .stopped → ∃ new t, Work s new t)) := by
  have hinv := run_inv h
  obtain ⟨hhist, -⟩ := run_history h
  rw [← hhist.closed]
  refine ⟨hinv.waits, fun hclosed => ⟨fun new t hwork => hwork.remaining_lt hclosed, ?_⟩⟩
  intro hreturned
  cases howner : s.owner with
  | outside => exact absurd howner (hinv.closes.mp hclosed)
  | stopped => exact absurd howner hreturned
  | notifying => exact ⟨_, _, .notifyAll howner⟩
  | joining =>
      -- the worker is not gone yet, or the owner joins it
      cases hworker : s.worker with
      | testing => exact ⟨_, _, .test hworker⟩
      | waiting =>
          have hnotifying := (hinv.waits hworker).2 hclosed
          rw [howner] at hnotifying
          cases hnotifying
      | running task => exact ⟨_, _, .finish false hworker⟩
      | exited => exact ⟨_, _, .join howner hworker⟩

/-- A task is taken, then the executor is closed. -/
theorem run_closing : Run [.posted 7, .closing]
    (⟨⟨[7], true⟩, .testing, .notifying⟩ : ExecutorMonitor 1 0 Nat) := by
  have hpost : Step ({} : ExecutorMonitor 1 0 Nat) [.posted 7]
      ⟨⟨[7], false⟩, .testing, .outside⟩ := @Step.post 1 0 Nat {} 7 false _ rfl
  have hclose : Step (⟨⟨[7], false⟩, .testing, .outside⟩ : ExecutorMonitor 1 0 Nat) [.closing]
      ⟨⟨[7], true⟩, .testing, .notifying⟩ := .close (.inl rfl)
  exact (Steps.single hpost).tail hclose

theorem runs_in_order_closing :
    allPosted [ExecutorEvent.posted 7, .closing] = allStarted [.posted 7, .closing] ++ [7] :=
  (runs_in_order run_closing).1

theorem executor_drains_closing : ∃ new t,
    Work (⟨⟨[7], true⟩, .testing, .notifying⟩ : ExecutorMonitor 1 0 Nat) new t :=
  ((executor_drains run_closing).2 (by simp)).2 (by decide)

end ExecutorMonitor

end EdgeGateway
