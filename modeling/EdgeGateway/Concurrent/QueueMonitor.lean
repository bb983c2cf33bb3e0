import EdgeGateway.Basic.CondVar
import EdgeGateway.Basic.Steps
import EdgeGateway.Concurrent.ThreadSafeQueue
import Mathlib.Data.List.Infix
import Mathlib.Tactic.SplitIfs

set_option autoImplicit false

/-! # The queue as a monitor

The calls of `ThreadSafeQueue` with their mutex and their two condition variables. A thread in
`push`, `push_for` or `pop` is outside the mutex, about to test its condition; or it waits; or it has
unlocked and is about to notify. Waits may end for no reason, and those of `push_for` with the time.
The events of a run are the moments at which calls take effect, in order.
-/

namespace EdgeGateway

/-! ## Calls -/

/-- Where a thread is; `pushLate` comes out of `wait_for` because the time is over. -/
inductive QueueCall (α : Type)
  | idle
  | push (value : α) (timed : Bool)
  | pushAsleep (value : α) (timed : Bool)
  | pushLate (value : α)
  | pushed
  | pop
  | popAsleep
  | popped

/-- `full` is a push that gave up, `missed` a `try_pop` that found nothing, `ended` the empty optional
of a `pop`. -/
inductive QueueEvent (α : Type)
  | accepted (value : α)
  | refused (value : α)
  | full (value : α)
  | delivered (value : α)
  | missed
  | ended
  | shutdown
  deriving DecidableEq

structure QueueMonitor (α : Type) where
  queue : ThreadSafeQueue α
  calls : List (QueueCall α)

variable {α : Type}

namespace QueueCall

/-- A thread begins `push`, `push_for` or `pop`. -/
inductive Begins : QueueCall α → Prop
  | push (value : α) (timed : Bool) : Begins (.push value timed)
  | pop : Begins .pop

def wakeEmpty : QueueCall α → Option (QueueCall α)
  | .popAsleep => some .pop
  | _ => none

def wakeFull : QueueCall α → Option (QueueCall α)
  | .pushAsleep value timed => some (.push value timed)
  | _ => none

/-- Who will look for an element, or notify somebody who does. -/
def creditEmpty : QueueCall α → Nat
  | .pop | .pushed => 1
  | _ => 0

/-- Who will look for room, or notify somebody who does. -/
def creditFull : QueueCall α → Nat
  | .push _ _ | .pushLate _ | .popped => 1
  | _ => 0

/-- What a call has still to do when it does not wait again. -/
def work : QueueCall α → Nat
  | .idle => 0
  | .pushed | .popped => 1
  | .push _ _ | .pushLate _ | .pop => 2
  | .pushAsleep _ _ | .popAsleep => 3

theorem work_eq_zero {c : QueueCall α} (h : c.work = 0) : c = .idle := by
  cases c <;> first | rfl | cases h

end QueueCall

/-- `not_empty_cv_`. -/
def notEmpty : CondVar (QueueCall α) where
  wake := QueueCall.wakeEmpty
  credit := QueueCall.creditEmpty
  awake := by
    intro c c' h
    cases c <;> cases h
    rfl
  credited := by
    intro c c' h
    cases c <;> cases h
    rfl

/-- `not_full_cv_`. -/
def notFull : CondVar (QueueCall α) where
  wake := QueueCall.wakeFull
  credit := QueueCall.creditFull
  awake := by
    intro c c' h
    cases c <;> cases h
    rfl
  credited := by
    intro c c' h
    cases c <;> cases h
    rfl

theorem notEmpty_apart : (notEmpty (α := α)).Apart notFull := by
  intro c c' h
  cases c <;> cases h
  exact ⟨rfl, rfl⟩

theorem notFull_apart : (notFull (α := α)).Apart notEmpty := by
  intro c c' h
  cases c <;> cases h
  exact ⟨rfl, rfl⟩

/-! ## Steps -/

namespace QueueMonitor

def init (capacity threads : Nat) : QueueMonitor α :=
  ⟨{ capacity := capacity }, List.replicate threads .idle⟩

/-- `push` and `push_for` behind their wait. -/
def finishPush (value : α) (q : ThreadSafeQueue α) :
    QueueCall α × ThreadSafeQueue α × List (QueueEvent α) :=
  if q.shutdown then (.idle, q, [.refused value])
  else (.pushed, { q with queue := q.queue ++ [value] }, [.accepted value])

/-- What a thread does while it holds the mutex. -/
def locked (q : ThreadSafeQueue α) :
    QueueCall α → Option (QueueCall α × ThreadSafeQueue α × List (QueueEvent α))
  | .push value timed =>
      if q.hasRoom || q.shutdown then some (finishPush value q)
      else some (.pushAsleep value timed, q, [])
  | .pushLate value =>
      if q.hasRoom || q.shutdown then some (finishPush value q) else some (.idle, q, [.full value])
  | .pop =>
      match q.pop with
      | some (some value, q') => some (.popped, q', [.delivered value])
      | some (none, q') => some (.idle, q', [.ended])
      | none => some (.popAsleep, q, [])
  | _ => none

/-- A call that is under way goes on. -/
inductive Advance : QueueMonitor α → List (QueueEvent α) → QueueMonitor α → Prop
  | locked {q q' : ThreadSafeQueue α} {c c' : QueueCall α} {es : List (QueueEvent α)}
      (before after : List (QueueCall α)) (h : locked q c = some (c', q', es)) :
      Advance ⟨q, before ++ c :: after⟩ es ⟨q', before ++ c' :: after⟩
  | pushed (q : ThreadSafeQueue α) (before after : List (QueueCall α)) {calls : List (QueueCall α)}
      (h : notEmpty.NotifyOne (before ++ .idle :: after) calls) :
      Advance ⟨q, before ++ .pushed :: after⟩ [] ⟨q, calls⟩
  | popped (q : ThreadSafeQueue α) (before after : List (QueueCall α)) {calls : List (QueueCall α)}
      (h : notFull.NotifyOne (before ++ .idle :: after) calls) :
      Advance ⟨q, before ++ .popped :: after⟩ [] ⟨q, calls⟩
  | spurious (q : ThreadSafeQueue α) (before after : List (QueueCall α)) {c c' : QueueCall α}
      (h : notEmpty.wake c = some c' ∨ notFull.wake c = some c') :
      Advance ⟨q, before ++ c :: after⟩ [] ⟨q, before ++ c' :: after⟩
  | timeout (q : ThreadSafeQueue α) (before after : List (QueueCall α)) (value : α) :
      Advance ⟨q, before ++ .pushAsleep value true :: after⟩ [] ⟨q, before ++ .pushLate value :: after⟩

/-- Any thread takes the next step; `try_push`, `try_pop` and `shutdown` notify under the mutex. -/
inductive Step : QueueMonitor α → List (QueueEvent α) → QueueMonitor α → Prop
  | call (q : ThreadSafeQueue α) (before after : List (QueueCall α)) {c : QueueCall α}
      (h : c.Begins) : Step ⟨q, before ++ .idle :: after⟩ [] ⟨q, before ++ c :: after⟩
  | advance {s s' : QueueMonitor α} {es : List (QueueEvent α)} (h : Advance s es s') : Step s es s'
  | tryPush {q q' : ThreadSafeQueue α} {value : α} {calls calls' : List (QueueCall α)}
      (h : q.tryPush value = (true, q')) (hone : notEmpty.NotifyOne calls calls') :
      Step ⟨q, calls⟩ [.accepted value] ⟨q', calls'⟩
  | tryPushFails {q : ThreadSafeQueue α} {value : α} (calls : List (QueueCall α))
      (h : (q.tryPush value).1 = false) :
      Step ⟨q, calls⟩ [if q.shutdown then .refused value else .full value] ⟨q, calls⟩
  | tryPop {q q' : ThreadSafeQueue α} {value : α} {calls calls' : List (QueueCall α)}
      (h : q.tryPop = (some value, q')) (hone : notFull.NotifyOne calls calls') :
      Step ⟨q, calls⟩ [.delivered value] ⟨q', calls'⟩
  | tryPopFails {q q' : ThreadSafeQueue α} (calls : List (QueueCall α))
      (h : q.tryPop = (none, q')) : Step ⟨q, calls⟩ [.missed] ⟨q', calls⟩
  | shutdown (q : ThreadSafeQueue α) (calls : List (QueueCall α)) :
      Step ⟨q, calls⟩ [.shutdown] ⟨q.close, notFull.notifyAll (notEmpty.notifyAll calls)⟩

/-- A run from the empty queue with its idle threads. -/
def Run (capacity threads : Nat) (es : List (QueueEvent α)) (s : QueueMonitor α) : Prop :=
  Steps Step (init capacity threads) es s

end QueueMonitor

/-! ## The queue that the threads see -/

namespace ThreadSafeQueue

/-- A call in one step, as the events record it. -/
inductive Takes : ThreadSafeQueue α → List (QueueEvent α) → ThreadSafeQueue α → Prop
  | accepted {q q' : ThreadSafeQueue α} {value : α} (h : q.tryPush value = (true, q')) :
      Takes q [.accepted value] q'
  | refused {q : ThreadSafeQueue α} (value : α) (h : q.shutdown = true) :
      Takes q [.refused value] q
  | full {q : ThreadSafeQueue α} (value : α) (hopen : q.shutdown = false) (hroom : q.hasRoom = false) :
      Takes q [.full value] q
  | delivered {q q' : ThreadSafeQueue α} {value : α} (h : q.pop = some (some value, q')) :
      Takes q [.delivered value] q'
  | missed {q : ThreadSafeQueue α} (h : q.queue = []) : Takes q [.missed] q
  | ended {q q' : ThreadSafeQueue α} (h : q.pop = some (none, q')) : Takes q [.ended] q'
  | shutdown (q : ThreadSafeQueue α) : Takes q [.shutdown] q.close

theorem tryPush_eq_true {q q' : ThreadSafeQueue α} {value : α} :
    q.tryPush value = (true, q') ↔
      q.shutdown = false ∧ q.hasRoom = true ∧ q' = { q with queue := q.queue ++ [value] } := by
  unfold tryPush hasRoom
  by_cases hshut : q.shutdown = true
  · simp [hshut]
  · by_cases hroom : q.capacity = 0 ∨ q.queue.length < q.capacity
    · have hnot : ¬ (q.capacity ≠ 0 ∧ q.queue.length ≥ q.capacity) := by omega
      simp [hshut, hroom, hnot, eq_comm]
    · have hfull : q.capacity ≠ 0 ∧ q.queue.length ≥ q.capacity := by omega
      simp [hshut, hfull]

theorem tryPush_eq_false {q : ThreadSafeQueue α} {value : α} (h : (q.tryPush value).1 = false) :
    q.shutdown = true ∨ q.hasRoom = false := by
  rcases Bool.eq_false_or_eq_true q.shutdown with hshut | hopen
  · exact .inl hshut
  · refine .inr ?_
    by_contra hroom
    have hpush : q.tryPush value = (true, { q with queue := q.queue ++ [value] }) :=
      tryPush_eq_true.mpr ⟨hopen, by simpa using hroom, rfl⟩
    rw [hpush] at h
    cases h

theorem pop_eq_some {q q' : ThreadSafeQueue α} {value : α} :
    q.pop = some (some value, q') ↔
      ∃ rest, q.queue = value :: rest ∧ q' = { q with queue := rest } := by
  unfold pop
  cases hq : q.queue with
  | nil => by_cases hshut : q.shutdown = true <;> simp [hshut]
  | cons a rest =>
      constructor
      · intro h
        cases h
        exact ⟨rest, rfl, rfl⟩
      · rintro ⟨rest', heq, rfl⟩
        cases heq
        rfl

theorem pop_eq_none {q q' : ThreadSafeQueue α} :
    q.pop = some (none, q') ↔ q.queue = [] ∧ q.shutdown = true ∧ q' = q := by
  unfold pop
  cases hq : q.queue with
  | nil => by_cases hshut : q.shutdown = true <;> simp [hshut, eq_comm]
  | cons a rest => simp

theorem pop_waits {q : ThreadSafeQueue α} (h : q.pop = none) :
    q.queue = [] ∧ q.shutdown = false := by
  unfold pop at h
  cases hq : q.queue with
  | nil => by_cases hshut : q.shutdown = true <;> simp_all
  | cons a rest => rw [hq] at h; cases h

theorem tryPop_eq_some {q q' : ThreadSafeQueue α} {value : α}
    (h : q.tryPop = (some value, q')) : q.pop = some (some value, q') := by
  unfold tryPop at h
  unfold pop
  cases hq : q.queue with
  | nil => rw [hq] at h; cases h
  | cons a rest =>
      rw [hq] at h
      cases h
      rfl

theorem tryPop_eq_none {q q' : ThreadSafeQueue α} (h : q.tryPop = (none, q')) :
    q.queue = [] ∧ q' = q := by
  unfold tryPop at h
  cases hq : q.queue with
  | nil =>
      rw [hq] at h
      cases h
      exact ⟨rfl, rfl⟩
  | cons a rest => rw [hq] at h; cases h

end ThreadSafeQueue

/-! ## Critical sections -/

namespace QueueMonitor

/-- A thread that will push unless the queue is closed or stays full. -/
def Pushes (value : α) (c : QueueCall α) : Prop :=
  (∃ timed, c = .push value timed) ∨ c = .pushLate value

/-- How a critical section can end. -/
inductive Outcome (q : ThreadSafeQueue α) :
    QueueCall α → QueueCall α → ThreadSafeQueue α → List (QueueEvent α) → Prop
  | waitsFull (value : α) (timed : Bool) (hopen : q.shutdown = false) (hroom : q.hasRoom = false) :
      Outcome q (.push value timed) (.pushAsleep value timed) q []
  | waitsEmpty (hopen : q.shutdown = false) (hempty : q.queue = []) :
      Outcome q .pop .popAsleep q []
  | accepted {c : QueueCall α} {q' : ThreadSafeQueue α} {value : α} (hc : Pushes value c)
      (h : q.tryPush value = (true, q')) : Outcome q c .pushed q' [.accepted value]
  | refused {c : QueueCall α} {value : α} (hc : Pushes value c) (hshut : q.shutdown = true) :
      Outcome q c .idle q [.refused value]
  | full (value : α) (hopen : q.shutdown = false) (hroom : q.hasRoom = false) :
      Outcome q (.pushLate value) .idle q [.full value]
  | delivered {q' : ThreadSafeQueue α} {value : α} (h : q.pop = some (some value, q')) :
      Outcome q .pop .popped q' [.delivered value]
  | ended {q' : ThreadSafeQueue α} (h : q.pop = some (none, q')) : Outcome q .pop .idle q' [.ended]

variable {q q' : ThreadSafeQueue α} {c c' : QueueCall α} {es : List (QueueEvent α)}

theorem finishPush_outcome {value : α} (hc : Pushes value c)
    (hready : (q.hasRoom || q.shutdown) = true) (h : finishPush value q = (c', q', es)) :
    Outcome q c c' q' es := by
  unfold finishPush at h
  split_ifs at h with hshut
  · cases h
    exact .refused hc hshut
  · cases h
    have hopen : q.shutdown = false := by simpa using hshut
    have hroom : q.hasRoom = true := by simpa [hopen] using hready
    exact .accepted hc (ThreadSafeQueue.tryPush_eq_true.mpr ⟨hopen, hroom, rfl⟩)

theorem locked_outcome (h : locked q c = some (c', q', es)) : Outcome q c c' q' es := by
  cases c with
  | push value timed =>
      unfold locked at h
      split_ifs at h with hready
      · exact finishPush_outcome (.inl ⟨timed, rfl⟩) hready (Option.some.inj h)
      · cases h
        obtain ⟨hroom, hopen⟩ := Bool.or_eq_false_iff.mp (Bool.eq_false_iff.mpr hready)
        exact .waitsFull value timed hopen hroom
  | pushLate value =>
      unfold locked at h
      split_ifs at h with hready
      · exact finishPush_outcome (.inr rfl) hready (Option.some.inj h)
      · cases h
        obtain ⟨hroom, hopen⟩ := Bool.or_eq_false_iff.mp (Bool.eq_false_iff.mpr hready)
        exact .full value hopen hroom
  | pop =>
      simp only [locked] at h
      split at h
      case h_1 value queue hpop =>
        cases h
        exact .delivered hpop
      case h_2 queue hpop =>
        cases h
        exact .ended hpop
      case h_3 hpop =>
        cases h
        obtain ⟨hempty, hopen⟩ := ThreadSafeQueue.pop_waits hpop
        exact .waitsEmpty hopen hempty
  | idle => cases h
  | pushAsleep value timed => cases h
  | pushed => cases h
  | popAsleep => cases h
  | popped => cases h

/-- Who is outside the mutex gets on when he has it. -/
theorem locked_isSome (hwork : c.work = 2) : (locked q c).isSome := by
  cases c with
  | push value timed =>
      unfold locked
      split_ifs <;> rfl
  | pushLate value =>
      unfold locked
      split_ifs <;> rfl
  | pop =>
      simp only [locked]
      split <;> rfl
  | idle => cases hwork
  | pushAsleep value timed => cases hwork
  | pushed => cases hwork
  | popAsleep => cases hwork
  | popped => cases hwork

/-! ## Calls take effect at one moment -/

theorem Outcome.takes (h : Outcome q c c' q' es) :
    (es = [] ∧ q' = q) ∨ ThreadSafeQueue.Takes q es q' := by
  cases h with
  | waitsFull value timed hopen hroom => exact .inl ⟨rfl, rfl⟩
  | waitsEmpty hopen hempty => exact .inl ⟨rfl, rfl⟩
  | accepted hc h => exact .inr (.accepted h)
  | refused hc hshut => exact .inr (.refused _ hshut)
  | full value hopen hroom => exact .inr (.full value hopen hroom)
  | delivered h => exact .inr (.delivered h)
  | ended h => exact .inr (.ended h)

theorem Advance.takes {s s' : QueueMonitor α} (h : Advance s es s') :
    (es = [] ∧ s'.queue = s.queue) ∨ ThreadSafeQueue.Takes s.queue es s'.queue := by
  cases h with
  | locked before after h => exact (locked_outcome h).takes
  | pushed q before after h => exact .inl ⟨rfl, rfl⟩
  | popped q before after h => exact .inl ⟨rfl, rfl⟩
  | spurious q before after h => exact .inl ⟨rfl, rfl⟩
  | timeout q before after value => exact .inl ⟨rfl, rfl⟩

theorem Step.takes {s s' : QueueMonitor α} (h : Step s es s') :
    (es = [] ∧ s'.queue = s.queue) ∨ ThreadSafeQueue.Takes s.queue es s'.queue := by
  cases h with
  | call q before after h => exact .inl ⟨rfl, rfl⟩
  | advance h => exact h.takes
  | tryPush h hone => exact .inr (.accepted h)
  | @tryPushFails q value calls h =>
      rcases Bool.eq_false_or_eq_true q.shutdown with hshut | hopen
      · rw [hshut]
        exact .inr (.refused value hshut)
      · rw [hopen]
        rcases ThreadSafeQueue.tryPush_eq_false h with hshut | hroom
        · rw [hopen] at hshut
          cases hshut
        · exact .inr (.full value hopen hroom)
  | tryPop h hone => exact .inr (.delivered (ThreadSafeQueue.tryPop_eq_some h))
  | tryPopFails calls h =>
      obtain ⟨hempty, rfl⟩ := ThreadSafeQueue.tryPop_eq_none h
      exact .inr (.missed hempty)
  | shutdown q calls => exact .inr (.shutdown q)

/-- **The monitor refines the queue whose calls are one step**, with the same events. -/
theorem run_takes {s s' : QueueMonitor α} (h : Steps Step s es s') :
    Steps ThreadSafeQueue.Takes s.queue es s'.queue := by
  induction h with
  | refl => exact .refl _
  | @tail t u es es' _ hstep ih =>
      rcases hstep.takes with ⟨rfl, heq⟩ | htakes
      · rw [List.append_nil, heq]
        exact ih
      · exact ih.tail htakes

end QueueMonitor

/-! ## What the events say -/

namespace QueueEvent

@[simp] def accepted? : QueueEvent α → Option α
  | .accepted value => some value
  | _ => none

@[simp] def delivered? : QueueEvent α → Option α
  | .delivered value => some value
  | _ => none

/-- The values pushed, in order. -/
def allAccepted (es : List (QueueEvent α)) : List α := es.filterMap accepted?

/-- The values popped, in order. -/
def allDelivered (es : List (QueueEvent α)) : List α := es.filterMap delivered?

@[simp] theorem allAccepted_concat (es : List (QueueEvent α)) (e : QueueEvent α) :
    allAccepted (es ++ [e]) = allAccepted es ++ e.accepted?.toList := by
  unfold allAccepted
  rw [List.filterMap_append]
  cases e <;> rfl

@[simp] theorem allDelivered_concat (es : List (QueueEvent α)) (e : QueueEvent α) :
    allDelivered (es ++ [e]) = allDelivered es ++ e.delivered?.toList := by
  unfold allDelivered
  rw [List.filterMap_append]
  cases e <;> rfl

/-- Whether an event may come after these. -/
def Justified (capacity : Nat) (before : List (QueueEvent α)) : QueueEvent α → Prop
  | .accepted _ => shutdown ∉ before ∧
      (capacity = 0 ∨ (allAccepted before).length < (allDelivered before).length + capacity)
  | .refused _ => shutdown ∈ before
  | .full _ => shutdown ∉ before ∧ 0 < capacity ∧
      (allAccepted before).length = (allDelivered before).length + capacity
  | .delivered value => ∃ rest, allAccepted before = allDelivered before ++ value :: rest
  | .missed => allAccepted before = allDelivered before
  | .ended => shutdown ∈ before ∧ allAccepted before = allDelivered before
  | .shutdown => True

end QueueEvent

open QueueEvent

/-- The queue against all events so far. -/
structure QueueHistory (capacity : Nat) (q : ThreadSafeQueue α) (log : List (QueueEvent α)) :
    Prop where
  sized : q.capacity = capacity
  fifo : allAccepted log = allDelivered log ++ q.queue
  bound : 0 < capacity → q.queue.length ≤ capacity
  closed : q.shutdown = true ↔ QueueEvent.shutdown ∈ log

namespace QueueHistory

variable {capacity : Nat} {q q' : ThreadSafeQueue α} {log : List (QueueEvent α)}
  {e : QueueEvent α}

theorem isOpen (h : QueueHistory capacity q log) (hopen : q.shutdown = false) :
    QueueEvent.shutdown ∉ log := by
  rw [← h.closed, hopen]
  exact Bool.false_ne_true

theorem length (h : QueueHistory capacity q log) :
    (allAccepted log).length = (allDelivered log).length + q.queue.length := by
  rw [h.fifo, List.length_append]

/-- One call, and why it could end as it did. -/
theorem takes (h : QueueHistory capacity q log) (htakes : ThreadSafeQueue.Takes q [e] q') :
    QueueHistory capacity q' (log ++ [e]) ∧ e.Justified capacity log := by
  have hlength := h.length
  cases htakes with
  | @accepted q' value hpush =>
      obtain ⟨hopen, hroom, rfl⟩ := ThreadSafeQueue.tryPush_eq_true.mp hpush
      have hroom : capacity = 0 ∨ q.queue.length < capacity := by
        simpa [ThreadSafeQueue.hasRoom, h.sized] using hroom
      refine ⟨⟨h.sized, ?_, ?_, ?_⟩, h.isOpen hopen, ?_⟩
      · simp [h.fifo]
      · intro hpos
        have := h.bound hpos
        rw [List.length_append, List.length_singleton]
        omega
      · simp [h.closed]
      · omega
  | refused value hshut =>
      refine ⟨⟨h.sized, ?_, h.bound, ?_⟩, h.closed.mp hshut⟩
      · simpa using h.fifo
      · simp [h.closed]
  | full value hopen hroom =>
      have hroom : capacity ≠ 0 ∧ capacity ≤ q.queue.length := by
        simpa [ThreadSafeQueue.hasRoom, h.sized] using hroom
      have hbound := h.bound (Nat.pos_of_ne_zero hroom.1)
      refine ⟨⟨h.sized, ?_, h.bound, ?_⟩, h.isOpen hopen, by omega, by omega⟩
      · simpa using h.fifo
      · simp [h.closed]
  | @delivered q' value hpop =>
      obtain ⟨rest, hqueue, rfl⟩ := ThreadSafeQueue.pop_eq_some.mp hpop
      have hfifo := h.fifo
      rw [hqueue] at hfifo
      refine ⟨⟨h.sized, ?_, ?_, ?_⟩, rest, hfifo⟩
      · calc allAccepted (log ++ [.delivered value])
            = allAccepted log := by simp
          _ = (allDelivered log ++ [value]) ++ rest := by rw [hfifo, List.append_assoc]; rfl
          _ = allDelivered (log ++ [.delivered value]) ++ rest := by simp
      · intro hpos
        have := h.bound hpos
        rw [hqueue, List.length_cons] at this
        show rest.length ≤ capacity
        omega
      · simp [h.closed]
  | missed hempty =>
      have hfifo := h.fifo
      rw [hempty, List.append_nil] at hfifo
      refine ⟨⟨h.sized, ?_, h.bound, ?_⟩, hfifo⟩
      · simpa using h.fifo
      · simp [h.closed]
  | ended hpop =>
      obtain ⟨hempty, hshut, rfl⟩ := ThreadSafeQueue.pop_eq_none.mp hpop
      have hfifo := h.fifo
      rw [hempty, List.append_nil] at hfifo
      refine ⟨⟨h.sized, ?_, h.bound, ?_⟩, h.closed.mp hshut, hfifo⟩
      · simpa using h.fifo
      · simp [h.closed]
  | shutdown =>
      refine ⟨⟨h.sized, ?_, h.bound, ?_⟩, trivial⟩
      · simpa [ThreadSafeQueue.close] using h.fifo
      · simp [ThreadSafeQueue.close]

theorem init (capacity : Nat) : QueueHistory (α := α) capacity { capacity := capacity } [] where
  sized := rfl
  fifo := rfl
  bound := fun _ => Nat.zero_le _
  closed := by simp

end QueueHistory

theorem ThreadSafeQueue.Takes.single {q q' : ThreadSafeQueue α} {es : List (QueueEvent α)}
    (h : q.Takes es q') : ∃ e, es = [e] := by
  cases h <;> exact ⟨_, rfl⟩

namespace QueueMonitor

/-- The queue of a run against its events, each of which could come when it came. -/
theorem run_history {capacity threads : Nat} {es : List (QueueEvent α)} {s : QueueMonitor α}
    (h : Run capacity threads es s) :
    QueueHistory capacity s.queue es ∧
      ∀ before e after, es = before ++ e :: after → e.Justified capacity before := by
  refine Steps.justified (fun q log new q' hhist htakes => ?_) (run_takes h) (.init capacity)
  obtain ⟨e, rfl⟩ := htakes.single
  obtain ⟨hhist', he⟩ := hhist.takes htakes
  exact ⟨hhist', .inr ⟨e, rfl, he⟩⟩

/-- **The queue is a bounded first-in first-out queue to all its threads.** What was pushed is what
was popped and what is still queued, in one order. A push that takes effect finds the queue open and
room in it; one that is refused finds it closed; one that gives up finds it full; an empty optional
from `pop` finds it closed and everything popped. -/
theorem linearizable {capacity threads : Nat} {es : List (QueueEvent α)} {s : QueueMonitor α}
    (h : Run capacity threads es s) :
    allAccepted es = allDelivered es ++ s.queue.queue ∧
      (0 < capacity → s.queue.queue.length ≤ capacity) ∧
      ∀ before e after, es = before ++ e :: after → e.Justified capacity before := by
  obtain ⟨hhist, hjust⟩ := run_history h
  exact ⟨hhist.fifo, hhist.bound, hjust⟩

/-- A consumer waits at the empty queue. -/
theorem run_waiting : Run (α := Nat) 1 1 [] ⟨{ capacity := 1 }, [.popAsleep]⟩ := by
  have hcall : Step (α := Nat) (init 1 1) [] ⟨{ capacity := 1 }, [.pop]⟩ := .call _ [] [] .pop
  have hwait : Step (α := Nat) ⟨{ capacity := 1 }, [.pop]⟩ [] ⟨{ capacity := 1 }, [.popAsleep]⟩ :=
    .advance (.locked [] [] rfl)
  exact (Steps.single hcall).tail hwait

/-- It gets what another thread pushes. -/
theorem run_handover : Run (α := Nat) 1 1 [.accepted 7, .delivered 7]
    ⟨{ capacity := 1 }, [.popped]⟩ := by
  have hpush : Step (α := Nat) ⟨{ capacity := 1 }, [.popAsleep]⟩ [.accepted 7]
      ⟨{ capacity := 1, queue := [7] }, [.pop]⟩ := .tryPush rfl (.wake [] [] rfl)
  have hpop : Step (α := Nat) ⟨{ capacity := 1, queue := [7] }, [.pop]⟩ [.delivered 7]
      ⟨{ capacity := 1 }, [.popped]⟩ := .advance (.locked [] [] rfl)
  exact (run_waiting.tail hpush).tail hpop

theorem linearizable_handover : allAccepted [QueueEvent.accepted 7, .delivered 7] = [7] :=
  (linearizable run_handover).1

end QueueMonitor

end EdgeGateway
