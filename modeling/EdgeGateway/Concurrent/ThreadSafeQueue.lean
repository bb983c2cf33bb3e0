import Mathlib.Data.List.Basic

set_option autoImplicit false

/-! # The bounded queue between threads

`ThreadSafeQueue`: every call holds the one mutex, so a call is one step. A call that waits is
modelled at the moment its wait ends. Nothing is pushed after the shutdown; what is queued can
still be popped.
-/

namespace EdgeGateway

/-- Capacity 0 means that there is no bound. -/
structure ThreadSafeQueue (α : Type) where
  capacity : Nat := 0
  queue : List α := []
  shutdown : Bool := false

namespace ThreadSafeQueue

variable {α : Type}

def hasRoom (q : ThreadSafeQueue α) : Bool := q.capacity = 0 ∨ q.queue.length < q.capacity

def tryPush (value : α) (q : ThreadSafeQueue α) : Bool × ThreadSafeQueue α :=
  if q.shutdown then (false, q)
  else if q.capacity ≠ 0 ∧ q.queue.length ≥ q.capacity then (false, q)
  else (true, { q with queue := q.queue ++ [value] })

/-- The wait ends with room, with the shutdown or with the time. -/
def pushFor (value : α) (q : ThreadSafeQueue α) : Bool × ThreadSafeQueue α :=
  let ready := q.hasRoom || q.shutdown
  if ready = false ∨ q.shutdown then (false, q)
  else (true, { q with queue := q.queue ++ [value] })

/-- `none` while the call waits; an empty optional when the queue is closed and empty. -/
def pop (q : ThreadSafeQueue α) : Option (Option α × ThreadSafeQueue α) :=
  match q.queue with
  | value :: rest => some (some value, { q with queue := rest })
  | [] => if q.shutdown then some (none, q) else none

def tryPop (q : ThreadSafeQueue α) : Option α × ThreadSafeQueue α :=
  match q.queue with
  | value :: rest => (some value, { q with queue := rest })
  | [] => (none, q)

def close (q : ThreadSafeQueue α) : ThreadSafeQueue α := { q with shutdown := true }

/-- Both ways of pushing do the same when they do not wait. -/
theorem pushFor_eq_tryPush (value : α) (q : ThreadSafeQueue α) :
    q.pushFor value = q.tryPush value := by
  unfold pushFor tryPush hasRoom
  by_cases hshut : q.shutdown = true
  · simp [hshut]
  · by_cases hroom : q.capacity = 0 ∨ q.queue.length < q.capacity
    · have hnot : ¬ (q.capacity ≠ 0 ∧ q.queue.length ≥ q.capacity) := by omega
      simp [hshut, hroom, hnot]
    · have hfull : q.capacity ≠ 0 ∧ q.queue.length ≥ q.capacity := by omega
      simp [hshut, hfull]

/-- A push that succeeds appends and needs an open queue; one that fails changes nothing. -/
theorem tryPush_cases (value : α) (q : ThreadSafeQueue α) :
    q.tryPush value = (false, q) ∨
      q.shutdown = false ∧ q.tryPush value = (true, { q with queue := q.queue ++ [value] }) := by
  unfold tryPush
  split_ifs with hshut hfull
  · exact .inl rfl
  · exact .inl rfl
  · exact .inr ⟨by simpa using hshut, rfl⟩

end ThreadSafeQueue

end EdgeGateway
