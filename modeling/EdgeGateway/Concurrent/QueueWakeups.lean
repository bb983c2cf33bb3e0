import EdgeGateway.Concurrent.QueueMonitor

set_option autoImplicit false

/-! # No wake-up of the queue is lost

`notify_one` is called behind the mutex and wakes one thread. Nobody waits in vain all the same: while
a consumer waits there are as many threads on their way to take an element, or to wake somebody for
it, as there are elements; and likewise for producers and free places. Once the queue is closed nobody
waits at all and every call comes to its end.
-/

namespace EdgeGateway

variable {α : Type}

namespace QueueMonitor

/-- Producers wait only for a bounded queue, and nobody for a closed one. -/
structure Awake (q : ThreadSafeQueue α) (calls : List (QueueCall α)) : Prop where
  readers : notEmpty.Signalled q.queue.length calls
  writers : notFull.Signalled (q.capacity - q.queue.length) calls
  bounded : q.capacity = 0 → notFull.asleep calls = 0
  closed : q.shutdown = true → notEmpty.asleep calls = 0 ∧ notFull.asleep calls = 0

variable {q q' : ThreadSafeQueue α} {before after calls calls' : List (QueueCall α)}
  {c c' : QueueCall α} {es : List (QueueEvent α)} {s s' : QueueMonitor α}

theorem init_awake (capacity threads : Nat) :
    Awake (α := α) { capacity := capacity } (List.replicate threads .idle) := by
  have hempty : notEmpty.asleep (List.replicate threads (QueueCall.idle (α := α))) = 0 :=
    notEmpty.asleep_eq_zero.mpr fun c hc => by rw [List.eq_of_mem_replicate hc]; rfl
  have hfull : notFull.asleep (List.replicate threads (QueueCall.idle (α := α))) = 0 :=
    notFull.asleep_eq_zero.mpr fun c hc => by rw [List.eq_of_mem_replicate hc]; rfl
  exact ⟨.inl hempty, .inl hfull, fun _ => hfull, fun h => by cases h⟩

/-! ## Steps of one thread -/

/-- The weights of a thread that does not wait. -/
structure Costs (c : QueueCall α) (empty full : Nat) : Prop where
  emptyAwake : notEmpty.isAsleep c = 0
  fullAwake : notFull.isAsleep c = 0
  empty : notEmpty.credit c = empty
  full : notFull.credit c = full

theorem costs_idle : Costs (α := α) .idle 0 0 := ⟨rfl, rfl, rfl, rfl⟩

theorem costs_pushed : Costs (α := α) .pushed 1 0 := ⟨rfl, rfl, rfl, rfl⟩

theorem costs_pop : Costs (α := α) .pop 1 0 := ⟨rfl, rfl, rfl, rfl⟩

theorem costs_popped : Costs (α := α) .popped 0 1 := ⟨rfl, rfl, rfl, rfl⟩

theorem costs_pushLate (value : α) : Costs (.pushLate value) 0 1 := ⟨rfl, rfl, rfl, rfl⟩

theorem costs_push (value : α) (timed : Bool) : Costs (.push value timed) 0 1 :=
  ⟨rfl, rfl, rfl, rfl⟩

theorem Pushes.costs {value : α} (h : Pushes value c) : Costs c 0 1 := by
  rcases h with ⟨timed, rfl⟩ | rfl
  · exact costs_push value timed
  · exact costs_pushLate value

/-- A thread that does not wait becomes one that does not wait either. What it takes of the elements
and of the free places its credit paid for. -/
theorem Awake.move {e f e' f' : Nat} (h : Awake q (before ++ c :: after)) (hc : Costs c e f)
    (hc' : Costs c' e' f') (hcapacity : q'.capacity = q.capacity) (hshut : q'.shutdown = q.shutdown)
    (hread : q'.queue.length + e ≤ q.queue.length + e')
    (hwrite : 0 < q.capacity → q.capacity - q'.queue.length + f ≤ q.capacity - q.queue.length + f') :
    Awake q' (before ++ c' :: after) := by
  have hempty : notEmpty.asleep (before ++ c' :: after) = notEmpty.asleep (before ++ c :: after) := by
    rw [CondVar.asleep_at, CondVar.asleep_at, hc.emptyAwake, hc'.emptyAwake]
  have hfull : notFull.asleep (before ++ c' :: after) = notFull.asleep (before ++ c :: after) := by
    rw [CondVar.asleep_at, CondVar.asleep_at, hc.fullAwake, hc'.fullAwake]
  constructor
  · apply h.readers.move
    · rw [hc.emptyAwake, hc'.emptyAwake]
    · rw [hc.empty, hc'.empty]
      exact hread
  · rcases Nat.eq_zero_or_pos q.capacity with hzero | hpos
    · exact .inl (hfull.trans (h.bounded hzero))
    · apply h.writers.move
      · rw [hc.fullAwake, hc'.fullAwake]
      · rw [hc.full, hc'.full, hcapacity]
        exact hwrite hpos
  · rw [hcapacity, hfull]
    exact h.bounded
  · rw [hshut, hempty, hfull]
    exact h.closed

/-- A thread stops waiting by itself. -/
theorem Awake.leave (h : Awake q (before ++ c :: after))
    (hempty : notEmpty.isAsleep c' ≤ notEmpty.isAsleep c)
    (hfull : notFull.isAsleep c' ≤ notFull.isAsleep c)
    (hcredit : notEmpty.credit c ≤ notEmpty.credit c')
    (hcredit' : notFull.credit c ≤ notFull.credit c') : Awake q (before ++ c' :: after) := by
  have hless : notEmpty.asleep (before ++ c' :: after) ≤ notEmpty.asleep (before ++ c :: after) := by
    rw [CondVar.asleep_at, CondVar.asleep_at]
    omega
  have hless' : notFull.asleep (before ++ c' :: after) ≤ notFull.asleep (before ++ c :: after) := by
    rw [CondVar.asleep_at, CondVar.asleep_at]
    omega
  constructor
  · exact h.readers.move hempty (by omega)
  · exact h.writers.move hfull (by omega)
  · intro hzero
    have := h.bounded hzero
    omega
  · intro hshut
    have := h.closed hshut
    omega

/-- In a closed queue credits do not matter any more. -/
theorem Awake.finish (h : Awake q (before ++ c :: after)) (hshut : q.shutdown = true)
    (hempty : notEmpty.isAsleep c' = 0) (hfull : notFull.isAsleep c' = 0) :
    Awake q (before ++ c' :: after) := by
  have hclosed := h.closed hshut
  rw [CondVar.asleep_at, CondVar.asleep_at] at hclosed
  have hzero : notEmpty.asleep (before ++ c' :: after) = 0 := by
    rw [CondVar.asleep_at]
    omega
  have hzero' : notFull.asleep (before ++ c' :: after) = 0 := by
    rw [CondVar.asleep_at]
    omega
  exact ⟨.inl hzero, .inl hzero', fun _ => hzero', fun _ => ⟨hzero, hzero'⟩⟩

/-! ## Critical sections -/

theorem Awake.outcome (h : Awake q (before ++ c :: after)) (ho : Outcome q c c' q' es) :
    Awake q' (before ++ c' :: after) := by
  cases ho with
  | waitsFull value timed hopen hroom =>
      -- a producer waits when there is no free place
      have hfull : q.capacity ≠ 0 ∧ q.capacity ≤ q.queue.length := by
        simpa [ThreadSafeQueue.hasRoom] using hroom
      constructor
      · exact h.readers.move (Nat.le_refl _) (Nat.le_refl _)
      · exact .empty (by omega)
      · exact fun hzero => absurd hzero hfull.1
      · exact fun hshut => by rw [hopen] at hshut; cases hshut
  | waitsEmpty hopen hempty =>
      constructor
      · exact .empty (by rw [hempty]; rfl)
      · exact h.writers.move (Nat.le_refl _) (Nat.le_refl _)
      · intro hzero
        have := h.bounded hzero
        rw [CondVar.asleep_at] at this ⊢
        exact this
      · exact fun hshut => by rw [hopen] at hshut; cases hshut
  | accepted hc hpush =>
      obtain ⟨-, hroom, rfl⟩ := ThreadSafeQueue.tryPush_eq_true.mp hpush
      have hroom : q.capacity = 0 ∨ q.queue.length < q.capacity := by
        simpa [ThreadSafeQueue.hasRoom] using hroom
      refine h.move hc.costs costs_pushed rfl rfl ?_ ?_
      · simp
      · intro hpos
        show q.capacity - (q.queue ++ [_]).length + 1 ≤ q.capacity - q.queue.length + 0
        rw [List.length_append, List.length_singleton]
        omega
  | refused hc hshut => exact h.finish hshut rfl rfl
  | full value hopen hroom =>
      have hfull : q.capacity ≠ 0 ∧ q.capacity ≤ q.queue.length := by
        simpa [ThreadSafeQueue.hasRoom] using hroom
      constructor
      · exact h.readers.move (Nat.le_refl _) (Nat.le_refl _)
      · exact .empty (by omega)
      · exact fun hzero => absurd hzero hfull.1
      · exact fun hshut => by rw [hopen] at hshut; cases hshut
  | delivered hpop =>
      obtain ⟨rest, hqueue, rfl⟩ := ThreadSafeQueue.pop_eq_some.mp hpop
      refine h.move costs_pop costs_popped rfl rfl ?_ ?_
      · rw [hqueue]
        simp
      · intro _
        rw [hqueue, List.length_cons]
        show q.capacity - rest.length + 0 ≤ q.capacity - (rest.length + 1) + 1
        omega
  | ended hpop =>
      obtain ⟨-, hshut, rfl⟩ := ThreadSafeQueue.pop_eq_none.mp hpop
      exact h.finish hshut rfl rfl

/-! ## Notifications -/

/-- A thread that has pushed notifies a consumer. -/
theorem Awake.pushed (h : Awake q (before ++ .pushed :: after))
    (hone : notEmpty.NotifyOne (before ++ .idle :: after) calls) : Awake q calls := by
  have hidle : notFull.asleep (before ++ .idle :: after) =
      notFull.asleep (before ++ .pushed :: after) := by
    rw [CondVar.asleep_at, CondVar.asleep_at]
    rfl
  have hless : notEmpty.asleep calls ≤ notEmpty.asleep (before ++ .pushed :: after) := by
    have hsame : notEmpty.asleep (before ++ .idle :: after) =
        notEmpty.asleep (before ++ .pushed :: after) := by
      rw [CondVar.asleep_at, CondVar.asleep_at]
      rfl
    rcases hone.counts with ⟨-, rfl⟩ | ⟨hcount, -⟩ <;> omega
  obtain ⟨hasleep, hcredit⟩ := notEmpty_apart.notifyOne hone
  have hwriters : notFull.Signalled (q.capacity - q.queue.length) (before ++ .idle :: after) :=
    h.writers.move (Nat.le_refl _) (Nat.le_refl _)
  constructor
  · exact h.readers.pass rfl (Nat.le_refl _) hone
  · exact hwriters.apart notEmpty_apart hone
  · intro hzero
    rw [hasleep, hidle]
    exact h.bounded hzero
  · intro hshut
    have := h.closed hshut
    omega

/-- A thread that has popped notifies a producer. -/
theorem Awake.popped (h : Awake q (before ++ .popped :: after))
    (hone : notFull.NotifyOne (before ++ .idle :: after) calls) : Awake q calls := by
  have hidle : notEmpty.asleep (before ++ .idle :: after) =
      notEmpty.asleep (before ++ .popped :: after) := by
    rw [CondVar.asleep_at, CondVar.asleep_at]
    rfl
  have hless : notFull.asleep calls ≤ notFull.asleep (before ++ .popped :: after) := by
    have hsame : notFull.asleep (before ++ .idle :: after) =
        notFull.asleep (before ++ .popped :: after) := by
      rw [CondVar.asleep_at, CondVar.asleep_at]
      rfl
    rcases hone.counts with ⟨-, rfl⟩ | ⟨hcount, -⟩ <;> omega
  obtain ⟨hasleep, hcredit⟩ := notFull_apart.notifyOne hone
  have hreaders : notEmpty.Signalled q.queue.length (before ++ .idle :: after) :=
    h.readers.move (Nat.le_refl _) (Nat.le_refl _)
  constructor
  · exact hreaders.apart notFull_apart hone
  · exact h.writers.pass rfl (Nat.le_refl _) hone
  · intro hzero
    have := h.bounded hzero
    omega
  · intro hshut
    have := h.closed hshut
    omega

theorem Awake.tryPush {value : α} (h : Awake q calls) (hpush : q.tryPush value = (true, q'))
    (hone : notEmpty.NotifyOne calls calls') : Awake q' calls' := by
  obtain ⟨hopen, -, rfl⟩ := ThreadSafeQueue.tryPush_eq_true.mp hpush
  obtain ⟨hasleep, hcredit⟩ := notEmpty_apart.notifyOne hone
  constructor
  · exact h.readers.notifyOne hone (by simp)
  · have hwriters := h.writers.apart notEmpty_apart hone
    unfold CondVar.Signalled at hwriters ⊢
    simp only [List.length_append, List.length_singleton]
    omega
  · intro hzero
    rw [hasleep]
    exact h.bounded hzero
  · intro hshut
    rw [show q.shutdown = true from hshut] at hopen
    cases hopen

theorem Awake.tryPop {value : α} (h : Awake q calls) (hpop : q.pop = some (some value, q'))
    (hone : notFull.NotifyOne calls calls') : Awake q' calls' := by
  obtain ⟨rest, hqueue, rfl⟩ := ThreadSafeQueue.pop_eq_some.mp hpop
  obtain ⟨hasleep, hcredit⟩ := notFull_apart.notifyOne hone
  have hless : notFull.asleep calls' ≤ notFull.asleep calls := by
    rcases hone.counts with ⟨-, rfl⟩ | ⟨hcount, -⟩ <;> omega
  constructor
  · have hreaders := h.readers.apart notFull_apart hone
    rw [hqueue, List.length_cons] at hreaders
    unfold CondVar.Signalled at hreaders ⊢
    show notEmpty.asleep calls' = 0 ∨ rest.length ≤ _
    omega
  · apply h.writers.notifyOne hone
    rw [hqueue, List.length_cons]
    show q.capacity - rest.length ≤ q.capacity - (rest.length + 1) + 1
    omega
  · intro hzero
    have := h.bounded hzero
    omega
  · intro hshut
    have := h.closed hshut
    omega

/-! ## Runs -/

theorem Awake.advance (h : Awake s.queue s.calls) (hstep : Advance s es s') :
    Awake s'.queue s'.calls := by
  cases hstep with
  | locked before after hlocked => exact h.outcome (locked_outcome hlocked)
  | pushed q before after hone => exact h.pushed hone
  | popped q before after hone => exact h.popped hone
  | @spurious q before after c c' hwake =>
      rcases hwake with hwake | hwake
      · cases c <;> cases hwake
        exact h.leave (Nat.zero_le _) (Nat.le_refl _) (Nat.zero_le _) (Nat.le_refl _)
      · cases c <;> cases hwake
        exact h.leave (Nat.le_refl _) (Nat.zero_le _) (Nat.le_refl _) (Nat.zero_le _)
  | timeout q before after value =>
      exact h.leave (Nat.le_refl _) (Nat.zero_le _) (Nat.le_refl _) (Nat.zero_le _)

theorem Awake.step (h : Awake s.queue s.calls) (hstep : Step s es s') :
    Awake s'.queue s'.calls := by
  cases hstep with
  | call q before after hbegin =>
      cases hbegin with
      | push value timed =>
          exact h.leave (Nat.le_refl _) (Nat.le_refl _) (Nat.le_refl _) (Nat.zero_le _)
      | pop => exact h.leave (Nat.le_refl _) (Nat.le_refl _) (Nat.zero_le _) (Nat.le_refl _)
  | advance hadvance => exact h.advance hadvance
  | tryPush hpush hone => exact h.tryPush hpush hone
  | tryPushFails calls hfails => exact h
  | tryPop hpop hone => exact h.tryPop (ThreadSafeQueue.tryPop_eq_some hpop) hone
  | tryPopFails calls hpop =>
      obtain ⟨-, rfl⟩ := ThreadSafeQueue.tryPop_eq_none hpop
      exact h
  | shutdown q calls =>
      have hfull := notFull.asleep_notifyAll (notEmpty.notifyAll calls)
      have hempty : notEmpty.asleep (notFull.notifyAll (notEmpty.notifyAll calls)) = 0 := by
        rw [notFull_apart.notifyAll, CondVar.asleep_notifyAll]
      exact ⟨.inl hempty, .inl hfull, fun _ => hfull, fun _ => ⟨hempty, hfull⟩⟩

theorem run_awake {capacity threads : Nat} (h : Run capacity threads es s) :
    Awake s.queue s.calls :=
  Steps.preserves (I := fun s => Awake s.queue s.calls) (fun _ _ _ h hstep => h.step hstep) h
    (init_awake capacity threads)

/-- A thread that is in no call, or waits in one. -/
def Rests (c : QueueCall α) : Prop :=
  c = .idle ∨ (notEmpty.wake c).isSome ∨ (notFull.wake c).isSome

theorem Rests.credits (h : Rests c) : notEmpty.credit c = 0 ∧ notFull.credit c = 0 := by
  rcases h with rfl | hwake | hwake
  · exact ⟨rfl, rfl⟩
  · cases c <;> first | exact ⟨rfl, rfl⟩ | cases hwake
  · cases c <;> first | exact ⟨rfl, rfl⟩ | cases hwake

/-- **No wake-up is lost.** At any time, if a consumer waits, each element in the queue has a thread
that is about to take one or to wake somebody; if a producer waits, each free place has. So where no
thread can go on, a waiting consumer finds the queue open and empty, and a waiting producer finds it
open and full. -/
theorem no_lost_wakeup {capacity threads : Nat} (h : Run capacity threads es s) :
    (0 < notEmpty.asleep s.calls → s.queue.queue.length ≤ notEmpty.credits s.calls) ∧
      (0 < notFull.asleep s.calls →
        s.queue.capacity - s.queue.queue.length ≤ notFull.credits s.calls) ∧
      ((∀ c ∈ s.calls, Rests c) →
        (.popAsleep ∈ s.calls → s.queue.shutdown = false ∧ s.queue.queue = []) ∧
        ∀ value timed, .pushAsleep value timed ∈ s.calls →
          s.queue.shutdown = false ∧ s.queue.hasRoom = false) := by
  have hawake := run_awake h
  have hopen : ∀ c ∈ s.calls, (notEmpty.wake c).isSome ∨ (notFull.wake c).isSome →
      s.queue.shutdown = false := by
    intro c hc hwake
    by_contra hshut
    obtain ⟨hempty, hfull⟩ := hawake.closed (by simpa using hshut)
    rcases hwake with hwake | hwake
    · rw [notEmpty.asleep_eq_zero.mp hempty c hc] at hwake
      cases hwake
    · rw [notFull.asleep_eq_zero.mp hfull c hc] at hwake
      cases hwake
  refine ⟨fun hpos => ?_, fun hpos => ?_, fun hrest => ⟨fun hmem => ⟨?_, ?_⟩, ?_⟩⟩
  · exact hawake.readers.resolve_left (by omega)
  · exact hawake.writers.resolve_left (by omega)
  · exact hopen _ hmem (.inl rfl)
  · apply List.eq_nil_of_length_eq_zero
    exact hawake.readers.settled (fun c hc => (hrest c hc).credits.1) hmem rfl
  · intro value timed hmem
    refine ⟨hopen _ hmem (.inr rfl), ?_⟩
    have hroom := hawake.writers.settled (fun c hc => (hrest c hc).credits.2) hmem rfl
    have hbounded : s.queue.capacity ≠ 0 := by
      intro hzero
      have hasleep := notFull.asleep_eq_zero.mp (hawake.bounded hzero) _ hmem
      cases hasleep
    unfold ThreadSafeQueue.hasRoom
    apply decide_eq_false
    omega

theorem no_lost_wakeup_waiting :
    ({ capacity := 1 } : ThreadSafeQueue Nat).shutdown = false ∧
      ({ capacity := 1 } : ThreadSafeQueue Nat).queue = [] :=
  ((no_lost_wakeup run_waiting).2.2 fun c hc => by
    rw [List.mem_singleton.mp hc]
    exact .inr (.inl rfl)).1 (List.mem_singleton.mpr rfl)

/-! ## After the shutdown -/

/-- What all calls under way have still to do. -/
def work (calls : List (QueueCall α)) : Nat := (calls.map QueueCall.work).sum

theorem work_at (before after : List (QueueCall α)) (c : QueueCall α) :
    work (before ++ c :: after) = work before + (c.work + work after) := by
  simp [work]

/-- No critical section of a closed queue ends in waiting. -/
theorem Outcome.work_lt (h : Outcome q c c' q' es) (hshut : q.shutdown = true) :
    c'.work < c.work := by
  have hpushes : ∀ {value : α}, Pushes value c → c.work = 2 := by
    rintro value (⟨timed, rfl⟩ | rfl) <;> rfl
  cases h with
  | waitsFull value timed hopen hroom => rw [hopen] at hshut; cases hshut
  | waitsEmpty hopen hempty => rw [hopen] at hshut; cases hshut
  | accepted hc hpush =>
      rw [hpushes hc]
      exact Nat.lt_succ_self 1
  | refused hc hshut =>
      rw [hpushes hc]
      exact Nat.succ_pos 1
  | full value hopen hroom => exact Nat.succ_pos 1
  | delivered hpop => exact Nat.lt_succ_self 1
  | ended hpop => exact Nat.succ_pos 1

/-- Where nobody waits a notification changes nothing. -/
theorem notified_idle {v : CondVar (QueueCall α)} (hone : v.NotifyOne (before ++ c' :: after) calls)
    (hasleep : v.isAsleep c' = v.isAsleep c) (hzero : v.asleep (before ++ c :: after) = 0) :
    calls = before ++ c' :: after := by
  rw [CondVar.asleep_at] at hzero
  rcases hone.counts with ⟨-, heq⟩ | ⟨hcount, -⟩
  · exact heq
  · rw [CondVar.asleep_at] at hcount
    omega

theorem work_lt_idle (hwork : c.work = 1) :
    work (before ++ .idle :: after) < work (before ++ c :: after) := by
  rw [work_at, work_at, hwork]
  show _ + (0 + _) < _
  omega

/-- A thread that does not wait can go on with its call. -/
theorem exists_advance (hc : c ∈ s.calls) (hbusy : c ≠ .idle) (hempty : notEmpty.wake c = none)
    (hfull : notFull.wake c = none) : ∃ new t, Advance s new t := by
  obtain ⟨q, calls⟩ := s
  obtain ⟨before, after, rfl⟩ := List.append_of_mem hc
  have hlocked : c.work = 2 → ∃ new t, Advance ⟨q, before ++ c :: after⟩ new t := by
    intro hwork
    obtain ⟨⟨c', q', es⟩, hsome⟩ := Option.isSome_iff_exists.mp (locked_isSome (q := q) hwork)
    exact ⟨es, _, .locked before after hsome⟩
  cases c with
  | idle => exact absurd rfl hbusy
  | push value timed => exact hlocked rfl
  | pushAsleep value timed => cases hfull
  | pushLate value => exact hlocked rfl
  | pushed =>
      obtain ⟨calls, hone⟩ := notEmpty.notifyOne_exists (before ++ .idle :: after)
      exact ⟨[], _, .pushed q before after hone⟩
  | pop => exact hlocked rfl
  | popAsleep => cases hempty
  | popped =>
      obtain ⟨calls, hone⟩ := notFull.notifyOne_exists (before ++ .idle :: after)
      exact ⟨[], _, .popped q before after hone⟩

/-- **After the shutdown every call ends.** Whichever thread goes on, the work that is left becomes
less; and while a thread is in a call, one can go on. -/
theorem closed_calls_end {capacity threads : Nat} (h : Run capacity threads es s)
    (hshut : .shutdown ∈ es) :
    (∀ new t, Advance s new t → work t.calls < work s.calls) ∧
      ((∀ new t, ¬ Advance s new t) → ∀ c ∈ s.calls, c = .idle) := by
  obtain ⟨hhist, -⟩ := run_history h
  have hclosed : s.queue.shutdown = true := hhist.closed.mpr hshut
  obtain ⟨hempty, hfull⟩ := (run_awake h).closed hclosed
  refine ⟨fun new t hstep => ?_, fun hstuck c hc => ?_⟩
  · cases hstep with
    | locked before after hlocked =>
        have hless := (locked_outcome hlocked).work_lt hclosed
        rw [work_at, work_at]
        omega
    | pushed q before after hone =>
        rw [notified_idle (c := .pushed) hone rfl hempty]
        exact work_lt_idle rfl
    | popped q before after hone =>
        rw [notified_idle (c := .popped) hone rfl hfull]
        exact work_lt_idle rfl
    | @spurious q before after c c' hwake =>
        have hmem : c ∈ before ++ c :: after := by simp
        rcases hwake with hwake | hwake
        · rw [notEmpty.asleep_eq_zero.mp hempty c hmem] at hwake
          cases hwake
        · rw [notFull.asleep_eq_zero.mp hfull c hmem] at hwake
          cases hwake
    | timeout q before after value =>
        have hmem := notFull.asleep_eq_zero.mp hfull (.pushAsleep value true) (by simp)
        cases hmem
  · by_contra hbusy
    obtain ⟨new, t, hstep⟩ := exists_advance (s := s) hc hbusy
      (notEmpty.asleep_eq_zero.mp hempty c hc) (notFull.asleep_eq_zero.mp hfull c hc)
    exact hstuck new t hstep

/-- The consumer that waits is woken and returns. -/
theorem closed_calls_end_waiting :
    work [QueueCall.idle (α := Nat)] < work [QueueCall.pop (α := Nat)] := by
  have hclose : Run (α := Nat) 1 1 [.shutdown] ⟨{ capacity := 1, shutdown := true }, [.pop]⟩ :=
    run_waiting.tail (.shutdown _ _)
  exact (closed_calls_end hclose (List.mem_singleton.mpr rfl)).1 _ _ (.locked [] [] rfl)

end QueueMonitor

end EdgeGateway
