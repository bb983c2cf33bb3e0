import EdgeGateway.App.ManagementRequests
import EdgeGateway.Basic.LeadsTo

set_option autoImplicit false

/-! # The gateway stops

In an infinite run in which the management reactor, the management worker and the main thread get
their turns again and again, SIGTERM and SIGINT, an exception in the reactor and a failure of the
HTTP server all lead to the end of `~GatewayApp`. A rebuild and a publication are one turn of the
worker: that the calls they make return is taken for granted.
-/

namespace EdgeGateway

/-- `run` of the reactor after an exception, or after the loop. -/
def ManagementPoint.leaving : ManagementPoint → Bool
  | .threw | .quit | .failed | .requestStop true | .ended => true
  | _ => false

/-- A signal that ends the gateway. -/
def Terminates (signals : List Signal) : Prop := Signal.term ∈ signals ∨ Signal.int ∈ signals

instance (signals : List Signal) : Decidable (Terminates signals) :=
  inferInstanceAs (Decidable (_ ∨ _))

/-- On the way to `requestStop`. -/
def ManagementPoint.orders : ManagementPoint → Prop
  | .taken signals => Terminates signals
  | .requestStop _ | .threw | .quit | .failed => True
  | _ => False

/-- Turns until `requestStop` was called, at most; `rests` when no channel is left in the round. -/
def ManagementPoint.untilStop (rests : Bool) : ManagementPoint → Nat
  | .requestStop _ | .onStop | .ended => 0
  | .failed => 1
  | .quit => 2
  | .threw => 3
  | .taken signals => if Terminates signals then 4 else 12
  | .onSignals => 5
  | .loop => if rests then 7 else 6
  | .refused => 8
  | .post => 9
  | .exchange => 10
  | .requestReload => 11

/-- Turns of the worker until it looks at its mailbox again, at most. -/
def WorkerPoint.untilIdle : WorkerPoint → Nat
  | .exited => 0
  | .idle => 1
  | .task .ordinary | .task .terminal | .release => 2
  | .serial _ => 3
  | .mqtt _ => 4
  | .database _ => 5
  | .level _ => 6
  | .reading => 7
  | .task .reload => 8

namespace Management

/-- What every step keeps. -/
structure Shutdown (s : Management) : Prop where
  left : s.main ≠ .loop → s.stopping = true
  wake : s.wake = true → s.main ≠ .loop
  queued : .wake ∈ s.round ∨ s.point = .onStop → s.main ≠ .loop
  quits : s.running = false → s.main ≠ .loop ∨ s.point.leaving = true
  quiet : s.reactorStopping = true → s.main ≠ .loop ∨ s.point.leaving = true
  sent : s.shutdownSent = true → s.stopping = true ∨ s.point = .requestStop false
  ended : s.point = .ended → s.stopping = true
  woken : s.main = .joining → s.wake = true ∨ s.running = false ∨ s.point.leaving = true
  closed : s.main = .draining → s.worker.closed = true

variable {s s' : Management}

theorem shutdown_started (m : ConfigManager) (file : Option (List UInt8)) :
    Shutdown (started m file) := by
  constructor <;> simp [started]

/-! ## The invariant -/

theorem wake_of_ready {wakeFirst : Bool} (h : .wake ∈ s.ready wakeFirst) : s.wake = true := by
  unfold ready at h
  by_contra hwake
  rw [if_neg hwake] at h
  split_ifs at h <;> simp at h

/-- A post leaves the executor open or closed. -/
theorem closed_post {t : WorkerTask} {completion : Bool}
    {worker : TaskExecutor 1024 (kMaxCommands + 16) WorkerTask}
    (h : s.worker.post t completion = some worker) : worker.closed = s.worker.closed := by
  obtain ⟨-, -, rfl⟩ := TaskExecutor.post_eq_some h
  rfl

/-- What a step of the reactor may do. -/
structure Moves (s s' : Management) : Prop where
  main : s'.main = s.main
  stopping : s.stopping = true → s'.stopping = true
  closed : s'.worker.closed = s.worker.closed
  wake : s'.wake = true → s.wake = true
  woken : s.wake = true → s'.wake = true ∨ s'.running = false
  running : s.running = false → s'.running = false
  queued : .wake ∈ s'.round ∨ s'.point = .onStop →
    (.wake ∈ s.round ∨ s.point = .onStop) ∨ s.wake = true
  quits : s'.running = false →
    s.running = false ∨ s.point = .onStop ∨ s'.point.leaving = true
  quiet : s'.reactorStopping = true → s.reactorStopping = true ∨ s'.point.leaving = true
  leaving : s.point.leaving = true → s'.point.leaving = true
  sent : s'.shutdownSent = true → s'.point = .requestStop false ∨
    s.shutdownSent = true ∧ (s.point = .requestStop false → s'.stopping = true)
  ended : s'.point = .ended →
    s'.stopping = true ∨ s.running = false ∧ s.point.leaving = false

theorem Shutdown.moves (h : Shutdown s) (hmoves : Moves s s') : Shutdown s' where
  left := fun hmain => hmoves.stopping (h.left (hmoves.main ▸ hmain))
  wake := fun hwake => by rw [hmoves.main]; exact h.wake (hmoves.wake hwake)
  queued := fun hqueued => by
    rw [hmoves.main]
    rcases hmoves.queued hqueued with hbefore | hwake
    · exact h.queued hbefore
    · exact h.wake hwake
  quits := fun hquits => by
    rw [hmoves.main]
    rcases hmoves.quits hquits with hbefore | hstop | hleaving
    · exact (h.quits hbefore).imp_right hmoves.leaving
    · exact .inl (h.queued (.inr hstop))
    · exact .inr hleaving
  quiet := fun hquiet => by
    rw [hmoves.main]
    rcases hmoves.quiet hquiet with hbefore | hleaving
    · exact (h.quiet hbefore).imp_right hmoves.leaving
    · exact .inr hleaving
  sent := fun hsent => by
    rcases hmoves.sent hsent with hat | ⟨hbefore, hstops⟩
    · exact .inr hat
    · exact .inl ((h.sent hbefore).elim hmoves.stopping hstops)
  ended := fun hended => by
    rcases hmoves.ended hended with hstops | ⟨hquits, hstays⟩
    · exact hstops
    · -- the loop was left, and not by an exception
      refine hmoves.stopping (h.left ((h.quits hquits).resolve_right ?_))
      rw [hstays]
      exact Bool.false_ne_true
  woken := fun hmain => by
    rcases h.woken (hmoves.main ▸ hmain) with hwake | hrunning | hleaving
    · exact (hmoves.woken hwake).imp_right .inl
    · exact .inr (.inl (hmoves.running hrunning))
    · exact .inr (.inr (hmoves.leaving hleaving))
  closed := fun hmain => by rw [hmoves.closed]; exact h.closed (hmoves.main ▸ hmain)

/-- A step within a handler, and one that takes the next channel. -/
theorem moves_within (hmain : s'.main = s.main) (hstopping : s'.stopping = s.stopping)
    (hclosed : s'.worker.closed = s.worker.closed) (hwake : s'.wake = s.wake)
    (hrunning : s'.running = s.running) (hquiet : s'.reactorStopping = s.reactorStopping)
    (hsent : s'.shutdownSent = s.shutdownSent)
    (hqueued : .wake ∈ s'.round ∨ s'.point = .onStop →
      (.wake ∈ s.round ∨ s.point = .onStop) ∨ s.wake = true)
    (hother : s.point ≠ .requestStop false) (hstays : s.point.leaving = false)
    (hended : s'.point ≠ .ended) : Moves s s' where
  main := hmain
  stopping := hstopping.trans
  closed := hclosed
  wake := fun h => hwake ▸ h
  woken := fun h => .inl (hwake.trans h)
  running := hrunning.trans
  queued := hqueued
  quits := fun h => .inl (hrunning ▸ h)
  quiet := fun h => .inl (hquiet ▸ h)
  leaving := fun h => Bool.noConfusion (hstays.symm.trans h)
  sent := fun h => .inr ⟨hsent ▸ h, fun hat => absurd hat hother⟩
  ended := fun h => absurd h hended

/-- A step within a handler. -/
theorem moves_handler (hmain : s'.main = s.main) (hstopping : s'.stopping = s.stopping)
    (hclosed : s'.worker.closed = s.worker.closed) (hwake : s'.wake = s.wake)
    (hrunning : s'.running = s.running) (hquiet : s'.reactorStopping = s.reactorStopping)
    (hsent : s'.shutdownSent = s.shutdownSent) (hround : s'.round = s.round)
    (hstop : s'.point ≠ .onStop) (hother : s.point ≠ .requestStop false)
    (hstays : s.point.leaving = false) (hended : s'.point ≠ .ended) : Moves s s' := by
  refine moves_within hmain hstopping hclosed hwake hrunning hquiet hsent (fun hqueued => ?_)
    hother hstays hended
  rw [hround] at hqueued
  exact .inl (.inl (hqueued.resolve_right hstop))

theorem moves_loop (wakeFirst fault : Bool) (hat : s.point = .loop) :
    Moves s (s.loop wakeFirst fault) := by
  have hother : s.point ≠ .requestStop false := by rw [hat]; decide
  have hstays : s.point.leaving = false := by rw [hat]; rfl
  unfold loop
  cases hround : s.round with
  | nil =>
      dsimp only
      split_ifs with hrunning
      · exact moves_handler rfl rfl rfl rfl rfl rfl rfl hround.symm (by simp) hother hstays (by simp)
      · refine moves_within rfl rfl rfl rfl rfl rfl rfl (fun hqueued => .inr ?_) hother hstays
          (by simp [hat])
        exact wake_of_ready (hqueued.resolve_right (by simp [hat]))
      · exact
          { main := rfl
            stopping := id
            closed := rfl
            wake := id
            woken := .inl
            running := id
            queued := fun hqueued => by simp at hqueued
            quits := .inl
            quiet := .inl
            leaving := fun hleaving => Bool.noConfusion (hstays.symm.trans hleaving)
            sent := fun hsent => .inr ⟨hsent, fun h => absurd h hother⟩
            ended := fun _ => .inr ⟨Bool.eq_false_iff.mpr hrunning, hstays⟩ }
  | cons c rest =>
      cases c with
      | signals =>
          refine moves_within rfl rfl rfl rfl rfl rfl rfl (fun hqueued => .inl (.inl ?_)) hother
            hstays (by simp)
          rw [hround]
          exact List.mem_cons_of_mem _ (hqueued.resolve_right (by simp))
      | wake =>
          refine moves_within rfl rfl rfl rfl rfl rfl rfl (fun _ => .inl (.inl ?_)) hother hstays
            (by simp)
          rw [hround]
          exact List.mem_cons_self

theorem moves_dispatch {signals : List Signal} (hat : s.point = .taken signals) :
    Moves s (s.dispatch signals) := by
  have hother : s.point ≠ .requestStop false := by rw [hat]; exact ManagementPoint.noConfusion
  have hstays : s.point.leaving = false := by rw [hat]; rfl
  unfold dispatch
  dsimp only
  split_ifs
  · exact moves_handler rfl rfl rfl rfl rfl rfl rfl rfl (by simp) hother hstays (by simp)
  · have hleaving : s.point.leaving = true → False := fun h =>
      Bool.noConfusion (hstays.symm.trans h)
    exact
      { main := rfl
        stopping := id
        closed := rfl
        wake := id
        woken := .inl
        running := id
        queued := fun hqueued => .inl (.inl (hqueued.resolve_right (by simp)))
        quits := .inl
        quiet := .inl
        leaving := fun h => (hleaving h).elim
        sent := fun _ => .inl rfl
        ended := fun hended => by cases hended }
  · exact moves_handler rfl rfl rfl rfl rfl rfl rfl rfl (by simp) hother hstays (by simp)
  · exact moves_handler rfl rfl rfl rfl rfl rfl rfl rfl (by simp) hother hstays (by simp)

theorem moves_onStop (fault : Bool) (hat : s.point = .onStop) : Moves s (s.onStop fault) := by
  have hother : s.point ≠ .requestStop false := by rw [hat]; decide
  have hstays : s.point.leaving = false := by rw [hat]; rfl
  unfold onStop
  split_ifs
  · exact moves_handler rfl rfl rfl rfl rfl rfl rfl rfl (by simp) hother hstays (by simp)
  · exact
      { main := rfl
        stopping := id
        closed := rfl
        wake := fun hwake => by cases hwake
        woken := fun _ => .inr rfl
        running := fun _ => rfl
        queued := fun _ => .inl (.inr hat)
        quits := fun _ => .inr (.inl hat)
        quiet := .inl
        leaving := fun h => Bool.noConfusion (hstays.symm.trans h)
        sent := fun hsent => .inr ⟨hsent, fun h => absurd h hother⟩
        ended := fun hended => by cases hended }

/-- A step of `run` after an exception. -/
theorem moves_failing (hmain : s'.main = s.main) (hstopping : s'.stopping = s.stopping)
    (hclosed : s'.worker.closed = s.worker.closed) (hwake : s'.wake = s.wake)
    (hrunning : s.running = false → s'.running = false)
    (hsent : s'.shutdownSent = s.shutdownSent) (hround : s'.round = s.round)
    (hother : s.point ≠ .requestStop false) (hleaving : s'.point.leaving = true)
    (hended : s'.point ≠ .ended) : Moves s s' where
  main := hmain
  stopping := hstopping.trans
  closed := hclosed
  wake := fun h => hwake ▸ h
  woken := fun h => .inl (hwake.trans h)
  running := hrunning
  queued := fun hqueued => by
    rw [hround] at hqueued
    refine .inl (.inl (hqueued.resolve_right fun hstop => ?_))
    rw [hstop] at hleaving
    cases hleaving
  quits := fun _ => .inr (.inr hleaving)
  quiet := fun _ => .inr hleaving
  leaving := fun _ => hleaving
  sent := fun h => .inr ⟨hsent ▸ h, fun hat => absurd hat hother⟩
  ended := fun h => absurd h hended

theorem moves_requestStop {failed : Bool} (hat : s.point = .requestStop failed) :
    Moves s (s.requestStop failed) where
  main := rfl
  stopping := fun _ => rfl
  closed := rfl
  wake := id
  woken := .inl
  running := id
  queued := fun hqueued => by
    refine .inl (.inl (hqueued.resolve_right ?_))
    cases failed <;> simp [requestStop]
  quits := .inl
  quiet := .inl
  leaving := fun hleaving => by
    rw [hat] at hleaving
    cases failed with
    | false => cases hleaving
    | true => rfl
  sent := fun hsent => .inr ⟨hsent, fun _ => rfl⟩
  ended := fun _ => .inl rfl

theorem Shutdown.reactor (h : Shutdown s) (wakeFirst fault : Bool) :
    Shutdown (s.reactorStep wakeFirst fault).1 := by
  cases hat : s.point with
  | ended =>
      simp only [reactorStep, hat]
      exact h
  | loop =>
      simp only [reactorStep, hat]
      exact h.moves (moves_loop wakeFirst fault hat)
  | taken signals =>
      simp only [reactorStep, hat]
      exact h.moves (moves_dispatch hat)
  | requestStop failed =>
      simp only [reactorStep, hat]
      exact h.moves (moves_requestStop hat)
  | onStop =>
      simp only [reactorStep, hat]
      exact h.moves (moves_onStop fault hat)
  | threw =>
      simp only [reactorStep, hat]
      exact h.moves (moves_failing rfl rfl rfl rfl id rfl rfl (by rw [hat]; decide) rfl (by simp))
  | quit =>
      simp only [reactorStep, hat]
      exact h.moves (moves_failing rfl rfl rfl rfl (fun _ => rfl) rfl rfl (by rw [hat]; decide) rfl
        (by simp))
  | failed =>
      simp only [reactorStep, hat]
      exact h.moves (moves_failing rfl rfl rfl rfl id rfl rfl (by rw [hat]; decide) rfl (by simp))
  | onSignals =>
      have hstays : s.point.leaving = false := by rw [hat]; rfl
      simp only [reactorStep, hat, onSignals]
      split_ifs <;> exact h.moves (moves_handler rfl rfl rfl rfl rfl rfl rfl rfl (by simp)
        (by rw [hat]; decide) hstays (by simp))
  | requestReload =>
      have hstays : s.point.leaving = false := by rw [hat]; rfl
      simp only [reactorStep, hat]
      split_ifs <;> exact h.moves (moves_handler rfl rfl rfl rfl rfl rfl rfl rfl (by simp)
        (by rw [hat]; decide) hstays (by simp))
  | exchange =>
      have hstays : s.point.leaving = false := by rw [hat]; rfl
      simp only [reactorStep, hat]
      split_ifs <;> exact h.moves (moves_handler rfl rfl rfl rfl rfl rfl rfl rfl (by simp)
        (by rw [hat]; decide) hstays (by simp))
  | post =>
      have hstays : s.point.leaving = false := by rw [hat]; rfl
      simp only [reactorStep, hat, postReload]
      split
      · rename_i worker hpost
        exact h.moves (moves_handler rfl rfl (closed_post hpost) rfl rfl rfl rfl rfl (by simp)
          (by rw [hat]; decide) hstays (by simp))
      · exact h.moves (moves_handler rfl rfl rfl rfl rfl rfl rfl rfl (by simp)
          (by rw [hat]; decide) hstays (by simp))
  | refused =>
      have hstays : s.point.leaving = false := by rw [hat]; rfl
      simp only [reactorStep, hat]
      exact h.moves (moves_handler rfl rfl rfl rfl rfl rfl rfl rfl (by simp) (by rw [hat]; decide)
        hstays (by simp))

/-- What every thread but the reactor leaves to the reactor. -/
structure Beside (s s' : Management) : Prop where
  point : s'.point = s.point
  round : s'.round = s.round
  running : s'.running = s.running
  sent : s'.shutdownSent = s.shutdownSent
  pending : ∀ signal ∈ s.pending, signal ∈ s'.pending

/-- What every thread but the main thread leaves to the main thread. -/
structure Under (s s' : Management) : Prop where
  main : s'.main = s.main
  stopping : s.stopping = true → s'.stopping = true
  closed : s'.worker.closed = s.worker.closed

/-- The threads that have nothing to do with the end. -/
structure Elsewhere (s s' : Management) : Prop extends Beside s s', Under s s' where
  wake : s'.wake = s.wake
  reactorStopping : s'.reactorStopping = s.reactorStopping

theorem Shutdown.elsewhere (h : Shutdown s) (h' : Elsewhere s s') : Shutdown s' where
  left := fun hmain => h'.stopping (h.left (h'.main ▸ hmain))
  wake := fun hwake => by rw [h'.main]; exact h.wake (h'.wake ▸ hwake)
  queued := fun hqueued => by
    rw [h'.round, h'.point] at hqueued
    rw [h'.main]
    exact h.queued hqueued
  quits := fun hquits => by
    rw [h'.main, h'.point]
    exact h.quits (h'.running ▸ hquits)
  quiet := fun hquiet => by
    rw [h'.main, h'.point]
    exact h.quiet (h'.reactorStopping ▸ hquiet)
  sent := fun hsent => by
    rw [h'.point]
    exact (h.sent (h'.sent ▸ hsent)).imp_left h'.stopping
  ended := fun hended => h'.stopping (h.ended (h'.point ▸ hended))
  woken := fun hmain => by
    rw [h'.wake, h'.running, h'.point]
    exact h.woken (h'.main ▸ hmain)
  closed := fun hmain => by
    rw [h'.closed]
    exact h.closed (h'.main ▸ hmain)

theorem elsewhere_worker (outcome : Rebuild) : Elsewhere s (s.workerStep outcome).1 := by
  have hrebuild : ∀ (r : Resource) (next : WorkerPoint) (changes : ReloadResult),
      Elsewhere s (s.rebuild r next changes outcome).1 := by
    intro r next changes
    unfold rebuild
    split_ifs
    · cases outcome <;> exact ⟨⟨rfl, rfl, rfl, rfl, fun _ => id⟩, ⟨rfl, id, rfl⟩, rfl, rfl⟩
    · exact ⟨⟨rfl, rfl, rfl, rfl, fun _ => id⟩, ⟨rfl, id, rfl⟩, rfl, rfl⟩
  unfold workerStep
  split
  · split
    · exact ⟨⟨rfl, rfl, rfl, rfl, fun _ => id⟩, ⟨rfl, id, rfl⟩, rfl, rfl⟩
    · split_ifs <;> exact ⟨⟨rfl, rfl, rfl, rfl, fun _ => id⟩, ⟨rfl, id, rfl⟩, rfl, rfl⟩
  · split_ifs <;> exact ⟨⟨rfl, rfl, rfl, rfl, fun _ => id⟩, ⟨rfl, id, rfl⟩, rfl, rfl⟩
  · exact ⟨⟨rfl, rfl, rfl, rfl, fun _ => id⟩, ⟨rfl, id, rfl⟩, rfl, rfl⟩
  · exact ⟨⟨rfl, rfl, rfl, rfl, fun _ => id⟩, ⟨rfl, id, rfl⟩, rfl, rfl⟩
  · exact ⟨⟨rfl, rfl, rfl, rfl, fun _ => id⟩, ⟨rfl, id, rfl⟩, rfl, rfl⟩
  · exact hrebuild .db _ _
  · exact hrebuild .mqtt _ _
  · exact hrebuild .serial _ _
  · exact ⟨⟨rfl, rfl, rfl, rfl, fun _ => id⟩, ⟨rfl, id, rfl⟩, rfl, rfl⟩
  · exact ⟨⟨rfl, rfl, rfl, rfl, fun _ => id⟩, ⟨rfl, id, rfl⟩, rfl, rfl⟩

theorem elsewhere_post (t : WorkerTask) : Elsewhere s (s.postTask t) := by
  have hpost : ∀ completion, ((s.worker.post t completion).getD s.worker).closed =
      s.worker.closed := by
    intro completion
    cases h : s.worker.post t completion with
    | none => rfl
    | some worker => exact closed_post h
  unfold postTask
  cases t with
  | ordinary => exact ⟨⟨rfl, rfl, rfl, rfl, fun _ => id⟩, ⟨rfl, id, hpost false⟩, rfl, rfl⟩
  | terminal =>
      dsimp only
      split_ifs
      · exact ⟨⟨rfl, rfl, rfl, rfl, fun _ => id⟩, ⟨rfl, id, hpost true⟩, rfl, rfl⟩
      · exact ⟨⟨rfl, rfl, rfl, rfl, fun _ => id⟩, ⟨rfl, id, rfl⟩, rfl, rfl⟩
  | reload => exact ⟨⟨rfl, rfl, rfl, rfl, fun _ => id⟩, ⟨rfl, id, rfl⟩, rfl, rfl⟩

theorem elsewhere_raise (signal : Signal) : Elsewhere s (s.raise signal) := by
  unfold raise
  split_ifs
  · exact ⟨⟨rfl, rfl, rfl, rfl, fun _ => id⟩, ⟨rfl, id, rfl⟩, rfl, rfl⟩
  · exact ⟨⟨rfl, rfl, rfl, rfl, fun _ h => List.mem_append_left _ h⟩, ⟨rfl, id, rfl⟩, rfl, rfl⟩

theorem beside_main (httpFailed : Bool) : Beside s (s.mainStep httpFailed) := by
  unfold mainStep
  split
  · split_ifs <;> exact ⟨rfl, rfl, rfl, rfl, fun _ => id⟩
  · exact ⟨rfl, rfl, rfl, rfl, fun _ => id⟩
  · exact ⟨rfl, rfl, rfl, rfl, fun _ => id⟩
  · split_ifs <;> exact ⟨rfl, rfl, rfl, rfl, fun _ => id⟩
  · exact ⟨rfl, rfl, rfl, rfl, fun _ => id⟩
  · split_ifs <;> exact ⟨rfl, rfl, rfl, rfl, fun _ => id⟩
  · exact ⟨rfl, rfl, rfl, rfl, fun _ => id⟩

theorem under_reactor (wakeFirst fault : Bool) : Under s (s.reactorStep wakeFirst fault).1 := by
  unfold reactorStep
  split
  · unfold loop
    split
    · exact ⟨rfl, id, rfl⟩
    · exact ⟨rfl, id, rfl⟩
    · split_ifs <;> exact ⟨rfl, id, rfl⟩
  · unfold onSignals
    split_ifs <;> exact ⟨rfl, id, rfl⟩
  · unfold dispatch
    dsimp only
    split_ifs <;> exact ⟨rfl, id, rfl⟩
  · exact ⟨rfl, fun _ => rfl, rfl⟩
  · exact ⟨rfl, id, rfl⟩
  · split_ifs <;> exact ⟨rfl, id, rfl⟩
  · unfold postReload
    split
    · rename_i worker hpost
      exact ⟨rfl, id, closed_post hpost⟩
    · exact ⟨rfl, id, rfl⟩
  · exact ⟨rfl, id, rfl⟩
  · unfold onStop
    split_ifs <;> exact ⟨rfl, id, rfl⟩
  · exact ⟨rfl, id, rfl⟩
  · exact ⟨rfl, id, rfl⟩
  · exact ⟨rfl, id, rfl⟩
  · exact ⟨rfl, id, rfl⟩

theorem Shutdown.main (h : Shutdown s) (httpFailed : Bool) : Shutdown (s.mainStep httpFailed) := by
  obtain ⟨hleft, hwake, hqueued, hquits, hquiet, hsent, hended, hwoken, hclosed⟩ := h
  unfold mainStep
  cases hat : s.main with
  | loop =>
      dsimp only
      split_ifs <;> constructor <;> simp_all
  | stopping => constructor <;> simp_all
  | waking => constructor <;> simp_all
  | joining =>
      dsimp only
      split_ifs <;> constructor <;> simp_all
  | joined => constructor <;> simp_all
  | draining =>
      dsimp only
      split_ifs <;> constructor <;> simp_all
  | done => exact ⟨hleft, hwake, hqueued, hquits, hquiet, hsent, hended, hwoken, hclosed⟩

theorem Shutdown.step (h : Shutdown s) (a : ManagementAction) : Shutdown (s.step a).1 := by
  cases a with
  | raise signal => exact h.elsewhere (elsewhere_raise signal)
  | write file =>
      exact h.elsewhere ⟨⟨rfl, rfl, rfl, rfl, fun _ => id⟩, ⟨rfl, id, rfl⟩, rfl, rfl⟩
  | reactor wakeFirst fault => exact h.reactor wakeFirst fault
  | worker outcome => exact h.elsewhere (elsewhere_worker outcome)
  | main httpFailed => exact h.main httpFailed
  | post t => exact h.elsewhere (elsewhere_post t)

/-- A turn of another thread than the reactor. -/
theorem beside_step (a : ManagementAction) (ha : ∀ wakeFirst fault, a ≠ .reactor wakeFirst fault) :
    Beside s (s.step a).1 := by
  cases a with
  | raise signal => exact (elsewhere_raise signal).toBeside
  | write file => exact ⟨rfl, rfl, rfl, rfl, fun _ => id⟩
  | reactor wakeFirst fault => exact absurd rfl (ha wakeFirst fault)
  | worker outcome => exact (elsewhere_worker outcome).toBeside
  | main httpFailed => exact beside_main httpFailed
  | post t => exact (elsewhere_post t).toBeside

/-- A turn of another thread than the main thread. -/
theorem under_step (a : ManagementAction) (ha : ∀ httpFailed, a ≠ .main httpFailed) :
    Under s (s.step a).1 := by
  cases a with
  | raise signal => exact (elsewhere_raise signal).toUnder
  | write file => exact ⟨rfl, id, rfl⟩
  | reactor wakeFirst fault => exact under_reactor wakeFirst fault
  | worker outcome => exact (elsewhere_worker outcome).toUnder
  | main httpFailed => exact absurd rfl (ha httpFailed)
  | post t => exact (elsewhere_post t).toUnder

/-! ## The reactor asks for the end -/

/-- A signal to end, or an exception, on its way to `requestStop`. -/
def Ordered (s : Management) : Prop := Terminates s.pending ∨ s.point.orders

def untilStop (s : Management) : Nat := s.point.untilStop s.round.isEmpty

/-- The turn goes on with the order. -/
def Nearer (s s' : Management) : Prop := s'.Ordered ∧ s'.untilStop < s.untilStop

theorem nearer_loop (wakeFirst fault : Bool) (hat : s.point = .loop)
    (hpending : Terminates s.pending) (hqueued : .wake ∉ s.round) (hrunning : s.running = true) :
    Nearer s (s.loop wakeFirst fault) := by
  have hsome : s.pending ≠ [] := by
    rintro hnil
    rw [hnil] at hpending
    exact hpending.elim List.not_mem_nil List.not_mem_nil
  have hready : (s.ready wakeFirst).isEmpty = false := by
    unfold ready
    rw [if_neg hsome]
    cases wakeFirst <;> simp
  unfold loop
  cases hround : s.round with
  | nil =>
      dsimp only
      rw [if_pos hrunning]
      split_ifs
      · exact ⟨.inr trivial, by simp [untilStop, hat, ManagementPoint.untilStop, hround]⟩
      · exact ⟨.inl hpending, by simp [untilStop, hat, ManagementPoint.untilStop, hround, hready]⟩
  | cons c rest =>
      cases c with
      | signals =>
          exact ⟨.inl hpending, by simp [untilStop, hat, ManagementPoint.untilStop, hround]⟩
      | wake =>
          rw [hround] at hqueued
          exact absurd List.mem_cons_self hqueued

theorem nearer_onSignals (fault : Bool) (hat : s.point = .onSignals)
    (hpending : Terminates s.pending) : Nearer s (s.onSignals fault) := by
  have hsome : s.pending ≠ [] := by
    rintro hnil
    rw [hnil] at hpending
    exact hpending.elim List.not_mem_nil List.not_mem_nil
  unfold onSignals
  rw [if_neg hsome]
  split_ifs
  · exact ⟨.inr trivial, by simp [untilStop, hat, ManagementPoint.untilStop]⟩
  · exact ⟨.inr hpending, by simp [untilStop, hat, ManagementPoint.untilStop, hpending]⟩

/-- What was read is an order, or the order is still pending. -/
theorem nearer_dispatch {signals : List Signal} (hat : s.point = .taken signals)
    (horder : s.Ordered) (hquiet : s.reactorStopping = false) (hsent : s.shutdownSent = false) :
    Nearer s (s.dispatch signals) := by
  unfold dispatch
  rw [if_neg (Bool.eq_false_iff.mp hquiet)]
  dsimp only
  by_cases hterminates : Terminates signals
  · rw [if_pos ⟨hterminates, hsent⟩]
    exact ⟨.inr trivial, by simp [untilStop, hat, ManagementPoint.untilStop, hterminates]⟩
  · have hpending : Terminates s.pending := by
      refine horder.resolve_right fun horders => hterminates ?_
      rw [hat] at horders
      exact horders
    rw [if_neg fun hboth => hterminates hboth.1]
    split_ifs
    · exact ⟨.inl hpending, by simp [untilStop, hat, ManagementPoint.untilStop, hterminates]⟩
    · refine ⟨.inl hpending, ?_⟩
      simp only [untilStop, hat, ManagementPoint.untilStop, if_neg hterminates]
      split_ifs <;> omega

theorem nearer_postReload (hat : s.point = .post) (hpending : Terminates s.pending) :
    Nearer s s.postReload := by
  unfold postReload
  split
  · refine ⟨.inl hpending, ?_⟩
    simp only [untilStop, hat, ManagementPoint.untilStop]
    split_ifs <;> omega
  · exact ⟨.inl hpending, by simp [untilStop, hat, ManagementPoint.untilStop]⟩

/-- Until the gateway stops, nothing has told the reactor to end. -/
theorem Shutdown.unstopped (h : Shutdown s) (hrunning : s.stopping = false) :
    ¬ (.wake ∈ s.round ∨ s.point = .onStop) ∧
    (s.point.leaving = false → s.running = true ∧ s.reactorStopping = false) ∧
    (s.point ≠ .requestStop false → s.shutdownSent = false) := by
  have hmain : s.main = .loop := by
    by_contra hmain
    exact Bool.noConfusion (hrunning.symm.trans (h.left hmain))
  refine ⟨fun hqueued => h.queued hqueued hmain, fun hleaving => ⟨?_, ?_⟩, fun hpoint => ?_⟩
  · by_contra hquits
    rcases h.quits (Bool.eq_false_iff.mpr hquits) with hleft | hleft
    · exact hleft hmain
    · exact Bool.noConfusion (hleaving.symm.trans hleft)
  · by_contra hquiet
    rcases h.quiet (Bool.eq_true_of_not_eq_false hquiet) with hleft | hleft
    · exact hleft hmain
    · exact Bool.noConfusion (hleaving.symm.trans hleft)
  · by_contra hsent
    rcases h.sent (Bool.eq_true_of_not_eq_false hsent) with hstopping | hat
    · exact Bool.noConfusion (hrunning.symm.trans hstopping)
    · exact hpoint hat

/-- A turn of the reactor goes on with the order, or the gateway stops. -/
theorem Shutdown.ordered (h : Shutdown s) (hrunning : s.stopping = false) (horder : s.Ordered)
    (wakeFirst fault : Bool) :
    (s.reactorStep wakeFirst fault).1.stopping = true ∨
      Nearer s (s.reactorStep wakeFirst fault).1 := by
  obtain ⟨hqueued, hquits, hsent⟩ := h.unstopped hrunning
  have hpending : ¬ s.point.orders → Terminates s.pending := horder.resolve_right
  unfold reactorStep
  cases hat : s.point with
  | loop =>
      rw [hat] at hpending hquits
      exact .inr (nearer_loop wakeFirst fault hat (hpending id) (not_or.mp hqueued).1
        (hquits rfl).1)
  | onSignals =>
      rw [hat] at hpending
      exact .inr (nearer_onSignals fault hat (hpending id))
  | taken signals =>
      rw [hat] at hquits hsent
      exact .inr (nearer_dispatch hat horder (hquits rfl).2 (hsent ManagementPoint.noConfusion))
  | requestStop failed => exact .inl rfl
  | requestReload =>
      rw [hat] at hpending
      refine .inr ⟨.inl (hpending id), ?_⟩
      simp [untilStop, hat, ManagementPoint.untilStop, hrunning]
  | exchange =>
      rw [hat] at hpending
      right
      dsimp only
      split_ifs
      · refine ⟨.inl (hpending id), ?_⟩
        simp only [untilStop, hat, ManagementPoint.untilStop]
        split_ifs <;> omega
      · exact ⟨.inl (hpending id), by simp [untilStop, hat, ManagementPoint.untilStop]⟩
  | post =>
      rw [hat] at hpending
      exact .inr (nearer_postReload hat (hpending id))
  | refused =>
      rw [hat] at hpending
      refine .inr ⟨.inl (hpending id), ?_⟩
      simp only [untilStop, hat, ManagementPoint.untilStop]
      split_ifs <;> omega
  | onStop => exact absurd (.inr hat) hqueued
  | threw => exact .inr ⟨.inr trivial, by simp [untilStop, hat, ManagementPoint.untilStop]⟩
  | quit => exact .inr ⟨.inr trivial, by simp [untilStop, hat, ManagementPoint.untilStop]⟩
  | failed => exact .inr ⟨.inr trivial, by simp [untilStop, hat, ManagementPoint.untilStop]⟩
  | ended => exact absurd (h.ended hat) (Bool.eq_false_iff.mp hrunning)

/-! ## The reactor ends -/

theorem Beside.ordered (h : Beside s s') (horder : s.Ordered) : s'.Ordered := by
  unfold Ordered at horder ⊢
  rw [h.point]
  exact horder.imp_left fun hpending =>
    hpending.imp (h.pending .term) (h.pending .int)

/-! ## The worker ends -/

/-- Turns of the worker until it exits once its executor was closed, at most. -/
def untilExit (s : Management) : Nat := 20 * s.worker.tasks.length + s.work.untilIdle

/-- Every turn of the worker of a closed executor brings its end nearer. -/
theorem exits (hclosed : s.worker.closed = true) (hwork : s.work ≠ .exited) (outcome : Rebuild) :
    (s.workerStep outcome).1.untilExit < s.untilExit := by
  have hrebuild : ∀ (r : Resource) (next : WorkerPoint) (changes : ReloadResult),
      next.untilIdle < s.work.untilIdle → 2 < s.work.untilIdle →
        (s.rebuild r next changes outcome).1.untilExit < s.untilExit := by
    intro r next changes hnext hrelease
    unfold rebuild untilExit
    split_ifs
    · cases outcome with
      | delivered => exact Nat.add_lt_add_left hnext _
      | kept => exact Nat.add_lt_add_left hnext _
      | threw => exact Nat.add_lt_add_left hrelease _
    · exact Nat.add_lt_add_left hnext _
  unfold workerStep
  cases hat : s.work with
  | idle =>
      cases htasks : s.worker.tasks with
      | nil =>
          dsimp only
          rw [if_pos hclosed]
          simp [untilExit, hat, WorkerPoint.untilIdle]
      | cons t rest =>
          cases t <;> (simp [untilExit, hat, htasks, WorkerPoint.untilIdle]; omega)
  | task t =>
      cases t with
      | reload =>
          dsimp only
          split_ifs <;> simp [untilExit, hat, WorkerPoint.untilIdle]
      | ordinary => simp [untilExit, hat, WorkerPoint.untilIdle]
      | terminal => simp [untilExit, hat, WorkerPoint.untilIdle]
  | reading =>
      unfold readConfig
      dsimp only
      split_ifs <;> simp [untilExit, hat, WorkerPoint.untilIdle]
  | level changes => simp [untilExit, hat, WorkerPoint.untilIdle]
  | database changes =>
      exact hrebuild .db (.mqtt changes) changes (by simp [hat, WorkerPoint.untilIdle])
        (by simp [hat, WorkerPoint.untilIdle])
  | mqtt changes =>
      exact hrebuild .mqtt (.serial changes) changes (by simp [hat, WorkerPoint.untilIdle])
        (by simp [hat, WorkerPoint.untilIdle])
  | serial changes =>
      exact hrebuild .serial .release changes (by simp [hat, WorkerPoint.untilIdle])
        (by simp [hat, WorkerPoint.untilIdle])
  | release => simp [untilExit, hat, WorkerPoint.untilIdle]
  | exited => exact absurd hat hwork

/-- Once the reactor has ended and the executor is closed, only the worker touches its tasks. -/
theorem worker_alone (hclosed : s.worker.closed = true) (hended : s.point = .ended)
    (a : ManagementAction) (ha : ∀ outcome, a ≠ .worker outcome) :
    (s.step a).1.worker.tasks = s.worker.tasks ∧ (s.step a).1.work = s.work := by
  have hpost : ∀ t completion, s.worker.post t completion = none := fun t completion =>
    if_pos (.inl hclosed)
  cases a with
  | raise signal =>
      simp only [Management.step, raise]
      split_ifs <;> exact ⟨rfl, rfl⟩
  | write file => exact ⟨rfl, rfl⟩
  | reactor wakeFirst fault => simp [Management.step, reactorStep, hended]
  | worker outcome => exact absurd rfl (ha outcome)
  | main httpFailed =>
      simp only [Management.step, mainStep]
      split
      · split_ifs <;> exact ⟨rfl, rfl⟩
      · exact ⟨rfl, rfl⟩
      · exact ⟨rfl, rfl⟩
      · rw [if_pos hended]
        exact ⟨rfl, rfl⟩
      · exact ⟨rfl, rfl⟩
      · split_ifs <;> exact ⟨rfl, rfl⟩
      · exact ⟨rfl, rfl⟩
  | post t => cases t <;> simp [Management.step, postTask, hpost]

/-! ## The main thread -/

/-- An infinite run in which the three threads get their turns again and again. -/
structure FairRun (m : ConfigManager) (file : Option (List UInt8)) (run : Nat → Management)
    (act : Nat → ManagementAction) : Prop where
  started : run 0 = started m file
  step : ∀ n, run (n + 1) = ((run n).step (act n)).1
  reactor : ∀ n, ∃ k, n ≤ k ∧ ∃ wakeFirst fault, act k = .reactor wakeFirst fault
  worker : ∀ n, ∃ k, n ≤ k ∧ ∃ outcome, act k = .worker outcome
  main : ∀ n, ∃ k, n ≤ k ∧ ∃ httpFailed, act k = .main httpFailed

namespace FairRun

variable {m : ConfigManager} {file : Option (List UInt8)} {run : Nat → Management}
  {act : Nat → ManagementAction}

theorem shutdown (h : FairRun m file run act) (n : Nat) : (run n).Shutdown := by
  induction n with
  | zero =>
      rw [h.started]
      exact shutdown_started m file
  | succ n ih =>
      rw [h.step]
      exact ih.step (act n)

theorem requests (h : FairRun m file run act) (n : Nat) : ∃ log, Requests log (run n) := by
  induction n with
  | zero =>
      rw [h.started]
      exact ⟨[], requests_started m file⟩
  | succ n ih =>
      obtain ⟨log, hlog⟩ := ih
      rw [h.step]
      exact ⟨_, hlog.step (act n)⟩

/-- A step of another thread than the main thread. -/
theorem under (h : FairRun m file run act) {n : Nat}
    (ha : ¬ ∃ httpFailed, act n = .main httpFailed) : Under (run n) (run (n + 1)) := by
  rw [h.step n]
  exact under_step (act n) fun httpFailed heq => ha ⟨httpFailed, heq⟩

/-- A step of another thread than the reactor. -/
theorem beside (h : FairRun m file run act) {n : Nat}
    (ha : ¬ ∃ wakeFirst fault, act n = .reactor wakeFirst fault) :
    Beside (run n) (run (n + 1)) := by
  rw [h.step n]
  exact beside_step (act n) fun wakeFirst fault heq => ha ⟨wakeFirst, fault, heq⟩

/-- The thread of the reactor does nothing more. -/
theorem stays_ended (h : FairRun m file run act) {n : Nat} (hended : (run n).point = .ended) :
    (run (n + 1)).point = .ended := by
  by_cases ha : ∃ wakeFirst fault, act n = .reactor wakeFirst fault
  · obtain ⟨wakeFirst, fault, ha⟩ := ha
    rw [h.step n, ha]
    simp [Management.step, reactorStep, hended]
  · exact (h.beside ha).point.trans hended

/-- What waits only for a turn of the main thread. -/
theorem main_turn (h : FairRun m file run act) {P Q : Management → Prop}
    (hmain : ∀ s httpFailed, P s → Q (s.mainStep httpFailed))
    (hkeep : ∀ n, P (run n) → (¬ ∃ httpFailed, act n = .main httpFailed) → P (run (n + 1))) :
    LeadsTo (fun n => P (run n)) fun n => Q (run n) := by
  have hturn : ∀ n, P (run n) → (∃ httpFailed, act n = .main httpFailed) → Q (run (n + 1)) := by
    rintro n hp ⟨httpFailed, ha⟩
    rw [h.step n, ha]
    exact hmain (run n) httpFailed hp
  apply LeadsTo.ensures (H := fun n => ∃ httpFailed, act n = .main httpFailed)
  · intro n hp
    by_cases ha : ∃ httpFailed, act n = .main httpFailed
    · exact .inr (hturn n hp ha)
    · exact .inl (hkeep n hp ha)
  · exact hturn
  · intro n _
    obtain ⟨k, hnk, hk⟩ := h.main n
    exact ⟨k, hnk, .inl hk⟩

theorem joins (h : FairRun m file run act) :
    LeadsTo (fun n => (run n).main = .joining ∧ (run n).point = .ended)
      fun n => (run n).main = .joined := by
  refine h.main_turn (P := fun s => s.main = .joining ∧ s.point = .ended)
    (Q := fun s => s.main = .joined) (fun s httpFailed hp => ?_) fun n hp ha => ?_
  · simp [mainStep, hp.1, hp.2]
  · exact ⟨(h.under ha).main.trans hp.1, h.stays_ended hp.2⟩

/-- While the main thread waits for it, the worker is alone with its tasks. -/
theorem alone (h : FairRun m file run act) {n : Nat} (hdraining : (run n).main = .draining)
    (ha : ¬ ∃ outcome, act n = .worker outcome) :
    (run (n + 1)).worker.tasks = (run n).worker.tasks ∧ (run (n + 1)).work = (run n).work := by
  obtain ⟨log, hlog⟩ := h.requests n
  have hended := hlog.joined (by rw [hdraining]; rfl)
  rw [h.step n]
  exact worker_alone ((h.shutdown n).closed hdraining) hended (act n) fun outcome heq =>
    ha ⟨outcome, heq⟩

/-- The main thread waits until the worker has exited. -/
theorem waits (h : FairRun m file run act) {n : Nat} (hdraining : (run n).main = .draining) :
    (run (n + 1)).main = .draining ∨ (run (n + 1)).main = .done := by
  by_cases ha : ∃ httpFailed, act n = .main httpFailed
  · obtain ⟨httpFailed, ha⟩ := ha
    rw [h.step n, ha]
    simp only [Management.step, mainStep, hdraining]
    split_ifs
    · exact .inr rfl
    · exact .inl hdraining
  · exact .inl ((h.under ha).main.trans hdraining)

/-- The worker runs what it has and exits. -/
theorem exits (h : FairRun m file run act) :
    LeadsTo (fun n => (run n).main = .draining)
      fun n => (run n).main = .draining ∧ (run n).work = .exited ∨ (run n).main = .done := by
  have hturn : ∀ n, (run n).main = .draining → (∃ outcome, act n = .worker outcome) →
      ((run (n + 1)).main = .draining ∧ (run (n + 1)).work = .exited ∨
        (run (n + 1)).main = .done) ∨
      (run (n + 1)).main = .draining ∧ (run (n + 1)).untilExit < (run n).untilExit := by
    rintro n hdraining ⟨outcome, ha⟩
    rcases h.waits hdraining with hstill | hdone
    · by_cases hexited : (run n).work = .exited
      · refine .inl (.inl ⟨hstill, ?_⟩)
        rw [h.step n, ha]
        simp [Management.step, workerStep, hexited]
      · refine .inr ⟨hstill, ?_⟩
        rw [h.step n, ha]
        exact Management.exits ((h.shutdown n).closed hdraining) hexited outcome
    · exact .inl (.inr hdone)
  refine LeadsTo.turns (fun n => (run n).untilExit) (fun n hp => ?_) hturn h.worker
  by_cases ha : ∃ outcome, act n = .worker outcome
  · exact (hturn n hp ha).imp_right fun hnext => ⟨hnext.1, Nat.le_of_lt hnext.2⟩
  · rcases h.waits hp with hstill | hdone
    · obtain ⟨htasks, hwork⟩ := h.alone hp ha
      refine .inr ⟨hstill, Nat.le_of_eq ?_⟩
      unfold untilExit
      rw [htasks, hwork]
    · exact .inl (.inr hdone)

theorem finishes (h : FairRun m file run act) :
    LeadsTo (fun n => (run n).main = .draining ∧ (run n).work = .exited)
      fun n => (run n).main = .done := by
  refine h.main_turn (P := fun s => s.main = .draining ∧ s.work = .exited)
    (Q := fun s => s.main = .done) (fun s httpFailed hp => ?_) fun n hp ha => ?_
  · simp [mainStep, hp.1, hp.2]
  · refine ⟨(h.under ha).main.trans hp.1, ?_⟩
    by_cases hturn : ∃ outcome, act n = .worker outcome
    · obtain ⟨outcome, hturn⟩ := hturn
      rw [h.step n, hturn]
      simp [Management.step, workerStep, hp.2]
    · exact (h.alone hp.1 hturn).2.trans hp.2

end FairRun

end Management

end EdgeGateway
