import EdgeGateway.App.Accounts
import EdgeGateway.App.Management

set_option autoImplicit false

/-! # Reloads that are asked for

`reload_pending_` is set from the exchange in `requestReload` to the end of the task: at most one
reload is on its way. A request that finds it set is merged with the one on its way, also if that one
has read the file already.
-/

namespace EdgeGateway

/-! ## Reloads on their way -/

/-- The exchange is over and the task not yet posted. -/
def ManagementPoint.posting : ManagementPoint → Bool
  | .post | .refused => true
  | _ => false

/-- A reload task that has not ended. -/
def WorkerPoint.reloading : WorkerPoint → Bool
  | .idle | .task .ordinary | .task .terminal | .exited => false
  | _ => true

/-- A reload task that has not read the file. -/
def WorkerPoint.unread : WorkerPoint → Bool
  | .task .reload | .reading => true
  | _ => false

/-- `~GatewayApp` has joined the management reactor. -/
def MainPoint.joins : MainPoint → Bool
  | .joined | .draining | .done => true
  | _ => false

/-- A reload that has read the file, or will not. -/
def ManagementEvent.reads : ManagementEvent → Bool
  | .read _ | .skipped => true
  | _ => false

/-- An outcome of the exchange. -/
def ManagementEvent.asks : ManagementEvent → Bool
  | .requested | .merged => true
  | _ => false

/-- No part of the account of reloads. -/
def ManagementEvent.silent : ManagementEvent → Bool
  | .shutdown | .failed | .delivered _ | .kept _ | .threw => true
  | _ => false

namespace Management

/-- The reloads from the exchange on. -/
def outstanding (s : Management) : Nat :=
  s.point.posting.toNat + s.worker.tasks.count .reload + s.work.reloading.toNat

/-- The reloads that will still read the file. -/
def awaited (s : Management) : Nat :=
  s.point.posting.toNat + s.worker.tasks.count .reload + s.work.unread.toNat

/-- The last reload that read the file has not ended. -/
def Late (log : List ManagementEvent) : Prop :=
  ∃ before file after, log = before ++ .read file :: after ∧ .released ∉ after

/-- A request after which the file was not read; one that was merged too late has none. -/
def Owed (log : List ManagementEvent) : Prop :=
  ∃ before e after, log = before ++ e :: after ∧ e.asks = true ∧
    (∀ x ∈ after, x.reads = false) ∧ ¬ (e = .merged ∧ Late before)

/-- What every step keeps. -/
structure Requests (log : List ManagementEvent) (s : Management) : Prop where
  one : s.outstanding = s.reloadPending.toNat
  terminals : s.worker.tasks.count .terminal ≤ kMaxCommands
  room : s.worker.tasks.length ≤
    1024 + s.worker.tasks.count .terminal + s.worker.tasks.count .reload
  joined : s.main.joins = true → s.point = .ended
  closed : s.worker.closed = true → s.main.joins = true
  point : s.point ≠ .refused
  unrefused : .refused ∉ log
  requested : log.count .requested = log.count .released + s.reloadPending.toNat
  read : log.count .requested = log.countP ManagementEvent.reads + s.awaited
  skipped : s.stopping = false → .skipped ∉ log
  late : s.work.reloading = true → s.work.unread = false → s.stopping = true ∨ Late log
  owed : s.stopping = false → Owed log → 0 < s.awaited

/-! ## Logs -/

variable {log es : List ManagementEvent} {e : ManagementEvent}

theorem Late.append (h : Late log) (hes : .released ∉ es) : Late (log ++ es) := by
  obtain ⟨before, file, after, rfl, hafter⟩ := h
  refine ⟨before, file, after ++ es, by simp, ?_⟩
  rw [List.mem_append, not_or]
  exact ⟨hafter, hes⟩

/-- After one more event the same requests wait, or the new one does. -/
theorem Owed.of_append (h : Owed (log ++ [e])) :
    e.reads = false ∧ Owed log ∨ e.asks = true ∧ ¬ (e = .merged ∧ Late log) := by
  obtain ⟨before, asked, after, heq, hasks, hafter, hlate⟩ := h
  rcases append_eq_cut heq with ⟨rest, hlog, rfl⟩ | ⟨new, rfl, hnew⟩
  · have hrest : ∀ x ∈ rest, x.reads = false := fun x hx => hafter x (List.mem_append_left _ hx)
    exact .inl ⟨hafter e (by simp), before, asked, rest, hlog, hasks, hrest, hlate⟩
  · cases new with
    | nil =>
        obtain ⟨rfl, -⟩ := List.cons.inj hnew
        rw [List.append_nil] at hlate
        exact .inr ⟨hasks, hlate⟩
    | cons x new => cases new <;> cases hnew

theorem Owed.of_silent (h : Owed (log ++ es)) (hes : ∀ e ∈ es, e.silent = true) : Owed log := by
  obtain ⟨before, asked, after, heq, hasks, hafter, hlate⟩ := h
  rcases append_eq_cut heq with ⟨rest, hlog, rfl⟩ | ⟨new, rfl, rfl⟩
  · have hrest : ∀ x ∈ rest, x.reads = false := fun x hx => hafter x (List.mem_append_left _ hx)
    exact ⟨before, asked, rest, hlog, hasks, hrest, hlate⟩
  · have hsilent := hes asked (by simp)
    cases asked <;> cases hsilent <;> cases hasks

/-! ## Steps that ask for nothing -/

variable {s s' : Management}

/-- What changes neither the reloads on their way nor the mailbox. -/
structure Quiet (s : Management) (es : List ManagementEvent) (s' : Management) : Prop where
  silent : ∀ e ∈ es, e.silent = true
  posting : s'.point.posting = s.point.posting
  point : s'.point ≠ .refused
  ended : s.point = .ended → s'.point = .ended
  worker : s'.worker = s.worker
  reloading : s'.work.reloading = s.work.reloading
  unread : s'.work.unread = s.work.unread
  pending : s'.reloadPending = s.reloadPending
  main : s'.main = s.main
  stopping : s.stopping = true → s'.stopping = true

theorem Requests.quiet (h : Requests log s) (hquiet : Quiet s es s') : Requests (log ++ es) s' := by
  have hcount : ∀ x : ManagementEvent, x.silent = false → es.count x = 0 := by
    intro x hx
    rw [List.count_eq_zero]
    exact fun hmem => Bool.noConfusion (hx.symm.trans (hquiet.silent x hmem))
  have hreads : es.countP ManagementEvent.reads = 0 := by
    rw [List.countP_eq_zero]
    intro x hx
    have hsilent := hquiet.silent x hx
    cases x <;> cases hsilent <;> exact Bool.false_ne_true
  have hawaited : s'.awaited = s.awaited := by
    unfold awaited
    rw [hquiet.posting, hquiet.worker, hquiet.unread]
  have hrunning : s'.stopping = false → s.stopping = false := fun hrunning =>
    Bool.eq_false_iff.mpr fun hstopping =>
      Bool.noConfusion (hrunning.symm.trans (hquiet.stopping hstopping))
  refine
    { one := ?_
      terminals := by rw [hquiet.worker]; exact h.terminals
      room := by rw [hquiet.worker]; exact h.room
      joined := fun hmain => hquiet.ended (h.joined (hquiet.main ▸ hmain))
      closed := fun hclosed => ?_
      point := hquiet.point
      unrefused := ?_
      requested := ?_
      read := ?_
      skipped := fun hstopping => ?_
      late := fun hreloading hread => ?_
      owed := fun hstopping howed => ?_ }
  · have hone := h.one
    unfold outstanding at hone ⊢
    rw [hquiet.posting, hquiet.worker, hquiet.reloading, hquiet.pending]
    exact hone
  · rw [hquiet.main]
    exact h.closed (hquiet.worker ▸ hclosed)
  · rw [List.mem_append, not_or]
    exact ⟨h.unrefused, List.count_eq_zero.mp (hcount .refused rfl)⟩
  · rw [List.count_append, List.count_append, hcount .requested rfl, hcount .released rfl,
      hquiet.pending]
    exact h.requested
  · rw [List.count_append, List.countP_append, hcount .requested rfl, hreads, hawaited]
    exact h.read
  · rw [List.mem_append, not_or]
    exact ⟨h.skipped (hrunning hstopping), List.count_eq_zero.mp (hcount .skipped rfl)⟩
  · rcases h.late (hquiet.reloading ▸ hreloading) (hquiet.unread ▸ hread) with hstopping | hlate
    · exact .inl (hquiet.stopping hstopping)
    · exact .inr (hlate.append (List.count_eq_zero.mp (hcount .released rfl)))
  · rw [hawaited]
    exact h.owed (hrunning hstopping) (howed.of_silent hquiet.silent)

/-! ## The management reactor -/

/-- A step of the reactor that leaves the worker alone. -/
theorem quiet_of (hes : ∀ e ∈ es, e.silent = true) (hposting : s.point.posting = false)
    (hposting' : s'.point.posting = false) (hended : s.point ≠ .ended)
    (hworker : s'.worker = s.worker) (hwork : s'.work = s.work)
    (hpending : s'.reloadPending = s.reloadPending) (hmain : s'.main = s.main)
    (hstopping : s.stopping = true → s'.stopping = true) : Quiet s es s' where
  silent := hes
  posting := hposting'.trans hposting.symm
  point := fun hpoint => by rw [hpoint] at hposting'; cases hposting'
  ended := fun h => absurd h hended
  worker := hworker
  reloading := by rw [hwork]
  unread := by rw [hwork]
  pending := hpending
  main := hmain
  stopping := hstopping

theorem quiet_loop (wakeFirst fault : Bool) (hat : s.point = .loop) :
    Quiet s [] (s.loop wakeFirst fault) := by
  have hposting : s.point.posting = false := by rw [hat]; rfl
  have hended : s.point ≠ .ended := by rw [hat]; decide
  unfold loop
  split
  · exact quiet_of (List.forall_mem_nil _) hposting rfl hended rfl rfl rfl rfl id
  · exact quiet_of (List.forall_mem_nil _) hposting rfl hended rfl rfl rfl rfl id
  · split_ifs
    · exact quiet_of (List.forall_mem_nil _) hposting rfl hended rfl rfl rfl rfl id
    · exact quiet_of (List.forall_mem_nil _) hposting hposting hended rfl rfl rfl rfl id
    · exact quiet_of (List.forall_mem_nil _) hposting rfl hended rfl rfl rfl rfl id

theorem quiet_onSignals (fault : Bool) (hat : s.point = .onSignals) :
    Quiet s [] (s.onSignals fault) := by
  have hposting : s.point.posting = false := by rw [hat]; rfl
  have hended : s.point ≠ .ended := by rw [hat]; decide
  unfold onSignals
  split_ifs <;> exact quiet_of (List.forall_mem_nil _) hposting rfl hended rfl rfl rfl rfl id

theorem quiet_dispatch {signals : List Signal} (hat : s.point = .taken signals) :
    Quiet s [] (s.dispatch signals) := by
  have hposting : s.point.posting = false := by rw [hat]; rfl
  have hended : s.point ≠ .ended := by rw [hat]; exact ManagementPoint.noConfusion
  unfold dispatch
  dsimp only
  split_ifs <;> exact quiet_of (List.forall_mem_nil _) hposting rfl hended rfl rfl rfl rfl id

theorem quiet_onStop (fault : Bool) (hat : s.point = .onStop) : Quiet s [] (s.onStop fault) := by
  have hposting : s.point.posting = false := by rw [hat]; rfl
  have hended : s.point ≠ .ended := by rw [hat]; decide
  unfold onStop
  split_ifs <;> exact quiet_of (List.forall_mem_nil _) hposting rfl hended rfl rfl rfl rfl id

theorem quiet_requestStop {failed : Bool} (hat : s.point = .requestStop failed) :
    Quiet s (if failed then [] else [.shutdown]) (s.requestStop failed) := by
  have hposting : s.point.posting = false := by rw [hat]; rfl
  have hended : s.point ≠ .ended := by rw [hat]; exact ManagementPoint.noConfusion
  cases failed with
  | false =>
      exact quiet_of (List.forall_mem_singleton.mpr rfl) hposting rfl hended rfl rfl rfl rfl
        fun _ => rfl
  | true => exact quiet_of (List.forall_mem_nil _) hposting rfl hended rfl rfl rfl rfl fun _ => rfl

/-- The steps of the reactor outside the exchange and the post. -/
theorem quiet_reactor (wakeFirst fault : Bool) (hrefused : s.point ≠ .refused)
    (hexchange : s.point ≠ .exchange) (hpost : s.point ≠ .post) :
    Quiet s (s.reactorStep wakeFirst fault).2 (s.reactorStep wakeFirst fault).1 := by
  cases hat : s.point with
  | loop =>
      simp only [reactorStep, hat]
      exact quiet_loop wakeFirst fault hat
  | onSignals =>
      simp only [reactorStep, hat]
      exact quiet_onSignals fault hat
  | taken signals =>
      simp only [reactorStep, hat]
      exact quiet_dispatch hat
  | requestStop failed =>
      simp only [reactorStep, hat]
      exact quiet_requestStop hat
  | requestReload =>
      simp only [reactorStep, hat]
      refine quiet_of (List.forall_mem_nil _) (by rw [hat]; rfl) ?_ (by rw [hat]; decide) rfl
        rfl rfl rfl id
      dsimp only
      split_ifs <;> rfl
  | exchange => exact absurd hat hexchange
  | post => exact absurd hat hpost
  | refused => exact absurd hat hrefused
  | onStop =>
      simp only [reactorStep, hat]
      exact quiet_onStop fault hat
  | threw =>
      simp only [reactorStep, hat]
      exact quiet_of (List.forall_mem_nil _) (by rw [hat]; rfl) rfl (by rw [hat]; decide) rfl
        rfl rfl rfl id
  | quit =>
      simp only [reactorStep, hat]
      exact quiet_of (List.forall_mem_nil _) (by rw [hat]; rfl) rfl (by rw [hat]; decide) rfl
        rfl rfl rfl id
  | failed =>
      simp only [reactorStep, hat]
      exact quiet_of (List.forall_mem_singleton.mpr rfl) (by rw [hat]; rfl) rfl
        (by rw [hat]; decide) rfl rfl rfl rfl id
  | ended =>
      simp only [reactorStep, hat]
      exact ⟨(List.forall_mem_nil _), rfl, by rw [hat]; decide, id, rfl, rfl, rfl, rfl, rfl, id⟩

/-- There is room for a reload when none is on its way. -/
theorem Requests.room_reload (h : Requests log s) (hpost : s.point = .post) :
    s.worker.post .reload true =
      some { s.worker with tasks := s.worker.tasks ++ [.reload] } := by
  have hended : s.main.joins ≠ true := fun hjoins => by
    have hpoint := h.joined hjoins
    rw [hpost] at hpoint
    cases hpoint
  have hone := h.one
  have hle := s.reloadPending.toNat_le
  have hposting : s.point.posting.toNat = 1 := by rw [hpost]; rfl
  unfold outstanding at hone
  apply TaskExecutor.post_completion
  · exact Bool.eq_false_iff.mpr fun hclosed => hended (h.closed hclosed)
  · have hroom := h.room
    have hterminals := h.terminals
    omega

/-- The exchange of `requestReload` finds the flag clear. -/
theorem Requests.exchanged (h : Requests log s) (hat : s.point = .exchange)
    (hpending : s.reloadPending = false) :
    Requests (log ++ [.requested]) { s with reloadPending := true, point := .post } := by
  have hone := h.one
  have hrequested := h.requested
  have hread := h.read
  unfold outstanding at hone
  unfold awaited at hread
  rw [hat, hpending] at hone
  rw [hat] at hread
  rw [hpending] at hrequested
  have hidle : s.work.reloading = false := by
    cases hreloading : s.work.reloading with
    | false => rfl
    | true =>
        rw [hreloading] at hone
        simp at hone
  refine
    { one := ?_
      terminals := h.terminals
      room := h.room
      joined := fun hjoins => ?_
      closed := h.closed
      point := ManagementPoint.noConfusion
      unrefused := ?_
      requested := ?_
      read := ?_
      skipped := fun hrunning => by simpa using h.skipped hrunning
      late := fun hreloading _ => absurd (hidle.symm.trans hreloading) Bool.noConfusion
      owed := fun _ _ => ?_ }
  · have hnone : s.worker.tasks.count .reload = 0 := by
      rw [Bool.toNat_false] at hone
      omega
    unfold outstanding
    rw [hnone, hidle]
    rfl
  · have hended := h.joined hjoins
    rw [hat] at hended
    cases hended
  · simpa using h.unrefused
  · simpa using hrequested
  · simp only [List.count_append, List.countP_append, awaited]
    simp [ManagementPoint.posting, ManagementEvent.reads] at hread ⊢
    omega
  · exact Nat.lt_of_lt_of_le Nat.one_pos (Nat.le_add_right_of_le (Nat.le_add_right _ _))

/-- It finds the flag set: a reload is on its way. -/
theorem Requests.merged (h : Requests log s) (hat : s.point = .exchange)
    (hpending : s.reloadPending = true) :
    Requests (log ++ [.merged]) { s with point := .loop } := by
  have hone := h.one
  unfold outstanding at hone
  rw [hat, hpending] at hone
  have hawaited : awaited { s with point := .loop } = s.awaited := by
    unfold awaited
    rw [hat]
    rfl
  refine
    { one := ?_
      terminals := h.terminals
      room := h.room
      joined := fun hjoins => ?_
      closed := h.closed
      point := ManagementPoint.noConfusion
      unrefused := by simpa using h.unrefused
      requested := by simpa using h.requested
      read := ?_
      skipped := fun hrunning => by simpa using h.skipped hrunning
      late := fun hreloading hread => ?_
      owed := fun hrunning howed => ?_ }
  · have hone' := h.one
    unfold outstanding at hone' ⊢
    rw [hat] at hone'
    exact hone'
  · have hended := h.joined hjoins
    rw [hat] at hended
    cases hended
  · rw [hawaited]
    simpa [ManagementEvent.reads] using h.read
  · rcases h.late hreloading hread with hstopping | hlate
    · exact .inl hstopping
    · exact .inr (hlate.append (by decide))
  · rw [hawaited]
    rcases howed.of_append with ⟨-, hold⟩ | ⟨-, hnew⟩
    · exact h.owed hrunning hold
    · -- the reload on its way has not read the file, or the request came late
      have hearly : ¬ Late log := fun hlate => hnew ⟨rfl, hlate⟩
      unfold awaited
      cases hreloading : s.work.reloading with
      | false =>
          rw [hreloading] at hone
          simp [ManagementPoint.posting] at hone
          omega
      | true =>
          have hunread : s.work.unread = true := by
            by_contra hread
            rcases h.late hreloading (Bool.eq_false_iff.mpr hread) with hstopping | hlate
            · exact Bool.noConfusion (hstopping.symm.trans hrunning)
            · exact hearly hlate
          rw [hunread]
          exact Nat.succ_pos _

theorem Requests.posted (h : Requests log s) (hat : s.point = .post) :
    Requests log s.postReload := by
  have hpost := h.room_reload hat
  have hone := h.one
  have hread := h.read
  have howed := h.owed
  unfold outstanding at hone
  unfold awaited at hread howed
  unfold postReload
  rw [hpost]
  rw [hat] at hone hread howed
  refine
    { one := ?_
      terminals := by simpa using h.terminals
      room := ?_
      joined := fun hjoins => ?_
      closed := h.closed
      point := ManagementPoint.noConfusion
      unrefused := h.unrefused
      requested := h.requested
      read := ?_
      skipped := h.skipped
      late := h.late
      owed := fun _ _ => ?_ }
  · simp [outstanding, ManagementPoint.posting] at hone ⊢
    omega
  · have hroom := h.room
    simp only [List.length_append, List.count_append]
    simp
    omega
  · have hended := h.joined hjoins
    rw [hat] at hended
    cases hended
  · simp [awaited, ManagementPoint.posting] at hread ⊢
    omega
  · simp [awaited]

theorem Requests.reactor (h : Requests log s) (wakeFirst fault : Bool) :
    Requests (log ++ (s.reactorStep wakeFirst fault).2) (s.reactorStep wakeFirst fault).1 := by
  by_cases hexchange : s.point = .exchange
  · simp only [reactorStep, hexchange]
    split_ifs with hpending
    · exact h.merged hexchange hpending
    · exact h.exchanged hexchange (Bool.eq_false_iff.mpr hpending)
  · by_cases hpost : s.point = .post
    · simp only [reactorStep, hpost, List.append_nil]
      exact h.posted hpost
    · exact h.quiet (quiet_reactor wakeFirst fault h.point hexchange hpost)

/-! ## The management worker -/

/-- A step of the worker that leaves the reactor and the mailbox alone. -/
theorem quiet_work (h : Requests log s) (hes : ∀ e ∈ es, e.silent = true)
    (hreloading : s'.work.reloading = s.work.reloading)
    (hunread : s'.work.unread = s.work.unread) (hpoint : s'.point = s.point)
    (hworker : s'.worker = s.worker) (hpending : s'.reloadPending = s.reloadPending)
    (hmain : s'.main = s.main) (hstopping : s'.stopping = s.stopping) : Quiet s es s' where
  silent := hes
  posting := by rw [hpoint]
  point := by rw [hpoint]; exact h.point
  ended := fun hended => hpoint.trans hended
  worker := hworker
  reloading := hreloading
  unread := hunread
  pending := hpending
  main := hmain
  stopping := fun h => hstopping.trans h

/-- The worker goes on in the same part of its task. -/
theorem Requests.goes (h : Requests log s) {next : WorkerPoint}
    (hreloading : next.reloading = s.work.reloading) (hunread : next.unread = s.work.unread) :
    Requests (log ++ []) { s with work := next } :=
  h.quiet (quiet_work h (List.forall_mem_nil _) hreloading hunread rfl rfl rfl rfl rfl)

/-- A branch of `reloadConfig` only goes on with the reload. -/
theorem quiet_rebuild (h : Requests log s) (r : Resource) {next : WorkerPoint}
    (changes : ReloadResult) (outcome : Rebuild) (hreloading : s.work.reloading = true)
    (hread : s.work.unread = false) (hnext : next.reloading = true)
    (hnext' : next.unread = false) :
    Quiet s (s.rebuild r next changes outcome).2 (s.rebuild r next changes outcome).1 := by
  have hwork := hnext.trans hreloading.symm
  have hwork' := hnext'.trans hread.symm
  unfold rebuild
  split_ifs
  · cases outcome with
    | delivered =>
        exact quiet_work h (List.forall_mem_singleton.mpr rfl) hwork hwork' rfl rfl rfl rfl rfl
    | kept => exact quiet_work h (List.forall_mem_singleton.mpr rfl) hwork hwork' rfl rfl rfl rfl rfl
    | threw =>
        exact quiet_work h (List.forall_mem_singleton.mpr rfl) hreloading.symm hread.symm rfl rfl
          rfl rfl rfl
  · exact quiet_work h (List.forall_mem_nil _) hwork hwork' rfl rfl rfl rfl rfl

/-- The worker takes the next task. -/
theorem Requests.popped (h : Requests log s) {t : WorkerTask} {rest : List WorkerTask}
    (hidle : s.work = .idle) (htasks : s.worker.tasks = t :: rest) :
    Requests log { s with worker := { s.worker with tasks := rest }, work := .task t } := by
  have hone := h.one
  have hread := h.read
  have hterminals := h.terminals
  have hroom := h.room
  have howed := h.owed
  unfold outstanding at hone
  unfold awaited at hread howed
  rw [hidle, htasks] at hone hread howed
  rw [htasks] at hterminals hroom
  have hmoved : rest.count .reload + (WorkerPoint.task t).reloading.toNat =
      (t :: rest).count .reload := by
    cases t <;> simp [WorkerPoint.reloading]
  have hmoved' : rest.count .reload + (WorkerPoint.task t).unread.toNat =
      (t :: rest).count .reload := by
    cases t <;> simp [WorkerPoint.unread]
  refine
    { one := ?_
      terminals := Nat.le_trans (List.count_le_count_cons) hterminals
      room := ?_
      joined := h.joined
      closed := h.closed
      point := h.point
      unrefused := h.unrefused
      requested := h.requested
      read := ?_
      skipped := h.skipped
      late := fun hreloading hunread => ?_
      owed := fun hrunning hasked => ?_ }
  · unfold outstanding
    rw [Nat.add_assoc, hmoved]
    exact hone
  · cases t <;> (simp at hroom ⊢; omega)
  · unfold awaited
    rw [Nat.add_assoc, hmoved']
    exact hread
  · cases t with
    | reload => cases hunread
    | _ => cases hreloading
  · have hawaited := howed hrunning hasked
    unfold awaited
    rw [Nat.add_assoc, hmoved']
    exact hawaited

/-- A reload task reads the file, or ends unread since the gateway stops. -/
theorem Requests.unread (h : Requests log s) {e : ManagementEvent} {s' : Management}
    (hwork : s.work.unread = true) (hreads : e.reads = true)
    (hreloading : s'.work.reloading = true) (hunread : s'.work.unread = false)
    (hpoint : s'.point = s.point) (hworker : s'.worker = s.worker)
    (hpending : s'.reloadPending = s.reloadPending) (hmain : s'.main = s.main)
    (hstopping : s'.stopping = s.stopping)
    (hlate : s.stopping = true ∨ e ≠ .skipped ∧ Late (log ++ [e])) :
    Requests (log ++ [e]) s' := by
  have hwork' : s.work.reloading = true := by
    cases hat : s.work with
    | task t => cases t <;> simp [hat, WorkerPoint.unread, WorkerPoint.reloading] at hwork ⊢
    | _ => simp [hat, WorkerPoint.unread, WorkerPoint.reloading] at hwork ⊢
  have hother : e ≠ .requested ∧ e ≠ .merged ∧ e ≠ .released ∧ e ≠ .refused := by
    cases e with
    | skipped => decide
    | read file => simp
    | _ => cases hreads
  have hread := h.read
  unfold awaited at hread
  rw [hwork] at hread
  refine
    { one := ?_
      terminals := by rw [hworker]; exact h.terminals
      room := by rw [hworker]; exact h.room
      joined := fun hjoins => hpoint.trans (h.joined (hmain ▸ hjoins))
      closed := fun hclosed => ?_
      point := by rw [hpoint]; exact h.point
      unrefused := ?_
      requested := ?_
      read := ?_
      skipped := fun hrunning => ?_
      late := fun _ _ => ?_
      owed := fun _ howed => ?_ }
  · have hone := h.one
    unfold outstanding at hone ⊢
    rw [hpoint, hworker, hreloading, hpending, ← hwork']
    exact hone
  · rw [hmain]
    exact h.closed (hworker ▸ hclosed)
  · simp only [List.mem_append, List.mem_singleton, not_or]
    exact ⟨h.unrefused, hother.2.2.2.symm⟩
  · rw [List.count_append, List.count_append, hpending, List.count_singleton,
      List.count_singleton, if_neg (by simpa using hother.1), if_neg (by simpa using hother.2.2.1)]
    exact h.requested
  · rw [List.count_append, List.countP_append, List.count_singleton,
      if_neg (by simpa using hother.1)]
    unfold awaited
    rw [hpoint, hworker, hunread]
    simp [hreads] at hread ⊢
    omega
  · rw [hstopping] at hrunning
    rcases hlate with hstops | ⟨hread', -⟩
    · exact absurd (hrunning.symm.trans hstops) Bool.noConfusion
    · simp only [List.mem_append, List.mem_singleton, not_or]
      exact ⟨h.skipped hrunning, Ne.symm hread'⟩
  · rw [hstopping]
    exact hlate.imp_right And.right
  · -- every request so far has been read for
    rcases howed.of_append with ⟨hnot, -⟩ | ⟨hasks, -⟩
    · exact absurd (hnot.symm.trans hreads) Bool.noConfusion
    · cases e with
      | requested => cases hreads
      | merged => cases hreads
      | _ => cases hasks

/-- The flag is cleared: no reload is on its way. -/
theorem Requests.released (h : Requests log s) (hwork : s.work = .release) :
    Requests (log ++ [.released]) { s with reloadPending := false, work := .idle } := by
  have hone := h.one
  have hrequested := h.requested
  have hread := h.read
  have hle := s.reloadPending.toNat_le
  unfold outstanding at hone
  unfold awaited at hread
  rw [hwork] at hone hread
  have hreloading : WorkerPoint.release.reloading.toNat = 1 := rfl
  have hawaited : s.awaited = awaited { s with reloadPending := false, work := .idle } := by
    unfold awaited
    rw [hwork]
    rfl
  refine
    { one := ?_
      terminals := h.terminals
      room := h.room
      joined := h.joined
      closed := h.closed
      point := h.point
      unrefused := by simpa using h.unrefused
      requested := ?_
      read := ?_
      skipped := fun hrunning => by simpa using h.skipped hrunning
      late := fun hreloading' => by cases hreloading'
      owed := fun hrunning howed => ?_ }
  · have hrest : s.point.posting.toNat + s.worker.tasks.count .reload = 0 := by omega
    unfold outstanding
    rw [hrest]
    rfl
  · have hset : s.reloadPending.toNat = 1 := by omega
    rw [hset] at hrequested
    simpa using hrequested
  · rw [← hawaited, List.countP_append]
    simpa [ManagementEvent.reads] using h.read
  · rw [← hawaited]
    rcases howed.of_append with ⟨-, hold⟩ | ⟨hasks, -⟩
    · exact h.owed hrunning hold
    · cases hasks

theorem Requests.worker (h : Requests log s) (outcome : Rebuild) :
    Requests (log ++ (s.workerStep outcome).2) (s.workerStep outcome).1 := by
  have happly : ∀ (r : Resource) (next : WorkerPoint) (changes : ReloadResult),
      s.work.reloading = true → s.work.unread = false → next.reloading = true →
      next.unread = false → Requests (log ++ (s.rebuild r next changes outcome).2)
        (s.rebuild r next changes outcome).1 :=
    fun r next changes hreloading hread hnext hnext' =>
      h.quiet (quiet_rebuild h r changes outcome hreloading hread hnext hnext')
  cases hwork : s.work with
  | idle =>
      cases htasks : s.worker.tasks with
      | nil =>
          simp only [workerStep, hwork, htasks]
          split_ifs
          · exact h.goes (by rw [hwork]; rfl) (by rw [hwork]; rfl)
          · rw [List.append_nil]
            exact h
      | cons t rest =>
          simp only [workerStep, hwork, htasks, List.append_nil]
          exact h.popped hwork htasks
  | task t =>
      cases t with
      | reload =>
          simp only [workerStep, hwork]
          split_ifs with hstopping
          · exact h.unread (by rw [hwork]; rfl) rfl rfl rfl rfl rfl rfl rfl rfl (.inl hstopping)
          · exact h.goes (by rw [hwork]; rfl) (by rw [hwork]; rfl)
      | ordinary =>
          simp only [workerStep, hwork]
          exact h.goes (by rw [hwork]; rfl) (by rw [hwork]; rfl)
      | terminal =>
          simp only [workerStep, hwork]
          exact h.goes (by rw [hwork]; rfl) (by rw [hwork]; rfl)
  | reading =>
      simp only [workerStep, hwork]
      have hlate : Late (log ++ [.read s.file]) := ⟨log, s.file, [], rfl, List.not_mem_nil⟩
      have hread : ManagementEvent.read s.file ≠ .skipped := ManagementEvent.noConfusion
      refine h.unread (by rw [hwork]; rfl) rfl ?_ ?_ rfl rfl rfl rfl rfl (.inr ⟨hread, hlate⟩)
      · unfold readConfig
        dsimp only
        split_ifs <;> rfl
      · unfold readConfig
        dsimp only
        split_ifs <;> rfl
  | level changes =>
      simp only [workerStep, hwork]
      exact h.quiet (quiet_work h (List.forall_mem_nil _) (by rw [hwork]; rfl)
        (by rw [hwork]; rfl) rfl rfl rfl rfl rfl)
  | database changes =>
      simp only [workerStep, hwork]
      exact happly .db _ changes (by rw [hwork]; rfl) (by rw [hwork]; rfl) rfl rfl
  | mqtt changes =>
      simp only [workerStep, hwork]
      exact happly .mqtt _ changes (by rw [hwork]; rfl) (by rw [hwork]; rfl) rfl rfl
  | serial changes =>
      simp only [workerStep, hwork]
      exact happly .serial _ changes (by rw [hwork]; rfl) (by rw [hwork]; rfl) rfl rfl
  | release =>
      simp only [workerStep, hwork]
      exact h.released hwork
  | exited =>
      simp only [workerStep, hwork, List.append_nil]
      exact h

/-! ## The other threads -/

/-- What touches neither the reactor, nor the worker, nor the mailbox. -/
theorem Requests.env (h : Requests log s) (hpoint : s'.point = s.point)
    (hworker : s'.worker = s.worker) (hwork : s'.work = s.work)
    (hpending : s'.reloadPending = s.reloadPending) (hmain : s'.main = s.main)
    (hstopping : s'.stopping = s.stopping) : Requests (log ++ []) s' :=
  h.quiet (quiet_work h (List.forall_mem_nil _) (by rw [hwork]) (by rw [hwork]) hpoint hworker
    hpending hmain hstopping)

theorem Requests.main (h : Requests log s) (httpFailed : Bool) :
    Requests log (s.mainStep httpFailed) := by
  have hopen : s.main.joins = false → s.worker.closed ≠ true := fun hjoins hclosed =>
    Bool.noConfusion (hjoins.symm.trans (h.closed hclosed))
  unfold mainStep
  cases hmain : s.main with
  | loop =>
      have hclosed := hopen (by rw [hmain]; rfl)
      dsimp only
      split_ifs
      · exact { h with
          joined := fun hjoins => by cases hjoins
          closed := fun h => absurd h hclosed
          skipped := fun hrunning => by cases hrunning
          late := fun _ _ => .inl rfl
          owed := fun hrunning => by cases hrunning }
      · exact h
  | stopping =>
      have hclosed := hopen (by rw [hmain]; rfl)
      exact { h with
        joined := fun hjoins => by cases hjoins
        closed := fun h => absurd h hclosed }
  | waking =>
      have hclosed := hopen (by rw [hmain]; rfl)
      exact { h with
        joined := fun hjoins => by cases hjoins
        closed := fun h => absurd h hclosed }
  | joining =>
      dsimp only
      split_ifs with hended
      · exact { h with
          joined := fun _ => hended
          closed := fun _ => rfl }
      · exact h
  | joined =>
      have hended := h.joined (by rw [hmain]; rfl)
      exact { h with
        joined := fun _ => hended
        closed := fun _ => rfl }
  | draining =>
      have hended := h.joined (by rw [hmain]; rfl)
      dsimp only
      split_ifs
      · exact { h with
          joined := fun _ => hended
          closed := fun _ => rfl }
      · exact h
  | done => exact h

/-- A task that is no reload, with room for it. -/
theorem Requests.append (h : Requests log s) {t : WorkerTask} (ht : t ≠ .reload)
    (hterminals : (s.worker.tasks ++ [t]).count .terminal ≤ kMaxCommands)
    (hroom : s.worker.tasks.length < 1024 ∨ t = .terminal) :
    Requests log { s with worker := { s.worker with tasks := s.worker.tasks ++ [t] } } := by
  have hcount : (s.worker.tasks ++ [t]).count .reload = s.worker.tasks.count .reload := by
    rw [List.count_append, List.count_singleton, if_neg (by simpa using ht), Nat.add_zero]
  have hold := h.room
  refine
    { one := ?_
      terminals := hterminals
      room := ?_
      joined := h.joined
      closed := h.closed
      point := h.point
      unrefused := h.unrefused
      requested := h.requested
      read := ?_
      skipped := h.skipped
      late := h.late
      owed := fun hrunning howed => ?_ }
  · have hone := h.one
    unfold outstanding at hone ⊢
    rw [hcount]
    exact hone
  · rw [hcount, List.length_append, List.count_append]
    rcases hroom with hroom | rfl <;> (simp; omega)
  · have hread := h.read
    unfold awaited at hread ⊢
    rw [hcount]
    exact hread
  · have hawaited := h.owed hrunning howed
    unfold awaited at hawaited ⊢
    rw [hcount]
    exact hawaited

theorem Requests.postTask (h : Requests log s) (t : WorkerTask) :
    Requests log (s.postTask t) := by
  unfold Management.postTask
  cases t with
  | ordinary =>
      cases hpost : s.worker.post .ordinary false with
      | none => exact h
      | some worker =>
          obtain ⟨-, hroom, rfl⟩ := TaskExecutor.post_eq_some hpost
          exact h.append (by decide) (by simpa using h.terminals) (.inl hroom)
  | terminal =>
      dsimp only
      split_ifs with hcredit
      · cases hpost : s.worker.post .terminal true with
        | none => exact h
        | some worker =>
            obtain ⟨-, -, rfl⟩ := TaskExecutor.post_eq_some hpost
            exact h.append (by decide) (by simpa using hcredit) (.inr rfl)
      · exact h
  | reload => exact h

theorem requests_started (m : ConfigManager) (file : Option (List UInt8)) :
    Requests [] (started m file) where
  one := rfl
  terminals := Nat.zero_le _
  room := Nat.zero_le _
  joined := fun hjoins => by cases hjoins
  closed := fun hclosed => by cases hclosed
  point := ManagementPoint.noConfusion
  unrefused := List.not_mem_nil
  requested := rfl
  read := rfl
  skipped := fun _ => List.not_mem_nil
  late := fun hreloading => by cases hreloading
  owed := by
    rintro - ⟨before, e, after, heq, -⟩
    cases before <;> cases heq

theorem Requests.step (h : Requests log s) (a : ManagementAction) :
    Requests (log ++ (s.step a).2) (s.step a).1 := by
  cases a with
  | raise signal =>
      simp only [Management.step, raise]
      split_ifs <;> exact h.env rfl rfl rfl rfl rfl rfl
  | write file => exact h.env rfl rfl rfl rfl rfl rfl
  | reactor wakeFirst fault => exact h.reactor wakeFirst fault
  | worker outcome => exact h.worker outcome
  | main httpFailed =>
      rw [show (s.step (.main httpFailed)).2 = [] from rfl, List.append_nil]
      exact h.main httpFailed
  | post t =>
      rw [show (s.step (.post t)).2 = [] from rfl, List.append_nil]
      exact h.postTask t

theorem Run.requests {m : ConfigManager} {file : Option (List UInt8)}
    (h : (started m file).Run log s) : Requests log s := by
  have hinv := Steps.invariant (I := fun s log => Requests log s)
    (fun s log es s' hs ⟨a, ha⟩ => by
      have hnext := Requests.step hs a
      rwa [ha] at hnext) [] h (requests_started m file)
  exact hinv

/-- **Requests are served.** At most one reload is on its way, no post of one is refused, and each
exchange that finds the flag clear leads to one task that reads the file or finds the gateway
stopping. As long as the gateway is not stopping, the file is read after each request or will still
be, unless the request was merged with a reload that had read the file and not yet ended. -/
theorem requests_served {m : ConfigManager} {file : Option (List UInt8)}
    (h : (started m file).Run log s) :
    s.outstanding ≤ 1 ∧ .refused ∉ log ∧
    log.count .requested = log.countP ManagementEvent.reads + s.awaited ∧
    (s.stopping = false → ∀ before e after, log = before ++ e :: after → e.asks = true →
      (∃ file, .read file ∈ after) ∨ 0 < s.awaited ∨ e = .merged ∧ Late before) := by
  have hinv := h.requests
  refine ⟨?_, hinv.unrefused, hinv.read, fun hrunning before e after heq hasks => ?_⟩
  · rw [hinv.one]
    exact s.reloadPending.toNat_le
  · by_contra hnone
    rw [not_or, not_or] at hnone
    obtain ⟨hunread, hawaited, hearly⟩ := hnone
    refine hawaited (hinv.owed hrunning ⟨before, e, after, heq, hasks, fun x hx => ?_, hearly⟩)
    have hskipped := hinv.skipped hrunning
    cases x with
    | read file => exact absurd ⟨file, hx⟩ hunread
    | skipped => exact absurd (heq ▸ List.mem_append_right _ (List.mem_cons_of_mem _ hx)) hskipped
    | _ => rfl

/-- A second SIGHUP after the file was read: the file has changed in between, and is not read again.
-/
def mergedLate : List ManagementAction :=
  [ManagementAction.raise .hup] ++ List.replicate 7 (ManagementAction.reactor false false) ++
    List.replicate 3 (ManagementAction.worker .delivered) ++
    [ManagementAction.write (some (bytes "report_n=20\n")), .raise .hup] ++
    List.replicate 6 (ManagementAction.reactor false false) ++
    List.replicate 5 (ManagementAction.worker .delivered)

theorem requests_served_merged :
    let r := (started ⟨bytes "gw.conf", {}, {}⟩ (some [])).play mergedLate
    r.2 = [.requested, .read (some []), .merged, .released] ∧
    r.1.config.current.reportN = 10 ∧ r.1.outstanding ≤ 1 ∧ .refused ∉ r.2 ∧
    r.2.count .requested = r.2.countP ManagementEvent.reads + r.1.awaited ∧
    (r.1.stopping = false → ∀ before e after, r.2 = before ++ e :: after → e.asks = true →
      (∃ file, .read file ∈ after) ∨ 0 < r.1.awaited ∨ e = .merged ∧ Late before) :=
  ⟨by decide +kernel, by decide +kernel, requests_served (run_play _ _)⟩

end Management
end EdgeGateway
