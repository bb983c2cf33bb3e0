import EdgeGateway.App.ManagementRequests

set_option autoImplicit false

/-! # Resources after reloads

A reload publishes the configuration before it rebuilds anything, and each branch of `reloadConfig`
looks at what differs from the snapshot before, not at what is in use. A resource whose rebuild
failed stays behind the published configuration until its own settings change again.
-/

namespace EdgeGateway

/-- The settings of the resource are the same in both configurations. -/
def Resource.Same (a b : Config) : Resource → Prop
  | .db => a.dbPath = b.dbPath
  | .mqtt =>
      a.mqttHost = b.mqttHost ∧ a.mqttPort = b.mqttPort ∧ a.mqttKeepalive = b.mqttKeepalive
  | .serial => a.serialPath = b.serialPath ∧ a.serialBaud = b.serialBaud

theorem Resource.same_refl (c : Config) (r : Resource) : r.Same c c := by
  cases r with
  | db => exact rfl
  | mqtt => exact ⟨rfl, rfl, rfl⟩
  | serial => exact ⟨rfl, rfl⟩

theorem Resource.Same.trans {a b c : Config} {r : Resource} (h : r.Same a b) (h' : r.Same b c) :
    r.Same a c := by
  cases r with
  | db => exact Eq.trans h h'
  | mqtt => exact ⟨h.1.trans h'.1, h.2.1.trans h'.2.1, h.2.2.trans h'.2.2⟩
  | serial => exact ⟨h.1.trans h'.1, h.2.trans h'.2⟩

/-- What is not required has the same settings as before. -/
theorem same_of_not_required {old new : Config} {r : Resource}
    (hport : old.mqttPort = new.mqttPort) (h : (differences old new).requires r = false) :
    r.Same old new := by
  cases r with
  | db => simpa [ReloadResult.requires, differences, Resource.Same] using h
  | mqtt =>
      have hrest : old.mqttHost = new.mqttHost ∧ old.mqttKeepalive = new.mqttKeepalive := by
        simpa [ReloadResult.requires, differences] using h
      exact ⟨hrest.1, hport, hrest.2⟩
  | serial => simpa [ReloadResult.requires, differences, Resource.Same] using h

/-- The rebuild of `r` is required and still to come. -/
def WorkerPoint.toApply (r : Resource) : WorkerPoint → Bool
  | .level changes | .database changes => changes.requires r
  | .mqtt changes => changes.requires r && r ≠ .db
  | .serial changes => changes.requires r && r = .serial
  | _ => false

/-- The level of the log was set since the last configuration was published. -/
def WorkerPoint.levelled : WorkerPoint → Bool
  | .level _ => false
  | _ => true

/-- The file that a reload read. -/
def ManagementEvent.fileRead : ManagementEvent → Option (Option (List UInt8))
  | .read file => some file
  | _ => none

namespace Management

/-- Since the last delivery a rebuild of `r` failed, or a reload ended with an exception. -/
def Missed (r : Resource) (log : List ManagementEvent) : Prop :=
  ∃ before e after, log = before ++ e :: after ∧ (e = .kept r ∨ e = .threw) ∧
    .delivered r ∉ after

/-- What every step keeps. -/
structure Resources (init : ConfigManager) (log : List ManagementEvent) (s : Management) :
    Prop where
  manager : ManagerInv init s.config
  history : s.config = init.reloads (log.filterMap ManagementEvent.fileRead)
  built : ∀ r, validate (s.built r) = true ∧ (s.built r).mqttPort = init.current.mqttPort ∧
    (s.built r).httpPort = init.current.httpPort
  same : ∀ r, s.work.toApply r = false → r.Same (s.built r) s.config.current ∨ Missed r log
  level : s.work.levelled = true → s.level = s.config.current.logLevel

variable {init : ConfigManager} {log es : List ManagementEvent} {s s' : Management} {r : Resource}

theorem Missed.append (h : Missed r log) (hes : .delivered r ∉ es) : Missed r (log ++ es) := by
  obtain ⟨before, e, after, rfl, he, hafter⟩ := h
  refine ⟨before, e, after ++ es, by simp, he, ?_⟩
  rw [List.mem_append, not_or]
  exact ⟨hafter, hes⟩

/-! ## The other threads -/

/-- What leaves the resources to the worker. -/
structure Aside (s : Management) (es : List ManagementEvent) (s' : Management) : Prop where
  work : s'.work = s.work
  config : s'.config = s.config
  level : s'.level = s.level
  built : s'.built = s.built
  unread : es.filterMap ManagementEvent.fileRead = []
  undelivered : ∀ r, .delivered r ∉ es

theorem Resources.aside (h : Resources init log s) (haside : Aside s es s') :
    Resources init (log ++ es) s' where
  manager := by rw [haside.config]; exact h.manager
  history := by
    rw [haside.config, List.filterMap_append, haside.unread, List.append_nil]
    exact h.history
  built := by rw [haside.built]; exact h.built
  same := fun r happly => by
    rw [haside.built, haside.config]
    rw [haside.work] at happly
    exact (h.same r happly).imp_right fun hmissed => hmissed.append (haside.undelivered r)
  level := by rw [haside.work, haside.level, haside.config]; exact h.level

theorem aside_nil (hwork : s'.work = s.work) (hconfig : s'.config = s.config)
    (hlevel : s'.level = s.level) (hbuilt : s'.built = s.built) : Aside s [] s' :=
  ⟨hwork, hconfig, hlevel, hbuilt, rfl, fun _ => List.not_mem_nil⟩

theorem aside_loop (wakeFirst fault : Bool) : Aside s [] (s.loop wakeFirst fault) := by
  unfold loop
  split
  · exact aside_nil rfl rfl rfl rfl
  · exact aside_nil rfl rfl rfl rfl
  · split_ifs <;> exact aside_nil rfl rfl rfl rfl

theorem aside_onSignals (fault : Bool) : Aside s [] (s.onSignals fault) := by
  unfold onSignals
  split_ifs <;> exact aside_nil rfl rfl rfl rfl

theorem aside_dispatch (signals : List Signal) : Aside s [] (s.dispatch signals) := by
  unfold dispatch
  dsimp only
  split_ifs <;> exact aside_nil rfl rfl rfl rfl

theorem aside_postReload : Aside s [] s.postReload := by
  unfold postReload
  split <;> exact aside_nil rfl rfl rfl rfl

theorem aside_onStop (fault : Bool) : Aside s [] (s.onStop fault) := by
  unfold onStop
  split_ifs <;> exact aside_nil rfl rfl rfl rfl

theorem aside_reactor (wakeFirst fault : Bool) :
    Aside s (s.reactorStep wakeFirst fault).2 (s.reactorStep wakeFirst fault).1 := by
  unfold reactorStep
  split
  · exact aside_loop wakeFirst fault
  · exact aside_onSignals fault
  · exact aside_dispatch _
  · split_ifs <;> exact ⟨rfl, rfl, rfl, rfl, rfl, by simp⟩
  · exact aside_nil rfl rfl rfl rfl
  · split_ifs <;> exact ⟨rfl, rfl, rfl, rfl, rfl, by simp⟩
  · exact aside_postReload
  · exact ⟨rfl, rfl, rfl, rfl, rfl, by simp⟩
  · exact aside_onStop fault
  · exact aside_nil rfl rfl rfl rfl
  · exact aside_nil rfl rfl rfl rfl
  · exact ⟨rfl, rfl, rfl, rfl, rfl, by simp⟩
  · exact aside_nil rfl rfl rfl rfl

theorem aside_main (httpFailed : Bool) : Aside s [] (s.mainStep httpFailed) := by
  unfold mainStep
  split
  · split_ifs <;> exact aside_nil rfl rfl rfl rfl
  · exact aside_nil rfl rfl rfl rfl
  · exact aside_nil rfl rfl rfl rfl
  · split_ifs <;> exact aside_nil rfl rfl rfl rfl
  · exact aside_nil rfl rfl rfl rfl
  · split_ifs <;> exact aside_nil rfl rfl rfl rfl
  · exact aside_nil rfl rfl rfl rfl

theorem aside_post (t : WorkerTask) : Aside s [] (s.postTask t) := by
  unfold postTask
  split
  · exact aside_nil rfl rfl rfl rfl
  · split_ifs <;> exact aside_nil rfl rfl rfl rfl
  · exact aside_nil rfl rfl rfl rfl

theorem aside_raise (signal : Signal) : Aside s [] (s.raise signal) := by
  unfold raise
  split_ifs <;> exact aside_nil rfl rfl rfl rfl

/-! ## The management worker -/

/-- The worker goes on without touching what it has applied. -/
theorem Resources.goes (h : Resources init log s) {next : WorkerPoint}
    (happly : ∀ r, next.toApply r = false → s.work.toApply r = false)
    (hlevel : s.level = s.config.current.logLevel) : Resources init log { s with work := next } :=
  { h with
    same := fun r hnext => h.same r (happly r hnext)
    level := fun _ => hlevel }

/-- One branch of `reloadConfig`: the resource is that of the published configuration, was not
required to be, or is missed. -/
theorem Resources.rebuild (h : Resources init log s) (r : Resource) {next : WorkerPoint}
    (changes : ReloadResult) (outcome : Rebuild) (hlevelled : s.work.levelled = true)
    (hother : ∀ q, q ≠ r → next.toApply q = false → s.work.toApply q = false)
    (hrequired : changes.requires r = false → s.work.toApply r = false) :
    Resources init (log ++ (s.rebuild r next changes outcome).2)
      (s.rebuild r next changes outcome).1 := by
  have hlevel := h.level hlevelled
  have hhistory : ∀ e : ManagementEvent, e.fileRead = none →
      s.config = init.reloads ((log ++ [e]).filterMap ManagementEvent.fileRead) := by
    intro e he
    rw [List.filterMap_append, List.filterMap_cons_none he, List.filterMap_nil, List.append_nil]
    exact h.history
  -- the other resources: what was said of them before
  have hold : ∀ (e : ManagementEvent) (q : Resource), e ≠ .delivered q → q ≠ r →
      next.toApply q = false → q.Same (s.built q) s.config.current ∨ Missed q (log ++ [e]) := by
    intro e q he hq hnext
    refine (h.same q (hother q hq hnext)).imp_right fun hmissed => hmissed.append ?_
    rw [List.mem_singleton]
    exact Ne.symm he
  unfold Management.rebuild
  split_ifs with hneeded
  · cases outcome with
    | delivered =>
        refine
          { manager := h.manager
            history := hhistory _ rfl
            built := fun q => ?_
            same := fun q hnext => ?_
            level := fun _ => hlevel }
        · dsimp only
          by_cases hq : q = r
          · rw [hq, Function.update_self]
            exact ⟨h.manager.valid, h.manager.mqttPort, h.manager.httpPort⟩
          · rw [Function.update_of_ne hq]
            exact h.built q
        · dsimp only
          by_cases hq : q = r
          · rw [hq, Function.update_self]
            exact .inl (r.same_refl _)
          · rw [Function.update_of_ne hq]
            refine hold _ q ?_ hq hnext
            exact fun heq => hq (ManagementEvent.delivered.inj heq).symm
    | kept =>
        refine
          { manager := h.manager
            history := hhistory _ rfl
            built := h.built
            same := fun q hnext => ?_
            level := fun _ => hlevel }
        by_cases hq : q = r
        · exact .inr ⟨log, .kept r, [], rfl, .inl (by rw [hq]), List.not_mem_nil⟩
        · exact hold _ q ManagementEvent.noConfusion hq hnext
    | threw =>
        exact
          { manager := h.manager
            history := hhistory _ rfl
            built := h.built
            same := fun q _ => .inr ⟨log, .threw, [], rfl, .inr rfl, List.not_mem_nil⟩
            level := fun _ => hlevel }
  · rw [List.append_nil]
    refine h.goes (fun q hnext => ?_) hlevel
    by_cases hq : q = r
    · rw [hq]
      exact hrequired (Bool.eq_false_iff.mpr hneeded)
    · exact hother q hq hnext

/-- A reload publishes the configuration that it read, or fails and changes nothing. -/
theorem Resources.readConfig (h : Resources init log s) (hwork : s.work = .reading) :
    Resources init (log ++ s.readConfig.2) s.readConfig.1 := by
  have hlevel := h.level (by rw [hwork]; rfl)
  have hmanager := h.manager.reload s.file
  have hhistory : (s.config.reload s.file).2 =
      init.reloads ((log ++ [ManagementEvent.read s.file]).filterMap ManagementEvent.fileRead) := by
    rw [List.filterMap_append, ConfigManager.reloads, List.foldl_append]
    have hbefore := h.history
    unfold ConfigManager.reloads at hbefore
    rw [← hbefore]
    rfl
  have hold : ∀ r, r.Same (s.built r) s.config.current ∨ Missed r (log ++ [.read s.file]) := by
    intro r
    refine (h.same r (by rw [hwork]; rfl)).imp_right fun hmissed => hmissed.append ?_
    simp
  unfold Management.readConfig
  dsimp only
  rcases reload_cases s.config s.file with ⟨fresh, -, -, heq⟩ | ⟨-, heq⟩
  · have hok : (differences s.config.current (fresh.withPorts s.config.startup)).ok = true := rfl
    rw [heq] at hmanager hhistory ⊢
    dsimp only
    rw [if_pos hok]
    have hport := h.manager.mqttPort.trans hmanager.mqttPort.symm
    refine
      { manager := hmanager
        history := hhistory
        built := h.built
        same := fun r happly => ?_
        level := fun hlevelled => by cases hlevelled }
    exact (hold r).imp_left fun hsame => hsame.trans (same_of_not_required hport happly)
  · rw [heq] at hmanager hhistory ⊢
    dsimp only
    rw [if_neg Bool.false_ne_true]
    exact
      { manager := hmanager
        history := hhistory
        built := h.built
        same := fun r _ => hold r
        level := fun _ => hlevel }

theorem Resources.worker (h : Resources init log s) (outcome : Rebuild) :
    Resources init (log ++ (s.workerStep outcome).2) (s.workerStep outcome).1 := by
  cases hwork : s.work with
  | idle =>
      have hlevel := h.level (by rw [hwork]; rfl)
      have happly : ∀ r, s.work.toApply r = false := fun r => by rw [hwork]; rfl
      simp only [workerStep, hwork]
      split
      · rw [List.append_nil]
        exact { h with
          same := fun r _ => h.same r (happly r)
          level := fun _ => hlevel }
      · rw [List.append_nil]
        split_ifs
        · exact h.goes (fun r _ => happly r) hlevel
        · exact h
  | task t =>
      have hlevel := h.level (by rw [hwork]; rfl)
      have happly : ∀ r, s.work.toApply r = false := fun r => by rw [hwork]; rfl
      cases t with
      | reload =>
          simp only [workerStep, hwork]
          split_ifs
          · have haside : Aside s [.skipped] s := ⟨rfl, rfl, rfl, rfl, rfl, by simp⟩
            exact (h.aside haside).goes (fun r _ => happly r) hlevel
          · rw [List.append_nil]
            exact h.goes (fun r _ => happly r) hlevel
      | ordinary =>
          simp only [workerStep, hwork, List.append_nil]
          exact h.goes (fun r _ => happly r) hlevel
      | terminal =>
          simp only [workerStep, hwork, List.append_nil]
          exact h.goes (fun r _ => happly r) hlevel
  | reading =>
      simp only [workerStep, hwork]
      exact h.readConfig hwork
  | level changes =>
      simp only [workerStep, hwork, List.append_nil]
      exact { h with
        same := fun r happly => h.same r (by rw [hwork]; exact happly)
        level := fun _ => rfl }
  | database changes =>
      simp only [workerStep, hwork]
      refine h.rebuild .db changes outcome (by rw [hwork]; rfl) (fun q hq hnext => ?_)
        fun hrequired => by rw [hwork]; exact hrequired
      rw [hwork]
      simpa [WorkerPoint.toApply, hq] using hnext
  | mqtt changes =>
      simp only [workerStep, hwork]
      refine h.rebuild .mqtt changes outcome (by rw [hwork]; rfl) (fun q hq hnext => ?_)
        fun hrequired => ?_
      · rw [hwork]
        cases q <;> simp_all [WorkerPoint.toApply]
      · rw [hwork]
        simp [WorkerPoint.toApply, hrequired]
  | serial changes =>
      simp only [workerStep, hwork]
      refine h.rebuild .serial changes outcome (by rw [hwork]; rfl) (fun q hq _ => ?_)
        fun hrequired => ?_
      · rw [hwork]
        simp [WorkerPoint.toApply, hq]
      · rw [hwork]
        simp [WorkerPoint.toApply, hrequired]
  | release =>
      have hlevel := h.level (by rw [hwork]; rfl)
      simp only [workerStep, hwork]
      have haside : Aside s [.released] { s with reloadPending := false } :=
        ⟨rfl, rfl, rfl, rfl, rfl, by simp⟩
      exact (h.aside haside).goes (fun r _ => by show s.work.toApply r = false; rw [hwork]; rfl)
        hlevel
  | exited =>
      simp only [workerStep, hwork, List.append_nil]
      exact h

theorem Resources.step (h : Resources init log s) (a : ManagementAction) :
    Resources init (log ++ (s.step a).2) (s.step a).1 := by
  cases a with
  | raise signal => exact h.aside (aside_raise signal)
  | write file => exact h.aside (aside_nil rfl rfl rfl rfl)
  | reactor wakeFirst fault => exact h.aside (aside_reactor wakeFirst fault)
  | worker outcome => exact h.worker outcome
  | main httpFailed => exact h.aside (aside_main httpFailed)
  | post t => exact h.aside (aside_post t)

end Management
end EdgeGateway
