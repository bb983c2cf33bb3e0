import EdgeGateway.Core.Config

set_option autoImplicit false

/-! # Reloads over whole histories of a file

A reload either publishes the parse of the file with the ports of `init`, or leaves everything as
it was. It fails in one of three ways: the file cannot be opened, a known integer does not parse to
its end, or the values of the file do not validate.
-/

namespace EdgeGateway

/-! ## When a file parses -/

/-- The values of a file with the ports that `init` saw. -/
def Config.withPorts (fresh startup : Config) : Config :=
  { fresh with mqttPort := startup.mqttPort, httpPort := startup.httpPort }

/-- What is published from `old` to `new`. -/
def differences (old new : Config) : ReloadResult where
  ok := true
  serialRebuildRequired := old.serialPath ≠ new.serialPath ∨ old.serialBaud ≠ new.serialBaud
  mqttRebuildRequired := old.mqttHost ≠ new.mqttHost ∨ old.mqttKeepalive ≠ new.mqttKeepalive
  dbSwapRequired := old.dbPath ≠ new.dbPath

/-- A reload publishes everything or nothing. -/
theorem reload_cases (m : ConfigManager) (file : Option (List UInt8)) :
    (∃ fresh, parseFile m.path file = .ok fresh ∧ validate fresh = true ∧
      m.reload file = (differences m.current (fresh.withPorts m.startup),
        { m with current := fresh.withPorts m.startup })) ∨
    (∀ fresh, parseFile m.path file = .ok fresh → validate fresh = false) ∧
      m.reload file = ({}, m) := by
  unfold ConfigManager.reload
  cases hparse : parseFile m.path file with
  | error e => exact .inr ⟨(fun _ h => by cases h), rfl⟩
  | ok fresh =>
      cases hvalid : validate fresh with
      | false =>
          refine .inr ⟨fun c h => ?_, if_neg (Bool.eq_false_iff.mp hvalid)⟩
          rw [← Except.ok.inj h]
          exact hvalid
      | true => exact .inl ⟨fresh, rfl, hvalid, if_pos hvalid⟩

/-- The ports of a valid configuration may be put into another one. -/
theorem validate_withPorts {fresh startup : Config} (hfresh : validate fresh = true)
    (hstartup : validate startup = true) : validate (fresh.withPorts startup) = true := by
  simp only [validate, decide_eq_true_eq] at hfresh hstartup
  unfold validate
  rw [decide_eq_true_eq]
  exact ⟨hstartup.1, hstartup.2.1, hfresh.2.2⟩

/-! ## Histories -/

/-- What every reload of a history preserves. -/
structure ManagerInv (init m : ConfigManager) : Prop where
  path : m.path = init.path
  startup : m.startup = init.current
  startup_valid : validate m.startup = true
  valid : validate m.current = true
  mqttPort : m.current.mqttPort = init.current.mqttPort
  httpPort : m.current.httpPort = init.current.httpPort

theorem ManagerInv.reload {init m : ConfigManager} (h : ManagerInv init m)
    (file : Option (List UInt8)) : ManagerInv init (m.reload file).2 := by
  rcases reload_cases m file with ⟨fresh, -, hvalid, heq⟩ | ⟨-, heq⟩
  · have hmqtt : m.startup.mqttPort = init.current.mqttPort := by rw [h.startup]
    have hhttp : m.startup.httpPort = init.current.httpPort := by rw [h.startup]
    rw [heq]
    exact
      { path := h.path
        startup := h.startup
        startup_valid := h.startup_valid
        valid := validate_withPorts hvalid h.startup_valid
        mqttPort := hmqtt
        httpPort := hhttp }
  · rw [heq]
    exact h

theorem ManagerInv.reloads {init m : ConfigManager} (h : ManagerInv init m)
    (files : List (Option (List UInt8))) : ManagerInv init (m.reloads files) := by
  induction files generalizing m with
  | nil => exact h
  | cons file files ih => exact ih (h.reload file)

end EdgeGateway
