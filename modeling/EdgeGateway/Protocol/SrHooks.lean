import EdgeGateway.Protocol.SrCall

set_option autoImplicit false

/-! # The rule of the hooks

A call of the receiver changes the user's state by its hooks alone, and it records every use of a
hook. So what relates the user's state to the record, and is kept by each hook, is kept by the
calls (`EdgeSrHooks.Keeps.call`).
-/

namespace EdgeGateway

variable {τ σ : Type}

/-- The types of the frames that a receiver emits. -/
def srUplink (type : UInt8) : Bool :=
  type = EDGE_TYPE_SR_RECEIVED ∨ type = EDGE_TYPE_SR_RESULT ∨ type = EDGE_TYPE_SR_OPEN_ACK

/-- Each hook keeps `J` together with the entry it leaves in the record, and the node's own marks do
not matter to `J`. -/
structure EdgeSrHooks.Keeps (hooks : EdgeSrHooks τ σ) (J : σ → List (NodeEvent τ) → Prop) :
    Prop where
  nowMs : ∀ user es, J user es → J (hooks.nowMs user).2 (es ++ [.now (hooks.nowMs user).1])
  execute : ∀ user es (c : Command), J user es →
    J (hooks.execute c.seq c.type c.args user).2
      (es ++ [.execute c (hooks.execute c.seq c.type c.args user).1])
  emit : ∀ user es type payload, srUplink type = true → J user es →
    J (hooks.emit type payload user) (es ++ [.emit type payload])
  close : ∀ user es session, J user es → J user (es ++ [.close session])
  store : ∀ user es c, J user es → J user (es ++ [.store c])

namespace EdgeSrHooks.Keeps

variable {hooks : EdgeSrHooks τ σ} {J : σ → List (NodeEvent τ) → Prop} (h : hooks.Keeps J)

/-- A record may have begun before. -/
theorem behind (h : hooks.Keeps J) (done : List (NodeEvent τ)) :
    hooks.Keeps fun user es => J user (done ++ es) where
  nowMs := fun user es hJ => by
    rw [← List.append_assoc]
    exact h.nowMs user _ hJ
  execute := fun user es c hJ => by
    rw [← List.append_assoc]
    exact h.execute user _ c hJ
  emit := fun user es type payload htype hJ => by
    rw [← List.append_assoc]
    exact h.emit user _ type payload htype hJ
  close := fun user es session hJ => by
    rw [← List.append_assoc]
    exact h.close user _ session hJ
  store := fun user es c hJ => by
    rw [← List.append_assoc]
    exact h.store user _ c hJ

include h

variable {r : NodeRun τ σ}

theorem closes {user : σ} {es marks : List (NodeEvent τ)}
    (hmarks : ∀ e ∈ marks, ∃ session, e = .close session) (hJ : J user es) :
    J user (es ++ marks) := by
  induction marks using List.reverseRecOn with
  | nil => rwa [List.append_nil]
  | append_singleton marks e ih =>
      obtain ⟨session, rfl⟩ := hmarks e (by simp)
      rw [← List.append_assoc]
      exact h.close user _ session (ih fun e he => hmarks e (by simp [he]))

theorem emitReceived (seq : UInt8) (hJ : J r.user r.events) :
    J (emitReceived hooks seq r).user (emitReceived hooks seq r).events :=
  h.emit _ _ _ _ rfl hJ

theorem emitResult (i : Slot) (hJ : J r.user r.events) :
    J (emitResult hooks i r).user (emitResult hooks i r).events :=
  h.emit _ _ _ _ rfl hJ

theorem executeEntry (i : Slot) (hJ : J r.user r.events) :
    J (executeEntry hooks i r).user (executeEntry hooks i r).events :=
  h.emit _ _ _ _ rfl (h.nowMs _ _ (h.execute _ _ (r.node.commandOf (r.node.entries i)) hJ))

theorem onOpen (session : UInt64) (hJ : J r.user r.events) :
    J (onOpen hooks session r).user (onOpen hooks session r).events := by
  refine h.emit _ _ _ _ rfl ?_
  split_ifs
  · exact hJ
  · exact hJ

omit h in
theorem onResultAck (seq : UInt8) (len : Nat) (hJ : J r.user r.events) :
    J (onResultAck seq len r).user (onResultAck seq len r).events := by
  unfold EdgeGateway.onResultAck
  cases findEntry r.node seq with
  | none => exact hJ
  | some i =>
      dsimp only
      split_ifs
      · exact hJ
      · exact hJ

variable [Clock τ]

theorem expire (now : τ) (hJ : J r.user r.events) :
    J (expire now r).user (expire now r).events := by
  rw [expire_events]
  exact h.closes (fun e he => ⟨_, mem_expiry he⟩) hJ

theorem deliverLoop (fuel : Nat) : ∀ r : NodeRun τ σ, J r.user r.events →
    J (deliverLoop hooks fuel r).user (deliverLoop hooks fuel r).events := by
  induction fuel with
  | zero => exact fun r hJ => hJ
  | succ fuel ih =>
      intro r hJ
      have hexpired := h.expire (hooks.nowMs r.user).1 (h.nowMs r.user r.events hJ)
        (r := (r.nowMs hooks).2)
      unfold EdgeGateway.deliverLoop
      dsimp only
      split_ifs
      · exact hexpired
      · split
        · exact hexpired
        · split_ifs
          · exact hexpired
          · exact ih _ (h.executeEntry _ hexpired)

theorem onNewCommand (now : τ) (seq command : UInt8) (args : List UInt8)
    (hJ : J r.user r.events) :
    J (onNewCommand hooks now seq command args r).user
      (onNewCommand hooks now seq command args r).events := by
  unfold EdgeGateway.onNewCommand
  split_ifs
  · exact h.emitReceived seq hJ
  · exact hJ
  · cases freeEntry r.node with
    | none => exact hJ
    | some i =>
        -- stored, confirmed, and whatever is due is executed
        exact h.deliverLoop _ _ (h.emitReceived seq (h.store _ _ _ hJ))

theorem onCommand (now : τ) (seq command : UInt8) (args : List UInt8) (hJ : J r.user r.events) :
    J (onCommand hooks now seq command args r).user
      (onCommand hooks now seq command args r).events := by
  unfold EdgeGateway.onCommand
  cases findEntry r.node seq with
  | none => exact h.onNewCommand now seq command args hJ
  | some i =>
      dsimp only
      split_ifs
      · exact hJ
      · exact h.emitResult i (h.emitReceived seq hJ)
      · exact h.emitReceived seq hJ

theorem handleFrame (now : τ) (type : UInt8) (payload : Option (List UInt8))
    (hJ : J r.user r.events) :
    J (handleFrame hooks now type payload r).user
      (handleFrame hooks now type payload r).events := by
  unfold EdgeGateway.handleFrame
  cases payload with
  | none => exact hJ
  | some p =>
      dsimp only
      split_ifs
      · exact hJ
      · exact hJ
      · exact h.onOpen _ hJ
      · exact hJ
      · exact onResultAck _ _ hJ
      · exact hJ
      · exact h.onCommand _ _ _ _ hJ

theorem tickLoop (now : τ) (is : List Slot) : ∀ r : NodeRun τ σ, J r.user r.events →
    J (tickLoop hooks now is r).user (tickLoop hooks now is r).events := by
  induction is with
  | nil => exact fun r hJ => hJ
  | cons i rest ih =>
      intro r hJ
      unfold EdgeGateway.tickLoop
      dsimp only
      split_ifs
      · exact ih _ (h.emitResult i hJ)
      · exact ih r hJ

theorem started {n : EdgeSrNode τ} {user : σ} (hJ : J user []) :
    J (started hooks n user).user (started hooks n user).events :=
  h.expire _ (h.nowMs user [] hJ)

theorem onFrame {n : EdgeSrNode τ} {user : σ} (type : UInt8) (payload : Option (List UInt8))
    (hJ : J user []) : J (edgeSrNodeOnFrame hooks n user type payload).user
      (edgeSrNodeOnFrame hooks n user type payload).events := by
  rw [onFrame_eq]
  exact h.handleFrame _ type payload (h.started hJ)

theorem tick {n : EdgeSrNode τ} {user : σ} (hJ : J user []) :
    J (edgeSrNodeTick hooks n user).user (edgeSrNodeTick hooks n user).events := by
  rw [tick_eq]
  split_ifs
  · exact h.started hJ
  · exact h.tickLoop _ _ _ (h.started hJ)

end EdgeSrHooks.Keeps

end EdgeGateway
