import EdgeGateway.Basic.Steps
import EdgeGateway.Protocol.Sr

set_option autoImplicit false

/-! # The receiver's calls as sequences of elementary actions

Everything `edge_sr_node_on_frame` and `edge_sr_node_tick` do to the node is one of the eleven
actions of `NodeAct`, each with its guard and with what it takes from the call's input. An invariant
of the receiver is proved by looking at the actions alone.
-/

namespace EdgeGateway

variable {τ σ : Type} [Clock τ]

/-! ## Inputs -/

/-- What a call brings to the node: a session to open, a command to store, or neither. -/
inductive NodeInput
  | silent
  | openSession (session : UInt64)
  | command (c : Command)

/-- The fields of an `SR_OPEN` or `SR_COMMAND` frame that passes the length checks. -/
def nodeInput (type : UInt8) (payload : Option (List UInt8)) : NodeInput :=
  match payload with
  | none => .silent
  | some p =>
      if p.length > EDGE_PAYLOAD_MAX then .silent
      else if type = EDGE_TYPE_SR_OPEN ∧ p.length = 8 then .openSession (edgeU64BeRead p)
      else if type = EDGE_TYPE_SR_COMMAND ∧ p.length ≥ 10 then
        .command ⟨edgeU64BeRead p, p.getD 8 0, p.getD 9 0, p.drop 10⟩
      else .silent

theorem nodeInput_open {p : List UInt8} (h : p.length = 8) :
    nodeInput EDGE_TYPE_SR_OPEN (some p) = .openSession (edgeU64BeRead p) := by
  have hle : ¬ p.length > EDGE_PAYLOAD_MAX := by simp [h, EDGE_PAYLOAD_MAX]
  rw [nodeInput, if_neg hle, if_pos ⟨rfl, h⟩]

theorem nodeInput_command {p : List UInt8} (hmax : p.length ≤ EDGE_PAYLOAD_MAX)
    (hmin : 10 ≤ p.length) :
    nodeInput EDGE_TYPE_SR_COMMAND (some p) =
      .command ⟨edgeU64BeRead p, p.getD 8 0, p.getD 9 0, p.drop 10⟩ := by
  have hle : ¬ p.length > EDGE_PAYLOAD_MAX := Nat.not_lt.mpr hmax
  have hne : ¬ (EDGE_TYPE_SR_COMMAND = EDGE_TYPE_SR_OPEN ∧ p.length = 8) := by omega
  simp only [nodeInput, if_neg hle, if_neg hne, ge_iff_le, hmin, and_self, if_true]

/-! ## Actions -/

def EdgeSrNode.closed (n : EdgeSrNode τ) : EdgeSrNode τ := clearEntries { n with active := false }

def EdgeSrNode.opened (n : EdgeSrNode τ) (session : UInt64) : EdgeSrNode τ :=
  { clearEntries n with session := session, base := 0, active := true }

def EdgeSrNode.freed (n : EdgeSrNode τ) (i : Slot) : EdgeSrNode τ :=
  n.setEntry i { n.entries i with state := .free }

def EdgeSrNode.resent (n : EdgeSrNode τ) (i : Slot) (now : τ) : EdgeSrNode τ :=
  n.setEntry i { n.entries i with retries := (n.entries i).retries + 1, lastSentAt := now }

def EdgeSrNode.received (n : EdgeSrNode τ) (i : Slot) (seq command : UInt8) (args : List UInt8)
    (now : τ) : EdgeSrNode τ :=
  n.setEntry i ((n.entries i).receive seq command args now)

def EdgeSrNode.executed (n : EdgeSrNode τ) (i : Slot) (result : List UInt8) (now : τ) :
    EdgeSrNode τ :=
  { n.setEntry i ((n.entries i).complete result now) with base := n.base + 1 }

section Slots

variable {n : EdgeSrNode τ}

omit [Clock τ]

theorem received_self (i : Slot) (seq command : UInt8) (args : List UInt8) (now : τ) :
    (n.received i seq command args now).entries i = (n.entries i).receive seq command args now := by
  rw [EdgeSrNode.received, setEntry_entries, if_pos rfl]

theorem received_other {i j : Slot} (h : j ≠ i) (seq command : UInt8) (args : List UInt8)
    (now : τ) : (n.received i seq command args now).entries j = n.entries j := by
  rw [EdgeSrNode.received, setEntry_entries, if_neg h]

theorem executed_self (i : Slot) (raw : List UInt8) (now : τ) :
    (n.executed i raw now).entries i = (n.entries i).complete raw now := by
  show (n.setEntry i _).entries i = _
  rw [setEntry_entries, if_pos rfl]

theorem executed_other {i j : Slot} (h : j ≠ i) (raw : List UInt8) (now : τ) :
    (n.executed i raw now).entries j = n.entries j := by
  show (n.setEntry i _).entries j = _
  rw [setEntry_entries, if_neg h]

end Slots

/-- The record of the slot's result being sent. -/
def EdgeSrNode.resultEvent (n : EdgeSrNode τ) (i : Slot) : NodeEvent τ :=
  .emit EDGE_TYPE_SR_RESULT
    (resultPayload n.session (n.entries i).seq (n.entries i).command (n.entries i).result)

/-- The elementary actions of the receiver in a call with the given input. -/
inductive NodeAct (inp : NodeInput) : EdgeSrNode τ → List (NodeEvent τ) → EdgeSrNode τ → Prop
  /-- The clock is read. -/
  | now (n : EdgeSrNode τ) (t : τ) : NodeAct inp n [.now t] n
  /-- A buffered command has waited too long behind a gap. -/
  | close (n : EdgeSrNode τ) (i : Slot) (now : τ) (hgap : n.gap = true)
      (hstate : (n.entries i).state = .buffered)
      (hage : Clock.elapsed now (n.entries i).receivedAt ≥ EDGE_COMMAND_LIFETIME_MS) :
      NodeAct inp n [.close n.session] n.closed
  /-- A result is past its lifetime. -/
  | drop (n : EdgeSrNode τ) (i : Slot) (now : τ) (hstate : (n.entries i).state = .executed)
      (hage : Clock.elapsed now (n.entries i).completedAt ≥ EDGE_SR_RESULT_TTL_MS) :
      NodeAct inp n [] (n.freed i)
  /-- A result is acknowledged. -/
  | acked (n : EdgeSrNode τ) (i : Slot) (hactive : n.active = true)
      (hstate : (n.entries i).state = .executed) : NodeAct inp n [] (n.freed i)
  /-- A higher session is opened. -/
  | open (n : EdgeSrNode τ) (session : UInt64) (hinp : inp = .openSession session)
      (hlt : n.session < session) :
      NodeAct inp n [] (n.opened session)
  /-- An OPEN is answered. -/
  | openAck (n : EdgeSrNode τ) (session : UInt64) (hinp : inp = .openSession session) :
      NodeAct inp n [.emit EDGE_TYPE_SR_OPEN_ACK (openAckPayload session n.session
        (if session = n.session ∧ n.active = true then EDGE_RC_OK else EDGE_RC_BAD_PARAM))] n
  /-- A command is stored and confirmed; nothing is executed yet. -/
  | store (n : EdgeSrNode τ) (i : Slot) (seq command : UInt8) (args : List UInt8) (now : τ)
      (hinp : inp = .command ⟨n.session, seq, command, args⟩) (hactive : n.active = true)
      (hfree : (n.entries i).state = .free) (hnew : findEntry n seq = none)
      (hge : n.base ≤ seq.toNat)
      (hlt : seq.toNat < n.base + EDGE_SR_WINDOW_SIZE) (hargs : args.length ≤ EDGE_SR_ARGS_MAX) :
      NodeAct inp n [.store ⟨n.session, seq, command, args⟩,
        .emit EDGE_TYPE_SR_RECEIVED (receivedPayload n.session seq)]
        (n.received i seq command args now)
  /-- A stored or already executed command is confirmed. -/
  | confirm (n : EdgeSrNode τ) (seq : UInt8) (hactive : n.active = true)
      (hknown : seq.toNat < n.base ∨ ∃ i, (n.entries i).state ≠ .free ∧ (n.entries i).seq = seq) :
      NodeAct inp n [.emit EDGE_TYPE_SR_RECEIVED (receivedPayload n.session seq)] n
  /-- The command at `base` is executed. -/
  | execute (n : EdgeSrNode τ) (i : Slot) (result : List UInt8) (now : τ)
      (hactive : n.active = true) (hbase : n.base < 256)
      (hseq : (n.entries i).seq = UInt8.ofNat n.base) (hstate : (n.entries i).state = .buffered) :
      NodeAct inp n [.execute (n.commandOf (n.entries i)) result, .now now] (n.executed i result now)
  /-- A stored result is sent. -/
  | result (n : EdgeSrNode τ) (i : Slot) (hactive : n.active = true)
      (hstate : (n.entries i).state = .executed) : NodeAct inp n [n.resultEvent i] n
  /-- A retransmission is counted. -/
  | resend (n : EdgeSrNode τ) (i : Slot) (now : τ) (hstate : (n.entries i).state = .executed)
      (hretries : (n.entries i).retries < EDGE_MAX_RETRY)
      (hage : Clock.elapsed now (n.entries i).lastSentAt ≥ EDGE_ACK_TIMEOUT_MS) :
      NodeAct inp n [] (n.resent i now)

/-! ## Replaying a call in progress -/

/-- `r'` is `r` after some actions, with what they recorded. -/
def Replays (inp : NodeInput) (r r' : NodeRun τ σ) : Prop :=
  ∃ es, r'.events = r.events ++ es ∧ Steps (NodeAct inp) r.node es r'.node

variable {inp : NodeInput}

theorem Replays.trans {r s t : NodeRun τ σ} (h : Replays inp r s) (h' : Replays inp s t) :
    Replays inp r t := by
  obtain ⟨es, he, hs⟩ := h
  obtain ⟨es', he', hs'⟩ := h'
  exact ⟨es ++ es', by rw [he', he, List.append_assoc], hs.trans hs'⟩

theorem replays_nowMs (hooks : EdgeSrHooks τ σ) (r : NodeRun τ σ) :
    Replays inp r (r.nowMs hooks).2 :=
  ⟨_, rfl, Steps.single (.now r.node (hooks.nowMs r.user).1)⟩

/-- The gap test looks at the occupied slots only, so freeing a result does not create a gap
that a buffered command does not see. -/
theorem expireLoop_acts (gap : Bool) (now : τ) (is : List Slot) :
    ∀ n : EdgeSrNode τ, (gap = true → n.gap = true) →
      Steps (NodeAct inp) n (expireLoop gap now n is).2 (expireLoop gap now n is).1 := by
  induction is with
  | nil => intro n _; exact Steps.refl n
  | cons i rest ih =>
      intro n hgap
      unfold expireLoop
      by_cases hclose : gap ∧ (n.entries i).state = .buffered ∧
          Clock.elapsed now (n.entries i).receivedAt ≥ EDGE_COMMAND_LIFETIME_MS
      · simp only [hclose, and_self, if_true]
        exact Steps.single (.close n i now (hgap hclose.1) hclose.2.1 hclose.2.2)
      · simp only [if_neg hclose]
        by_cases hdrop : (n.entries i).state = .executed ∧
            Clock.elapsed now (n.entries i).completedAt ≥ EDGE_SR_RESULT_TTL_MS
        · simp only [if_pos hdrop]
          have hgap' : gap = true → (n.freed i).gap = true := by
            intro h
            have hg := hgap h
            simp only [EdgeSrNode.gap, decide_eq_true_eq] at hg ⊢
            refine ⟨hg.1, findEntry_eq_none.mpr fun j hj => ?_⟩
            rw [EdgeSrNode.freed, setEntry_entries] at hj ⊢
            by_cases hji : j = i
            · simp [hji] at hj
            · rw [if_neg hji] at hj ⊢
              exact findEntry_eq_none.mp hg.2 j hj
          exact (Steps.single (NodeAct.drop n i now hdrop.1 hdrop.2)).trans (ih _ hgap')
        · simp only [if_neg hdrop]
          exact ih n hgap

theorem replays_expire (now : τ) (r : NodeRun τ σ) : Replays inp r (expire now r) :=
  ⟨(expireLoop r.node.gap now r.node (List.finRange EDGE_SR_RESULT_CAPACITY)).2, rfl,
    expireLoop_acts r.node.gap now _ r.node id⟩

theorem expireLoop_base (gap : Bool) (now : τ) (is : List Slot) :
    ∀ n : EdgeSrNode τ, (expireLoop gap now n is).1.base = n.base := by
  induction is with
  | nil => intro n; rfl
  | cons i rest ih =>
      intro n
      unfold expireLoop
      dsimp only
      split_ifs
      · rfl
      · rw [ih, setEntry_base]
      · exact ih n

theorem expire_base (now : τ) (r : NodeRun τ σ) : (expire now r).node.base = r.node.base :=
  expireLoop_base r.node.gap now (List.finRange EDGE_SR_RESULT_CAPACITY) r.node

omit [Clock τ] in
theorem executeEntry_base (hooks : EdgeSrHooks τ σ) (i : Slot) (r : NodeRun τ σ) :
    (executeEntry hooks i r).node.base = r.node.base + 1 := rfl

end EdgeGateway
