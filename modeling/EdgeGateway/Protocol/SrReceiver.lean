import EdgeGateway.Protocol.SrInvariant

set_option autoImplicit false

/-! # The receiver against arbitrary input

Any calls with any frames, any clock readings and any results of the execute hook, starting from
`edge_sr_node_init`: commands are executed at most once, without gaps and in order, each with the
content of the frame that was first confirmed.
-/

namespace EdgeGateway

variable {τ σ : Type} [Clock τ]

/-! ## Sequences of calls -/

/-- A call, with the hooks and the user state it runs with. -/
inductive NodeCall (τ σ : Type)
  | onFrame (hooks : EdgeSrHooks τ σ) (user : σ) (type : UInt8) (payload : Option (List UInt8))
  | tick (hooks : EdgeSrHooks τ σ) (user : σ)

def NodeCall.run (n : EdgeSrNode τ) : NodeCall τ σ → NodeRun τ σ
  | .onFrame hooks user type payload => edgeSrNodeOnFrame hooks n user type payload
  | .tick hooks user => edgeSrNodeTick hooks n user

def NodeCall.input : NodeCall τ σ → NodeInput
  | .onFrame _ _ type payload => nodeInput type payload
  | .tick _ _ => .silent

/-- The node after the calls, and each call with what happened in it. -/
def runCalls : EdgeSrNode τ → List (NodeCall τ σ) →
    EdgeSrNode τ × List (NodeCall τ σ × List (NodeEvent τ))
  | n, [] => (n, [])
  | n, call :: rest =>
      let r := call.run n
      let (n', history) := runCalls r.node rest
      (n', (call, r.events) :: history)

/-- Everything that happened, in order. -/
def logOf (history : List (NodeCall τ σ × List (NodeEvent τ))) : List (NodeEvent τ) :=
  history.flatMap Prod.snd

theorem nodeCall_acts (n : EdgeSrNode τ) (call : NodeCall τ σ) :
    Steps (NodeAct call.input) n (call.run n).events (call.run n).node := by
  cases call with
  | onFrame hooks user type payload => exact onFrame_acts hooks n user type payload
  | tick hooks user => exact tick_acts hooks n user

theorem nodeInv_call {n : EdgeSrNode τ} {log : List (NodeEvent τ)} (call : NodeCall τ σ)
    (hn : NodeInv n log) : NodeInv (call.run n).node (log ++ (call.run n).events) :=
  nodeInv_steps (nodeCall_acts n call) hn

theorem nodeInv_runCalls (calls : List (NodeCall τ σ)) {n : EdgeSrNode τ}
    {log : List (NodeEvent τ)} (hn : NodeInv n log) :
    NodeInv (runCalls n calls).1 (log ++ logOf (runCalls n calls).2) := by
  induction calls generalizing n log with
  | nil => simpa [runCalls, logOf] using hn
  | cons call rest ih =>
      have := ih (nodeInv_call call hn)
      rwa [List.append_assoc] at this

/-! ## First receipts -/

/-- The bytes of a command frame carry this command. -/
structure CarriesCommand (p : List UInt8) (c : Command) : Prop where
  le_max : p.length ≤ EDGE_PAYLOAD_MAX
  ge_min : 10 ≤ p.length
  session : edgeU64BeRead p = c.session
  seq : p.getD 8 0 = c.seq
  type : p.getD 9 0 = c.type
  args : p.drop 10 = c.args

theorem nodeInput_eq_command {type : UInt8} {payload : Option (List UInt8)} {c : Command}
    (h : nodeInput type payload = .command c) :
    type = EDGE_TYPE_SR_COMMAND ∧ ∃ p, payload = some p ∧ CarriesCommand p c := by
  cases payload with
  | none => cases h
  | some p =>
      unfold nodeInput at h
      dsimp only at h
      split_ifs at h with hmax hopen hcommand
      obtain rfl := NodeInput.command.inj h
      exact ⟨hcommand.1, p, rfl, ⟨Nat.not_lt.mp hmax, hcommand.2, rfl, rfl, rfl, rfl⟩⟩

/-- The call that sent the first receipt for the number of `c` was made for a frame with `c`. -/
def FirstReceipt (c : Command) (history : List (NodeCall τ σ × List (NodeEvent τ))) : Prop :=
  ∃ h₁ hooks user p es h₂,
    history = h₁ ++ (.onFrame hooks user EDGE_TYPE_SR_COMMAND (some p), es) :: h₂ ∧
    CarriesCommand p c ∧
    .emit EDGE_TYPE_SR_RECEIVED (receivedPayload c.session c.seq) ∈ es ∧
    .emit EDGE_TYPE_SR_RECEIVED (receivedPayload c.session c.seq) ∉ logOf h₁

/-- Every stored command was stored in the call that confirmed it first: a receipt sent earlier
would be that of another stored command with the same number. -/
theorem firstReceipt_of_stored (calls : List (NodeCall τ σ)) {n : EdgeSrNode τ}
    {log : List (NodeEvent τ)} (hn : NodeInv n log) {c : Command}
    (hc : c ∈ stores (logOf (runCalls n calls).2)) : FirstReceipt c (runCalls n calls).2 := by
  induction calls generalizing n log with
  | nil => simp [runCalls, logOf] at hc
  | cons call rest ih =>
      have hnext := nodeInv_call call hn
      have hstored := steps_store (nodeCall_acts n call)
      by_cases hnow : c ∈ stores (call.run n).events
      · obtain ⟨hinp, hreceipt⟩ := hstored c hnow
        cases call with
        | onFrame hooks user type payload =>
            obtain ⟨rfl, p, rfl, hp⟩ := nodeInput_eq_command hinp
            exact ⟨[], hooks, user, p, _, _, rfl, hp, hreceipt, by simp [logOf]⟩
        | tick hooks user => cases hinp
      · have hlater : c ∈ stores (logOf (runCalls (call.run n).node rest).2) := by
          have : logOf (runCalls n (call :: rest)).2 =
              (call.run n).events ++ logOf (runCalls (call.run n).node rest).2 := rfl
          rw [this, stores_append, List.mem_append] at hc
          exact hc.resolve_left hnow
        obtain ⟨h₁, hooks, user, p, es, h₂, hsplit, hp, hreceipt, hfirst⟩ := ih hnext hlater
        refine ⟨(call, (call.run n).events) :: h₁, hooks, user, p, es, h₂, ?_, hp, hreceipt, ?_⟩
        · show (call, (call.run n).events) :: (runCalls (call.run n).node rest).2 = _
          rw [hsplit, List.cons_append]
        · intro hmem
          rcases List.mem_append.mp hmem with hmem | hmem
          · obtain ⟨d, hd, hpayload⟩ :=
              hnext.emits.received _ (List.mem_append_right log hmem)
            obtain ⟨hs, hq⟩ := receivedPayload_inj hpayload
            have hindex : d.index = c.index := by simp only [Command.index, hs, hq]
            have hnodup := (nodeInv_runCalls rest hnext).record.store_nodup
            rw [stores_append, List.map_append, List.nodup_append] at hnodup
            exact hnodup.2.2 _ (List.mem_map_of_mem hd) _ (List.mem_map_of_mem hlater) hindex
          · exact hfirst hmem

/-! ## The order of execution -/

/-- **At most once, gap-free and in order, against arbitrary input.** Two executions are of
different sessions, the later one of the higher session, or of the same session with increasing
numbers; the numbers executed in a session are `0, …, k - 1` with `k ≤ 256`; what is executed for
`(s, q)` is the command of the frame confirmed by the first receipt of `(s, q)`; and nothing of a
session is executed after a gap timeout closed it. -/
theorem receiver_executes_in_order (memory : EdgeSrNode τ) (calls : List (NodeCall τ σ)) :
    let history := (runCalls (edgeSrNodeInit memory) calls).2
    ((executes (logOf history)).Pairwise fun c d =>
      c.session < d.session ∨ c.session = d.session ∧ c.seq < d.seq) ∧
    (∀ session, ∃ k, k ≤ 256 ∧ seqsOf session (executes (logOf history)) = List.range k) ∧
    (∀ c ∈ executes (logOf history), FirstReceipt c history) ∧
    (logOf history).Pairwise fun a b =>
      ∀ s c raw, a = .close s → b = .execute c raw → c.session ≠ s := by
  intro history
  have hinit := nodeInv_init memory
  have hinv : NodeInv (runCalls (edgeSrNodeInit memory) calls).1 (logOf history) :=
    nodeInv_runCalls calls hinit
  refine ⟨?_, hinv.record.execute_seqs, ?_, hinv.closes.final⟩
  · refine hinv.record.execute_sorted.imp fun {c d} h => ?_
    rcases UInt64.lt_or_eq_of_le (Command.session_le_of_index h.le) with hlt | heq
    · exact .inl hlt
    · refine .inr ⟨heq, UInt8.lt_iff_toNat_lt.mpr ?_⟩
      simp only [Command.index, heq] at h
      omega
  · intro c hc
    exact firstReceipt_of_stored calls hinit (hinv.record.execute_stored c hc)

end EdgeGateway
