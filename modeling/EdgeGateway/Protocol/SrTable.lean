import EdgeGateway.Protocol.SrReplay
import Mathlib.Order.Interval.Finset.Nat

set_option autoImplicit false

/-! # The slot table between two calls

What `SlotInv`, `Settled` and the record say about the slots once a call has returned: the window
right of `base` holds at most seven buffered commands, everything left of it is a result, and
every stored length fits its buffer. The `while` loop of `deliver` is written out as a relation
without fuel, and the rounds of `deliverLoop` are shown to be enough for it.
-/

namespace EdgeGateway

variable {τ σ : Type} [Clock τ]

/-! ## The loop of `deliver` -/

/-- A round of the loop after the clock was read and the deadlines enforced. -/
def NodeRun.checked (hooks : EdgeSrHooks τ σ) (r : NodeRun τ σ) : NodeRun τ σ :=
  expire (r.nowMs hooks).1 (r.nowMs hooks).2

/-- `while (node->base < 256u) ...`: the loop leaves `r'` after executing `k` commands. -/
inductive DeliverRuns (hooks : EdgeSrHooks τ σ) : Nat → NodeRun τ σ → NodeRun τ σ → Prop
  /-- The session is used up. -/
  | usedUp (r : NodeRun τ σ) (hbase : 256 ≤ r.node.base) : DeliverRuns hooks 0 r r
  /-- The deadlines closed the session. -/
  | closed (r : NodeRun τ σ) (hbase : r.node.base < 256)
      (hactive : (r.checked hooks).node.active = false) :
      DeliverRuns hooks 0 r (r.checked hooks)
  /-- No slot has the number `base`. -/
  | missing (r : NodeRun τ σ) (hbase : r.node.base < 256)
      (hactive : (r.checked hooks).node.active = true)
      (hfind : findEntry (r.checked hooks).node (UInt8.ofNat (r.checked hooks).node.base) = none) :
      DeliverRuns hooks 0 r (r.checked hooks)
  /-- The slot with the number `base` is no buffered command. -/
  | notBuffered (r : NodeRun τ σ) (i : Slot) (hbase : r.node.base < 256)
      (hactive : (r.checked hooks).node.active = true)
      (hfind : findEntry (r.checked hooks).node (UInt8.ofNat (r.checked hooks).node.base) = some i)
      (hstate : ((r.checked hooks).node.entries i).state ≠ .buffered) :
      DeliverRuns hooks 0 r (r.checked hooks)
  | execute {k : Nat} (r r' : NodeRun τ σ) (i : Slot) (hbase : r.node.base < 256)
      (hactive : (r.checked hooks).node.active = true)
      (hfind : findEntry (r.checked hooks).node (UInt8.ofNat (r.checked hooks).node.base) = some i)
      (hstate : ((r.checked hooks).node.entries i).state = .buffered)
      (hrest : DeliverRuns hooks k (executeEntry hooks i (r.checked hooks)) r') :
      DeliverRuns hooks (k + 1) r r'

theorem checked_base (hooks : EdgeSrHooks τ σ) (r : NodeRun τ σ) :
    (r.checked hooks).node.base = r.node.base :=
  expire_base _ _

/-- Every command moves `base`, so the fuel outlasts the loop. -/
theorem deliverLoop_runs (hooks : EdgeSrHooks τ σ) (fuel : Nat) :
    ∀ r : NodeRun τ σ, r.node.base + fuel = 256 →
      ∃ k ≤ fuel, DeliverRuns hooks k r (deliverLoop hooks fuel r) := by
  induction fuel with
  | zero =>
      intro r hfuel
      exact ⟨0, le_rfl, .usedUp r (by omega)⟩
  | succ fuel ih =>
      intro r hfuel
      have hbase : r.node.base < 256 := by omega
      have hchecked : expire (r.nowMs hooks).1 (r.nowMs hooks).2 = r.checked hooks := rfl
      unfold deliverLoop
      dsimp only
      rw [hchecked]
      by_cases hactive : (r.checked hooks).node.active = false
      · rw [if_pos hactive]
        exact ⟨0, Nat.zero_le _, .closed r hbase hactive⟩
      rw [if_neg hactive]
      rw [Bool.not_eq_false] at hactive
      cases hfind : findEntry (r.checked hooks).node
          (UInt8.ofNat (r.checked hooks).node.base) with
      | none => exact ⟨0, Nat.zero_le _, .missing r hbase hactive hfind⟩
      | some i =>
          dsimp only
          by_cases hstate : ((r.checked hooks).node.entries i).state = .buffered
          · rw [if_neg (not_not.mpr hstate)]
            have hnext : (executeEntry hooks i (r.checked hooks)).node.base + fuel = 256 := by
              rw [executeEntry_base, checked_base]
              omega
            obtain ⟨k, hk, hrest⟩ := ih _ hnext
            exact ⟨k + 1, by omega, .execute r _ i hbase hactive hfind hstate hrest⟩
          · rw [if_pos hstate]
            exact ⟨0, Nat.zero_le _, .notBuffered r i hbase hactive hfind hstate⟩

/-! ## The table -/

/-- The slots between two calls. -/
structure SlotTable (n : EdgeSrNode τ) : Prop where
  base_le : n.base ≤ 256
  closed_free : n.active = false → ∀ i, (n.entries i).state = .free
  seq_inj : ∀ i j, (n.entries i).state ≠ .free → (n.entries j).state ≠ .free →
    (n.entries i).seq = (n.entries j).seq → i = j
  buffered : ∀ i, (n.entries i).state = .buffered →
    n.base < (n.entries i).seq.toNat ∧ (n.entries i).seq.toNat < n.base + 8
  buffered_card : (Finset.univ.filter fun i => (n.entries i).state = .buffered).card ≤ 7
  none_waiting : n.base < 256 → ∀ i, (n.entries i).state = .buffered →
    (n.entries i).seq ≠ UInt8.ofNat n.base
  executed : ∀ i, (n.entries i).state = .executed → (n.entries i).seq.toNat < n.base
  args_len : ∀ i, (n.entries i).state ≠ .free → (n.entries i).args.length ≤ 53
  result_len : ∀ i, (n.entries i).state = .executed →
    1 ≤ (n.entries i).result.length ∧ (n.entries i).result.length ≤ 53
  /-- Whatever call comes next, the loop it may reach ends, after at most `256 - base` rounds. -/
  deliver_ends : ∀ (hooks : EdgeSrHooks τ σ) (r : NodeRun τ σ), r.node.base = n.base →
    ∃ k ≤ 256 - n.base, DeliverRuns hooks k r (deliver hooks r)

theorem storedResult_length (raw : List UInt8) :
    1 ≤ (storedResult raw).length ∧ (storedResult raw).length ≤ EDGE_SR_RESULT_MAX := by
  unfold storedResult
  by_cases h : raw.length = 0 ∨ raw.length > EDGE_SR_RESULT_MAX
  · rw [if_pos h]
    decide
  · rw [if_neg h]
    omega

omit [Clock τ] in
theorem SlotInv.buffered_window {n : EdgeSrNode τ} (h : SlotInv n) (hn : n.Settled) {i : Slot}
    (hi : (n.entries i).state = .buffered) :
    n.base < (n.entries i).seq.toNat ∧ (n.entries i).seq.toNat < n.base + 8 := by
  obtain ⟨hge, hlt⟩ := h.buffered i hi
  have hne := hn i hi
  exact ⟨by omega, hlt⟩

omit [Clock τ] in
/-- The numbers of the buffered commands are apart and in the seven places right of `base`. -/
theorem SlotInv.buffered_card {n : EdgeSrNode τ} (h : SlotInv n) (hn : n.Settled) :
    (Finset.univ.filter fun i => (n.entries i).state = .buffered).card ≤ 7 := by
  have hcard : (Finset.Ioo n.base (n.base + 8)).card = 7 := by
    rw [Nat.card_Ioo]
    omega
  rw [← hcard]
  apply Finset.card_le_card_of_injOn fun i => (n.entries i).seq.toNat
  · intro i hi
    exact Finset.mem_coe.mpr
      (Finset.mem_Ioo.mpr (h.buffered_window hn (Finset.mem_filter.mp hi).2))
  · intro i hi j hj hseq
    have hi' : (n.entries i).state ≠ .free := by simp [(Finset.mem_filter.mp hi).2]
    have hj' : (n.entries j).state ≠ .free := by simp [(Finset.mem_filter.mp hj).2]
    exact h.seq_inj i j hi' hj' (UInt8.toNat_inj.mp hseq)

theorem NodeInv.table {n : EdgeSrNode τ} {log : List (NodeEvent τ)} (h : NodeInv n log)
    (hn : n.Settled) : SlotTable (σ := σ) n where
  base_le := h.slots.base_le
  closed_free := h.slots.closed_free
  seq_inj := h.slots.seq_inj
  buffered := fun _ hi => h.slots.buffered_window hn hi
  buffered_card := h.slots.buffered_card hn
  none_waiting := by
    intro hbase i hi heq
    have hlt := (h.slots.buffered_window hn hi).1
    rw [heq, UInt8.toNat_ofNat_of_lt' hbase] at hlt
    exact Nat.lt_irrefl _ hlt
  executed := h.slots.executed
  args_len := fun i hi => h.record.store_args _ (h.record.slot_stored i hi)
  result_len := by
    intro i hi
    obtain ⟨raw, -, hresult⟩ := h.record.slot_executed i hi
    rw [hresult]
    exact storedResult_length raw
  deliver_ends := by
    intro hooks r hbase
    have hle := h.slots.base_le
    have hruns := deliverLoop_runs hooks (256 - r.node.base) r (by omega)
    rw [hbase] at hruns
    rw [deliver, hbase]
    exact hruns

/-! ## What is emitted -/

/-- Every payload in the record fits a frame. -/
def PayloadsFit (log : List (NodeEvent τ)) : Prop :=
  ∀ type p, .emit type p ∈ log → p.length ≤ EDGE_PAYLOAD_MAX

theorem payloadsFit_act {inp : NodeInput} {n n' : EdgeSrNode τ} {log es : List (NodeEvent τ)}
    (h : NodeAct inp n es n') (hn : LogInv n log) : PayloadsFit es := by
  intro type p hp
  cases h with
  | openAck session hinp =>
      simp only [List.mem_singleton, NodeEvent.emit.injEq] at hp
      rw [hp.2]
      simp [openAckPayload, EDGE_PAYLOAD_MAX]
  | store i seq command args now hinp hactive hfree hnew hge hlt hargs =>
      simp only [List.mem_cons, List.not_mem_nil, or_false, NodeEvent.emit.injEq,
        reduceCtorEq, false_or] at hp
      rw [hp.2]
      simp [receivedPayload, EDGE_PAYLOAD_MAX]
  | confirm seq hactive hknown =>
      simp only [List.mem_singleton, NodeEvent.emit.injEq] at hp
      rw [hp.2]
      simp [receivedPayload, EDGE_PAYLOAD_MAX]
  | result i hactive hstate =>
      -- ten bytes of header and a stored result
      obtain ⟨raw, -, hresult⟩ := hn.slot_executed i hstate
      have hlen := (storedResult_length raw).2
      simp only [EdgeSrNode.resultEvent, List.mem_singleton, NodeEvent.emit.injEq] at hp
      rw [hp.2, hresult]
      simp only [resultPayload, edgeU64BeWrite_length, List.length_append, List.length_cons,
        EDGE_PAYLOAD_MAX, EDGE_SR_RESULT_MAX] at hlen ⊢
      omega
  | _ => simp at hp

theorem payloadsFit_runCalls (memory : EdgeSrNode τ) (calls : List (NodeCall τ σ)) :
    PayloadsFit (logOf (runCalls (edgeSrNodeInit memory) calls).2) := by
  refine (runCalls_acts (I := fun n log => LogInv n log ∧ PayloadsFit log) ?_ calls
    ⟨(nodeInv_init memory).record, fun _ _ h => by cases h⟩).2
  rintro inp n log es n' ⟨hlog, hfit⟩ hact
  refine ⟨logInv_act hact hlog, fun type p hp => ?_⟩
  rcases List.mem_append.mp hp with hp | hp
  · exact hfit type p hp
  · exact payloadsFit_act hact hlog type p hp

/-! ## Runs -/

theorem settled_runCalls (calls : List (NodeCall τ σ)) :
    ∀ n : EdgeSrNode τ, SlotInv n → n.Settled → (runCalls n calls).1.Settled := by
  induction calls with
  | nil => exact fun _ _ hn => hn
  | cons call rest ih =>
      intro n hslots hn
      exact ih _
        ((nodeCall_acts n call).preserves (fun _ _ _ hI hact => slotInv_act hact hI) hslots)
        (settled_call call hslots hn)

/-- **The slot table after every call** of any run from `edge_sr_node_init`, on memory with any
content, with any frames, clocks and results. -/
theorem slot_table_invariant (memory : EdgeSrNode τ) (calls : List (NodeCall τ σ)) :
    SlotTable (σ := σ) (runCalls (edgeSrNodeInit memory) calls).1 ∧
      PayloadsFit (logOf (runCalls (edgeSrNodeInit memory) calls).2) := by
  have hinit := nodeInv_init memory
  have hinv := nodeInv_runCalls calls hinit
  exact ⟨hinv.table (settled_runCalls calls _ hinit.slots (settled_init memory)),
    payloadsFit_runCalls memory calls⟩

end EdgeGateway
