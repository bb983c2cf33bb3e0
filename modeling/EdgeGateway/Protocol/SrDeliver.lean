import EdgeGateway.Protocol.SrReceiver

set_option autoImplicit false

/-! # Nothing executable is left behind

Between two calls the command at `base` is not buffered: `deliver` runs until it is missing, and
nothing else moves the window or buffers commands.
-/

namespace EdgeGateway

variable {τ σ : Type}

/-- The node waits for a command it does not have. -/
def EdgeSrNode.Settled (n : EdgeSrNode τ) : Prop :=
  ∀ i, (n.entries i).state = .buffered → (n.entries i).seq.toNat ≠ n.base

theorem settled_init (memory : EdgeSrNode τ) : (edgeSrNodeInit memory).Settled :=
  fun _ h => by cases h

theorem settled_opened (n : EdgeSrNode τ) (session : UInt64) : (n.opened session).Settled :=
  fun _ h => by cases h

theorem Forgets.settled {n n' : EdgeSrNode τ} (h : Forgets n n') (hn : n.Settled) :
    n'.Settled := by
  intro i hi
  rw [h.seq, h.base]
  exact hn i (h.of_state (by decide) hi)

section Calls

variable [Clock τ]

theorem expireLoop_settled (gap : Bool) (now : τ) (is : List Slot) :
    ∀ n : EdgeSrNode τ, n.Settled → (expireLoop gap now n is).1.Settled := by
  induction is with
  | nil => intro n hn; exact hn
  | cons i rest ih =>
      intro n hn
      unfold expireLoop
      dsimp only
      split_ifs with hclose hdrop
      · exact fun _ h => by cases h
      · exact ih _ ((forgets_freed hdrop.1).settled hn)
      · exact ih n hn

theorem expire_settled (now : τ) {r : NodeRun τ σ} (hr : r.node.Settled) :
    (expire now r).node.Settled :=
  expireLoop_settled r.node.gap now (List.finRange EDGE_SR_RESULT_CAPACITY) r.node hr

theorem slotInv_replays {inp : NodeInput} {r r' : NodeRun τ σ} (h : Replays inp r r')
    (hr : SlotInv r.node) : SlotInv r'.node := by
  obtain ⟨es, -, hs⟩ := h
  exact hs.preserves (fun _ _ _ hI hact => slotInv_act hact hI) hr

/-- The loop ends with `base` missing, the session closed or used up. -/
theorem deliverLoop_settled (hooks : EdgeSrHooks τ σ) (fuel : Nat) :
    ∀ r : NodeRun τ σ, SlotInv r.node → fuel = 256 - r.node.base →
      (deliverLoop hooks fuel r).node.Settled := by
  induction fuel with
  | zero =>
      intro r hr hfuel i hi
      have hlt := (r.node.entries i).seq.toNat_lt
      show (r.node.entries i).seq.toNat ≠ r.node.base
      omega
  | succ fuel ih =>
      intro r hr hfuel
      unfold deliverLoop
      dsimp only
      have hexp : Replays .silent r (expire (r.nowMs hooks).1 (r.nowMs hooks).2) :=
        (replays_nowMs hooks r).trans (replays_expire _ _)
      have hbase : (expire (r.nowMs hooks).1 (r.nowMs hooks).2).node.base = r.node.base :=
        expire_base _ _
      generalize expire (r.nowMs hooks).1 (r.nowMs hooks).2 = r₁ at hexp hbase ⊢
      have hr₁ : SlotInv r₁.node := slotInv_replays hexp hr
      by_cases hactive : r₁.node.active = false
      · rw [if_pos hactive]
        intro i hi
        rw [hr₁.closed_free hactive i] at hi
        cases hi
      rw [if_neg hactive]
      cases hfind : findEntry r₁.node (UInt8.ofNat r₁.node.base) with
      | none =>
          intro i hi heq
          refine findEntry_eq_none.mp hfind i (by simp [hi]) ?_
          rw [← heq]
          exact (UInt8.ofNat_toNat).symm
      | some i =>
          obtain ⟨hbusy, hseq⟩ := findEntry_eq_some hfind
          dsimp only
          by_cases hstate : (r₁.node.entries i).state = .buffered
          · rw [if_neg (not_not.mpr hstate)]
            have hexec : Replays .silent r₁ (executeEntry hooks i r₁) :=
              replays_executeEntry hooks (Bool.not_eq_false _ ▸ hactive) (by omega) hseq hstate
            refine ih _ (slotInv_replays hexec hr₁) ?_
            rw [executeEntry_base]
            omega
          · -- a result at `base` is impossible, and no other entry has this number
            rw [if_pos hstate]
            intro j hj heq
            have hji : j = i := by
              refine hr₁.seq_inj j i (by simp [hj]) hbusy ?_
              rw [hseq, ← heq]
              exact (UInt8.ofNat_toNat).symm
            exact hstate (hji ▸ hj)

theorem onNewCommand_settled (hooks : EdgeSrHooks τ σ) (now : τ) {seq command : UInt8}
    {args : List UInt8} {r : NodeRun τ σ} (hslots : SlotInv r.node) (hr : r.node.Settled)
    (hactive : r.node.active = true) (hnew : findEntry r.node seq = none) :
    (onNewCommand hooks now seq command args r).node.Settled := by
  unfold onNewCommand
  dsimp only
  split_ifs with hlt hge
  · exact hr
  · exact hr
  · cases hfree : freeEntry r.node with
    | none => exact hr
    | some i =>
        refine deliverLoop_settled hooks _ _ ?_ rfl
        exact slotInv_received hslots hactive hnew (by omega) (by omega)

theorem onCommand_settled (hooks : EdgeSrHooks τ σ) (now : τ) {seq command : UInt8}
    {args : List UInt8} {r : NodeRun τ σ} (hslots : SlotInv r.node) (hr : r.node.Settled)
    (hactive : r.node.active = true) :
    (onCommand hooks now seq command args r).node.Settled := by
  unfold onCommand
  cases hfind : findEntry r.node seq with
  | none => exact onNewCommand_settled hooks now hslots hr hactive hfind
  | some i =>
      dsimp only
      split_ifs <;> exact hr

omit [Clock τ] in
theorem onOpen_settled (hooks : EdgeSrHooks τ σ) (session : UInt64) {r : NodeRun τ σ}
    (hr : r.node.Settled) : (onOpen hooks session r).node.Settled := by
  unfold onOpen
  dsimp only
  split_ifs
  all_goals first | exact settled_opened r.node session | exact hr

omit [Clock τ] in
theorem onResultAck_settled (seq : UInt8) (len : Nat) {r : NodeRun τ σ} (hr : r.node.Settled) :
    (onResultAck seq len r).node.Settled := by
  unfold onResultAck
  cases findEntry r.node seq with
  | none => exact hr
  | some i =>
      dsimp only
      split_ifs with hacked
      · exact (forgets_freed hacked.2).settled hr
      · exact hr

theorem tickLoop_settled (hooks : EdgeSrHooks τ σ) (now : τ) (is : List Slot) :
    ∀ r : NodeRun τ σ, r.node.Settled → (tickLoop hooks now is r).node.Settled := by
  induction is with
  | nil => intro r hr; exact hr
  | cons i rest ih =>
      intro r hr
      unfold tickLoop
      dsimp only
      split_ifs with hdue
      · exact ih _ ((forgets_resent now hdue.1).settled hr)
      · exact ih r hr

/-- **Between two calls the node waits for a command it does not have.** -/
theorem settled_call {n : EdgeSrNode τ} (call : NodeCall τ σ) (hslots : SlotInv n)
    (hn : n.Settled) : (call.run n).node.Settled := by
  cases call with
  | tick hooks user =>
      show (edgeSrNodeTick hooks n user).node.Settled
      unfold edgeSrNodeTick
      dsimp only
      have hr := expire_settled (NodeRun.nowMs hooks ⟨n, user, []⟩).1
        (r := (NodeRun.nowMs hooks ⟨n, user, []⟩).2) hn
      split_ifs
      · exact hr
      · exact tickLoop_settled hooks _ _ _ hr
  | onFrame hooks user type payload =>
      show (edgeSrNodeOnFrame hooks n user type payload).node.Settled
      unfold edgeSrNodeOnFrame
      dsimp only
      have hr := expire_settled (NodeRun.nowMs hooks ⟨n, user, []⟩).1
        (r := (NodeRun.nowMs hooks ⟨n, user, []⟩).2) hn
      have hslots' : SlotInv (expire (NodeRun.nowMs hooks ⟨n, user, []⟩).1
          (NodeRun.nowMs hooks ⟨n, user, []⟩).2).node :=
        slotInv_replays (replays_expire _ _ : Replays .silent _ _) hslots
      generalize expire (NodeRun.nowMs hooks ⟨n, user, []⟩).1
        (NodeRun.nowMs hooks ⟨n, user, []⟩).2 = r at hr hslots' ⊢
      cases payload with
      | none => exact hr
      | some p =>
          dsimp only
          split_ifs with hlen hopen hlen8 hskip hack hother
          · exact hr
          · exact hr
          · exact onOpen_settled hooks _ hr
          · exact hr
          · exact onResultAck_settled _ _ hr
          · exact hr
          · refine onCommand_settled hooks _ hslots' hr ?_
            rw [not_or, Bool.not_eq_false] at hskip
            exact hskip.1

end Calls

/-- In the record: no stored command of the current session is at `base`. -/
theorem EdgeSrNode.Settled.not_stored {n : EdgeSrNode τ} {log : List (NodeEvent τ)}
    (hn : n.Settled) (hlog : LogInv n log) {c : Command} (hc : c ∈ stores log)
    (hsession : c.session = n.session) : c.seq.toNat ≠ n.base := by
  cases hactive : n.active with
  | false => exact hlog.store_closed hactive c hc hsession
  | true =>
      rcases hlog.store_placed hactive c hc hsession with hlt | ⟨i, hi, rfl⟩
      · exact Nat.ne_of_lt hlt
      · exact hn i hi

end EdgeGateway
