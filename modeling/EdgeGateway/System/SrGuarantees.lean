import EdgeGateway.System.SrSystem

set_option autoImplicit false

/-! # What sender and receiver guarantee together

In every reachable state of the system: a successful completion agrees with the one execution of
its command; commands are executed in the order they were accepted, and none of an older session
once a newer one is ready; and the two windows overlap as far as the right-of-window test needs.
-/

namespace EdgeGateway

variable {τ σ : Type}

/-! ## Executions of one command -/

/-- The executions recorded for a sequence number of a session: what was executed, and the result
of the hook. -/
def executionsOf (session : UInt64) (seq : UInt8) (log : List (NodeEvent τ)) :
    List (Command × List UInt8) :=
  log.filterMap fun
    | .execute c raw => if c.session = session ∧ c.seq = seq then some (c, raw) else none
    | _ => none

theorem mem_executionsOf {session : UInt64} {seq : UInt8} {log : List (NodeEvent τ)}
    {x : Command × List UInt8} :
    x ∈ executionsOf session seq log ↔
      .execute x.1 x.2 ∈ log ∧ x.1.session = session ∧ x.1.seq = seq := by
  rw [executionsOf, List.mem_filterMap]
  constructor
  · rintro ⟨e, he, hx⟩
    cases e with
    | execute c raw =>
        dsimp only at hx
        split_ifs at hx with hc
        obtain rfl := Option.some.inj hx
        exact ⟨he, hc⟩
    | _ => cases hx
  · rintro ⟨he, hc⟩
    exact ⟨_, he, if_pos hc⟩

theorem map_fst_executionsOf (session : UInt64) (seq : UInt8) (log : List (NodeEvent τ)) :
    (executionsOf session seq log).map Prod.fst =
      (executes log).filter fun c => c.session = session ∧ c.seq = seq := by
  induction log with
  | nil => rfl
  | cons e log ih =>
      cases e with
      | execute c raw =>
          by_cases hc : c.session = session ∧ c.seq = seq
          · simpa [executionsOf, executes, NodeEvent.executed?, hc] using ih
          · simpa [executionsOf, executes, NodeEvent.executed?, hc] using ih
      | _ => exact ih

/-- A list in strict order in which all positions are the same has one element at most. -/
theorem eq_singleton_of_sorted {cs : List Command}
    (hsorted : cs.Pairwise fun c d => c.index < d.index) {c : Command} (hc : c ∈ cs)
    (hsame : ∀ d ∈ cs, d.index = c.index) : cs = [c] := by
  match cs with
  | [] => cases hc
  | [d] => rw [List.mem_singleton.mp hc]
  | d :: d' :: rest =>
      have hlt := (List.pairwise_cons.mp hsorted).1 d' List.mem_cons_self
      rw [hsame d List.mem_cons_self, hsame d' (by simp)] at hlt
      exact absurd hlt (Nat.lt_irrefl _)

/-- What was executed once was executed exactly once. -/
theorem LogInv.executionsOf_eq {n : EdgeSrNode τ} {log : List (NodeEvent τ)} (hn : LogInv n log)
    {c : Command} {raw : List UInt8} (h : .execute c raw ∈ log) :
    executionsOf c.session c.seq log = [(c, raw)] := by
  have hmem : (c, raw) ∈ executionsOf c.session c.seq log := mem_executionsOf.mpr ⟨h, rfl, rfl⟩
  have hfst : (executionsOf c.session c.seq log).map Prod.fst = [c] := by
    refine eq_singleton_of_sorted ?_ (List.mem_map_of_mem hmem) ?_
    · rw [map_fst_executionsOf]
      exact hn.execute_sorted.sublist List.filter_sublist
    · intro d hd
      obtain ⟨x, hx, rfl⟩ := List.mem_map.mp hd
      obtain ⟨-, hs, hq⟩ := mem_executionsOf.mp hx
      simp only [Command.index, hs, hq]
  have hlength : (executionsOf c.session c.seq log).length = 1 := by
    have := congrArg List.length hfst
    rwa [List.length_map] at this
  obtain ⟨x, hx⟩ := List.length_eq_one_iff.mp hlength
  rw [hx] at hmem ⊢
  rw [List.mem_singleton.mp hmem]

/-- A submitted command is the only one with its number. -/
theorem CommandTracker.RecordInv.submitted_unique {t : CommandTracker} {log : List TrackerEvent}
    (hr : t.RecordInv log) {c : Command} (h : c ∈ submits log) :
    ((submits log).filter fun d => d.session = c.session ∧ d.seq = c.seq) = [c] := by
  refine eq_singleton_of_sorted (hr.submit_sorted.sublist List.filter_sublist)
    (List.mem_filter.mpr ⟨h, by simp⟩) fun d hd => ?_
  have hd' := (List.mem_filter.mp hd).2
  rw [decide_eq_true_eq] at hd'
  simp only [Command.index, hd'.1, hd'.2]

namespace SrSystem

variable [Clock τ]

/-! ## An exchange -/

/-- A node that answers every command with the same three bytes at time zero. -/
def answering : EdgeSrHooks UInt32 Unit where
  nowMs user := (0, user)
  execute _ _ _ user := ([EDGE_RC_OK, 1, 2], user)
  emit _ _ user := user

def blankNode : EdgeSrNode UInt32 where
  session := 0
  base := 0
  active := false
  entries _ := ⟨0, 0, 0, .free, 0, 0, [], [], 0⟩

/-- The handshake of session 1. -/
def opened : SrSystem UInt32 :=
  let s := (init blankNode).trackerCall (.start 1 0)
  let s := s.trackerCall (.onWritten s.tracker.openSend true 0)
  let s := s.nodeCall (.onFrame answering () EDGE_TYPE_SR_OPEN (some (edgeU64BeWrite 1)))
  s.trackerCall (.onFrame EDGE_TYPE_SR_OPEN_ACK (openAckPayload 1 1 EDGE_RC_OK) 0)

/-- A light query that is answered in session 1. -/
def answered : SrSystem UInt32 :=
  let s := opened.trackerCall (.submit EDGE_TYPE_QUERY_LIGHT [] 0)
  let f := s.tracker.dataSend 0 (Entry.new EDGE_TYPE_QUERY_LIGHT [] 0)
  let s := s.trackerCall (.onWritten f true 0)
  let s := s.nodeCall (.onFrame answering () EDGE_TYPE_SR_COMMAND (some f.payload))
  s.trackerCall (.onFrame EDGE_TYPE_SR_RESULT
    (resultPayload 1 0 EDGE_TYPE_QUERY_LIGHT [EDGE_RC_OK, 1, 2]) 0)

theorem run_opened : Run Unit (init blankNode) opened := by
  have h₁ := Step.tracker (σ := Unit) (init blankNode) (.start 1 0) fun _ _ h => by cases h
  let s₁ := (init blankNode).trackerCall (.start 1 0)
  have h₂ := Step.tracker (σ := Unit) s₁ (.onWritten s₁.tracker.openSend true 0)
    fun _ _ h => by cases h
  let s₂ := s₁.trackerCall (.onWritten s₁.tracker.openSend true 0)
  have h₃ := Step.node s₂ (.onFrame answering () EDGE_TYPE_SR_OPEN (some (edgeU64BeWrite 1)))
    ⟨s₁.tracker.openSend, by decide, rfl, rfl⟩
  let s₃ := s₂.nodeCall (.onFrame answering () EDGE_TYPE_SR_OPEN (some (edgeU64BeWrite 1)))
  have h₄ := Step.tracker (σ := Unit) s₃
    (.onFrame EDGE_TYPE_SR_OPEN_ACK (openAckPayload 1 1 EDGE_RC_OK) 0) (by
      rintro type p ⟨⟩
      decide)
  exact (((Relation.ReflTransGen.single h₁).tail h₂).tail h₃).tail h₄

theorem run_answered : Run Unit (init blankNode) answered := by
  have h₁ := Step.tracker (σ := Unit) opened (.submit EDGE_TYPE_QUERY_LIGHT [] 0)
    fun _ _ h => by cases h
  let s₁ := opened.trackerCall (.submit EDGE_TYPE_QUERY_LIGHT [] 0)
  let f := s₁.tracker.dataSend 0 (Entry.new EDGE_TYPE_QUERY_LIGHT [] 0)
  have h₂ := Step.tracker (σ := Unit) s₁ (.onWritten f true 0) fun _ _ h => by cases h
  let s₂ := s₁.trackerCall (.onWritten f true 0)
  have h₃ := Step.node s₂ (.onFrame answering () EDGE_TYPE_SR_COMMAND (some f.payload))
    ⟨f, by decide, rfl, rfl⟩
  let s₃ := s₂.nodeCall (.onFrame answering () EDGE_TYPE_SR_COMMAND (some f.payload))
  have h₄ := Step.tracker (σ := Unit) s₃ (.onFrame EDGE_TYPE_SR_RESULT
    (resultPayload 1 0 EDGE_TYPE_QUERY_LIGHT [EDGE_RC_OK, 1, 2]) 0) (by
      rintro type p ⟨⟩
      decide)
  exact (((run_opened.tail h₁).tail h₂).tail h₃).tail h₄

/-! ## Agreement of results -/

/-- **A successful completion agrees with the one execution of its command.** For every completion
without an error, one command was accepted under its number, this command was executed once under
that number, and the completion's bytes are the result stored for that execution. -/
theorem completion_agrees {memory : EdgeSrNode τ} {s : SrSystem τ} (h : Run σ (init memory) s)
    {f : UInt64 × CommandCompletion} (hf : f ∈ finishes s.sent) (herror : f.2.error = "") :
    ∃ c raw, (submits s.sent).filter (fun d => d.session = f.1 ∧ d.seq = f.2.seq) = [c] ∧
      executionsOf f.1 f.2.seq s.done = [(c, raw)] ∧ f.2.result = storedResult raw := by
  have hs := inv_run h
  obtain ⟨c, raw, hc, hsession, hseq, hresult⟩ := hs.link.completion f hf herror
  have hstored := hs.node.record.execute_stored c (mem_executes.mpr ⟨raw, hc⟩)
  rw [← hsession, ← hseq]
  exact ⟨c, raw, hs.tracker.record.submitted_unique (hs.stored c hstored),
    hs.node.record.executionsOf_eq hc, hresult⟩

theorem completion_agrees_answered :
    ∃ c raw, (submits answered.sent).filter (fun d => d.session = 1 ∧ d.seq = 0) = [c] ∧
      executionsOf 1 0 answered.done = [(c, raw)] ∧ [EDGE_RC_OK, 1, 2] = storedResult raw :=
  completion_agrees (f := (1, ⟨0, EDGE_TYPE_QUERY_LIGHT, [EDGE_RC_OK, 1, 2], ""⟩)) run_answered
    (by decide) rfl

/-! ## Order of execution -/

/-- What a call executes belongs to the node's session at the call, or a later one. -/
theorem run_executes {s s' : SrSystem τ} (h : Run σ s s') :
    s.node.session ≤ s'.node.session ∧
      ∃ later, s'.done = s.done ++ later ∧ ∀ c ∈ executes later, s.node.session ≤ c.session := by
  induction h with
  | refl => exact ⟨UInt64.le_refl _, [], by simp, by simp⟩
  | @tail m _ _ hstep ih =>
      obtain ⟨hle, later, hdone, hlater⟩ := ih
      cases hstep with
      | tracker call => exact ⟨hle, later, hdone, hlater⟩
      | node call =>
          have hacts := nodeCall_acts m.node call
          refine ⟨UInt64.le_trans hle (steps_session_le hacts), later ++ (call.run m.node).events,
            ?_, ?_⟩
          · show m.done ++ _ = _
            rw [hdone, List.append_assoc]
          · rw [executes_append, List.forall_mem_append]
            exact ⟨hlater, fun c hc => UInt64.le_trans hle (steps_execute_session hacts c hc)⟩

/-- **Commands are executed in the order they were accepted**, none of them twice; and once the
tracker is ready, nothing accepted in an earlier session is executed any more. -/
theorem execution_order {memory : EdgeSrNode τ} {s : SrSystem τ} (h : Run σ (init memory) s) :
    (executes s.done).Sublist (submits s.sent) ∧ (executes s.done).Nodup ∧
      (s.tracker.state = .ready → ∀ s', Run σ s s' → ∃ later, s'.done = s.done ++ later ∧
        ∀ c ∈ executes later, s.tracker.session ≤ c.session) := by
  have hs := inv_run h
  have hsub : ∀ c ∈ executes s.done, c ∈ submits s.sent := fun c hc =>
    hs.stored c (hs.node.record.execute_stored c hc)
  have hnodup : (executes s.done).Nodup :=
    hs.node.record.execute_sorted.imp fun {c d} hlt heq => absurd (heq ▸ hlt) (Nat.lt_irrefl _)
  refine ⟨?_, hnodup, ?_⟩
  · -- both lists are sorted by session and number
    exact List.sublist_of_subperm_of_pairwise (hnodup.subperm hsub) hs.node.record.execute_sorted
      hs.tracker.record.submit_sorted
  · intro hready s' h'
    rw [← hs.link.ready hready]
    exact (run_executes h').2

theorem execution_order_answered :
    (executes answered.done).Sublist (submits answered.sent) ∧ (executes answered.done).Nodup ∧
      (answered.tracker.state = .ready → ∀ s', Run Unit answered s' →
        ∃ later, s'.done = answered.done ++ later ∧
          ∀ c ∈ executes later, answered.tracker.session ≤ c.session) :=
  execution_order run_answered

/-! ## Windows -/

/-- **The windows agree.** While node and tracker are in the same session, the node's window lies
between the edges of the tracker's, every receipt the tracker has recorded is of a stored command,
and no command of the session that was ever sent lies right of the node's window. -/
theorem windows_agree {memory : EdgeSrNode τ} {s : SrSystem τ} (h : Run σ (init memory) s)
    (hsession : s.node.session = s.tracker.session) :
    s.tracker.base ≤ s.node.base ∧ s.node.base ≤ s.tracker.next ∧
      s.tracker.next ≤ s.tracker.base + EDGE_SR_WINDOW_SIZE ∧
      (∀ seq, s.tracker.received seq = true →
        ∃ c ∈ stores s.done, c.session = s.tracker.session ∧ c.seq = seq) ∧
      (∀ f, .send f ∈ s.sent → f.type = EDGE_TYPE_SR_COMMAND →
        edgeU64BeRead f.payload = s.node.session →
        ¬ (f.payload.getD 8 0).toNat ≥ s.node.base + EDGE_SR_WINDOW_SIZE) := by
  have hs := inv_run h
  have hwindow := hs.tracker.window
  have hbase : s.tracker.base ≤ s.node.base := by
    by_contra hlt
    -- the command the node waits for would have been received
    have h256 : s.node.base < 256 := by
      have := hwindow.base_le
      have := hwindow.next_le
      omega
    have hnat : (UInt8.ofNat s.node.base).toNat = s.node.base := UInt8.toNat_ofNat_of_lt' h256
    obtain ⟨c, hc, hcs, hcq⟩ :=
      hs.link.receipt _ (hwindow.received_base (UInt8.ofNat s.node.base) (by omega))
    exact hs.settled.not_stored hs.node.record hc (hcs.trans hsession.symm) (by rw [hcq, hnat])
  have hnext : s.node.base ≤ s.tracker.next := by
    by_contra hlt
    obtain ⟨c, hc, hcs, hcq⟩ := hs.node.record.stored_of_lt_base (q := s.tracker.next) (by omega)
    have := hs.tracker.record.submit_seq c (hs.stored c hc) (hcs.trans hsession)
    omega
  refine ⟨hbase, hnext, hwindow.window, hs.link.receipt, ?_⟩
  intro f hf htype hread
  obtain ⟨c, hc, hp⟩ := hs.tracker.record.sent_command f hf htype
  rw [hp, read_commandPayload] at hread
  have hseq : f.payload.getD 8 0 = c.seq := by
    rw [hp, CommandTracker.commandPayload, getD_edgeU64BeWrite_append c.session _ 0]
    rfl
  have := hs.tracker.record.submit_seq c hc (hread.trans hsession)
  have := hwindow.window
  rw [hseq]
  omega

theorem windows_agree_answered :
    answered.tracker.base ≤ answered.node.base ∧ answered.node.base ≤ answered.tracker.next ∧
      answered.tracker.next ≤ answered.tracker.base + EDGE_SR_WINDOW_SIZE ∧
      (∀ seq, answered.tracker.received seq = true →
        ∃ c ∈ stores answered.done, c.session = answered.tracker.session ∧ c.seq = seq) ∧
      (∀ f, .send f ∈ answered.sent → f.type = EDGE_TYPE_SR_COMMAND →
        edgeU64BeRead f.payload = answered.node.session →
        ¬ (f.payload.getD 8 0).toNat ≥ answered.node.base + EDGE_SR_WINDOW_SIZE) :=
  windows_agree run_answered (by decide)

end SrSystem

end EdgeGateway
