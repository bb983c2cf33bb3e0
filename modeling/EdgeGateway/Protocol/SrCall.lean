import EdgeGateway.Protocol.SrClock

set_option autoImplicit false

/-! # Calls and slots over moves

What a move makes of a slot that is in use afterwards: `SlotMove`. Every call is its first deadlines
and a run of moves (`call_moves`), and every scan of a call comes after some of them (`call_scans`).
-/

namespace EdgeGateway

variable {τ σ : Type} [Clock τ]

def NodeCall.isTick : NodeCall τ σ → Bool
  | .onFrame _ _ _ _ => false
  | .tick _ _ => true

variable {inp : NodeInput} {tick : Bool} {t : τ}

/-! ## What moves record -/

/-- The deadlines record nothing but the end of the session. -/
theorem expireLoop_events (gap : Bool) (now : τ) (is : List Slot) :
    ∀ n : EdgeSrNode τ, ∀ e ∈ (expireLoop gap now n is).2, e = .close n.session := by
  induction is with
  | nil =>
      intro n e he
      cases he
  | cons i rest ih =>
      intro n e he
      unfold expireLoop at he
      dsimp only at he
      split_ifs at he
      · exact List.mem_singleton.mp he
      · have hclose := ih _ e he
        exact hclose
      · exact ih n e he

theorem mem_expiry {n : EdgeSrNode τ} {now : τ} {e : NodeEvent τ} (h : e ∈ n.expiry now) :
    e = .close n.session :=
  expireLoop_events n.gap now _ n e h

/-- Only waiting commands are executed, and no tick executes any. -/
theorem move_execute {n n' : EdgeSrNode τ} {es : List (NodeEvent τ)}
    (h : NodeMove inp tick t n es n') {c : Command} {raw : List UInt8} (hc : .execute c raw ∈ es) :
    tick = false ∧ ∃ i u, (n.entries i).state = .buffered ∧ c = n.commandOf (n.entries i) ∧
      n' = n.executed i raw u := by
  cases h with
  | acked => simp at hc
  | «open» => simp at hc
  | openAck => simp at hc
  | store => simp at hc
  | confirm => simp at hc
  | replay => simp [EdgeSrNode.resultEvent] at hc
  | round u =>
      rcases List.mem_cons.mp hc with hc | hc
      · cases hc
      · cases mem_expiry hc
  | execute i result u htick hactive hbase hseq hstate =>
      rcases List.mem_cons.mp hc with hc | hc
      · obtain ⟨hcommand, rfl⟩ := NodeEvent.execute.inj hc
        exact ⟨htick, i, u, hstate, hcommand, rfl⟩
      · simp [EdgeSrNode.resultEvent] at hc
  | resend => simp [EdgeSrNode.resultEvent] at hc

/-! ## Moves of a slot -/

/-- What a move from `n` that records `es` makes of the slot `i`, which is in use afterwards. -/
inductive SlotMove (inp : NodeInput) (tick : Bool) (t : τ) (n : EdgeSrNode τ)
    (es : List (NodeEvent τ)) (i : Slot) : EdgeSrEntry τ → Prop
  /-- The slot stays as it is. -/
  | kept (hbusy : (n.entries i).state ≠ .free) : SlotMove inp tick t n es i (n.entries i)
  /-- The slot takes a command. -/
  | stored (c : Command) (htick : tick = false) (hinp : inp = .command c) (haccepts : n.Accepts c)
      (hes : .store c ∈ es) :
      SlotMove inp tick t n es i ((n.entries i).receive c.seq c.type c.args t)
  /-- The command of the slot is executed. -/
  | completed (result : List UInt8) (u : τ) (htick : tick = false)
      (hstate : (n.entries i).state = .buffered)
      (hes : es = [.execute (n.commandOf (n.entries i)) result, .now u,
        (n.executed i result u).resultEvent i]) :
      SlotMove inp tick t n es i ((n.entries i).complete result u)
  /-- The result of the slot is sent again. -/
  | resent (htick : tick = true) (hstate : (n.entries i).state = .executed)
      (hretries : (n.entries i).retries < EDGE_MAX_RETRY)
      (hage : Clock.elapsed t (n.entries i).lastSentAt ≥ EDGE_ACK_TIMEOUT_MS)
      (hes : es = [n.resultEvent i]) :
      SlotMove inp tick t n es i
        { n.entries i with retries := (n.entries i).retries + 1, lastSentAt := t }

/-- **A slot in use was in use before, or takes a command.** -/
theorem slot_move {n n' : EdgeSrNode τ} {es : List (NodeEvent τ)} {i : Slot}
    (h : NodeMove inp tick t n es n') (hbusy : (n'.entries i).state ≠ .free) :
    n'.session = n.session ∧ SlotMove inp tick t n es i (n'.entries i) := by
  cases h with
  | acked j =>
      refine ⟨rfl, ?_⟩
      rw [EdgeSrNode.freed, setEntry_entries] at hbusy ⊢
      split_ifs at hbusy ⊢
      · exact absurd rfl hbusy
      · exact .kept hbusy
  | «open» session => exact absurd rfl hbusy
  | store j c htick hinp haccepts =>
      refine ⟨rfl, ?_⟩
      rw [EdgeSrNode.received, setEntry_entries] at hbusy ⊢
      split_ifs at hbusy ⊢ with hij
      · subst hij
        exact .stored c htick hinp haccepts List.mem_cons_self
      · exact .kept hbusy
  | round u =>
      have hsame := expired_same hbusy
      refine ⟨expireLoop_session _ _ _ _, ?_⟩
      rw [hsame] at hbusy ⊢
      exact .kept hbusy
  | execute j result u htick hactive hbase hseq hstate =>
      refine ⟨rfl, ?_⟩
      by_cases hij : i = j
      · subst hij
        rw [executed_self]
        exact .completed result u htick hstate rfl
      · rw [executed_other hij] at hbusy ⊢
        exact .kept hbusy
  | resend j htick hactive hstate hretries hage =>
      refine ⟨rfl, ?_⟩
      rw [EdgeSrNode.resent, setEntry_entries] at hbusy ⊢
      split_ifs at hbusy ⊢ with hij
      · subst hij
        exact .resent htick hstate hretries hage rfl
      · exact .kept hbusy
  | _ => exact ⟨rfl, .kept hbusy⟩

/-- **The rule for slots**: what holds of free slots and is preserved by what a move makes of a slot
holds of all slots. -/
theorem slots_move {P : List (NodeEvent τ) → EdgeSrEntry τ → Prop} {n n' : EdgeSrNode τ}
    {log es : List (NodeEvent τ)} (h : NodeMove inp tick t n es n')
    (hfree : ∀ e : EdgeSrEntry τ, e.state = .free → P (log ++ es) e)
    (hslot : ∀ i e, P log (n.entries i) → SlotMove inp tick t n es i e → P (log ++ es) e)
    (hn : ∀ i, P log (n.entries i)) : ∀ i, P (log ++ es) (n'.entries i) := by
  intro i
  by_cases hbusy : (n'.entries i).state = .free
  · exact hfree _ hbusy
  · exact hslot i _ (hn i) (slot_move h hbusy).2

/-- The same for the deadlines. -/
theorem slots_expired {P : List (NodeEvent τ) → EdgeSrEntry τ → Prop} {n : EdgeSrNode τ} {now : τ}
    {log es : List (NodeEvent τ)} (hfree : ∀ e : EdgeSrEntry τ, e.state = .free → P (log ++ es) e)
    (hlog : ∀ e, P log e → P (log ++ es) e) (hn : ∀ i, P log (n.entries i)) :
    ∀ i, P (log ++ es) ((n.expired now).entries i) := by
  intro i
  by_cases hbusy : ((n.expired now).entries i).state = .free
  · exact hfree _ hbusy
  · rw [expired_same hbusy]
    exact hlog _ (hn i)

/-! ## Commands that are stored -/

/-- The run after `c` was stored in the slot `i`. -/
def NodeRun.stored (hooks : EdgeSrHooks τ σ) (t : τ) (c : Command) (i : Slot) (r : NodeRun τ σ) :
    NodeRun τ σ :=
  emitReceived hooks c.seq { r with
    node := r.node.received i c.seq c.type c.args t
    events := r.events ++ [.store c] }

omit [Clock τ] in
theorem storedRun_eq_some (hooks : EdgeSrHooks τ σ) {type : UInt8} {payload : Option (List UInt8)}
    {r r' : NodeRun τ σ} (h : storedRun hooks t type payload r = some r') :
    ∃ c i, nodeInput type payload = .command c ∧ r.node.Accepts c ∧ freeEntry r.node = some i ∧
      r' = r.stored hooks t c i := by
  unfold storedRun at h
  cases hinp : nodeInput type payload with
  | silent =>
      rw [hinp] at h
      cases h
  | openSession session =>
      rw [hinp] at h
      cases h
  | command c =>
      rw [hinp] at h
      dsimp only at h
      split_ifs at h with haccepts
      obtain ⟨i, hi, rfl⟩ := Option.map_eq_some_iff.mp h
      exact ⟨c, i, rfl, haccepts, hi, rfl⟩

/-- **A frame that stores its command is delivered** with the run in which it was stored. -/
theorem handleFrame_stored (hooks : EdgeSrHooks τ σ) {type : UInt8} {payload : Option (List UInt8)}
    {r r' : NodeRun τ σ} (h : storedRun hooks t type payload r = some r') :
    handleFrame hooks t type payload r = deliver hooks r' ∧
      Moves (nodeInput type payload) false t r r' := by
  obtain ⟨c, i, hinp, haccepts, hfree, rfl⟩ := storedRun_eq_some hooks h
  obtain ⟨rfl, p, rfl, hp⟩ := nodeInput_eq_command hinp
  obtain ⟨hactive, hsession, hnew, hge, hlt⟩ := haccepts
  have hmax := hp.le_max
  have hmin := hp.ge_min
  have hcommand : (⟨r.node.session, c.seq, c.type, c.args⟩ : Command) = c := by rw [← hsession]
  constructor
  · have hshape : ¬ (p.length > EDGE_PAYLOAD_MAX ∨ p.length < 8) := by omega
    have hserve : ¬ (r.node.active = false ∨ edgeU64BeRead p ≠ r.node.session ∨ p.length < 9) := by
      rw [hp.session, hsession, hactive]
      simp only [ne_eq, not_true_eq_false, false_or, reduceCtorEq]
      omega
    have hbody : ¬ (EDGE_TYPE_SR_COMMAND ≠ EDGE_TYPE_SR_COMMAND ∨ p.length < 10) := by
      simp only [ne_eq, not_true_eq_false, false_or]
      omega
    unfold handleFrame
    dsimp only
    rw [if_neg hshape, if_neg (by decide), if_neg hserve, if_neg (by decide), if_neg hbody, hp.seq,
      hp.type, hp.args, onCommand, hnew]
    dsimp only
    rw [onNewCommand, if_neg (Nat.not_lt.mpr hge), if_neg (Nat.not_le.mpr hlt), hfree]
    have hevent : r.node.commandOf ((r.node.entries i).receive c.seq c.type c.args t) = c := hcommand
    dsimp only
    rw [hevent]
    rfl
  · have hargs : c.args.length ≤ EDGE_SR_ARGS_MAX := by
      rw [← hp.args]
      simp only [List.length_drop, EDGE_SR_ARGS_MAX, EDGE_PAYLOAD_MAX] at hmax ⊢
      omega
    refine Moves.move (.store r.node i c rfl hinp ⟨hactive, hsession, hnew, hge, hlt⟩
      (freeEntry_eq_some hfree) hargs) ?_
    show r.events ++ [_] ++ [_] = r.events ++ [_, _]
    rw [List.append_assoc]
    rfl

/-! ## Calls -/

/-- **Every call enforces the deadlines and is then a run of moves.** -/
theorem call_moves (n : EdgeSrNode τ) (call : NodeCall τ σ) :
    ∃ es, (call.run n).events = .now call.start :: (n.expiry call.start ++ es) ∧
      Steps (NodeMove call.input call.isTick call.start) (n.expired call.start) es
        (call.run n).node := by
  cases call with
  | onFrame hooks user type payload =>
      have hmoves : Moves (nodeInput type payload) false (hooks.nowMs user).1
          (started hooks n user) (edgeSrNodeOnFrame hooks n user type payload) :=
        moves_handleFrame hooks type payload (started hooks n user)
      obtain ⟨es, hes, hsteps⟩ := hmoves
      exact ⟨es, hes, hsteps⟩
  | tick hooks user =>
      obtain ⟨es, hes, hsteps⟩ := moves_tick hooks n user
      exact ⟨es, hes, hsteps⟩

/-- **Every scan of a call** is the first one, or comes after some moves; and what it leads to is
recorded. -/
theorem call_scans (n : EdgeSrNode τ) (call : NodeCall τ σ) {scan : Scan τ σ}
    (h : scan ∈ call.scans n) :
    (expire scan.now scan.run).events <+: (call.run n).events ∧
      (scan.run.node = n ∧ scan.now = call.start ∧ scan.run.events = [.now call.start] ∨
        ∃ es, Steps (NodeMove call.input call.isTick call.start) (n.expired call.start) es
            scan.run.node ∧
          scan.run.events =
            .now call.start :: (n.expiry call.start ++ es) ++ [.now scan.now]) := by
  obtain ⟨es, hes, -⟩ := call_moves n call
  have hfirst : (NodeEvent.now call.start :: n.expiry call.start) <+: (call.run n).events :=
    ⟨es, hes.symm⟩
  cases call with
  | tick hooks user =>
      obtain rfl := List.mem_singleton.mp h
      exact ⟨hfirst, .inl ⟨rfl, rfl, rfl⟩⟩
  | onFrame hooks user type payload =>
      rcases List.mem_cons.mp h with rfl | h
      · exact ⟨hfirst, .inl ⟨rfl, rfl, rfl⟩⟩
      · cases hstored : storedRun hooks (hooks.nowMs user).1 type payload (started hooks n user) with
        | none =>
            rw [hstored] at h
            cases h
        | some r =>
            rw [hstored] at h
            obtain ⟨hdeliver, hstore⟩ := handleFrame_stored hooks hstored
            have hrun : (NodeCall.onFrame hooks user type payload).run n = deliver hooks r :=
              hdeliver
            have hreach := ((moves_deliverLoop hooks _ r le_rfl).2 scan h).after hstore
            obtain ⟨r', ⟨es', hes', hsteps⟩, hnode, hevents⟩ := hreach.moves
            refine ⟨hrun ▸ hreach.recorded, .inr ⟨es', ?_, ?_⟩⟩
            · rw [hnode]
              exact hsteps
            · rw [hevents, hes']
              rfl

end EdgeGateway
