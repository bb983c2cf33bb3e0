import EdgeGateway.Protocol.SrAction

set_option autoImplicit false

/-! # The receiver's calls as moves in time

`NodeAct` leaves open which readings of the clock an action goes by. `NodeMove` says it: a command
is stored and a result is sent again with the reading at the start of the call, a result is
completed with the reading that follows its execution, and each further round of `deliver` enforces
the deadlines with a reading of its own. Behind its first deadlines each call is a run of moves, and
so each call is a run of actions.
-/

namespace EdgeGateway

variable {τ σ : Type} [Clock τ]

/-! ## The start of a call -/

/-- A call after the clock was read and the deadlines enforced. -/
def started (hooks : EdgeSrHooks τ σ) (n : EdgeSrNode τ) (user : σ) : NodeRun τ σ :=
  expire (hooks.nowMs user).1 (NodeRun.nowMs hooks ⟨n, user, []⟩).2

/-- The node that looks at a frame: deadlines are enforced first. -/
def EdgeSrNode.expired (n : EdgeSrNode τ) (now : τ) : EdgeSrNode τ :=
  (expireLoop n.gap now n (List.finRange EDGE_SR_RESULT_CAPACITY)).1

/-- What `expire` records. -/
def EdgeSrNode.expiry (n : EdgeSrNode τ) (now : τ) : List (NodeEvent τ) :=
  (expireLoop n.gap now n (List.finRange EDGE_SR_RESULT_CAPACITY)).2

/-- Behind the first deadlines of a call. -/
theorem started_node (hooks : EdgeSrHooks τ σ) (n : EdgeSrNode τ) (user : σ) :
    (started hooks n user).node = n.expired (hooks.nowMs user).1 ∧
      (started hooks n user).events =
        .now (hooks.nowMs user).1 :: n.expiry (hooks.nowMs user).1 :=
  ⟨rfl, rfl⟩

/-! ## Scans -/

/-- A reading of the clock in `run` that the slots are compared with. -/
structure Scan (τ σ : Type) where
  run : NodeRun τ σ
  now : τ

/-- The readings of `deliverLoop`. -/
def deliverScans (hooks : EdgeSrHooks τ σ) : Nat → NodeRun τ σ → List (Scan τ σ)
  | 0, _ => []
  | n + 1, r =>
      let (now, r) := r.nowMs hooks
      ⟨r, now⟩ ::
        (let r := expire now r
        if r.node.active = false then []
        else
          match findEntry r.node (UInt8.ofNat r.node.base) with
          | none => []
          | some i =>
              if (r.node.entries i).state ≠ .buffered then []
              else deliverScans hooks n (executeEntry hooks i r))

/-- `edge_sr_node_on_frame` behind the deadlines. -/
def handleFrame (hooks : EdgeSrHooks τ σ) (now : τ) (type : UInt8) (payload : Option (List UInt8))
    (r : NodeRun τ σ) : NodeRun τ σ :=
  match payload with
  | none => r
  | some p =>
      if p.length > EDGE_PAYLOAD_MAX ∨ p.length < 8 then r
      else
        let session := edgeU64BeRead p
        if type = EDGE_TYPE_SR_OPEN then
          if p.length ≠ 8 then r else onOpen hooks session r
        else if r.node.active = false ∨ session ≠ r.node.session ∨ p.length < 9 then r
        else
          let seq := p.getD 8 0
          if type = EDGE_TYPE_SR_RESULT_ACK then onResultAck seq p.length r
          else if type ≠ EDGE_TYPE_SR_COMMAND ∨ p.length < 10 then r
          else onCommand hooks now seq (p.getD 9 0) (p.drop 10) r

theorem onFrame_eq (hooks : EdgeSrHooks τ σ) (n : EdgeSrNode τ) (user : σ) (type : UInt8)
    (payload : Option (List UInt8)) :
    edgeSrNodeOnFrame hooks n user type payload
      = handleFrame hooks (hooks.nowMs user).1 type payload (started hooks n user) := by
  unfold edgeSrNodeOnFrame handleFrame
  rfl

theorem tick_eq (hooks : EdgeSrHooks τ σ) (n : EdgeSrNode τ) (user : σ) :
    edgeSrNodeTick hooks n user =
      if (started hooks n user).node.active = false then started hooks n user
      else tickLoop hooks (hooks.nowMs user).1 (List.finRange EDGE_SR_RESULT_CAPACITY)
        (started hooks n user) := by
  unfold edgeSrNodeTick
  rfl

/-- The command `c` is new to the node, and in its window. -/
def EdgeSrNode.Accepts (n : EdgeSrNode τ) (c : Command) : Prop :=
  n.active = true ∧ c.session = n.session ∧ findEntry n c.seq = none ∧ n.base ≤ c.seq.toNat ∧
    c.seq.toNat < n.base + EDGE_SR_WINDOW_SIZE

instance (n : EdgeSrNode τ) (c : Command) : Decidable (n.Accepts c) :=
  inferInstanceAs (Decidable (_ ∧ _))

/-! ## Moves -/

/-- The moves of the receiver behind the first deadlines, in a call with the given input that began
at `t`. -/
inductive NodeMove (inp : NodeInput) (tick : Bool) (t : τ) :
    EdgeSrNode τ → List (NodeEvent τ) → EdgeSrNode τ → Prop
  /-- A result is acknowledged. -/
  | acked (n : EdgeSrNode τ) (i : Slot) (hactive : n.active = true)
      (hstate : (n.entries i).state = .executed) : NodeMove inp tick t n [] (n.freed i)
  /-- A higher session is opened. -/
  | open (n : EdgeSrNode τ) (session : UInt64) (hinp : inp = .openSession session)
      (hlt : n.session < session) : NodeMove inp tick t n [] (n.opened session)
  /-- An OPEN is answered. -/
  | openAck (n : EdgeSrNode τ) (session : UInt64) (hinp : inp = .openSession session) :
      NodeMove inp tick t n [.emit EDGE_TYPE_SR_OPEN_ACK (openAckPayload session n.session
        (if session = n.session ∧ n.active = true then EDGE_RC_OK else EDGE_RC_BAD_PARAM))] n
  /-- A command is stored and confirmed. -/
  | store (n : EdgeSrNode τ) (i : Slot) (c : Command) (htick : tick = false)
      (hinp : inp = .command c) (haccepts : n.Accepts c) (hfree : (n.entries i).state = .free)
      (hargs : c.args.length ≤ EDGE_SR_ARGS_MAX) :
      NodeMove inp tick t n
        [.store c, .emit EDGE_TYPE_SR_RECEIVED (receivedPayload n.session c.seq)]
        (n.received i c.seq c.type c.args t)
  /-- A stored or already executed command is confirmed. -/
  | confirm (n : EdgeSrNode τ) (seq : UInt8) (hactive : n.active = true)
      (hknown : seq.toNat < n.base ∨ ∃ i, (n.entries i).state ≠ .free ∧ (n.entries i).seq = seq) :
      NodeMove inp tick t n [.emit EDGE_TYPE_SR_RECEIVED (receivedPayload n.session seq)] n
  /-- The command of a stored result comes again, and the result is sent again. -/
  | replay (n : EdgeSrNode τ) (i : Slot) (htick : tick = false) (hactive : n.active = true)
      (hstate : (n.entries i).state = .executed) : NodeMove inp tick t n [n.resultEvent i] n
  /-- `deliver` reads the clock and enforces the deadlines. -/
  | round (n : EdgeSrNode τ) (u : τ) (htick : tick = false) :
      NodeMove inp tick t n (.now u :: n.expiry u) (n.expired u)
  /-- The command at `base` is executed, and its result is sent. -/
  | execute (n : EdgeSrNode τ) (i : Slot) (result : List UInt8) (u : τ) (htick : tick = false)
      (hactive : n.active = true) (hbase : n.base < 256)
      (hseq : (n.entries i).seq = UInt8.ofNat n.base) (hstate : (n.entries i).state = .buffered) :
      NodeMove inp tick t n
        [.execute (n.commandOf (n.entries i)) result, .now u, (n.executed i result u).resultEvent i]
        (n.executed i result u)
  /-- A tick sends a result again and counts it. -/
  | resend (n : EdgeSrNode τ) (i : Slot) (htick : tick = true) (hactive : n.active = true)
      (hstate : (n.entries i).state = .executed) (hretries : (n.entries i).retries < EDGE_MAX_RETRY)
      (hage : Clock.elapsed t (n.entries i).lastSentAt ≥ EDGE_ACK_TIMEOUT_MS) :
      NodeMove inp tick t n [n.resultEvent i] (n.resent i t)

variable {inp : NodeInput} {tick : Bool} {t : τ}

/-! ## Moves are actions -/

theorem expiry_acts (n : EdgeSrNode τ) (now : τ) :
    Steps (NodeAct inp) n (n.expiry now) (n.expired now) :=
  expireLoop_acts n.gap now _ n id

/-- What holds of the actions holds of the moves. -/
theorem move_acts {n n' : EdgeSrNode τ} {es : List (NodeEvent τ)}
    (h : NodeMove inp tick t n es n') : Steps (NodeAct inp) n es n' := by
  cases h with
  | acked i hactive hstate => exact Steps.single (.acked n i hactive hstate)
  | «open» session hinp hlt => exact Steps.single (.open n session hinp hlt)
  | openAck session hinp => exact Steps.single (.openAck n session hinp)
  | store i c htick hinp haccepts hfree hargs =>
      obtain ⟨hactive, hsession, hnew, hge, hlt⟩ := haccepts
      obtain ⟨session, seq, command, args⟩ := c
      obtain rfl : session = n.session := hsession
      exact Steps.single (.store n i seq command args t hinp hactive hfree hnew hge hlt hargs)
  | confirm seq hactive hknown => exact Steps.single (.confirm n seq hactive hknown)
  | replay i htick hactive hstate => exact Steps.single (.result n i hactive hstate)
  | round u htick => exact (Steps.single (.now n u)).trans (expiry_acts n u)
  | execute i result u htick hactive hbase hseq hstate =>
      have hexec : Steps (NodeAct inp) n
          [.execute (n.commandOf (n.entries i)) result, .now u] (n.executed i result u) :=
        Steps.single (.execute n i result u hactive hbase hseq hstate)
      refine hexec.trans (Steps.single (.result _ i hactive ?_))
      rw [executed_self]
      rfl
  | resend i htick hactive hstate hretries hage =>
      have hcount : Steps (NodeAct inp) n [] (n.resent i t) :=
        Steps.single (.resend n i t hstate hretries hage)
      have hevent : n.resultEvent i = (n.resent i t).resultEvent i := by
        simp [EdgeSrNode.resultEvent, EdgeSrNode.resent, setEntry_entries]
      rw [hevent]
      refine hcount.trans (Steps.single (.result _ i hactive ?_))
      simp [EdgeSrNode.resent, setEntry_entries, hstate]

/-! ## Moves of a call in progress -/

/-- `r'` is `r` after some moves, with what they recorded. -/
def Moves (inp : NodeInput) (tick : Bool) (t : τ) (r r' : NodeRun τ σ) : Prop :=
  ∃ es, r'.events = r.events ++ es ∧ Steps (NodeMove inp tick t) r.node es r'.node

theorem Moves.refl (r : NodeRun τ σ) : Moves inp tick t r r := ⟨[], by simp, Steps.refl _⟩

theorem Moves.trans {r s u : NodeRun τ σ} (h : Moves inp tick t r s) (h' : Moves inp tick t s u) :
    Moves inp tick t r u := by
  obtain ⟨es, he, hs⟩ := h
  obtain ⟨es', he', hs'⟩ := h'
  exact ⟨es ++ es', by rw [he', he, List.append_assoc], hs.trans hs'⟩

/-- One move, seen on the run. -/
theorem Moves.move {r r' : NodeRun τ σ} {es : List (NodeEvent τ)}
    (h : NodeMove inp tick t r.node es r'.node) (he : r'.events = r.events ++ es) :
    Moves inp tick t r r' :=
  ⟨es, he, Steps.single h⟩

/-- One move that records nothing. -/
theorem Moves.quiet {r r' : NodeRun τ σ} (h : NodeMove inp tick t r.node [] r'.node)
    (he : r'.events = r.events) : Moves inp tick t r r' :=
  Moves.move h (by rw [he, List.append_nil])

theorem Moves.le {r r' : NodeRun τ σ} (h : Moves inp tick t r r') : r.events <+: r'.events := by
  obtain ⟨es, he, -⟩ := h
  exact ⟨es, he.symm⟩

theorem expire_events (now : τ) (r : NodeRun τ σ) :
    (expire now r).events = r.events ++ r.node.expiry now := rfl

theorem moves_round (hooks : EdgeSrHooks τ σ) (r : NodeRun τ σ) :
    Moves inp false t r (expire (r.nowMs hooks).1 (r.nowMs hooks).2) :=
  Moves.move (.round r.node (hooks.nowMs r.user).1 rfl) (by
    rw [expire_events]
    show r.events ++ [_] ++ _ = r.events ++ _
    rw [List.append_assoc]
    rfl)

theorem moves_executeEntry (hooks : EdgeSrHooks τ σ) {i : Slot} {r : NodeRun τ σ}
    (hactive : r.node.active = true) (hbase : r.node.base < 256)
    (hseq : (r.node.entries i).seq = UInt8.ofNat r.node.base)
    (hstate : (r.node.entries i).state = .buffered) :
    Moves inp false t r (executeEntry hooks i r) := by
  let e := r.node.entries i
  let ran := hooks.execute e.seq e.command e.args r.user
  let clock := hooks.nowMs ran.2
  refine Moves.move (.execute r.node i ran.1 clock.1 rfl hactive hbase hseq hstate) ?_
  show r.events ++ [_] ++ [_] ++ [_] = r.events ++ [_, _, _]
  simp only [List.append_assoc]
  rfl

/-- A scan of `deliver` comes after some moves, and what it leads to is recorded. -/
structure ReachesScan (inp : NodeInput) (t : τ) (r : NodeRun τ σ) (scan : Scan τ σ)
    (final : NodeRun τ σ) : Prop where
  moves : ∃ r', Moves inp false t r r' ∧ scan.run.node = r'.node ∧
    scan.run.events = r'.events ++ [.now scan.now]
  recorded : (expire scan.now scan.run).events <+: final.events

theorem ReachesScan.after {r s final : NodeRun τ σ} {scan : Scan τ σ}
    (hmoves : Moves inp false t r s) (h : ReachesScan inp t s scan final) :
    ReachesScan inp t r scan final := by
  obtain ⟨r', hr', hnode, hevents⟩ := h.moves
  exact ⟨⟨r', hmoves.trans hr', hnode, hevents⟩, h.recorded⟩

/-- **The loop of `deliver` is a run of moves**, and each of its scans is on the way. -/
theorem moves_deliverLoop (hooks : EdgeSrHooks τ σ) (fuel : Nat) :
    ∀ r : NodeRun τ σ, fuel ≤ 256 - r.node.base →
      Moves inp false t r (deliverLoop hooks fuel r) ∧
      ∀ scan ∈ deliverScans hooks fuel r,
        ReachesScan inp t r scan (deliverLoop hooks fuel r) := by
  induction fuel with
  | zero =>
      intro r _
      exact ⟨Moves.refl r, fun scan h => by cases h⟩
  | succ fuel ih =>
      intro r hfuel
      have hround : Moves inp false t r (expire (r.nowMs hooks).1 (r.nowMs hooks).2) :=
        moves_round hooks r
      have hbase : (expire (r.nowMs hooks).1 (r.nowMs hooks).2).node.base = r.node.base :=
        expire_base _ _
      have hfirst : ∀ final, Moves inp false t (expire (r.nowMs hooks).1 (r.nowMs hooks).2) final →
          ReachesScan inp t r ⟨(r.nowMs hooks).2, (r.nowMs hooks).1⟩ final :=
        fun final hmoves => ⟨⟨r, Moves.refl r, rfl, rfl⟩, hmoves.le⟩
      unfold deliverLoop deliverScans
      dsimp only
      generalize expire (r.nowMs hooks).1 (r.nowMs hooks).2 = r₁ at hround hbase hfirst ⊢
      -- a round that executes nothing is the last one
      have hlast : Moves inp false t r r₁ ∧ ∀ scan ∈ [⟨(r.nowMs hooks).2, (r.nowMs hooks).1⟩],
          ReachesScan inp t r scan r₁ := by
        refine ⟨hround, fun scan hscan => ?_⟩
        obtain rfl := List.mem_singleton.mp hscan
        exact hfirst r₁ (Moves.refl r₁)
      by_cases hclosed : r₁.node.active = false
      · rw [if_pos hclosed, if_pos hclosed]
        exact hlast
      rw [if_neg hclosed, if_neg hclosed]
      cases hfind : findEntry r₁.node (UInt8.ofNat r₁.node.base) with
      | none => exact hlast
      | some i =>
          dsimp only
          by_cases hstate : (r₁.node.entries i).state = .buffered
          · rw [if_neg (not_not.mpr hstate), if_neg (not_not.mpr hstate)]
            have hexec : Moves inp false t r₁ (executeEntry hooks i r₁) :=
              moves_executeEntry hooks (Bool.not_eq_false _ ▸ hclosed) (by omega)
                (findEntry_eq_some hfind).2 hstate
            obtain ⟨hrest, hscans⟩ := ih (executeEntry hooks i r₁) (by
              rw [executeEntry_base]
              omega)
            refine ⟨hround.trans (hexec.trans hrest), fun scan hscan => ?_⟩
            rcases List.mem_cons.mp hscan with rfl | hscan
            · exact hfirst _ (hexec.trans hrest)
            · exact (hscans scan hscan).after (hround.trans hexec)
          · rw [if_pos hstate, if_pos hstate]
            exact hlast

/-! ## Frames -/

theorem moves_emitReceived (hooks : EdgeSrHooks τ σ) {seq : UInt8} {r : NodeRun τ σ}
    (hactive : r.node.active = true)
    (hknown : seq.toNat < r.node.base ∨
      ∃ i, (r.node.entries i).state ≠ .free ∧ (r.node.entries i).seq = seq) :
    Moves inp tick t r (emitReceived hooks seq r) :=
  Moves.move (.confirm r.node seq hactive hknown) rfl

theorem moves_onOpen (hooks : EdgeSrHooks τ σ) {session : UInt64}
    (hinp : inp = .openSession session) (r : NodeRun τ σ) :
    Moves inp tick t r (onOpen hooks session r) := by
  unfold onOpen
  dsimp only
  by_cases hlt : session > r.node.session
  · rw [if_pos hlt]
    have hopen : Moves inp tick t r { r with node := r.node.opened session } :=
      Moves.quiet (.open r.node session hinp hlt) rfl
    exact hopen.trans (Moves.move (.openAck _ session hinp) rfl)
  · rw [if_neg hlt]
    exact Moves.move (.openAck _ session hinp) rfl

theorem moves_onResultAck (seq : UInt8) (len : Nat) {r : NodeRun τ σ}
    (hactive : r.node.active = true) : Moves inp tick t r (onResultAck seq len r) := by
  unfold onResultAck
  cases findEntry r.node seq with
  | none => exact Moves.refl r
  | some i =>
      by_cases hacked : len = 9 ∧ (r.node.entries i).state = .executed
      · simp only [if_pos hacked]
        exact Moves.quiet (.acked r.node i hactive hacked.2) rfl
      · simp only [if_neg hacked]
        exact Moves.refl r

theorem moves_onNewCommand (hooks : EdgeSrHooks τ σ) {c : Command} {r : NodeRun τ σ}
    (hinp : inp = .command c) (hactive : r.node.active = true) (hsession : c.session = r.node.session)
    (hnew : findEntry r.node c.seq = none) (hargs : c.args.length ≤ EDGE_SR_ARGS_MAX) :
    Moves inp false t r (onNewCommand hooks t c.seq c.type c.args r) := by
  unfold onNewCommand
  -- left of the window, right of it, or in it
  by_cases hlt : c.seq.toNat < r.node.base
  · simp only [if_pos hlt]
    exact moves_emitReceived hooks hactive (.inl hlt)
  by_cases hge : c.seq.toNat ≥ r.node.base + EDGE_SR_WINDOW_SIZE
  · simp only [if_neg hlt, if_pos hge]
    exact Moves.refl r
  simp only [if_neg hlt, if_neg hge]
  cases hfree : freeEntry r.node with
  | none => exact Moves.refl r
  | some i =>
      dsimp only
      let stored : NodeRun τ σ := { r with
        node := r.node.received i c.seq c.type c.args t
        events := r.events ++ [.store ⟨r.node.session, c.seq, c.type, c.args⟩] }
      have hcommand : (⟨r.node.session, c.seq, c.type, c.args⟩ : Command) = c := by rw [← hsession]
      have hstore : Moves inp false t r (emitReceived hooks c.seq stored) := by
        refine Moves.move (.store r.node i c rfl hinp
          ⟨hactive, hsession, hnew, Nat.not_lt.mp hlt, Nat.lt_of_not_le hge⟩
          (freeEntry_eq_some hfree) hargs) ?_
        show r.events ++ [_] ++ [_] = r.events ++ [_, _]
        rw [List.append_assoc, hcommand]
        rfl
      exact hstore.trans (moves_deliverLoop hooks _ _ le_rfl).1

theorem moves_onCommand (hooks : EdgeSrHooks τ σ) {c : Command} {r : NodeRun τ σ}
    (hinp : inp = .command c) (hactive : r.node.active = true) (hsession : c.session = r.node.session)
    (hargs : c.args.length ≤ EDGE_SR_ARGS_MAX) :
    Moves inp false t r (onCommand hooks t c.seq c.type c.args r) := by
  unfold onCommand
  cases hfind : findEntry r.node c.seq with
  | none => exact moves_onNewCommand hooks hinp hactive hsession hfind hargs
  | some i =>
      -- the content must not change; a copy is confirmed, and its result sent again
      by_cases hconflict : (r.node.entries i).command ≠ c.type ∨ (r.node.entries i).args ≠ c.args
      · simp only [if_pos hconflict]
        exact Moves.refl r
      simp only [if_neg hconflict]
      have hreceived : Moves inp false t r (emitReceived hooks c.seq r) :=
        moves_emitReceived hooks hactive (.inr ⟨i, findEntry_eq_some hfind⟩)
      by_cases hdone : (r.node.entries i).state = .executed
      · simp only [if_pos hdone]
        exact hreceived.trans (Moves.move (.replay _ i rfl hactive hdone) rfl)
      · simpa only [if_neg hdone] using hreceived

theorem moves_handleFrame (hooks : EdgeSrHooks τ σ) (type : UInt8) (payload : Option (List UInt8))
    (r : NodeRun τ σ) :
    Moves (nodeInput type payload) false t r (handleFrame hooks t type payload r) := by
  unfold handleFrame
  cases payload with
  | none => exact Moves.refl r
  | some p =>
      dsimp only
      split_ifs with hlen hopen hlen8 hskip hack hother
      · exact Moves.refl r
      · exact Moves.refl r
      · subst hopen
        exact moves_onOpen hooks (nodeInput_open (not_not.mp hlen8)) r
      · exact Moves.refl r
      · exact moves_onResultAck _ _ (by simp at hskip; exact hskip.1)
      · exact Moves.refl r
      · push Not at hlen hskip hother
        obtain ⟨rfl, hmin⟩ := hother
        have hargs : (p.drop 10).length ≤ EDGE_SR_ARGS_MAX := by
          simp only [List.length_drop, EDGE_SR_ARGS_MAX, EDGE_PAYLOAD_MAX] at hlen ⊢
          omega
        exact moves_onCommand hooks (nodeInput_command hlen.1 hmin) (by simpa using hskip.1)
          hskip.2.1 hargs

/-! ## Ticks -/

theorem moves_tickLoop (hooks : EdgeSrHooks τ σ) (is : List Slot) :
    ∀ r : NodeRun τ σ, r.node.active = true →
      Moves .silent true t r (tickLoop hooks t is r) := by
  induction is with
  | nil =>
      intro r _
      exact Moves.refl r
  | cons i rest ih =>
      intro r hactive
      unfold tickLoop
      -- a result that is due is counted first, and then sent
      by_cases hdue : (r.node.entries i).state = .executed ∧
          (r.node.entries i).retries < EDGE_MAX_RETRY ∧
          Clock.elapsed t (r.node.entries i).lastSentAt ≥ EDGE_ACK_TIMEOUT_MS
      · simp only [if_pos hdue]
        have hresend : Moves .silent true t r
            (emitResult hooks i { r with node := r.node.resent i t }) := by
          refine Moves.move (.resend r.node i rfl hactive hdue.1 hdue.2.1 hdue.2.2) ?_
          show r.events ++ [_] = r.events ++ [_]
          simp [EdgeSrNode.resultEvent, EdgeSrNode.resent, setEntry_entries]
        exact hresend.trans (ih _ hactive)
      · simp only [if_neg hdue]
        exact ih r hactive

/-! ## Calls are runs of actions -/

/-- What moves do is done by actions. -/
theorem Moves.replays {r r' : NodeRun τ σ} (h : Moves inp tick t r r') : Replays inp r r' := by
  obtain ⟨es, hes, hsteps⟩ := h
  exact ⟨es, hes, hsteps.refine fun _ _ _ => move_acts⟩

theorem replays_executeEntry (hooks : EdgeSrHooks τ σ) {i : Slot} {r : NodeRun τ σ}
    (hactive : r.node.active = true) (hbase : r.node.base < 256)
    (hseq : (r.node.entries i).seq = UInt8.ofNat r.node.base)
    (hstate : (r.node.entries i).state = .buffered) :
    Replays inp r (executeEntry hooks i r) :=
  (moves_executeEntry (t := (hooks.nowMs r.user).1) hooks hactive hbase hseq hstate).replays

/-- The start of a call, and moves behind it. -/
theorem started_acts {hooks : EdgeSrHooks τ σ} {n : EdgeSrNode τ} {user : σ} {r : NodeRun τ σ}
    (h : Moves inp tick t (started hooks n user) r) : Steps (NodeAct inp) n r.events r.node := by
  have hstart : Replays inp ⟨n, user, []⟩ (started hooks n user) :=
    (replays_nowMs hooks ⟨n, user, []⟩).trans (replays_expire _ _)
  obtain ⟨es, hes, hsteps⟩ := hstart.trans h.replays
  rw [hes, List.nil_append]
  exact hsteps

/-- **A received frame is a run of actions** with the same record. -/
theorem onFrame_acts (hooks : EdgeSrHooks τ σ) (node : EdgeSrNode τ) (user : σ) (type : UInt8)
    (payload : Option (List UInt8)) :
    Steps (NodeAct (nodeInput type payload)) node
      (edgeSrNodeOnFrame hooks node user type payload).events
      (edgeSrNodeOnFrame hooks node user type payload).node := by
  rw [onFrame_eq]
  exact started_acts (moves_handleFrame (t := (hooks.nowMs user).1) hooks type payload _)

/-- The loop of a tick runs on an active node. -/
theorem moves_tick (hooks : EdgeSrHooks τ σ) (n : EdgeSrNode τ) (user : σ) :
    Moves .silent true (hooks.nowMs user).1 (started hooks n user) (edgeSrNodeTick hooks n user) := by
  rw [tick_eq]
  by_cases hactive : (started hooks n user).node.active = false
  · rw [if_pos hactive]
    exact Moves.refl _
  · rw [if_neg hactive]
    exact moves_tickLoop hooks _ _ (Bool.not_eq_false _ ▸ hactive)

/-- **A tick is a run of actions** with the same record. -/
theorem tick_acts (hooks : EdgeSrHooks τ σ) (node : EdgeSrNode τ) (user : σ) :
    Steps (NodeAct .silent) node (edgeSrNodeTick hooks node user).events
      (edgeSrNodeTick hooks node user).node :=
  started_acts (moves_tick hooks node user)

end EdgeGateway
