import EdgeGateway.System.SrGuarantees

set_option autoImplicit false

/-! # Gateway restarts

One node that stays powered and any sequence of gateway processes. A process begins with a new
tracker and with empty channels; the node keeps its state. The first command opens the session of
the epoch clock, a replacement of the serial link opens the next session number. The window a
handshake ends with is fresh, except when a replacement chooses the session the node is still in.
-/

namespace EdgeGateway

variable {τ σ : Type}

/-! ## The system -/

/-- `link` is the running process with the node, `past` what happened in the node before it began,
`retired` the last session of each process before it. -/
structure Deployment (τ : Type) where
  link : SrSystem τ
  past : List (NodeEvent τ)
  retired : List UInt64

namespace Deployment

def boot (memory : EdgeSrNode τ) : Deployment τ := ⟨SrSystem.init memory, [], []⟩

/-- All that happened in the node. -/
def record (d : Deployment τ) : List (NodeEvent τ) := d.past ++ d.link.done

def trackerCall (d : Deployment τ) (call : TrackerCall) : Deployment τ :=
  { d with link := d.link.trackerCall call }

def nodeCall [Clock τ] (d : Deployment τ) (call : NodeCall τ σ) : Deployment τ :=
  { d with link := d.link.nodeCall call }

def firstCommand (d : Deployment τ) (epoch : Int) (now : TimePoint) : Deployment τ :=
  d.trackerCall (.start (epochSession epoch) now)

/-- A serial replacement that is activated. -/
def replaceSerial (d : Deployment τ) (now : TimePoint) : Deployment τ :=
  d.trackerCall (.start d.link.tracker.session now)

/-- A new process; no frame of the one before is in flight any more. -/
def restart (d : Deployment τ) : Deployment τ where
  link := { tracker := CommandTracker.new, node := d.link.node, sent := [], done := [] }
  past := d.record
  retired := d.link.tracker.session :: d.retired

/-- The steps of the system; serial replacements happen where `ok` allows them. -/
inductive Step [Clock τ] (σ : Type) (ok : Deployment τ → Prop) : Deployment τ → Deployment τ → Prop
  | firstCommand (d : Deployment τ) (epoch : Int) (now : TimePoint)
      (hclosed : d.link.tracker.state = .closed)
      (hepoch : ∀ s ∈ d.link.tracker.session :: d.retired, s < epochSession epoch) :
      Step σ ok d (d.firstCommand epoch now)
  | replaceSerial (d : Deployment τ) (now : TimePoint) (hok : ok d) :
      Step σ ok d (d.replaceSerial now)
  | tracker (d : Deployment τ) (call : TrackerCall) (hcall : ∀ s now, call ≠ .start s now)
      (hframe : ∀ type p, call.frame = some (type, p) → .emit type p ∈ d.link.done) :
      Step σ ok d (d.trackerCall call)
  | node (d : Deployment τ) (call : NodeCall τ σ) (hframe : d.link.Delivers call) :
      Step σ ok d (d.nodeCall call)
  | restart (d : Deployment τ) : Step σ ok d d.restart

/-- The runs of the system. -/
abbrev Run [Clock τ] (σ : Type) (ok : Deployment τ → Prop) : Deployment τ → Deployment τ → Prop :=
  Relation.ReflTransGen (Step σ ok)

/-- The node is in the tracker's session with an unused window. -/
structure FreshWindow (d : Deployment τ) : Prop where
  session : d.link.node.session = d.link.tracker.session
  active : d.link.node.active = true
  base : d.link.node.base = 0
  free : ∀ i, (d.link.node.entries i).state = .free

/-- The next session number is one the node is in, with a window that has been used. -/
def Stale (d : Deployment τ) : Prop :=
  d.link.node.session = d.link.tracker.session + 1 ∧ d.link.node.active = true ∧
    ¬ (d.link.node.base = 0 ∧ ∀ i, (d.link.node.entries i).state = .free)

end Deployment

/-! ## An unused window -/

section Window

variable {n : EdgeSrNode τ} {log : List (NodeEvent τ)}

/-- A window is unused when nothing of its session was stored. -/
theorem NodeInv.unused (hn : NodeInv n log) (h : ∀ c ∈ stores log, c.session ≠ n.session) :
    n.base = 0 ∧ ∀ i, (n.entries i).state = .free := by
  constructor
  · by_contra hbase
    obtain ⟨c, hc, hsession, -⟩ := hn.record.stored_of_lt_base (Nat.pos_of_ne_zero hbase)
    exact h c hc hsession
  · intro i
    by_contra hstate
    exact h _ (hn.record.slot_stored i hstate) rfl

/-- Nothing of the session of an unused window was stored. -/
theorem NodeInv.not_stored (hn : NodeInv n log) (hactive : n.active = true)
    (h : n.base = 0 ∧ ∀ i, (n.entries i).state = .free) :
    ∀ c ∈ stores log, c.session ≠ n.session := by
  intro c hc hsession
  rcases hn.record.store_placed hactive c hc hsession with hlt | ⟨i, hi, -⟩
  · rw [h.1] at hlt
    exact Nat.not_lt_zero _ hlt
  · rw [h.2 i] at hi
    cases hi

end Window

/-! ## The handshake -/

/-- While session `s` is being opened: an acceptance or a refusal that is in flight says the truth
about the node still, and the node has nothing of the session. -/
structure OpeningInv (s : UInt64) (n : EdgeSrNode τ) (past done : List (NodeEvent τ)) : Prop where
  accepted : ∀ p, .emit EDGE_TYPE_SR_OPEN_ACK p ∈ done → edgeU64BeRead p = s →
    p.getD 16 0 = EDGE_RC_OK → n.session = s ∧ n.active = true
  refused : ∀ p, .emit EDGE_TYPE_SR_OPEN_ACK p ∈ done → edgeU64BeRead p = s →
    s ≤ edgeU64BeRead (p.drop 8) → n.session ≤ edgeU64BeRead (p.drop 8)
  unused : n.session = s → n.active = true → ∀ c ∈ stores (past ++ done), c.session ≠ s

/-- The handshake as the tracker sees it, and what it ends with. -/
structure HandshakeInv (t : CommandTracker) (n : EdgeSrNode τ) (past done : List (NodeEvent τ)) :
    Prop where
  acks : ∀ p, .emit EDGE_TYPE_SR_OPEN_ACK p ∈ done → edgeU64BeRead p ≤ t.session
  opening : t.state = .opening → OpeningInv t.session n past done
  ready : t.state = .ready → n.session = t.session ∧ ∀ c ∈ stores past, c.session ≠ t.session

/-! ### Steps of the node -/

section NodeSteps

variable [Clock τ] {inp : NodeInput} {n n' : EdgeSrNode τ} {es past done : List (NodeEvent τ)}

/-- An OPEN is answered from the state it leaves behind. -/
theorem openAck_of_act (h : NodeAct inp n es n') {p : List UInt8}
    (hp : .emit EDGE_TYPE_SR_OPEN_ACK p ∈ es) :
    n' = n ∧ ∃ session, inp = .openSession session ∧ p = openAckPayload session n.session
      (if session = n.session ∧ n.active = true then EDGE_RC_OK else EDGE_RC_BAD_PARAM) := by
  have hreceived : EDGE_TYPE_SR_OPEN_ACK ≠ EDGE_TYPE_SR_RECEIVED := by decide
  have hresult : EDGE_TYPE_SR_OPEN_ACK ≠ EDGE_TYPE_SR_RESULT := by decide
  cases h with
  | openAck session hinp =>
      rw [List.mem_singleton, NodeEvent.emit.injEq] at hp
      exact ⟨rfl, session, hinp, hp.2⟩
  | result => simp [EdgeSrNode.resultEvent, hresult] at hp
  | _ => simp [hreceived] at hp

/-- The session changes only when a higher one is opened; it ends only with a command buffered. -/
theorem session_of_act (h : NodeAct inp n es n') :
    (∃ session, inp = .openSession session ∧ n.session < session ∧ n'.session = session) ∨
      n'.session = n.session ∧ (n'.active = true → n.active = true) ∧
        (n.active = true → n'.active = true ∨ ∃ i, (n.entries i).state = .buffered) := by
  cases h with
  | «open» session hinp hlt => exact .inl ⟨session, hinp, hlt, rfl⟩
  | close i now hgap hstate => exact .inr ⟨rfl, (fun h => by cases h), fun _ => .inr ⟨i, hstate⟩⟩
  | _ => exact .inr ⟨rfl, id, .inl⟩

theorem openingInv_act {s : UInt64} (h : NodeAct inp n es n') (hn : NodeInv n (past ++ done))
    (hopen : ∀ session, inp = .openSession session → session ≤ s)
    (hcommand : ∀ c, inp = .command c → c.session ≠ s) (hI : OpeningInv s n past done) :
    OpeningInv s n' past (done ++ es) := by
  have hsession := session_of_act h
  constructor
  case accepted =>
    intro p hp hread hrc
    rcases List.mem_append.mp hp with hp | hp
    · obtain ⟨heq, hactive⟩ := hI.accepted p hp hread hrc
      rcases hsession with ⟨session, hinp, hlt, -⟩ | ⟨hsame, -, hkeep⟩
      · -- nothing above `s` is ever opened
        exact absurd (UInt64.lt_of_lt_of_le hlt (hopen session hinp)) (heq ▸ UInt64.lt_irrefl _)
      · refine ⟨hsame.trans heq, (hkeep hactive).resolve_right ?_⟩
        rintro ⟨i, hi⟩
        have hstored := hn.record.slot_stored i (by rw [hi]; decide)
        exact hI.unused heq hactive _ hstored heq
    · obtain ⟨rfl, session, -, rfl⟩ := openAck_of_act h hp
      rw [read_openAckPayload] at hread
      rw [rc_openAckPayload] at hrc
      split_ifs at hrc with hok
      · exact ⟨hok.1.symm.trans hread, hok.2⟩
      · exact absurd hrc (by decide)
  case refused =>
    intro p hp hread hle
    rcases List.mem_append.mp hp with hp | hp
    · rcases hsession with ⟨session, hinp, -, heq⟩ | ⟨hsame, -⟩
      · rw [heq]
        exact UInt64.le_trans (hopen session hinp) hle
      · rw [hsame]
        exact hI.refused p hp hread hle
    · obtain ⟨rfl, session, -, rfl⟩ := openAck_of_act h hp
      rw [highWater_openAckPayload]
      exact UInt64.le_refl _
  case unused =>
    intro heq hactive c hc
    rw [← List.append_assoc, stores_append, List.mem_append] at hc
    rcases hc with hc | hc
    · rcases hsession with ⟨session, -, hlt, hnew⟩ | ⟨hsame, hactive', -⟩
      · have hle := hn.record.store_session c hc
        rintro rfl
        exact UInt64.lt_irrefl _ (UInt64.lt_of_le_of_lt hle (heq ▸ hnew ▸ hlt))
      · exact hI.unused (hsame.symm.trans heq) (hactive' hactive) c hc
    · exact hcommand c (steps_store (Steps.single h) c hc).1

theorem handshakeInv_nodeAct {t : CommandTracker} (h : NodeAct inp n es n')
    (hn : NodeInv n (past ++ done))
    (hopen : ∀ session, inp = .openSession session → session ≤ t.session)
    (hcommand : t.state = .opening → ∀ c, inp = .command c → c.session ≠ t.session)
    (hI : HandshakeInv t n past done) : HandshakeInv t n' past (done ++ es) where
  acks := by
    intro p hp
    rcases List.mem_append.mp hp with hp | hp
    · exact hI.acks p hp
    · obtain ⟨-, session, hinp, rfl⟩ := openAck_of_act h hp
      rw [read_openAckPayload]
      exact hopen session hinp
  opening := fun hstate => openingInv_act h hn hopen (hcommand hstate) (hI.opening hstate)
  ready := by
    intro hstate
    obtain ⟨heq, hpast⟩ := hI.ready hstate
    refine ⟨?_, hpast⟩
    rcases session_of_act h with ⟨session, hinp, hlt, -⟩ | ⟨hsame, -⟩
    · exact absurd (UInt64.lt_of_lt_of_le hlt (hopen session hinp)) (heq ▸ UInt64.lt_irrefl _)
    · exact hsame.trans heq

end NodeSteps

/-! ### Steps of the tracker -/

section TrackerSteps

variable {t t' : CommandTracker} {n : EdgeSrNode τ} {es : List TrackerEvent}
  {past done : List (NodeEvent τ)} {call : TrackerCall}

/-- A session above all that was acknowledged begins; the node may be in it, with nothing of it. -/
theorem HandshakeInv.raise (hI : HandshakeInv t n past done) (hlt : t.session < t'.session)
    (hstate : t'.state = .opening)
    (hunused : n.session = t'.session → n.active = true →
      ∀ c ∈ stores (past ++ done), c.session ≠ t'.session) : HandshakeInv t' n past done where
  acks := fun p hp => UInt64.le_trans (hI.acks p hp) (UInt64.le_of_lt hlt)
  opening := by
    intro _
    -- no acknowledgement names the new session
    have hne : ∀ p, .emit EDGE_TYPE_SR_OPEN_ACK p ∈ done → edgeU64BeRead p ≠ t'.session :=
      fun p hp heq => UInt64.lt_irrefl _ (UInt64.lt_of_le_of_lt (heq ▸ hI.acks p hp) hlt)
    exact ⟨fun p hp heq => absurd heq (hne p hp), fun p hp heq => absurd heq (hne p hp), hunused⟩
  ready := fun hready => by cases (hstate.symm.trans hready)

/-- Actions within a session that leave its state, or give it up. -/
theorem HandshakeInv.keep (hI : HandshakeInv t n past done) (hsession : t'.session = t.session)
    (hstate : t'.state = t.state ∨ t'.state = .failed) : HandshakeInv t' n past done := by
  rcases hstate with hstate | hfailed
  · exact ⟨hsession ▸ hI.acks, hsession ▸ hstate ▸ hI.opening, hsession ▸ hstate ▸ hI.ready⟩
  · exact ⟨hsession ▸ hI.acks, (fun h => by cases hfailed.symm.trans h),
      fun h => by cases hfailed.symm.trans h⟩

theorem handshakeInv_act (h : TrackerAct call t es t') (hcall : ∀ s now, call ≠ .start s now)
    (hframe : ∀ type p, call.frame = some (type, p) → .emit type p ∈ done)
    (hI : HandshakeInv t n past done) : HandshakeInv t' n past done := by
  cases h with
  | handshake _ hdata hstate => exact hI.keep hdata.session (hstate.imp_right And.right)
  | exhausted => exact hI.keep rfl (.inr rfl)
  | begin session now hwhy hempty hlt =>
      rcases hwhy with hready | ⟨s, now', hstart⟩
      · refine hI.raise hlt rfl fun heq => ?_
        rw [(hI.ready hready).1] at heq
        exact absurd hlt (heq ▸ UInt64.lt_irrefl _)
      · exact absurd hstart (hcall s now')
  | rejected p highWater hp hstate hsession hwater hle hmax =>
      subst hwater
      have hlt := lt_session_succ hmax
      refine hI.raise (UInt64.lt_of_le_of_lt hle hlt) hstate fun heq => ?_
      -- the node has not gone beyond the session it refused with
      have hnode := (hI.opening hstate).refused p (hframe _ p hp) hsession hle
      exact absurd (UInt64.lt_of_le_of_lt hnode hlt) (heq ▸ UInt64.lt_irrefl _)
  | ready p hp hstate hsession hwater hrc =>
      have hopening := hI.opening hstate
      obtain ⟨heq, hactive⟩ := hopening.accepted p (hframe _ p hp) hsession hrc
      refine ⟨hI.acks, (fun h => by cases h), fun _ => ⟨heq, fun c hc => ?_⟩⟩
      exact hopening.unused heq hactive c (by rw [stores_append]; exact List.mem_append_left _ hc)
  | _ => exact hI.keep rfl (.inl rfl)

/-- What a call that ends the handshake finds: it is read off the acceptance. -/
theorem unused_act (h : TrackerAct call t es t')
    (hframe : ∀ type p, call.frame = some (type, p) → .emit type p ∈ done)
    (hI : HandshakeInv t n past done)
    (hready : t.state = .ready →
      n.active = true ∧ ∀ c ∈ stores (past ++ done), c.session ≠ t.session) :
    t'.state = .ready → n.active = true ∧ ∀ c ∈ stores (past ++ done), c.session ≠ t'.session := by
  intro hready'
  cases h with
  | handshake _ hdata hstate =>
      rcases hstate with hstate | ⟨-, hfailed⟩
      · rw [hdata.session]
        exact hready (hstate.symm.trans hready')
      · cases (hfailed.symm.trans hready')
  | exhausted => cases hready'
  | begin session now => cases hready'
  | rejected p highWater hp hstate => cases (hstate.symm.trans hready')
  | ready p hp hstate hsession hwater hrc =>
      have hopening := hI.opening hstate
      obtain ⟨heq, hactive⟩ := hopening.accepted p (hframe _ p hp) hsession hrc
      exact ⟨hactive, hopening.unused heq hactive⟩
  | _ => exact hready hready'

/-- `start` gives up, or opens a session above the current one. -/
theorem start_cases (t : CommandTracker) (session : UInt64) (now : TimePoint) :
    (t.call (.start session now)).1 = { t with entries := KeyMap.empty, state := .failed } ∨
      t.session < t.nextSession session ∧ (t.call (.start session now)).1 =
        { t with entries := KeyMap.empty }.openSession (t.nextSession session) now := by
  show (t.start session now).1 = _ ∨ _ ∧ (t.start session now).1 = _
  unfold CommandTracker.start CommandTracker.begin
  dsimp only
  split_ifs with hmax
  · exact .inl rfl
  · exact .inr ⟨CommandTracker.lt_nextSession hmax, rfl⟩

/-- A start with a session the node is not in, or has nothing of. -/
theorem HandshakeInv.start (hI : HandshakeInv t n past done) (session : UInt64) (now : TimePoint)
    (hunused : n.session = t.nextSession session → n.active = true →
      ∀ c ∈ stores (past ++ done), c.session ≠ t.nextSession session) :
    HandshakeInv (t.call (.start session now)).1 n past done := by
  rcases start_cases t session now with heq | ⟨hlt, heq⟩
  · rw [heq]
    exact hI.keep rfl (.inr rfl)
  · rw [heq]
    exact hI.raise hlt rfl hunused

end TrackerSteps

/-! ## Runs -/

namespace Deployment

structure Inv (d : Deployment τ) : Prop where
  tracker : d.link.tracker.TrackerInv d.link.sent
  node : NodeInv d.link.node d.record
  stored : ∀ c ∈ stores d.link.done, c ∈ submits d.link.sent
  handshake : HandshakeInv d.link.tracker d.link.node d.past d.link.done
  apart : ∀ c ∈ submits d.link.sent, ∀ e ∈ stores d.past, e.session ≠ c.session
  session_le : ∃ s ∈ d.link.tracker.session :: d.retired, d.link.node.session ≤ s

theorem inv_boot (memory : EdgeSrNode τ) : (boot memory).Inv where
  tracker := CommandTracker.trackerInv_new
  node := nodeInv_init memory
  stored := fun _ h => by cases h
  handshake := ⟨(fun _ h => by cases h), (fun h => by cases h), fun h => by cases h⟩
  apart := fun _ h => by cases h
  session_le := ⟨0, List.mem_cons_self, UInt64.le_refl _⟩

/-- What a call of the tracker keeps, whatever it does to the handshake. -/
theorem inv_trackerCall {d : Deployment τ} (hd : d.Inv) (call : TrackerCall)
    (hhandshake : HandshakeInv (d.link.tracker.call call).1 d.link.node d.past d.link.done) :
    (d.trackerCall call).Inv where
  tracker := CommandTracker.trackerInv_call call hd.tracker
  node := hd.node
  stored := by
    intro c hc
    show c ∈ submits (d.link.sent ++ _)
    rw [submits_append]
    exact List.mem_append_left _ (hd.stored c hc)
  handshake := hhandshake
  apart := by
    show ∀ c ∈ submits (d.link.sent ++ _), _
    rw [submits_append, List.forall_mem_append]
    refine ⟨hd.apart, fun c hc => ?_⟩
    obtain ⟨hready, hsession, -⟩ := CommandTracker.submitted_of_call hc
    rw [hsession]
    exact (hd.handshake.ready hready).2
  session_le := by
    obtain ⟨s, hs, hle⟩ := hd.session_le
    rcases List.mem_cons.mp hs with rfl | hs
    · exact ⟨_, List.mem_cons_self, UInt64.le_trans hle (CommandTracker.call_session_le _ call)⟩
    · exact ⟨s, List.mem_cons_of_mem _ hs, hle⟩

theorem inv_firstCommand {d : Deployment τ} (hd : d.Inv) (epoch : Int) (now : TimePoint)
    (hepoch : ∀ s ∈ d.link.tracker.session :: d.retired, s < epochSession epoch) :
    (d.firstCommand epoch now).Inv := by
  refine inv_trackerCall hd _ (hd.handshake.start _ now fun heq => ?_)
  have hnext : d.link.tracker.nextSession (epochSession epoch) = epochSession epoch :=
    if_neg (UInt64.not_le.mpr (hepoch _ List.mem_cons_self))
  -- the node is below the new session
  obtain ⟨s, hs, hle⟩ := hd.session_le
  rw [heq, hnext] at hle
  exact absurd (UInt64.lt_of_le_of_lt hle (hepoch s hs)) (UInt64.lt_irrefl _)

theorem inv_replaceSerial {d : Deployment τ} (hd : d.Inv) (now : TimePoint) (hok : ¬ d.Stale) :
    (d.replaceSerial now).Inv := by
  refine inv_trackerCall hd _ (hd.handshake.start _ now fun heq hactive => ?_)
  have hnext : d.link.tracker.nextSession d.link.tracker.session = d.link.tracker.session + 1 :=
    if_pos (UInt64.le_refl _)
  rw [hnext] at heq ⊢
  rw [← heq]
  apply hd.node.not_stored hactive
  by_contra hused
  exact hok ⟨heq, hactive, hused⟩

theorem inv_nodeCall [Clock τ] {d : Deployment τ} (hd : d.Inv) (call : NodeCall τ σ)
    (hframe : d.link.Delivers call) : (d.nodeCall call).Inv := by
  have hacts := nodeCall_acts d.link.node call
  have hopen : ∀ session, call.input = .openSession session → session ≤ d.link.tracker.session :=
    fun _ hinp => SrSystem.session_of_input hd.tracker.record hframe hinp
  have hcommand : ∀ c, call.input = .command c → c ∈ submits d.link.sent :=
    fun _ hinp => SrSystem.submitted_of_input hd.tracker.record hframe hinp
  constructor
  case tracker => exact hd.tracker
  case node =>
    show NodeInv _ (d.past ++ (d.link.done ++ _))
    rw [← List.append_assoc]
    exact nodeInv_call call hd.node
  case stored =>
    intro c hc
    change c ∈ stores (d.link.done ++ _) at hc
    rw [stores_append, List.mem_append] at hc
    rcases hc with hc | hc
    · exact hd.stored c hc
    · exact hcommand c (steps_store hacts c hc).1
  case handshake =>
    -- while a session is being opened no command of it exists
    have hnone : d.link.tracker.state = .opening → ∀ c, call.input = .command c →
        c.session ≠ d.link.tracker.session := by
      intro hstate c hinp heq
      have hlt := hd.tracker.record.submit_seq c (hcommand c hinp) heq
      rw [hd.tracker.window.opening hstate] at hlt
      exact Nat.not_lt_zero _ hlt
    have hrun := Steps.invariant
      (I := fun n log => NodeInv n (d.past ++ log) ∧ HandshakeInv d.link.tracker n d.past log)
      (fun n log es n' hI hact => ⟨by
        rw [← List.append_assoc]
        exact nodeInv_steps (Steps.single hact) hI.1,
        handshakeInv_nodeAct hact hI.1 hopen hnone hI.2⟩)
      d.link.done hacts ⟨hd.node, hd.handshake⟩
    exact hrun.2
  case apart => exact hd.apart
  case session_le =>
    rcases steps_session hacts with heq | hinp
    · obtain ⟨s, hs, hle⟩ := hd.session_le
      exact ⟨s, hs, heq.symm ▸ hle⟩
    · exact ⟨_, List.mem_cons_self, hopen _ hinp⟩

theorem inv_restart {d : Deployment τ} (hd : d.Inv) : d.restart.Inv where
  tracker := CommandTracker.trackerInv_new
  node := by
    show NodeInv _ (d.record ++ [])
    rw [List.append_nil]
    exact hd.node
  stored := fun _ h => by cases h
  handshake := ⟨(fun _ h => by cases h), (fun h => by cases h), fun h => by cases h⟩
  apart := fun _ h => by cases h
  session_le := by
    obtain ⟨s, hs, hle⟩ := hd.session_le
    exact ⟨s, List.mem_cons_of_mem _ hs, hle⟩

theorem inv_step [Clock τ] {d d' : Deployment τ} (h : Step σ (¬ Stale ·) d d') (hd : d.Inv) :
    d'.Inv := by
  cases h with
  | firstCommand epoch now _ hepoch => exact inv_firstCommand hd epoch now hepoch
  | replaceSerial now hok => exact inv_replaceSerial hd now hok
  | tracker call hcall hframe =>
      refine inv_trackerCall hd call ?_
      exact (CommandTracker.call_acts d.link.tracker call).preserves
        (I := fun t => HandshakeInv t d.link.node d.past d.link.done)
        (fun _ _ _ hI hact => handshakeInv_act hact hcall hframe hI) hd.handshake
  | node call hframe => exact inv_nodeCall hd call hframe
  | restart => exact inv_restart hd

theorem inv_run [Clock τ] {memory : EdgeSrNode τ} {d : Deployment τ}
    (h : Run σ (¬ Stale ·) (boot memory) d) : d.Inv := by
  induction h with
  | refl => exact inv_boot memory
  | tail _ hstep ih => exact inv_step hstep ih

/-! ## Handshakes -/

/-- The tracker is ready after the step, and was not before. -/
def EntersReady (d d' : Deployment τ) : Prop :=
  d.link.tracker.state ≠ .ready ∧ d'.link.tracker.state = .ready

/-- No start ends in a session that is ready. -/
theorem start_not_ready (t : CommandTracker) (session : UInt64) (now : TimePoint) :
    (t.call (.start session now)).1.state ≠ .ready := by
  rcases start_cases t session now with heq | ⟨-, heq⟩
  all_goals
    rw [heq]
    exact fun h => by cases h

theorem Inv.freshWindow [Clock τ] {ok : Deployment τ → Prop} {d d' : Deployment τ} (hd : d.Inv)
    (hd' : d'.Inv) (h : Step σ ok d d') (hready : EntersReady d d') : d'.FreshWindow := by
  cases h with
  | firstCommand epoch now => exact absurd hready.2 (start_not_ready _ _ now)
  | replaceSerial now => exact absurd hready.2 (start_not_ready _ _ now)
  | tracker call hcall hframe =>
      have hrun := Steps.preserves
        (I := fun t => HandshakeInv t d.link.node d.past d.link.done ∧ (t.state = .ready →
          d.link.node.active = true ∧ ∀ c ∈ stores d.record, c.session ≠ t.session))
        (fun _ _ _ hI hact => ⟨handshakeInv_act hact hcall hframe hI.1,
          unused_act hact hframe hI.1 hI.2⟩)
        (CommandTracker.call_acts d.link.tracker call) ⟨hd.handshake, fun h => absurd h hready.1⟩
      obtain ⟨hactive, hunused⟩ := hrun.2 hready.2
      have hsession := (hd'.handshake.ready hready.2).1
      have hwindow := hd.node.unused (fun c hc => hsession ▸ hunused c hc)
      exact ⟨hsession, hactive, hwindow.1, hwindow.2⟩
  | node call => exact absurd hready.2 hready.1
  | restart => cases hready.2

/-- A receipt or a result under the number of a command that this process accepted confirms this
command. -/
theorem Inv.confirms {d : Deployment τ} (hd : d.Inv) {c : Command} (hc : c ∈ submits d.link.sent)
    {type : UInt8} {p : List UInt8}
    (htype : type = EDGE_TYPE_SR_RECEIVED ∨ type = EDGE_TYPE_SR_RESULT)
    (hp : .emit type p ∈ d.link.done) (hsession : edgeU64BeRead p = c.session)
    (hseq : p.getD 8 0 = c.seq) : c ∈ stores d.link.done := by
  obtain ⟨e, he, hes, heq⟩ :=
    SrSystem.stored_of_frame hd.node htype (List.mem_append_right d.past hp)
  rw [hsession] at hes
  rw [hseq] at heq
  rw [record, stores_append, List.mem_append] at he
  have hnow := he.resolve_left fun hpast => hd.apart c hc e hpast hes
  -- both were accepted under one number
  have hunique := hd.tracker.record.submitted_unique hc
  have hmem : e ∈ (submits d.link.sent).filter fun d => d.session = c.session ∧ d.seq = c.seq :=
    List.mem_filter.mpr ⟨hd.stored e hnow, decide_eq_true ⟨hes, heq⟩⟩
  rw [hunique, List.mem_singleton] at hmem
  exact hmem ▸ hnow

/-- **A handshake ends with a fresh window, also across restarts**, when no serial replacement
chooses a session the node is in with a used window: whenever the tracker becomes ready, the node
is active in its session with an unused window; and for no command the process accepted does the
node hold, or confirm, a command from before the process. -/
theorem handshake_fresh [Clock τ] {memory : EdgeSrNode τ} {d : Deployment τ}
    (h : Run σ (¬ Stale ·) (boot memory) d) :
    (∀ d', Step σ (¬ Stale ·) d d' → EntersReady d d' → d'.FreshWindow) ∧
      ∀ c ∈ submits d.link.sent, (∀ e ∈ stores d.past, e.session ≠ c.session) ∧
        ∀ type p, type = EDGE_TYPE_SR_RECEIVED ∨ type = EDGE_TYPE_SR_RESULT →
          .emit type p ∈ d.link.done → edgeU64BeRead p = c.session → p.getD 8 0 = c.seq →
          c ∈ stores d.link.done := by
  have hd := inv_run h
  constructor
  · intro d' hstep hready
    exact hd.freshWindow (inv_step hstep hd) hstep hready
  · intro c hc
    exact ⟨hd.apart c hc, fun _ _ htype hp hsession hseq => hd.confirms hc htype hp hsession hseq⟩

/-! ### A session number that comes back -/

/-- The OPEN of the tracker is written, and answered by the node. -/
def exchangeOpen (d : Deployment UInt32) : Deployment UInt32 :=
  let f := d.link.tracker.openSend
  let d := d.trackerCall (.onWritten f true 0)
  d.nodeCall (.onFrame SrSystem.answering () f.type (some f.payload))

/-- The acceptance of a session arrives. -/
def acceptOpen (d : Deployment UInt32) (session : UInt64) : Deployment UInt32 :=
  d.trackerCall (.onFrame EDGE_TYPE_SR_OPEN_ACK (openAckPayload session session EDGE_RC_OK) 0)

/-- A light query is accepted, written and executed. -/
def exchangeQuery (d : Deployment UInt32) : Deployment UInt32 :=
  let d := d.trackerCall (.submit EDGE_TYPE_QUERY_LIGHT [] 0)
  let f := d.link.tracker.dataSend 0 (Entry.new EDGE_TYPE_QUERY_LIGHT [] 0)
  let d := d.trackerCall (.onWritten f true 0)
  d.nodeCall (.onFrame SrSystem.answering () f.type (some f.payload))

section Exchange

variable {ok : Deployment UInt32 → Prop} {d : Deployment UInt32}

/-- A frame that was returned is written and delivered. -/
theorem run_exchange {f : CommandSend} (h : .send f ∈ d.link.sent) :
    Run Unit ok d ((d.trackerCall (.onWritten f true 0)).nodeCall
      (.onFrame SrSystem.answering () f.type (some f.payload))) := by
  have hwrite : Step Unit ok d _ := Step.tracker d (.onWritten f true 0) (fun _ _ h => by cases h)
    (fun _ _ h => by cases h)
  have hdeliver : Step Unit ok (d.trackerCall (.onWritten f true 0)) _ :=
    Step.node _ (.onFrame SrSystem.answering () f.type (some f.payload))
      ⟨f, List.mem_append_left _ h, rfl, rfl⟩
  exact (Relation.ReflTransGen.single hwrite).tail hdeliver

theorem run_exchangeOpen (h : .send d.link.tracker.openSend ∈ d.link.sent) :
    Run Unit ok d d.exchangeOpen :=
  run_exchange h

theorem step_acceptOpen {session : UInt64}
    (h : .emit EDGE_TYPE_SR_OPEN_ACK (openAckPayload session session EDGE_RC_OK) ∈ d.link.done) :
    Step Unit ok d (d.acceptOpen session) := by
  apply Step.tracker
  · exact fun _ _ h => by cases h
  · rintro type p ⟨⟩
    exact h

theorem run_exchangeQuery (h : .send ((d.trackerCall
      (.submit EDGE_TYPE_QUERY_LIGHT [] 0)).link.tracker.dataSend 0
        (Entry.new EDGE_TYPE_QUERY_LIGHT [] 0)) ∈
      (d.trackerCall (.submit EDGE_TYPE_QUERY_LIGHT [] 0)).link.sent) :
    Run Unit ok d d.exchangeQuery := by
  have hsubmit : Step Unit ok d _ := Step.tracker d (.submit EDGE_TYPE_QUERY_LIGHT [] 0)
    (fun _ _ h => by cases h) (fun _ _ h => by cases h)
  exact (Relation.ReflTransGen.single hsubmit).trans (run_exchange h)

end Exchange

/-- The serial link is replaced before the first command; session 1 is opened and used. -/
def usedOne : Deployment UInt32 :=
  ((((boot SrSystem.blankNode).replaceSerial 0).exchangeOpen).acceptOpen 1).exchangeQuery

/-- The same happens again in the next process: session 1 is opened a second time. -/
def reopenedOne : Deployment UInt32 := (usedOne.restart.replaceSerial 0).exchangeOpen

/-- The next process begins with a command instead. -/
def openedTwo : Deployment UInt32 := (usedOne.restart.firstCommand 2 0).exchangeOpen

section Exchange

variable {ok : Deployment UInt32 → Prop}

theorem run_usedOne (hok : ok (boot SrSystem.blankNode)) :
    Run Unit ok (boot SrSystem.blankNode) usedOne := by
  have hreplace := Step.replaceSerial (σ := Unit) (boot SrSystem.blankNode) 0 hok
  have hopen : Run Unit ok (boot SrSystem.blankNode) (exchangeOpen _) :=
    (Relation.ReflTransGen.single hreplace).trans (run_exchangeOpen (by decide))
  exact (hopen.tail (step_acceptOpen (by decide))).trans (run_exchangeQuery (by decide))

theorem run_reopenedOne (hok : ok (boot SrSystem.blankNode)) (hok' : ok usedOne.restart) :
    Run Unit ok (boot SrSystem.blankNode) reopenedOne :=
  (((run_usedOne hok).tail (.restart _)).tail (.replaceSerial _ 0 hok')).trans
    (run_exchangeOpen (by decide +kernel))

theorem run_openedTwo (hok : ok (boot SrSystem.blankNode)) :
    Run Unit ok (boot SrSystem.blankNode) openedTwo := by
  have hsessions : (usedOne.restart.link.tracker.session :: usedOne.restart.retired).all
      (· < epochSession 2) = true := by decide +kernel
  have hfirst : Step Unit ok usedOne.restart (usedOne.restart.firstCommand 2 0) :=
    .firstCommand _ 2 0 rfl fun s hs => of_decide_eq_true (List.all_eq_true.mp hsessions s hs)
  have hopened := ((run_usedOne hok).tail (.restart _)).tail hfirst
  exact hopened.trans (run_exchangeOpen (by decide +kernel))

end Exchange

theorem not_stale_boot : ¬ (boot SrSystem.blankNode).Stale := fun h => by cases h.2.1

theorem handshake_fresh_openedTwo :
    (openedTwo.acceptOpen 2).FreshWindow ∧
      ⟨2, 0, EDGE_TYPE_QUERY_LIGHT, []⟩ ∈ stores (openedTwo.acceptOpen 2).exchangeQuery.link.done := by
  have hrun : Run Unit (¬ Stale ·) (boot SrSystem.blankNode) openedTwo :=
    run_openedTwo not_stale_boot
  have haccept : Step Unit (¬ Stale ·) openedTwo (openedTwo.acceptOpen 2) :=
    step_acceptOpen (by decide +kernel)
  constructor
  · exact (handshake_fresh hrun).1 _ haccept ⟨by decide +kernel, by decide +kernel⟩
  · have hquery := (hrun.tail haccept).trans (run_exchangeQuery (by decide +kernel))
    exact ((handshake_fresh hquery).2 _ (by decide +kernel)).2 EDGE_TYPE_SR_RECEIVED
      (receivedPayload 2 0) (.inl rfl) (by decide +kernel) (by decide +kernel) (by decide +kernel)

/-- **Without the condition a session number comes back**: two processes that both replace the
serial link before their first command share session 1, and the second one finds the window of the
first. -/
theorem handshake_reuses_window :
    ¬ ∀ d d' : Deployment UInt32, Run Unit (fun _ => True) (boot SrSystem.blankNode) d →
      Step Unit (fun _ => True) d d' → EntersReady d d' → d'.FreshWindow := by
  intro hfresh
  have hrun : Run Unit (fun _ => True) (boot SrSystem.blankNode) reopenedOne :=
    run_reopenedOne trivial trivial
  have hwindow := hfresh reopenedOne (reopenedOne.acceptOpen 1) hrun
    (step_acceptOpen (by decide +kernel)) ⟨by decide +kernel, by decide +kernel⟩
  exact absurd hwindow.base (by decide +kernel)

end Deployment

end EdgeGateway
