import EdgeGateway.Link.TrackerInvariant
import EdgeGateway.Protocol.SrDeliver
import Mathlib.Logic.Relation

set_option autoImplicit false

/-! # One sender, one receiver, two lossy channels

A tracker and a node that was initialised once. A frame that was sent stays in its channel for
good: delivering it any number of times, in any order, or never, covers loss, duplication, delay
and reordering; nothing else is ever delivered. The tracker may be started again at any time with
any session number, writes may be reported in any way, and every call reads any clock and runs any
execute hook.
-/

namespace EdgeGateway

/-! ## The system -/

/-- `sent` is all the tracker returned, `done` all that happened in the node. -/
structure SrSystem (τ : Type) where
  tracker : CommandTracker
  node : EdgeSrNode τ
  sent : List TrackerEvent
  done : List (NodeEvent τ)

variable {τ σ : Type}

namespace SrSystem

def init (memory : EdgeSrNode τ) : SrSystem τ :=
  ⟨CommandTracker.new, edgeSrNodeInit memory, [], []⟩

def trackerCall (s : SrSystem τ) (call : TrackerCall) : SrSystem τ :=
  { s with tracker := (s.tracker.call call).1, sent := s.sent ++ (s.tracker.call call).2 }

def nodeCall [Clock τ] (s : SrSystem τ) (call : NodeCall τ σ) : SrSystem τ :=
  { s with node := (call.run s.node).node, done := s.done ++ (call.run s.node).events }

/-- The frame of a call comes from the other side. -/
def Delivers (s : SrSystem τ) : NodeCall τ σ → Prop
  | .onFrame _ _ type payload =>
      ∃ f, .send f ∈ s.sent ∧ f.type = type ∧ payload = some f.payload
  | .tick _ _ => True

/-- The steps of the system; `σ` is the type of the hooks' user state. -/
inductive Step [Clock τ] (σ : Type) : SrSystem τ → SrSystem τ → Prop
  | tracker (s : SrSystem τ) (call : TrackerCall)
      (hframe : ∀ type p, call.frame = some (type, p) → .emit type p ∈ s.done) :
      Step σ s (s.trackerCall call)
  | node (s : SrSystem τ) (call : NodeCall τ σ) (hframe : s.Delivers call) :
      Step σ s (s.nodeCall call)

/-- The runs of the system. -/
abbrev Run [Clock τ] (σ : Type) : SrSystem τ → SrSystem τ → Prop := Relation.ReflTransGen (Step σ)

/-! ## Invariant -/

/-- What relates the tracker to the node's record. -/
structure LinkInv (t : CommandTracker) (sent : List TrackerEvent) (n : EdgeSrNode τ)
    (done : List (NodeEvent τ)) : Prop where
  session_le : n.session ≤ t.session
  ready : t.state = .ready → n.session = t.session
  receipt : ∀ seq, t.received seq = true →
    ∃ c ∈ stores done, c.session = t.session ∧ c.seq = seq
  completion : ∀ f ∈ finishes sent, f.2.error = "" →
    ∃ c raw, .execute c raw ∈ done ∧ c.session = f.1 ∧ c.seq = f.2.seq ∧
      f.2.result = storedResult raw

structure Inv (s : SrSystem τ) : Prop where
  tracker : s.tracker.TrackerInv s.sent
  node : NodeInv s.node s.done
  settled : s.node.Settled
  stored : ∀ c ∈ stores s.done, c ∈ submits s.sent
  link : LinkInv s.tracker s.sent s.node s.done

theorem inv_init (memory : EdgeSrNode τ) : (init memory).Inv where
  tracker := CommandTracker.trackerInv_new
  node := nodeInv_init memory
  settled := settled_init memory
  stored := fun _ h => by cases h
  link :=
    { session_le := UInt64.le_refl _
      ready := fun h => by cases h
      receipt := fun _ h => by cases h
      completion := fun _ h => by cases h }

/-! ## Steps of the tracker -/

section TrackerSteps

variable {t t' : CommandTracker} {sent es : List TrackerEvent} {n : EdgeSrNode τ}
  {done : List (NodeEvent τ)} {call : TrackerCall}

/-- Actions after which the session, the receipts and the successful completions are those of
before. -/
theorem LinkInv.keep (hl : LinkInv t sent n done) (hsession : t'.session = t.session)
    (hready : t'.state = .ready → t.state = .ready) (hreceived : t'.received = t.received)
    (hfinishes : ∀ f ∈ finishes es, f.2.error ≠ "") : LinkInv t' (sent ++ es) n done where
  session_le := hsession ▸ hl.session_le
  ready := fun h => hsession ▸ hl.ready (hready h)
  receipt := hsession ▸ hreceived ▸ hl.receipt
  completion := by
    intro f hf herror
    rw [finishes_append, List.mem_append] at hf
    exact hl.completion f (hf.resolve_right fun h => hfinishes f h herror) herror

/-- Actions that go to a higher session. -/
theorem LinkInv.raise (hl : LinkInv t sent n done) (hsession : t.session ≤ t'.session)
    (hstate : t'.state ≠ .ready) (hreceived : ∀ seq, t'.received seq = false) :
    LinkInv t' (sent ++ []) n done where
  session_le := UInt64.le_trans hl.session_le hsession
  ready := fun h => absurd h hstate
  receipt := fun seq h => absurd (hreceived seq ▸ h) Bool.false_ne_true
  completion := by rw [List.append_nil]; exact hl.completion

/-- What the node sent proves that it stored, and a result that it executed. -/
theorem stored_of_frame (hn : NodeInv n done) {type : UInt8} {p : List UInt8}
    (htype : type = EDGE_TYPE_SR_RECEIVED ∨ type = EDGE_TYPE_SR_RESULT)
    (hp : .emit type p ∈ done) :
    ∃ c ∈ stores done, c.session = edgeU64BeRead p ∧ c.seq = p.getD 8 0 := by
  rcases htype with rfl | rfl
  · obtain ⟨c, hc, rfl⟩ := hn.emits.received p hp
    exact ⟨c, hc, (read_receivedPayload _ _).symm, (seq_receivedPayload _ _).symm⟩
  · obtain ⟨c, raw, hc, rfl⟩ := hn.emits.result p hp
    exact ⟨c, hn.record.execute_stored c (mem_executes.mpr ⟨raw, hc⟩),
      (read_resultPayload _ _ _ _).symm, (seq_resultPayload _ _ _ _).symm⟩

theorem linkInv_act (h : TrackerAct call t es t') (hw : t.WindowInv) (hn : NodeInv n done)
    (hframe : ∀ type p, call.frame = some (type, p) → .emit type p ∈ done)
    (hl : LinkInv t sent n done) : LinkInv t' (sent ++ es) n done := by
  have hle := CommandTracker.act_session_le h
  cases h with
  | handshake _ hdata hstate =>
      refine hl.keep hdata.session (fun hready => ?_) hdata.received (by simp)
      rcases hstate with heq | ⟨-, hfailed⟩
      · exact heq ▸ hready
      · cases (hfailed.symm.trans hready)
  | exhausted => exact hl.keep rfl (fun h => by cases h) rfl (by simp)
  | begin session now => exact hl.raise hle (fun h => by cases h) (fun _ => rfl)
  | rejected p highWater hp hstate =>
      refine hl.raise hle (by show t.state ≠ _; rw [hstate]; decide) fun seq => ?_
      -- no number is in use before the session is open
      refine Bool.eq_false_iff.mpr fun hreceived => ?_
      have := hw.received_lt seq hreceived
      rw [hw.opening hstate] at this
      exact absurd this (Nat.not_lt_zero _)
  | openSent => exact hl.keep rfl id rfl (by simp [finishes, TrackerEvent.finished?])
  | ready p hp hstate hsession hwater hrc =>
      obtain ⟨requested, highWater, rc, rfl, hle, -⟩ := hn.emits.openAck p (hframe _ p hp)
      rw [highWater_openAckPayload] at hwater
      subst hwater
      exact { hl with
        ready := fun _ => UInt64.le_antisymm hl.session_le hle
        completion := by rw [List.append_nil]; exact hl.completion }
  | submit => exact hl.keep rfl id rfl (by simp [finishes, TrackerEvent.finished?])
  | dataSent => exact hl.keep rfl id rfl (by simp [finishes, TrackerEvent.finished?])
  | received type p seq e hp htype hsession hseq =>
      obtain ⟨c, hc, hcs, hcq⟩ := stored_of_frame hn htype (hframe _ p hp)
      exact { hl with
        receipt := by
          intro seq' h
          rw [CommandTracker.receive_received] at h
          split_ifs at h with heq
          · exact ⟨c, hc, hcs.trans hsession, by rw [heq, hcq, hseq]⟩
          · exact hl.receipt seq' h
        completion := by rw [List.append_nil]; exact hl.completion }
  | result p seq e hp hsession hseq =>
      obtain ⟨c, raw, hc, rfl⟩ := hn.emits.result p (hframe _ p hp)
      rw [read_resultPayload] at hsession
      rw [seq_resultPayload] at hseq
      exact { hl with
        completion := by
          intro f hf herror
          rw [finishes_append, List.mem_append] at hf
          rcases hf with hf | hf
          · exact hl.completion f hf herror
          · obtain rfl := List.mem_singleton.mp hf
            exact ⟨c, raw, hc, hsession, hseq, drop_resultPayload c.session c.seq c.type _⟩ }
  | ackSent => exact hl.keep rfl id rfl (by simp [finishes, TrackerEvent.finished?])
  | entries => exact hl.keep rfl id rfl (by simp)
  | cancel error herror =>
      refine hl.keep rfl id rfl fun f hf => ?_
      obtain ⟨entry, -, heq⟩ := List.mem_map.mp (mem_finishes.mp hf)
      rw [TrackerEvent.finish.injEq] at heq
      rw [← heq.2]
      exact herror entry.1

end TrackerSteps

theorem inv_trackerCall {s : SrSystem τ} (hs : s.Inv) (call : TrackerCall)
    (hframe : ∀ type p, call.frame = some (type, p) → .emit type p ∈ s.done) :
    (s.trackerCall call).Inv where
  tracker := CommandTracker.trackerInv_call call hs.tracker
  node := hs.node
  settled := hs.settled
  stored := by
    intro c hc
    show c ∈ submits (s.sent ++ _)
    rw [submits_append]
    exact List.mem_append_left _ (hs.stored c hc)
  link := by
    have h := Steps.invariant (I := fun t sent => t.WindowInv ∧ LinkInv t sent s.node s.done)
      (fun t sent es t' hI hact => ⟨CommandTracker.windowInv_act hact hI.1,
        linkInv_act hact hI.1 hs.node hframe hI.2⟩) s.sent
      (CommandTracker.call_acts s.tracker call) ⟨hs.tracker.window, hs.link⟩
    exact h.2

/-! ## Steps of the node -/

@[simp] theorem read_commandPayload (c : Command) : edgeU64BeRead
    (CommandTracker.commandPayload c.session c.seq c.type c.args) = c.session :=
  edgeU64BeRead_write c.session _

theorem carries_commandPayload {c d : Command}
    (h : CarriesCommand (CommandTracker.commandPayload c.session c.seq c.type c.args) d) :
    d = c := by
  obtain ⟨-, -, hsession, hseq, htype, hargs⟩ := h
  rw [read_commandPayload] at hsession
  rw [CommandTracker.commandPayload] at hseq htype hargs
  rw [getD_edgeU64BeWrite_append c.session _ 0] at hseq
  rw [getD_edgeU64BeWrite_append c.session _ 1] at htype
  rw [drop_edgeU64BeWrite_append c.session _ 2] at hargs
  cases c
  cases d
  simp_all

/-- A command a delivered frame carries was submitted. -/
theorem submitted_of_input {s : SrSystem τ} (hr : s.tracker.RecordInv s.sent)
    {call : NodeCall τ σ} (hframe : s.Delivers call) {c : Command}
    (hinp : call.input = .command c) : c ∈ submits s.sent := by
  cases call with
  | tick hooks user => cases hinp
  | onFrame hooks user type payload =>
      obtain ⟨rfl, p, rfl, hp⟩ := nodeInput_eq_command hinp
      obtain ⟨f, hf, htype, hpayload⟩ := hframe
      obtain rfl := Option.some.inj hpayload
      obtain ⟨d, hd, heq⟩ := hr.sent_command f hf htype
      rw [heq] at hp
      rwa [carries_commandPayload hp]

/-- A session a delivered frame opens is not above the tracker's. -/
theorem session_of_input {s : SrSystem τ} (hr : s.tracker.RecordInv s.sent)
    {call : NodeCall τ σ} (hframe : s.Delivers call) {session : UInt64}
    (hinp : call.input = .openSession session) : session ≤ s.tracker.session := by
  cases call with
  | tick hooks user => cases hinp
  | onFrame hooks user type payload =>
      obtain ⟨f, hf, htype, hpayload⟩ := hframe
      subst hpayload
      change nodeInput type (some f.payload) = .openSession session at hinp
      unfold nodeInput at hinp
      dsimp only at hinp
      split_ifs at hinp with hmax hopen hcommand
      obtain rfl := NodeInput.openSession.inj hinp
      obtain ⟨session, hle, heq⟩ := hr.sent_open f hf (htype.trans hopen.1)
      have hread := edgeU64BeRead_write session []
      rw [List.append_nil] at hread
      rwa [heq, hread]

theorem inv_nodeCall [Clock τ] {s : SrSystem τ} (hs : s.Inv) (call : NodeCall τ σ)
    (hframe : s.Delivers call) : (s.nodeCall call).Inv where
  tracker := hs.tracker
  node := nodeInv_call call hs.node
  settled := settled_call call hs.node.slots hs.settled
  stored := by
    intro c hc
    change c ∈ stores (s.done ++ _) at hc
    rw [stores_append, List.mem_append] at hc
    rcases hc with hc | hc
    · exact hs.stored c hc
    · have hinput := (steps_store (nodeCall_acts s.node call) c hc).1
      exact submitted_of_input hs.tracker.record hframe hinput
  link := by
    have hacts := nodeCall_acts s.node call
    have hle : (call.run s.node).node.session ≤ s.tracker.session := by
      rcases steps_session hacts with heq | hinp
      · exact heq ▸ hs.link.session_le
      · exact session_of_input hs.tracker.record hframe hinp
    constructor
    case session_le => exact hle
    case ready =>
      intro h
      refine UInt64.le_antisymm hle ?_
      show s.tracker.session ≤ _
      rw [← hs.link.ready h]
      exact steps_session_le hacts
    case receipt =>
      intro seq h
      obtain ⟨c, hc, heq⟩ := hs.link.receipt seq h
      refine ⟨c, ?_, heq⟩
      show c ∈ stores (s.done ++ _)
      rw [stores_append]
      exact List.mem_append_left _ hc
    case completion =>
      intro f hf herror
      obtain ⟨c, raw, hc, heq⟩ := hs.link.completion f hf herror
      exact ⟨c, raw, List.mem_append_left _ hc, heq⟩

theorem inv_step [Clock τ] {s s' : SrSystem τ} (h : Step σ s s') (hs : s.Inv) : s'.Inv := by
  cases h with
  | tracker call hframe => exact inv_trackerCall hs call hframe
  | node call hframe => exact inv_nodeCall hs call hframe

/-- **The invariant holds in every reachable state.** -/
theorem inv_run [Clock τ] {memory : EdgeSrNode τ} {s : SrSystem τ}
    (h : Run σ (init memory) s) : s.Inv := by
  induction h with
  | refl => exact inv_init memory
  | tail _ hstep ih => exact inv_step hstep ih

end SrSystem

end EdgeGateway
