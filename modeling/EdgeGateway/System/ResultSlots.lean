import EdgeGateway.Link.TrackerRetry
import EdgeGateway.Protocol.SrSlots
import EdgeGateway.System.SrGuarantees

set_option autoImplicit false

/-! # Sixteen slots suffice

The sender and the receiver again, now with a channel to the node that keeps the order and loses no
acknowledgement of a result of the current session. When a command is handed out, the
acknowledgements of all commands completed before it are ahead of it in the channel; when it
arrives, the slots in use are those of commands that were in flight with it.
-/

namespace EdgeGateway

open CommandTracker EdgeSrNode

/-! ## The system -/

/-- `wire` is what was handed out and has not arrived, in order. -/
structure FifoSystem (τ : Type) where
  sys : SrSystem τ
  wire : List CommandSend

variable {τ σ : Type}

/-- The acknowledgement of the result of `seq`. -/
def IsAck (session : UInt64) (seq : UInt8) (f : CommandSend) : Prop :=
  f.type = EDGE_TYPE_SR_RESULT_ACK ∧ f.session = session ∧ f.seq = seq

namespace FifoSystem

def init (memory : EdgeSrNode τ) : FifoSystem τ := ⟨SrSystem.init memory, []⟩

/-- Any call of the tracker; what it hands out goes to the end of the channel. -/
def trackerCall (s : FifoSystem τ) (call : TrackerCall) : FifoSystem τ :=
  ⟨s.sys.trackerCall call, s.wire ++ sends (s.sys.tracker.call call).2⟩

/-- The steps of the system. Frames from the node arrive any number of times, in any order, or
never. -/
inductive Step [Clock τ] (σ : Type) : FifoSystem τ → FifoSystem τ → Prop
  | tracker (s : FifoSystem τ) (call : TrackerCall)
      (hframe : ∀ type p, call.frame = some (type, p) → .emit type p ∈ s.sys.done) :
      Step σ s (s.trackerCall call)
  | deliver (s : FifoSystem τ) (f : CommandSend) (rest : List CommandSend)
      (hooks : EdgeSrHooks τ σ) (user : σ) (hwire : s.wire = f :: rest) :
      Step σ s ⟨s.sys.nodeCall (.onFrame hooks user f.type (some f.payload)), rest⟩
  | lose (s : FifoSystem τ) (before : List CommandSend) (f : CommandSend)
      (after : List CommandSend) (hwire : s.wire = before ++ f :: after)
      (hack : ¬ (f.type = EDGE_TYPE_SR_RESULT_ACK ∧ f.session = s.sys.tracker.session)) :
      Step σ s { s with wire := before ++ after }
  | tick (s : FifoSystem τ) (hooks : EdgeSrHooks τ σ) (user : σ) :
      Step σ s { s with sys := s.sys.nodeCall (.tick hooks user) }

/-- The runs of the system. -/
abbrev Run [Clock τ] (σ : Type) : FifoSystem τ → FifoSystem τ → Prop :=
  Relation.ReflTransGen (Step σ)

/-! ## Invariant -/

/-- What is ahead of a command in the channel: when it arrives, the slots in use are in its
window. -/
structure Covered (session : UInt64) (n : EdgeSrNode τ) (ahead : List CommandSend)
    (f : CommandSend) (window : List UInt8) : Prop where
  node : n.session = session
  length_le : window.length ≤ EDGE_SR_WINDOW_SIZE
  self : f.seq ∈ window
  holds : ∀ q, n.Holds q → q ∈ window ∨ ∃ g ∈ ahead, IsAck session q g
  commands : ∀ g ∈ ahead, g.type = EDGE_TYPE_SR_COMMAND → g.session = session →
    g.seq ∈ window ∨ g.seq.toNat < n.base

/-- What was handed out, and what it says of the node. -/
structure SentInv (t : CommandTracker) (sent : List TrackerEvent) (n : EdgeSrNode τ)
    (done : List (NodeEvent τ)) : Prop where
  tables : TableInv t
  payloads : CarriesAccepted sent
  acks : ∀ f ∈ sends sent, f.type = EDGE_TYPE_SR_RESULT_ACK →
    f.session ≤ t.session ∧ f.payload = edgeU64BeWrite f.session ++ [f.seq]
  executed : t.state = .ready → ∀ q, t.completed q = true →
    ∃ c ∈ executes done, c.session = t.session ∧ c.seq = q

/-- What is in the channel. -/
structure WireInv (t : CommandTracker) (sent : List TrackerEvent) (n : EdgeSrNode τ)
    (wire : List CommandSend) : Prop where
  sent : ∀ f ∈ wire, f ∈ sends sent
  settled : ∀ f ∈ wire, f.type = EDGE_TYPE_SR_RESULT_ACK → f.session = t.session →
    n.session = t.session ∧ f.seq.toNat < n.base
  acked : t.state = .ready → ∀ q, t.completed q = true → n.Holds q →
    ∃ f ∈ wire, IsAck t.session q f
  covered : ∀ ahead f behind, wire = ahead ++ f :: behind → f.type = EDGE_TYPE_SR_COMMAND →
    f.session = t.session → ∃ window, Covered t.session n ahead f window

structure Inv (s : FifoSystem τ) : Prop where
  sys : s.sys.Inv
  sent : SentInv s.sys.tracker s.sys.sent s.sys.node s.sys.done
  wire : WireInv s.sys.tracker s.sys.sent s.sys.node s.wire

theorem inv_init (memory : EdgeSrNode τ) : (init memory).Inv where
  sys := SrSystem.inv_init memory
  sent :=
    { tables := tableInv_new
      payloads := fun _ h => by cases h
      acks := fun _ h => by cases h
      executed := fun h => by cases h }
  wire :=
    { sent := fun _ h => by cases h
      settled := fun _ h => by cases h
      acked := fun h => by cases h
      covered := fun ahead _ _ h => by cases ahead <;> cases h }

/-! ## Steps of the tracker -/

section TrackerSteps

variable {t t' : CommandTracker} {sent es : List TrackerEvent} {n : EdgeSrNode τ}
  {done : List (NodeEvent τ)} {wire : List CommandSend} {call : TrackerCall}

/-- A command executed in the node's session is left of its window. -/
theorem executed_lt {log : List (NodeEvent τ)} (hn : LogInv n log) {c : Command}
    (hc : c ∈ executes log) (hsession : c.session = n.session) : c.seq.toNat < n.base := by
  have hmem : c.seq.toNat ∈ seqsOf n.session (executes log) :=
    mem_seqsOf.mpr ⟨c, hc, hsession, rfl⟩
  rw [hn.execute_current] at hmem
  exact List.mem_range.mp hmem

/-- An acknowledgement is handed out for a result that arrived. -/
theorem ack_step (hstep : TrackerStep t call es t') {f : CommandSend} (hf : f ∈ sends es)
    (htype : f.type = EDGE_TYPE_SR_RESULT_ACK) :
    t.state = .ready ∧ ∃ p now, call = .onFrame EDGE_TYPE_SR_RESULT p now ∧
      edgeU64BeRead p = t.session ∧ f = t.resultAck (p.getD 8 0) := by
  have hopen : ∀ u : CommandTracker, f ≠ u.openSend := by
    rintro u rfl
    exact absurd htype (show EDGE_TYPE_SR_OPEN ≠ EDGE_TYPE_SR_RESULT_ACK by decide)
  have hended : ∀ {ended : List TrackerEvent}, SessionEnd t call ended → f ∈ sends ended →
      t.state = .ready ∧ ∃ p now, call = .onFrame EDGE_TYPE_SR_RESULT p now ∧
        edgeU64BeRead p = t.session ∧ f = t.resultAck (p.getD 8 0) := by
    intro ended hend hf
    cases hend with
    | start => rw [sends_cancelled] at hf; cases hf
    | lost => rw [sends_cancelled] at hf; cases hf
    | unwritten => rw [sends_cancelled] at hf; cases hf
    | rollover p now seq e hready hsession hseq =>
        exact ⟨hready, p, now, rfl, hsession, hseq.symm ▸ List.mem_singleton.mp hf⟩
  cases hstep with
  | begun _ ended session hend =>
      rw [sends_append, List.mem_append] at hf
      rcases hf with hf | hf
      · exact hended hend hf
      · exact absurd (List.mem_singleton.mp hf) (hopen _)
  | exhausted _ ended _ hend => exact hended hend hf
  | openRetried => exact absurd (List.mem_singleton.mp hf) (hopen _)
  | openRejected => exact absurd (List.mem_singleton.mp hf) (hopen _)
  | submitted =>
      obtain rfl := List.mem_singleton.mp hf
      exact absurd htype (show EDGE_TYPE_SR_COMMAND ≠ EDGE_TYPE_SR_RESULT_ACK by decide)
  | result p now seq e hready hsession hseq =>
      exact ⟨hready, p, now, rfl, hsession, hseq.symm ▸ List.mem_singleton.mp hf⟩
  | resultAgain p now seq hready hsession hseq =>
      exact ⟨hready, p, now, rfl, hsession, hseq.symm ▸ List.mem_singleton.mp hf⟩
  | retried now =>
      rw [sends_map] at hf
      obtain ⟨entry, -, rfl⟩ := List.mem_map.mp hf
      exact absurd htype (show EDGE_TYPE_SR_COMMAND ≠ EDGE_TYPE_SR_RESULT_ACK by decide)
  | _ => cases hf

/-- A result that arrived was executed. -/
theorem executed_of_frame (hn : NodeInv n done) {p : List UInt8}
    (hp : .emit EDGE_TYPE_SR_RESULT p ∈ done) : ∃ c ∈ executes done,
      c.session = edgeU64BeRead p ∧ c.seq = p.getD 8 0 := by
  obtain ⟨c, raw, hc, rfl⟩ := hn.emits.result p hp
  exact ⟨c, mem_executes.mpr ⟨raw, hc⟩, (read_resultPayload _ _ _ _).symm,
    (seq_resultPayload _ _ _ _).symm⟩

/-- A command is completed by a result that arrived, or was completed before. -/
theorem completed_step (hw : WindowInv t) (htables : TableInv t) (hstep : TrackerStep t call es t')
    (hready : t'.state = .ready) {q : UInt8} (hq : t'.completed q = true) :
    t'.session = t.session ∧ t.state = .ready ∧ (t.completed q = true ∨
      (∃ f ∈ sends es, IsAck t.session q f) ∧
      ∃ p now, call = .onFrame EDGE_TYPE_SR_RESULT p now ∧ edgeU64BeRead p = t.session ∧
        p.getD 8 0 = q) := by
  cases hstep with
  | begun => cases hready
  | exhausted _ ended _ hend hmax hfailed => cases hfailed.symm.trans hready
  | openFailed => cases hready
  | openUnwritten => cases hready
  | openRejected p now highWater hopening => cases hopening.symm.trans hready
  | opened p now hopening =>
      have := htables.completed_lt (by rw [hopening]; decide) q hq
      rw [hw.opening hopening] at this
      exact absurd this (Nat.not_lt_zero _)
  | result p now seq e hready' hsession hseq =>
      refine ⟨rfl, hready', ?_⟩
      change Function.update t.completed seq true q = true at hq
      rw [Function.update_apply] at hq
      split_ifs at hq with heq
      · exact .inr ⟨⟨t.resultAck seq, List.mem_singleton_self _, rfl, rfl, heq.symm⟩, p, now, rfl,
          hsession, hseq.trans heq.symm⟩
      · exact .inl hq
  | _ => exact ⟨rfl, hready, .inl hq⟩

theorem sentInv_step (hr : TrackerInv t sent) (hn : NodeInv n done)
    (h : SentInv t sent n done) (hstep : TrackerStep t call es t')
    (hframe : ∀ type p, call.frame = some (type, p) → .emit type p ∈ done) :
    SentInv t' (sent ++ es) n done where
  tables := tableInv_step hr.window h.tables hstep
  payloads := carriesAccepted_step hr.window hr.record h.payloads hstep
  acks := by
    intro f hf htype
    rw [sends_append, List.mem_append] at hf
    rcases hf with hf | hf
    · obtain ⟨hle, hpayload⟩ := h.acks f hf htype
      exact ⟨UInt64.le_trans hle (session_le_step hstep), hpayload⟩
    · obtain ⟨-, p, now, -, -, rfl⟩ := ack_step hstep hf htype
      exact ⟨session_le_step hstep, rfl⟩
  executed := by
    intro hready q hq
    obtain ⟨hsame, hready', hq' | ⟨-, p, now, rfl, hsession, hseq⟩⟩ :=
      completed_step hr.window h.tables hstep hready hq
    · rw [hsame]
      exact h.executed hready' q hq'
    · obtain ⟨c, hc, hcs, hcq⟩ := executed_of_frame hn (hframe _ p rfl)
      exact ⟨c, hc, by rw [hcs, hsession, hsame], hcq.trans hseq⟩

/-- A command that was handed out belongs to an accepted one. -/
theorem command_known (hr : TrackerInv t sent) (h : CarriesAccepted sent) {f : CommandSend}
    (hf : f ∈ sends sent) (htype : f.type = EDGE_TYPE_SR_COMMAND) :
    f.session ≤ t.session ∧ (f.session = t.session → f.seq.toNat < t.next) := by
  obtain ⟨c, hc, hsame, -⟩ := h f (mem_commands.mpr ⟨mem_sends.mp hf, htype⟩)
  rw [Prod.mk.injEq] at hsame
  refine ⟨hsame.1 ▸ hr.record.submit_session c hc, fun heq => ?_⟩
  exact hsame.2 ▸ hr.record.submit_seq c hc (hsame.1.trans heq)

/-- The numbers in flight cover a command that is handed out. -/
theorem covered_sent (hr : TrackerInv t' sent) (h : SentInv t' sent n done) (hn : NodeInv n done)
    (hstored : ∀ c ∈ stores done, c ∈ submits sent)
    (hready : t'.state = .ready) (hnode : n.session = t'.session)
    {ahead : List CommandSend} {f : CommandSend} (hahead : ∀ g ∈ ahead, g ∈ sends sent)
    (hacked : ∀ q, t'.completed q = true → n.Holds q → ∃ g ∈ ahead, IsAck t'.session q g)
    (hself : ∃ e, t'.entries.find? f.seq = some e) :
    ∃ window, Covered t'.session n ahead f window := by
  have hflight : ∀ q e, t'.entries.find? q = some e → q ∈ t'.entries.toList.map Prod.fst :=
    fun q e he => List.mem_map.mpr ⟨(q, e), KeyMap.mem_toList.mpr he, rfl⟩
  -- an allocated number is in flight or completed
  have hsplit : ∀ q : UInt8, q.toNat < t'.next →
      q ∈ t'.entries.toList.map Prod.fst ∨ t'.completed q = true := by
    intro q hlt
    cases hfind : t'.entries.find? q with
    | none => exact .inr ((h.tables.split hready q hlt).mp hfind)
    | some e => exact .inl (hflight q e hfind)
  refine ⟨t'.entries.toList.map Prod.fst, hnode, ?_, ?_, ?_, ?_⟩
  · rw [List.length_map]
    exact h.tables.size_le
  · obtain ⟨e, he⟩ := hself
    exact hflight f.seq e he
  · rintro q ⟨i, hi, rfl⟩
    have hsubmit := hstored _ (hn.record.slot_stored i hi)
    rcases hsplit _ (hr.record.submit_seq _ hsubmit hnode) with hin | hdone
    · exact .inl hin
    · exact .inr (hacked _ hdone ⟨i, hi, rfl⟩)
  · intro g hg htype hsession
    have hlt := (command_known hr h.payloads (hahead g hg) htype).2 hsession
    rcases hsplit _ hlt with hin | hdone
    · exact .inl hin
    · obtain ⟨c, hc, hcs, hcq⟩ := h.executed hready g.seq hdone
      exact .inr (hcq ▸ executed_lt hn.record hc (hcs.trans hnode.symm))

/-- What was handed out before a call in the session after it is of the session before it. -/
theorem same_session (hstep : TrackerStep t call es t') {f : CommandSend}
    (hle : f.session ≤ t.session) (hsession : f.session = t'.session) : t'.session = t.session :=
  UInt64.le_antisymm (hsession ▸ hle) (session_le_step hstep)

theorem wireInv_step (hr : TrackerInv t sent) (hr' : TrackerInv t' (sent ++ es))
    (hn : NodeInv n done) (hl : SrSystem.LinkInv t sent n done)
    (hl' : SrSystem.LinkInv t' (sent ++ es) n done)
    (hstored : ∀ c ∈ stores done, c ∈ submits (sent ++ es)) (hsent : SentInv t sent n done)
    (hsent' : SentInv t' (sent ++ es) n done) (h : WireInv t sent n wire)
    (hstep : TrackerStep t call es t')
    (hframe : ∀ type p, call.frame = some (type, p) → .emit type p ∈ done) :
    WireInv t' (sent ++ es) n (wire ++ sends es) := by
  have hall : ∀ f ∈ wire ++ sends es, f ∈ sends (sent ++ es) := by
    rw [List.forall_mem_append, sends_append]
    exact ⟨fun f hf => List.mem_append_left _ (h.sent f hf), fun f => List.mem_append_right _⟩
  constructor
  case sent => exact hall
  case settled =>
    intro f hf htype hsession
    rcases List.mem_append.mp hf with hf | hf
    · have hsame := same_session hstep (hsent.acks f (h.sent f hf) htype).1 hsession
      rw [hsame] at hsession ⊢
      exact h.settled f hf htype hsession
    · obtain ⟨hready, p, now, rfl, hp, rfl⟩ := ack_step hstep hf htype
      obtain ⟨c, hc, hcs, hcq⟩ := executed_of_frame hn (hframe _ p rfl)
      have hnode := hl.ready hready
      refine ⟨hnode.trans hsession, ?_⟩
      show (p.getD 8 0).toNat < n.base
      rw [← hcq]
      exact executed_lt hn.record hc (hcs.trans (hp.trans hnode.symm))
  case acked =>
    intro hready q hq hholds
    obtain ⟨hsame, hready', hq' | ⟨⟨f, hf, hack⟩, -⟩⟩ :=
      completed_step hr.window hsent.tables hstep hready hq
    · obtain ⟨f, hf, hack⟩ := h.acked hready' q hq' hholds
      exact ⟨f, List.mem_append_left _ hf, hsame ▸ hack⟩
    · exact ⟨f, List.mem_append_right _ hf, hsame ▸ hack⟩
  case covered =>
    intro ahead f behind hwire htype hsession
    rcases append_eq_cut hwire with ⟨rest, hold, -⟩ | ⟨new, rfl, hnew⟩
    · -- the command was in the channel before
      have hin : f ∈ wire := by
        rw [hold]
        exact List.mem_append_right _ List.mem_cons_self
      have hsame := same_session hstep (command_known hr hsent.payloads (h.sent f hin) htype).1
        hsession
      rw [hsame] at hsession ⊢
      exact h.covered ahead f rest hold htype hsession
    · -- the command is handed out by this call
      have hf : f ∈ commands es := by
        refine mem_commands.mpr ⟨mem_sends.mp ?_, htype⟩
        rw [hnew]
        exact List.mem_append_right _ List.mem_cons_self
      have hsentby := sent_step hr.window hstep f hf
      obtain ⟨e, hentry⟩ := hsentby.entry
      have hready := hr'.window.ready_of_entry hentry
      refine covered_sent hr' hsent' hn hstored hready (hl'.ready hready) ?_ ?_ ⟨e, hentry⟩
      · intro g hg
        refine hall g ?_
        rw [hnew, ← List.append_assoc]
        exact List.mem_append_left _ hg
      · intro q hq hholds
        obtain ⟨hsame, hready', hq' | ⟨-, p, now, rfl, -⟩⟩ :=
          completed_step hr.window hsent.tables hstep hready hq
        · obtain ⟨g, hg, hack⟩ := h.acked hready' q hq' hholds
          exact ⟨g, List.mem_append_left _ hg, hsame ▸ hack⟩
        · -- no command is handed out when a result arrives
          cases hsentby with
          | first _ _ _ hcall => cases hcall
          | again _ _ _ hcall => cases hcall

theorem inv_trackerCall {s : FifoSystem τ} (hs : s.Inv) (call : TrackerCall)
    (hframe : ∀ type p, call.frame = some (type, p) → .emit type p ∈ s.sys.done) :
    (s.trackerCall call).Inv := by
  have hsys := SrSystem.inv_trackerCall hs.sys call hframe
  have hstep := call_step hs.sys.tracker.window call
  have hsent := sentInv_step hs.sys.tracker hs.sys.node hs.sent hstep hframe
  exact ⟨hsys, hsent, wireInv_step hs.sys.tracker hsys.tracker hs.sys.node hs.sys.link hsys.link
    hsys.stored hs.sent hsent hs.wire hstep hframe⟩

end TrackerSteps

/-! ## Steps of the node -/

section NodeSteps

variable [Clock τ] {s : FifoSystem τ}

omit [Clock τ] in
theorem SentInv.grow {t : CommandTracker} {sent : List TrackerEvent} {n n' : EdgeSrNode τ}
    {done es : List (NodeEvent τ)} (h : SentInv t sent n done) : SentInv t sent n' (done ++ es) :=
  { h with
    executed := by
      intro hready q hq
      obtain ⟨c, hc, heq⟩ := h.executed hready q hq
      exact ⟨c, by rw [executes_append]; exact List.mem_append_left _ hc, heq⟩ }

/-- A call of the node that takes nothing, or the frame at the front, from the channel: `ahead` is
what it takes. -/
theorem wireInv_node (hs : s.Inv) (call : NodeCall τ σ) (hframe : s.sys.Delivers call)
    {taken rest : List CommandSend} (hwire : s.wire = taken ++ rest)
    (hinput : ∀ c, call.input = .command c → c.session = s.sys.tracker.session →
      ∃ f ∈ taken, f.type = EDGE_TYPE_SR_COMMAND ∧ f.session = c.session ∧ f.seq = c.seq)
    (hfrees : ∀ f ∈ taken, ∀ q, IsAck s.sys.tracker.session q f →
      ¬ (call.run s.sys.node).node.Holds q) :
    WireInv s.sys.tracker s.sys.sent (call.run s.sys.node).node rest := by
  have hacts := nodeCall_acts s.sys.node call
  have hsys := SrSystem.inv_nodeCall hs.sys call hframe
  have hrest : ∀ f ∈ rest, f ∈ s.wire := fun f hf => hwire ▸ List.mem_append_right _ hf
  -- the window of the node while it is in the tracker's session
  have hkeep : s.sys.node.session = s.sys.tracker.session →
      (call.run s.sys.node).node.session = s.sys.tracker.session ∧
        s.sys.node.base ≤ (call.run s.sys.node).node.base := by
    intro hnode
    have hsame : (call.run s.sys.node).node.session = s.sys.tracker.session :=
      UInt64.le_antisymm hsys.link.session_le (hnode ▸ steps_session_le hacts)
    exact ⟨hsame, base_le_steps hacts (hsame.trans hnode.symm)⟩
  constructor
  case sent => exact fun f hf => hs.wire.sent f (hrest f hf)
  case settled =>
    intro f hf htype hsession
    obtain ⟨hnode, hlt⟩ := hs.wire.settled f (hrest f hf) htype hsession
    exact ⟨(hkeep hnode).1, Nat.lt_of_lt_of_le hlt (hkeep hnode).2⟩
  case acked =>
    intro hready q hq hholds
    have hnode := hs.sys.link.ready hready
    rcases (holds_steps hacts hholds).2 with hold | ⟨c, hinp, hcs, hcq, hge⟩
    · obtain ⟨f, hf, hack⟩ := hs.wire.acked hready q hq hold
      rw [hwire, List.mem_append] at hf
      rcases hf with hf | hf
      · exact absurd hholds (hfrees f hf q hack)
      · exact ⟨f, hf, hack⟩
    · -- a completed command was executed, so it takes no slot
      obtain ⟨c', hc', hcs', hcq'⟩ := hs.sent.executed hready q hq
      have hlt := executed_lt hs.sys.node.record hc' (hcs'.trans hnode.symm)
      rw [hcq'] at hlt
      omega
  case covered =>
    intro ahead f behind hcut htype hsession
    obtain ⟨window, hcovered⟩ := hs.wire.covered (taken ++ ahead) f behind
      (by rw [hwire, hcut, List.append_assoc]) htype hsession
    have hnode := hcovered.node
    refine ⟨window, (hkeep hnode).1, hcovered.length_le, hcovered.self, ?_, ?_⟩
    · intro q hholds
      rcases (holds_steps hacts hholds).2 with hold | ⟨c, hinp, hcs, hcq, hge⟩
      · rcases hcovered.holds q hold with hin | ⟨g, hg, hack⟩
        · exact .inl hin
        · rcases List.mem_append.mp hg with hg | hg
          · exact absurd hholds (hfrees g hg q hack)
          · exact .inr ⟨g, hg, hack⟩
      · -- the frame that takes the slot was ahead
        obtain ⟨g, hg, hgtype, hgs, hgq⟩ := hinput c hinp (hcs.trans hnode)
        have hgseq : g.seq = q := hgq.trans hcq
        rcases hcovered.commands g (List.mem_append_left _ hg) hgtype
          (hgs.trans (hcs.trans hnode)) with hin | hlt
        · exact .inl (hgseq ▸ hin)
        · rw [hgseq] at hlt
          omega
    · intro g hg hgtype hgs
      rcases hcovered.commands g (List.mem_append_right _ hg) hgtype hgs with hin | hlt
      · exact .inl hin
      · exact .inr (Nat.lt_of_lt_of_le hlt (hkeep hnode).2)

omit [Clock τ] in
/-- What a frame at the front brings. -/
theorem front_command (hs : s.Inv) {f : CommandSend} (hf : f ∈ s.wire)
    (htype : f.type = EDGE_TYPE_SR_COMMAND) : ∃ type args, args.length ≤ EDGE_SR_ARGS_MAX ∧
      f.payload = commandPayload f.session f.seq type args := by
  obtain ⟨c, hc, hsame, hpayload⟩ :=
    hs.sent.payloads f (mem_commands.mpr ⟨mem_sends.mp (hs.wire.sent f hf), htype⟩)
  rw [Prod.mk.injEq] at hsame
  refine ⟨c.type, c.args, hs.sys.tracker.record.submit_args c hc, ?_⟩
  rw [hpayload, hsame.1, hsame.2]

theorem inv_deliver (hs : s.Inv) {f : CommandSend} {rest : List CommandSend}
    (hooks : EdgeSrHooks τ σ) (user : σ) (hwire : s.wire = f :: rest) :
    Inv ⟨s.sys.nodeCall (.onFrame hooks user f.type (some f.payload)), rest⟩ := by
  have hf : f ∈ s.wire := by rw [hwire]; exact List.mem_cons_self
  have hframe : s.sys.Delivers (.onFrame hooks user f.type (some f.payload)) :=
    ⟨f, mem_sends.mp (hs.wire.sent f hf), rfl, rfl⟩
  refine ⟨SrSystem.inv_nodeCall hs.sys _ hframe, hs.sent.grow,
    wireInv_node hs _ hframe (show s.wire = [f] ++ rest from hwire) ?_ ?_⟩
  · intro c hinp _
    change nodeInput f.type (some f.payload) = .command c at hinp
    obtain ⟨htype, p, hp, hcarries⟩ := nodeInput_eq_command hinp
    obtain rfl := Option.some.inj hp
    obtain ⟨type, args, -, hpayload⟩ := front_command hs hf htype
    rw [hpayload] at hcarries
    have hc := SrSystem.carries_commandPayload (c := ⟨f.session, f.seq, type, args⟩) hcarries
    exact ⟨f, List.mem_singleton_self _, htype, by rw [hc], by rw [hc]⟩
  · intro g hg q hack
    obtain rfl := List.mem_singleton.mp hg
    obtain ⟨htype, hsession, rfl⟩ := hack
    obtain ⟨hnode, hlt⟩ := hs.wire.settled g hf htype hsession
    obtain ⟨-, hpayload⟩ := hs.sent.acks g (hs.wire.sent g hf) htype
    show ¬ (edgeSrNodeOnFrame hooks s.sys.node user g.type (some g.payload)).node.Holds g.seq
    rw [htype, hpayload]
    refine ack_frees hooks user hs.sys.node.slots ?_ ?_ ?_ hlt
    · rw [List.length_append, edgeU64BeWrite_length]
      rfl
    · rw [edgeU64BeRead_write, hsession, hnode]
    · exact getD_edgeU64BeWrite_append g.session [g.seq] 0 0

theorem inv_tick (hs : s.Inv) (hooks : EdgeSrHooks τ σ) (user : σ) :
    Inv { s with sys := s.sys.nodeCall (.tick hooks user) } := by
  have hframe : s.sys.Delivers (.tick hooks user) := trivial
  refine ⟨SrSystem.inv_nodeCall hs.sys _ hframe, hs.sent.grow,
    wireInv_node hs _ hframe (show s.wire = [] ++ s.wire from rfl) ?_ ?_⟩
  · intro c hinp
    cases hinp
  · intro f hf
    cases hf

omit [Clock τ] in
/-- Losing a frame that is no acknowledgement of the current session. -/
theorem inv_lose (hs : s.Inv) {before after : List CommandSend} {f : CommandSend}
    (hwire : s.wire = before ++ f :: after)
    (hack : ¬ (f.type = EDGE_TYPE_SR_RESULT_ACK ∧ f.session = s.sys.tracker.session)) :
    Inv { s with wire := before ++ after } := by
  have hin : ∀ g ∈ before ++ after, g ∈ s.wire := by
    intro g hg
    rw [hwire, List.mem_append, List.mem_cons]
    exact (List.mem_append.mp hg).imp_right .inr
  refine ⟨hs.sys, hs.sent, fun g hg => hs.wire.sent g (hin g hg),
    fun g hg => hs.wire.settled g (hin g hg), ?_, ?_⟩
  · intro hready q hq hholds
    obtain ⟨g, hg, hackg⟩ := hs.wire.acked hready q hq hholds
    rw [hwire, List.mem_append, List.mem_cons] at hg
    rcases hg with hg | rfl | hg
    · exact ⟨g, List.mem_append_left _ hg, hackg⟩
    · exact absurd ⟨hackg.1, hackg.2.1⟩ hack
    · exact ⟨g, List.mem_append_right _ hg, hackg⟩
  · intro ahead c behind hcut htype hsession
    rcases append_eq_cut hcut with ⟨rest, rfl, -⟩ | ⟨new, rfl, rfl⟩
    · -- the lost frame was behind
      refine hs.wire.covered ahead c (rest ++ f :: after) ?_ htype hsession
      rw [hwire, List.append_assoc, List.cons_append]
    · -- it was ahead
      obtain ⟨window, hcovered⟩ := hs.wire.covered (before ++ f :: new) c behind
        (by rw [hwire, List.append_assoc, List.cons_append]) htype hsession
      refine ⟨window, hcovered.node, hcovered.length_le, hcovered.self, ?_, ?_⟩
      · intro q hholds
        rcases hcovered.holds q hholds with hq | ⟨g, hg, hackg⟩
        · exact .inl hq
        · rw [List.mem_append, List.mem_cons] at hg
          rcases hg with hg | rfl | hg
          · exact .inr ⟨g, List.mem_append_left _ hg, hackg⟩
          · exact absurd ⟨hackg.1, hackg.2.1⟩ hack
          · exact .inr ⟨g, List.mem_append_right _ hg, hackg⟩
      · intro g hg
        refine hcovered.commands g ?_
        rw [List.mem_append, List.mem_cons]
        exact (List.mem_append.mp hg).imp_right .inr

theorem inv_step {s' : FifoSystem τ} (h : Step σ s s') (hs : s.Inv) : s'.Inv := by
  cases h with
  | tracker call hframe => exact inv_trackerCall hs call hframe
  | deliver f rest hooks user hwire => exact inv_deliver hs hooks user hwire
  | lose before f after hwire hack => exact inv_lose hs hwire hack
  | tick hooks user => exact inv_tick hs hooks user

/-- **The invariant holds in every reachable state.** -/
theorem inv_run {memory : EdgeSrNode τ} (h : Run σ (init memory) s) : s.Inv := by
  induction h with
  | refl => exact inv_init memory
  | tail _ hstep ih => exact inv_step hstep ih

/-! ## The slots when a command arrives -/

/-- **Sixteen slots suffice.** When a command of the tracker's session arrives, the node is in that
session with at most eight slots in use, the command's own among them; and a command that is new and
in the window is stored. -/
theorem result_slots_suffice (memory : EdgeSrNode τ) (hrun : Run σ (init memory) s)
    {f : CommandSend} {rest : List CommandSend} (hwire : s.wire = f :: rest)
    (htype : f.type = EDGE_TYPE_SR_COMMAND) (hsession : f.session = s.sys.tracker.session) :
    s.sys.node.session = s.sys.tracker.session ∧
    s.sys.node.inUseWith f.seq ≤ EDGE_SR_WINDOW_SIZE ∧
    ∀ (hooks : EdgeSrHooks τ σ) (user : σ),
      let n := s.sys.node.expired (hooks.nowMs user).1
      n.active = true → n.base ≤ f.seq.toNat → f.seq.toNat < n.base + EDGE_SR_WINDOW_SIZE →
      findEntry n f.seq = none →
      ∃ type args, f.payload = commandPayload f.session f.seq type args ∧
        ⟨f.session, f.seq, type, args⟩ ∈ stores
          (edgeSrNodeOnFrame hooks s.sys.node user f.type (some f.payload)).events := by
  have hs := inv_run hrun
  have hf : f ∈ s.wire := by rw [hwire]; exact List.mem_cons_self
  obtain ⟨window, hcovered⟩ := hs.wire.covered [] f rest hwire htype hsession
  have hholds : ∀ q, s.sys.node.Holds q → q ∈ window := by
    intro q hq
    rcases hcovered.holds q hq with hin | ⟨g, hg, -⟩
    · exact hin
    · cases hg
  have hnode := hcovered.node
  have hslots := hs.sys.node.slots
  refine ⟨hnode, Nat.le_trans (inUseWith_le hslots hholds hcovered.self) hcovered.length_le, ?_⟩
  intro hooks user n hactive hge hlt hnew
  obtain ⟨type, args, hargs, hpayload⟩ := front_command hs hf htype
  refine ⟨type, args, hpayload, ?_⟩
  have hacts : Steps (NodeAct .silent) s.sys.node _ n :=
    expireLoop_acts s.sys.node.gap _ _ s.sys.node id
  have hexpired : SlotInv n :=
    hacts.preserves (fun _ _ _ hI hact => slotInv_act hact hI) hslots
  have hfree : n.inUse.length < EDGE_SR_RESULT_CAPACITY := by
    calc
      n.inUse.length ≤ window.length := inUse_le hexpired fun q hq => hholds q (holds_expired hq)
      _ ≤ EDGE_SR_WINDOW_SIZE := hcovered.length_le
      _ < EDGE_SR_RESULT_CAPACITY := by decide
  have hlength : f.payload.length = args.length + 10 := by
    rw [hpayload, commandPayload, List.length_append, edgeU64BeWrite_length]
    simp only [List.length_cons]
    omega
  have hbytes : f.payload.getD 8 0 = f.seq ∧ f.payload.getD 9 0 = type ∧
      f.payload.drop 10 = args := by
    rw [hpayload, commandPayload]
    exact ⟨getD_edgeU64BeWrite_append f.session _ 0 0, getD_edgeU64BeWrite_append f.session _ 1 0,
      drop_edgeU64BeWrite_append f.session _ 2⟩
  have hread : edgeU64BeRead f.payload = s.sys.node.session := by
    rw [hpayload, commandPayload, edgeU64BeRead_write, hsession, hnode]
  have hstored := onFrame_stores hooks user (p := f.payload) ?_ ?_ hbytes.1 hactive hread hge hlt
    hnew hfree
  · rw [hbytes.2.1, hbytes.2.2] at hstored
    rw [htype, hsession, ← hnode]
    exact hstored
  · simp only [EDGE_SR_ARGS_MAX, EDGE_PAYLOAD_MAX] at hargs ⊢
    omega
  · omega

end NodeSteps

/-- A handshake in session 1, and a light query that has not arrived. -/
def queried : FifoSystem UInt32 :=
  let s := (init SrSystem.blankNode).trackerCall (.start 1 0)
  let s := s.trackerCall (.onWritten s.sys.tracker.openSend true 0)
  let s : FifoSystem UInt32 :=
    ⟨s.sys.nodeCall (.onFrame SrSystem.answering () EDGE_TYPE_SR_OPEN (some (edgeU64BeWrite 1))), []⟩
  let ack := openAckPayload 1 1 EDGE_RC_OK
  (s.trackerCall (.onFrame EDGE_TYPE_SR_OPEN_ACK ack 0)).trackerCall
    (.submit EDGE_TYPE_QUERY_LIGHT [] 0)

theorem run_queried : Run Unit (init SrSystem.blankNode) queried := by
  have h₁ := Step.tracker (σ := Unit) (init SrSystem.blankNode) (.start 1 0) fun _ _ h => by cases h
  let s₁ := (init SrSystem.blankNode).trackerCall (.start 1 0)
  have h₂ := Step.tracker (σ := Unit) s₁ (.onWritten s₁.sys.tracker.openSend true 0)
    fun _ _ h => by cases h
  let s₂ := s₁.trackerCall (.onWritten s₁.sys.tracker.openSend true 0)
  have h₃ := Step.deliver s₂ s₁.sys.tracker.openSend [] SrSystem.answering () (by decide)
  let s₃ : FifoSystem UInt32 :=
    ⟨s₂.sys.nodeCall (.onFrame SrSystem.answering () EDGE_TYPE_SR_OPEN
      (some s₁.sys.tracker.openSend.payload)), []⟩
  have h₄ := Step.tracker (σ := Unit) s₃
    (.onFrame EDGE_TYPE_SR_OPEN_ACK (openAckPayload 1 1 EDGE_RC_OK) 0) (by
      rintro type p ⟨⟩
      decide)
  let s₄ := s₃.trackerCall (.onFrame EDGE_TYPE_SR_OPEN_ACK (openAckPayload 1 1 EDGE_RC_OK) 0)
  have h₅ := Step.tracker (σ := Unit) s₄ (.submit EDGE_TYPE_QUERY_LIGHT [] 0)
    fun _ _ h => by cases h
  exact ((((Relation.ReflTransGen.single h₁).tail h₂).tail h₃).tail h₄).tail h₅

theorem result_slots_suffice_queried :
    queried.sys.node.inUseWith 0 ≤ EDGE_SR_WINDOW_SIZE ∧
      ∃ type args, ⟨1, 0, type, args⟩ ∈ stores
        (edgeSrNodeOnFrame SrSystem.answering queried.sys.node () EDGE_TYPE_SR_COMMAND
          (some (commandPayload 1 0 EDGE_TYPE_QUERY_LIGHT []))).events := by
  have hwire : queried.wire =
      [queried.sys.tracker.dataSend 0 (Entry.new EDGE_TYPE_QUERY_LIGHT [] 0)] := by decide
  obtain ⟨-, hslots, hstores⟩ :=
    result_slots_suffice (σ := Unit) SrSystem.blankNode run_queried hwire rfl rfl
  obtain ⟨type, args, -, hstored⟩ := hstores SrSystem.answering () (by decide) (by decide)
    (by decide) (by decide)
  exact ⟨hslots, type, args, hstored⟩

end FifoSystem

end EdgeGateway
