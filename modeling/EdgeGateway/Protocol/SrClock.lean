import EdgeGateway.Protocol.SrSlots

set_option autoImplicit false

/-! # The receiver under two clocks

The receiver compares time stamps with readings of its clock in `expire` and in the loop of a tick,
and nowhere else. When two clocks agree on these differences, the receiver does the same under both:
one run is the image of the other. `NodeCall.scans` are the comparisons of a call.
-/

namespace EdgeGateway

variable {τ τ' σ : Type}

/-! ## Images -/

def EdgeSrEntry.map (f : τ → τ') (e : EdgeSrEntry τ) : EdgeSrEntry τ' where
  receivedAt := f e.receivedAt
  completedAt := f e.completedAt
  lastSentAt := f e.lastSentAt
  state := e.state
  seq := e.seq
  command := e.command
  args := e.args
  result := e.result
  retries := e.retries

/-- The node with its time stamps on the other clock. -/
def EdgeSrNode.map (f : τ → τ') (n : EdgeSrNode τ) : EdgeSrNode τ' where
  session := n.session
  base := n.base
  active := n.active
  entries i := (n.entries i).map f

/-- The same hooks with the readings of the other clock. -/
def EdgeSrHooks.map (f : τ → τ') (hooks : EdgeSrHooks τ σ) : EdgeSrHooks τ' σ where
  nowMs user := (f (hooks.nowMs user).1, (hooks.nowMs user).2)
  execute := hooks.execute
  emit := hooks.emit

def NodeEvent.map (f : τ → τ') : NodeEvent τ → NodeEvent τ'
  | .now t => .now (f t)
  | .close session => .close session
  | .store c => .store c
  | .execute c result => .execute c result
  | .emit type payload => .emit type payload

def NodeRun.map (f : τ → τ') (r : NodeRun τ σ) : NodeRun τ' σ where
  node := r.node.map f
  user := r.user
  events := r.events.map (NodeEvent.map f)

def NodeCall.map (f : τ → τ') : NodeCall τ σ → NodeCall τ' σ
  | .onFrame hooks user type payload => .onFrame (hooks.map f) user type payload
  | .tick hooks user => .tick (hooks.map f) user

/-! ## Scans -/

section Scans

variable [Clock τ]

/-- The run with which a frame that stores its command enters `deliver`. -/
def storedRun (hooks : EdgeSrHooks τ σ) (now : τ) (type : UInt8) (payload : Option (List UInt8))
    (r : NodeRun τ σ) : Option (NodeRun τ σ) :=
  match nodeInput type payload with
  | .command c =>
      if r.node.Accepts c then
        (freeEntry r.node).map fun i => emitReceived hooks c.seq
          { r with
            node := r.node.received i c.seq c.type c.args now
            events := r.events ++ [.store c] }
      else none
  | _ => none

/-- The reading at the start of a call. -/
def NodeCall.start : NodeCall τ σ → τ
  | .onFrame hooks user _ _ => (hooks.nowMs user).1
  | .tick hooks user => (hooks.nowMs user).1

/-- The readings of a call that the slots are compared with, in order. -/
def NodeCall.scans (n : EdgeSrNode τ) : NodeCall τ σ → List (Scan τ σ)
  | .onFrame hooks user type payload =>
      ⟨(NodeRun.nowMs hooks ⟨n, user, []⟩).2, (hooks.nowMs user).1⟩ ::
        (match storedRun hooks (hooks.nowMs user).1 type payload (started hooks n user) with
        | none => []
        | some r => deliverScans hooks (256 - r.node.base) r)
  | .tick hooks user => [⟨(NodeRun.nowMs hooks ⟨n, user, []⟩).2, (hooks.nowMs user).1⟩]

end Scans

/-! ## What the deadlines leave -/

section Deadlines

variable [Clock τ]

/-- A slot that is left is as it was and within its deadline. -/
theorem expireLoop_kept (gap : Bool) (now : τ) (is : List Slot) (i : Slot) :
    ∀ n : EdgeSrNode τ, ((expireLoop gap now n is).1.entries i).state ≠ .free →
      (expireLoop gap now n is).1.entries i = n.entries i ∧
      (i ∈ is → (n.entries i).state = .executed →
        Clock.elapsed now (n.entries i).completedAt < EDGE_SR_RESULT_TTL_MS) ∧
      (i ∈ is → gap = true → (n.entries i).state = .buffered →
        Clock.elapsed now (n.entries i).receivedAt < EDGE_COMMAND_LIFETIME_MS) := by
  induction is with
  | nil =>
      intro n _
      exact ⟨rfl, by simp, by simp⟩
  | cons j rest ih =>
      intro n
      unfold expireLoop
      dsimp only
      split_ifs with hclose hdrop
      · intro h
        exact absurd rfl h
      · intro h
        obtain ⟨hsame, -, hgap⟩ := ih _ h
        -- the slot that is dropped is not left
        have hij : i ≠ j := by
          rintro rfl
          rw [hsame, setEntry_entries, if_pos rfl] at h
          exact h rfl
        rw [setEntry_entries, if_neg hij] at hsame hgap
        have hrest := (ih _ h).2.1
        rw [setEntry_entries, if_neg hij] at hrest
        exact ⟨hsame, fun hi => hrest (List.mem_of_ne_of_mem hij hi),
          fun hi => hgap (List.mem_of_ne_of_mem hij hi)⟩
      · intro h
        obtain ⟨hsame, httl, hgap⟩ := ih n h
        refine ⟨hsame, fun hi hstate => ?_, fun hi hg hstate => ?_⟩
        · rcases List.mem_cons.mp hi with rfl | hi
          · exact Nat.lt_of_not_le fun hage => hdrop ⟨hstate, hage⟩
          · exact httl hi hstate
        · rcases List.mem_cons.mp hi with rfl | hi
          · exact Nat.lt_of_not_le fun hage => hclose ⟨hg, hstate, hage⟩
          · exact hgap hi hg hstate

variable {n : EdgeSrNode τ} {now : τ} {i : Slot}

theorem expired_same (h : ((n.expired now).entries i).state ≠ .free) :
    (n.expired now).entries i = n.entries i :=
  (expireLoop_kept n.gap now _ i n h).1

omit [Clock τ] in
theorem ne_free {e : EdgeSrEntry τ} {state : EntryState} (h : e.state = state)
    (hne : state ≠ .free) : e.state ≠ .free :=
  fun hfree => hne (h.symm.trans hfree)

/-- A result that is left is younger than its lifetime. -/
theorem expired_executed (h : ((n.expired now).entries i).state = .executed) :
    Clock.elapsed now ((n.expired now).entries i).completedAt < EDGE_SR_RESULT_TTL_MS := by
  have hkept := expireLoop_kept n.gap now _ i n (ne_free h (by decide))
  have hsame : (n.expired now).entries i = n.entries i := hkept.1
  rw [hsame] at h ⊢
  exact hkept.2.1 (List.mem_finRange i) h

/-- A command that is left waiting behind a gap is younger than its lifetime. -/
theorem expired_buffered (hgap : n.gap = true)
    (h : ((n.expired now).entries i).state = .buffered) :
    Clock.elapsed now ((n.expired now).entries i).receivedAt < EDGE_COMMAND_LIFETIME_MS := by
  have hkept := expireLoop_kept n.gap now _ i n (ne_free h (by decide))
  have hsame : (n.expired now).entries i = n.entries i := hkept.1
  rw [hsame] at h ⊢
  exact hkept.2.2 (List.mem_finRange i) hgap h

end Deadlines

/-! ## Images of the operations -/

section Images

variable (f : τ → τ') (hooks : EdgeSrHooks τ σ)

theorem map_setEntry (n : EdgeSrNode τ) (i : Slot) (e : EdgeSrEntry τ) :
    (n.setEntry i e).map f = (n.map f).setEntry i (e.map f) := by
  have hentries : ∀ j, ((n.setEntry i e).entries j).map f
      = Function.update (n.map f).entries i (e.map f) j := by
    intro j
    rw [setEntry_entries, Function.update_apply]
    split_ifs <;> rfl
  simp only [EdgeSrNode.map, EdgeSrNode.setEntry] at hentries ⊢
  simp only [hentries]

theorem map_nowMs (r : NodeRun τ σ) :
    (r.map f).nowMs (hooks.map f) = (f (r.nowMs hooks).1, (r.nowMs hooks).2.map f) := by
  simp [NodeRun.nowMs, NodeRun.map, EdgeSrHooks.map, NodeEvent.map]

theorem map_emit (type : UInt8) (payload : List UInt8) (r : NodeRun τ σ) :
    (r.emit hooks type payload).map f = (r.map f).emit (hooks.map f) type payload := by
  simp [NodeRun.emit, NodeRun.map, EdgeSrHooks.map, NodeEvent.map]

theorem map_emitReceived (seq : UInt8) (r : NodeRun τ σ) :
    (emitReceived hooks seq r).map f = emitReceived (hooks.map f) seq (r.map f) :=
  map_emit f hooks _ _ r

theorem map_emitResult (i : Slot) (r : NodeRun τ σ) :
    (emitResult hooks i r).map f = emitResult (hooks.map f) i (r.map f) :=
  map_emit f hooks _ _ r

theorem map_executed (n : EdgeSrNode τ) (i : Slot) (result : List UInt8) (now : τ) :
    (n.executed i result now).map f = (n.map f).executed i result (f now) := by
  have h := map_setEntry f n i ((n.entries i).complete result now)
  exact congrArg (fun m : EdgeSrNode τ' => { m with base := n.base + 1 }) h

theorem map_executeEntry (i : Slot) (r : NodeRun τ σ) :
    (executeEntry hooks i r).map f = executeEntry (hooks.map f) i (r.map f) := by
  let e := r.node.entries i
  let ran := hooks.execute e.seq e.command e.args r.user
  let clock := hooks.nowMs ran.2
  have hrun : ∀ events : List (NodeEvent τ),
      NodeRun.map f ⟨r.node.executed i ran.1 clock.1, clock.2, events⟩
        = ⟨(r.map f).node.executed i ran.1 (f clock.1), clock.2, events.map (NodeEvent.map f)⟩ :=
    fun events => by rw [NodeRun.map, map_executed]; rfl
  have hexec : executeEntry hooks i r = emitResult hooks i ⟨r.node.executed i ran.1 clock.1, clock.2,
      r.events ++ [.execute (r.node.commandOf e) ran.1] ++ [.now clock.1]⟩ := rfl
  rw [hexec, map_emitResult, hrun]
  simp only [List.map_append]
  rfl

theorem map_onOpen (session : UInt64) (r : NodeRun τ σ) :
    (onOpen hooks session r).map f = onOpen (hooks.map f) session (r.map f) := by
  have hsession : (r.map f).node.session = r.node.session := rfl
  unfold onOpen
  dsimp only
  rw [map_emit, hsession]
  by_cases hlt : session > r.node.session
  · rw [if_pos hlt, if_pos hlt]
    rfl
  · rw [if_neg hlt, if_neg hlt]
    rfl

theorem map_onResultAck (seq : UInt8) (len : Nat) (r : NodeRun τ σ) :
    (onResultAck seq len r).map f = onResultAck seq len (r.map f) := by
  have hfind : findEntry (r.map f).node seq = findEntry r.node seq := rfl
  unfold onResultAck
  rw [hfind]
  cases findEntry r.node seq with
  | none => rfl
  | some i =>
      have hstate : ((r.map f).node.entries i).state = (r.node.entries i).state := rfl
      dsimp only
      rw [hstate]
      split_ifs
      · rw [NodeRun.map, map_setEntry]
        rfl
      · rfl

end Images

/-! ## Deadlines -/

section Clocks

variable [Clock τ] [Clock τ']

/-- Both clocks give the stamps of the slot the same age. -/
structure SameAge (f : τ → τ') (now : τ) (e : EdgeSrEntry τ) : Prop where
  buffered : e.state = .buffered →
    Clock.elapsed (f now) (f e.receivedAt) = Clock.elapsed now e.receivedAt
  executed : e.state = .executed →
    Clock.elapsed (f now) (f e.completedAt) = Clock.elapsed now e.completedAt
  sent : e.state = .executed →
    Clock.elapsed (f now) (f e.lastSentAt) = Clock.elapsed now e.lastSentAt

/-- Both clocks give the same ages in a scan. -/
def Scan.Agrees (f : τ → τ') (scan : Scan τ σ) : Prop :=
  ∀ i, SameAge f scan.now (scan.run.node.entries i)

variable {f : τ → τ'}

theorem sameAge_free {now : τ} {e : EdgeSrEntry τ} (h : e.state = .free) : SameAge f now e :=
  ⟨by simp [h], by simp [h], by simp [h]⟩

theorem sameAge_freed {now : τ} {n : EdgeSrNode τ} (h : ∀ i, SameAge f now (n.entries i))
    (i : Slot) : ∀ j, SameAge f now ((n.freed i).entries j) := by
  intro j
  rw [EdgeSrNode.freed, setEntry_entries]
  split_ifs
  · exact sameAge_free rfl
  · exact h j

theorem map_expireLoop (gap : Bool) (now : τ) (is : List Slot) :
    ∀ n : EdgeSrNode τ, (∀ i, SameAge f now (n.entries i)) →
      expireLoop gap (f now) (n.map f) is
        = ((expireLoop gap now n is).1.map f,
            (expireLoop gap now n is).2.map (NodeEvent.map f)) := by
  induction is with
  | nil =>
      intro n _
      rfl
  | cons i rest ih =>
      intro n hages
      have hage := hages i
      have hclosed : (gap = true ∧ ((n.map f).entries i).state = .buffered ∧
          Clock.elapsed (f now) ((n.map f).entries i).receivedAt ≥ EDGE_COMMAND_LIFETIME_MS) ↔
          (gap = true ∧ (n.entries i).state = .buffered ∧
            Clock.elapsed now (n.entries i).receivedAt ≥ EDGE_COMMAND_LIFETIME_MS) :=
        and_congr_right fun _ => and_congr_right fun hstate =>
          iff_of_eq (congrArg (· ≥ EDGE_COMMAND_LIFETIME_MS) (hage.buffered hstate))
      have hdropped : (((n.map f).entries i).state = .executed ∧
          Clock.elapsed (f now) ((n.map f).entries i).completedAt ≥ EDGE_SR_RESULT_TTL_MS) ↔
          ((n.entries i).state = .executed ∧
            Clock.elapsed now (n.entries i).completedAt ≥ EDGE_SR_RESULT_TTL_MS) :=
        and_congr_right fun hstate =>
          iff_of_eq (congrArg (· ≥ EDGE_SR_RESULT_TTL_MS) (hage.executed hstate))
      unfold expireLoop
      dsimp only
      -- both clocks take the same branch
      by_cases hclose : gap = true ∧ (n.entries i).state = .buffered ∧
          Clock.elapsed now (n.entries i).receivedAt ≥ EDGE_COMMAND_LIFETIME_MS
      · rw [if_pos hclose, if_pos (hclosed.mpr hclose)]
        rfl
      rw [if_neg hclose, if_neg fun h => hclose (hclosed.mp h)]
      by_cases hdrop : (n.entries i).state = .executed ∧
          Clock.elapsed now (n.entries i).completedAt ≥ EDGE_SR_RESULT_TTL_MS
      · rw [if_pos hdrop, if_pos (hdropped.mpr hdrop)]
        have hfreed := ih (n.freed i) (sameAge_freed hages i)
        rw [EdgeSrNode.freed, map_setEntry] at hfreed
        exact hfreed
      · rw [if_neg hdrop, if_neg fun h => hdrop (hdropped.mp h)]
        exact ih n hages

/-- Both clocks lead `expire` to the same slots. -/
theorem map_expire {now : τ} {r : NodeRun τ σ} (h : ∀ i, SameAge f now (r.node.entries i)) :
    expire (f now) (r.map f) = (expire now r).map f := by
  have hgap : (r.map f).node.gap = r.node.gap := rfl
  have hloop := map_expireLoop r.node.gap now (List.finRange EDGE_SR_RESULT_CAPACITY) r.node h
  unfold expire
  rw [hgap, show (r.map f).node = r.node.map f from rfl, hloop]
  simp [NodeRun.map]

/-! ## Calls -/

theorem map_deliverLoop (hooks : EdgeSrHooks τ σ) (fuel : Nat) :
    ∀ r : NodeRun τ σ, (∀ scan ∈ deliverScans hooks fuel r, scan.Agrees f) →
      deliverLoop (hooks.map f) fuel (r.map f) = (deliverLoop hooks fuel r).map f := by
  induction fuel with
  | zero =>
      intro r _
      rfl
  | succ fuel ih =>
      intro r hscans
      unfold deliverScans at hscans
      dsimp only at hscans
      have hexpire := map_expire (hscans _ List.mem_cons_self)
      have hrest := fun scan h => hscans scan (List.mem_cons_of_mem _ h)
      unfold deliverLoop
      dsimp only
      rw [map_nowMs, hexpire]
      generalize expire (r.nowMs hooks).1 (r.nowMs hooks).2 = r₁ at hrest ⊢
      have hactive : (r₁.map f).node.active = r₁.node.active := rfl
      have hfind : findEntry (r₁.map f).node (UInt8.ofNat (r₁.map f).node.base)
          = findEntry r₁.node (UInt8.ofNat r₁.node.base) := rfl
      rw [hactive, hfind]
      by_cases hclosed : r₁.node.active = false
      · rw [if_pos hclosed, if_pos hclosed]
      rw [if_neg hclosed] at hrest
      rw [if_neg hclosed, if_neg hclosed]
      cases hentry : findEntry r₁.node (UInt8.ofNat r₁.node.base) with
      | none => rfl
      | some i =>
          rw [hentry] at hrest
          have hstate : ((r₁.map f).node.entries i).state = (r₁.node.entries i).state := rfl
          dsimp only at hrest ⊢
          rw [hstate]
          by_cases hbuffered : (r₁.node.entries i).state = .buffered
          · rw [if_neg (not_not.mpr hbuffered)] at hrest
            rw [if_neg (not_not.mpr hbuffered), if_neg (not_not.mpr hbuffered),
              ← map_executeEntry]
            exact ih _ hrest
          · rw [if_pos hbuffered, if_pos hbuffered]

theorem map_started (hooks : EdgeSrHooks τ σ) (n : EdgeSrNode τ) (user : σ)
    (hages : ∀ i, SameAge f (hooks.nowMs user).1 (n.entries i)) :
    started (hooks.map f) (n.map f) user = (started hooks n user).map f := by
  have hnow := map_nowMs f hooks ⟨n, user, []⟩
  unfold started
  rw [← map_expire hages]
  exact congrArg (expire (f (hooks.nowMs user).1)) (congrArg Prod.snd hnow)

/-- A command that is stored is delivered the same. -/
theorem map_onCommand (hooks : EdgeSrHooks τ σ) (now : τ) {p : List UInt8}
    (hmax : p.length ≤ EDGE_PAYLOAD_MAX) (hmin : 10 ≤ p.length) {r : NodeRun τ σ}
    (hactive : r.node.active = true) (hsession : edgeU64BeRead p = r.node.session)
    (hscans : ∀ r', storedRun hooks now EDGE_TYPE_SR_COMMAND (some p) r = some r' →
      ∀ scan ∈ deliverScans hooks (256 - r'.node.base) r', scan.Agrees f) :
    onCommand (hooks.map f) (f now) (p.getD 8 0) (p.getD 9 0) (p.drop 10) (r.map f)
      = (onCommand hooks now (p.getD 8 0) (p.getD 9 0) (p.drop 10) r).map f := by
  have hfind : findEntry (r.map f).node (p.getD 8 0) = findEntry r.node (p.getD 8 0) := rfl
  have hfree : freeEntry (r.map f).node = freeEntry r.node := rfl
  unfold onCommand
  rw [hfind]
  cases hnew : findEntry r.node (p.getD 8 0) with
  | some i =>
      have hcommand : ((r.map f).node.entries i).command = (r.node.entries i).command := rfl
      have hargs : ((r.map f).node.entries i).args = (r.node.entries i).args := rfl
      have hstate : ((r.map f).node.entries i).state = (r.node.entries i).state := rfl
      dsimp only
      rw [hcommand, hargs, hstate, ← map_emitReceived, ← map_emitResult]
      split_ifs <;> rfl
  | none =>
      have hbase : (r.map f).node.base = r.node.base := rfl
      dsimp only
      unfold onNewCommand
      rw [hfree, hbase, ← map_emitReceived]
      split_ifs with hleft hright
      · rfl
      · rfl
      cases hslot : freeEntry r.node with
      | none => rfl
      | some i =>
          dsimp only
          have haccepts : r.node.Accepts ⟨edgeU64BeRead p, p.getD 8 0, p.getD 9 0, p.drop 10⟩ :=
            ⟨hactive, hsession, hnew, Nat.not_lt.mp hleft, Nat.lt_of_not_le hright⟩
          have hstored := hscans (emitReceived hooks (p.getD 8 0) { r with
            node := r.node.received i (p.getD 8 0) (p.getD 9 0) (p.drop 10) now
            events := r.events ++ [.store ⟨r.node.session, p.getD 8 0, p.getD 9 0, p.drop 10⟩] })
            (by rw [storedRun, nodeInput_command hmax hmin]
                dsimp only
                rw [if_pos haccepts, hslot, hsession]
                rfl)
          have hrun : NodeRun.map f { r with
              node := r.node.received i (p.getD 8 0) (p.getD 9 0) (p.drop 10) now
              events := r.events ++ [.store ⟨r.node.session, p.getD 8 0, p.getD 9 0, p.drop 10⟩] }
            = { r.map f with
                node := (r.map f).node.received i (p.getD 8 0) (p.getD 9 0) (p.drop 10) (f now)
                events := (r.map f).events ++
                  [.store ⟨r.node.session, p.getD 8 0, p.getD 9 0, p.drop 10⟩] } := by
            rw [NodeRun.map, EdgeSrNode.received, map_setEntry, List.map_append]
            rfl
          have hdeliver := map_deliverLoop hooks _ _ hstored
          rw [map_emitReceived, hrun] at hdeliver
          exact hdeliver

/-- The frame is handled the same behind the deadlines. -/
theorem map_handleFrame (hooks : EdgeSrHooks τ σ) (now : τ) (type : UInt8)
    (payload : Option (List UInt8)) (r : NodeRun τ σ)
    (hscans : ∀ r', storedRun hooks now type payload r = some r' →
      ∀ scan ∈ deliverScans hooks (256 - r'.node.base) r', scan.Agrees f) :
    handleFrame (hooks.map f) (f now) type payload (r.map f)
      = (handleFrame hooks now type payload r).map f := by
  have hactive : (r.map f).node.active = r.node.active := rfl
  have hsession : (r.map f).node.session = r.node.session := rfl
  unfold handleFrame
  rw [hactive, hsession]
  cases payload with
  | none => rfl
  | some p =>
      dsimp only
      rw [← map_onOpen, ← map_onResultAck]
      split_ifs with hlen hopen hlen8 hskip hack hother
      · rfl
      · rfl
      · rfl
      · rfl
      · rfl
      · rfl
      · push Not at hlen hskip hother
        obtain ⟨rfl, hmin⟩ := hother
        exact map_onCommand hooks now hlen.1 hmin (by simpa using hskip.1) hskip.2.1 hscans

theorem map_onFrame (hooks : EdgeSrHooks τ σ) (n : EdgeSrNode τ) (user : σ) (type : UInt8)
    (payload : Option (List UInt8))
    (hscans : ∀ scan ∈ (NodeCall.onFrame hooks user type payload).scans n, scan.Agrees f) :
    edgeSrNodeOnFrame (hooks.map f) (n.map f) user type payload
      = (edgeSrNodeOnFrame hooks n user type payload).map f := by
  have hstarted := map_started hooks n user (hscans _ List.mem_cons_self)
  rw [onFrame_eq, onFrame_eq, hstarted]
  refine map_handleFrame hooks _ type payload _ fun r' hr' scan hscan => hscans scan ?_
  refine List.mem_cons_of_mem _ ?_
  rw [hr']
  exact hscan

theorem map_tickLoop (hooks : EdgeSrHooks τ σ) (now : τ) (is : List Slot) (his : is.Nodup) :
    ∀ r : NodeRun τ σ, (∀ i ∈ is, SameAge f now (r.node.entries i)) →
      tickLoop (hooks.map f) (f now) is (r.map f) = (tickLoop hooks now is r).map f := by
  induction is with
  | nil =>
      intro r _
      rfl
  | cons i rest ih =>
      intro r hages
      obtain ⟨hi, hrest⟩ := List.nodup_cons.mp his
      have hage := hages i List.mem_cons_self
      have hdue : (((r.map f).node.entries i).state = .executed ∧
          ((r.map f).node.entries i).retries < EDGE_MAX_RETRY ∧
          Clock.elapsed (f now) ((r.map f).node.entries i).lastSentAt ≥ EDGE_ACK_TIMEOUT_MS) ↔
          ((r.node.entries i).state = .executed ∧ (r.node.entries i).retries < EDGE_MAX_RETRY ∧
            Clock.elapsed now (r.node.entries i).lastSentAt ≥ EDGE_ACK_TIMEOUT_MS) :=
        and_congr_right fun hstate => and_congr_right fun _ =>
          iff_of_eq (congrArg (· ≥ EDGE_ACK_TIMEOUT_MS) (hage.sent hstate))
      unfold tickLoop
      dsimp only
      -- the slot is due by both clocks or by none
      split_ifs with hthere hhere hhere
      · have hmap : (NodeRun.map f { r with node := r.node.resent i now }) =
            { r.map f with node := (r.map f).node.resent i (f now) } := by
          rw [NodeRun.map, EdgeSrNode.resent, map_setEntry]
          rfl
        have hemit := map_emitResult f hooks i { r with node := r.node.resent i now }
        rw [hmap] at hemit
        refine Eq.trans (congrArg _ hemit.symm) (ih hrest _ fun j hj => ?_)
        -- the other slots keep their stamps
        have hji : j ≠ i := fun h => hi (h ▸ hj)
        have hsame : ((emitResult hooks i { r with node := r.node.resent i now }).node.entries j)
            = r.node.entries j := by
          show (r.node.setEntry i _).entries j = _
          rw [setEntry_entries, if_neg hji]
        rw [hsame]
        exact hages j (List.mem_cons_of_mem _ hj)
      · exact absurd (hdue.mp hthere) hhere
      · exact absurd (hdue.mpr hhere) hthere
      · exact ih hrest r fun j hj => hages j (List.mem_cons_of_mem _ hj)

theorem sameAge_expired {now : τ} {n : EdgeSrNode τ} (h : ∀ i, SameAge f now (n.entries i)) :
    ∀ i, SameAge f now ((n.expired now).entries i) := by
  intro i
  by_cases hfree : ((n.expired now).entries i).state = .free
  · exact sameAge_free hfree
  · rw [expired_same hfree]
    exact h i

theorem map_tick (hooks : EdgeSrHooks τ σ) (n : EdgeSrNode τ) (user : σ)
    (hscans : ∀ scan ∈ (NodeCall.tick hooks user).scans n, scan.Agrees f) :
    edgeSrNodeTick (hooks.map f) (n.map f) user = (edgeSrNodeTick hooks n user).map f := by
  have hages := hscans _ List.mem_cons_self
  have hstarted := map_started hooks n user hages
  have hactive : ((started hooks n user).map f).node.active = (started hooks n user).node.active :=
    rfl
  rw [tick_eq, tick_eq, hstarted, hactive]
  split_ifs
  · rfl
  · exact map_tickLoop hooks _ _ (List.nodup_finRange _) _ fun i _ => sameAge_expired hages i

/-- **A call does the same under both clocks** when they agree in its scans. -/
theorem map_run (n : EdgeSrNode τ) (call : NodeCall τ σ)
    (hscans : ∀ scan ∈ call.scans n, scan.Agrees f) :
    (call.map f).run (n.map f) = (call.run n).map f := by
  cases call with
  | onFrame hooks user type payload => exact map_onFrame hooks n user type payload hscans
  | tick hooks user => exact map_tick hooks n user hscans

/-! ## Runs -/

/-- `P` holds in every scan of the run. -/
def EveryScan (P : Scan τ σ → Prop) : EdgeSrNode τ → List (NodeCall τ σ) → Prop
  | _, [] => True
  | n, call :: rest => (∀ scan ∈ call.scans n, P scan) ∧ EveryScan P (call.run n).node rest

instance EveryScan.decide (P : Scan τ σ → Prop) [DecidablePred P] :
    (n : EdgeSrNode τ) → (calls : List (NodeCall τ σ)) → Decidable (EveryScan P n calls)
  | _, [] => .isTrue trivial
  | n, call :: rest =>
      have : Decidable (EveryScan P (call.run n).node rest) := EveryScan.decide P _ rest
      inferInstanceAs (Decidable (_ ∧ _))

/-- A history with the readings of the other clock. -/
def mapHistory (f : τ → τ') (history : List (NodeCall τ σ × List (NodeEvent τ))) :
    List (NodeCall τ' σ × List (NodeEvent τ')) :=
  history.map fun entry => (entry.1.map f, entry.2.map (NodeEvent.map f))

/-- **A run does the same under both clocks** when they agree in its scans. -/
theorem map_runCalls (calls : List (NodeCall τ σ)) :
    ∀ n : EdgeSrNode τ, EveryScan (Scan.Agrees f) n calls →
      runCalls (n.map f) (calls.map (NodeCall.map f))
        = ((runCalls n calls).1.map f, mapHistory f (runCalls n calls).2) := by
  induction calls with
  | nil =>
      intro n _
      rfl
  | cons call rest ih =>
      intro n h
      have hcall := map_run n call h.1
      have hrest := ih (call.run n).node h.2
      simp only [List.map_cons, runCalls, hcall]
      rw [show ((call.run n).map f).node = (call.run n).node.map f from rfl, hrest]
      rfl

end Clocks

/-! ## The clock that wraps -/

/-- A clock that does not wrap. -/
instance : Clock Nat where
  elapsed now at' := now - at'

/-- The reading of the node's clock. -/
def wrapMs (t : Nat) : UInt32 := UInt32.ofNat t

/-- Wrapping does not change differences below `2 ^ 32`. -/
theorem elapsed_wrapMs {now at' : Nat} (hle : at' ≤ now) (hlt : now < at' + 2 ^ 32) :
    Clock.elapsed (wrapMs now) (wrapMs at') = Clock.elapsed now at' := by
  have hwrap : (wrapMs now - wrapMs at').toNat = (2 ^ 32 - at' % 2 ^ 32 + now % 2 ^ 32) % 2 ^ 32 := by
    simp [wrapMs, UInt32.toNat_sub]
  have hsub : (2 ^ 32 - at' % 2 ^ 32 + now % 2 ^ 32) % 2 ^ 32 = now - at' := by omega
  show (wrapMs now - wrapMs at').toNat = now - at'
  rw [hwrap, hsub]

end EdgeGateway
