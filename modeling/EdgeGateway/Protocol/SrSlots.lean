import EdgeGateway.Protocol.SrDeliver

set_option autoImplicit false

/-! # The slots in use

Which commands the sixteen slots are in use for, and how a call changes that: a command takes a slot
only when its own frame comes and it was not executed, and the acknowledgement of a result that was
executed frees its slot.
-/

namespace EdgeGateway

variable {τ σ : Type}

namespace EdgeSrNode

/-- A slot is in use for the command `seq`. -/
def Holds (n : EdgeSrNode τ) (seq : UInt8) : Prop :=
  ∃ i, (n.entries i).state ≠ .free ∧ (n.entries i).seq = seq

/-- The slots in use. -/
def inUse (n : EdgeSrNode τ) : List Slot :=
  (List.finRange EDGE_SR_RESULT_CAPACITY).filter fun i => (n.entries i).state ≠ .free

/-- The slots in use, with one more when the command `seq` has none yet. -/
def inUseWith (n : EdgeSrNode τ) (seq : UInt8) : Nat :=
  n.inUse.length + if findEntry n seq = none then 1 else 0

variable {n n' : EdgeSrNode τ} {seq : UInt8} {window : List UInt8}

theorem mem_inUse {i : Slot} : i ∈ n.inUse ↔ (n.entries i).state ≠ .free := by
  simp [inUse]

theorem not_holds_iff : findEntry n seq = none ↔ ¬ n.Holds seq := by
  rw [findEntry_eq_none, Holds, not_exists]
  exact forall_congr' fun i => not_and.symm

/-- A slot in use is the one that is found for its command. -/
theorem findEntry_slot (hn : SlotInv n) {i : Slot} (hi : (n.entries i).state ≠ .free) :
    findEntry n (n.entries i).seq = some i := by
  obtain ⟨j, hj⟩ := findEntry_isSome hi
  obtain ⟨hbusy, hseq⟩ := findEntry_eq_some hj
  rw [hj, hn.seq_inj j i hbusy hi hseq]

theorem nodup_inUse_seqs (hn : SlotInv n) : (n.inUse.map fun i => (n.entries i).seq).Nodup := by
  have hslots : n.inUse.Nodup := (List.nodup_finRange _).filter _
  refine (List.nodup_map_iff_inj_on hslots).mpr fun i hi j hj heq => ?_
  exact hn.seq_inj i j (mem_inUse.mp hi) (mem_inUse.mp hj) heq

theorem mem_inUse_seqs : seq ∈ (n.inUse.map fun i => (n.entries i).seq) ↔ n.Holds seq := by
  rw [List.mem_map]
  exact exists_congr fun i => and_congr_left fun _ => mem_inUse

/-- Slots are counted by the commands they are in use for. -/
theorem inUse_le (hn : SlotInv n) (hholds : ∀ q, n.Holds q → q ∈ window) :
    n.inUse.length ≤ window.length := by
  have hsub := List.subperm_of_subset (nodup_inUse_seqs hn)
    fun q hq => hholds q (mem_inUse_seqs.mp hq)
  calc n.inUse.length
      = (n.inUse.map fun i => (n.entries i).seq).length := (List.length_map _).symm
    _ ≤ window.length := hsub.length_le

theorem inUseWith_le (hn : SlotInv n) (hholds : ∀ q, n.Holds q → q ∈ window)
    (hseq : seq ∈ window) : n.inUseWith seq ≤ window.length := by
  unfold inUseWith
  split_ifs with hnone
  · -- the command is one more in the window
    have hnew : seq ∉ n.inUse.map fun i => (n.entries i).seq :=
      fun hmem => not_holds_iff.mp hnone (mem_inUse_seqs.mp hmem)
    have hsub := List.subperm_of_subset (List.nodup_cons.mpr ⟨hnew, nodup_inUse_seqs hn⟩)
      (List.forall_mem_cons.mpr ⟨hseq, fun q hq => hholds q (mem_inUse_seqs.mp hq)⟩)
    calc n.inUse.length + 1
        = (seq :: n.inUse.map fun i => (n.entries i).seq).length := by
          rw [List.length_cons, List.length_map]
      _ ≤ window.length := hsub.length_le
  · exact inUse_le hn hholds

/-- A free slot is found unless all sixteen are in use. -/
theorem exists_freeEntry (h : n.inUse.length < EDGE_SR_RESULT_CAPACITY) :
    ∃ i, freeEntry n = some i := by
  cases hfree : freeEntry n with
  | some i => exact ⟨i, rfl⟩
  | none =>
      have hall : n.inUse = List.finRange EDGE_SR_RESULT_CAPACITY :=
        List.filter_eq_self.mpr fun i _ => decide_eq_true (freeEntry_eq_none.mp hfree i)
      rw [hall, List.length_finRange] at h
      exact absurd h (Nat.lt_irrefl _)

theorem holds_forgets (h : Forgets n n') (hheld : n'.Holds seq) : n.Holds seq := by
  obtain ⟨i, hi, rfl⟩ := hheld
  exact ⟨i, h.state_ne hi, (h.seq i).symm⟩

end EdgeSrNode

open EdgeSrNode

section Calls

variable [Clock τ] {n n' : EdgeSrNode τ} {inp : NodeInput} {es : List (NodeEvent τ)} {seq : UInt8}

/-! ## Taking a slot -/

/-- The command takes a slot: its frame came, and it is not left of the window. -/
def Takes (n : EdgeSrNode τ) (inp : NodeInput) (seq : UInt8) : Prop :=
  ∃ c, inp = .command c ∧ c.session = n.session ∧ c.seq = seq ∧ n.base ≤ seq.toNat

theorem holds_act (h : NodeAct inp n es n') (hheld : n'.Holds seq) :
    n'.session = n.session ∧ (n.Holds seq ∨ Takes n inp seq) := by
  cases h with
  | now => exact ⟨rfl, .inl hheld⟩
  | close i now hgap => exact ⟨rfl, .inl (holds_forgets (forgets_closed hgap) hheld)⟩
  | drop i now hstate => exact ⟨rfl, .inl (holds_forgets (forgets_freed hstate) hheld)⟩
  | acked i hactive hstate => exact ⟨rfl, .inl (holds_forgets (forgets_freed hstate) hheld)⟩
  | «open» session =>
      obtain ⟨i, hi, -⟩ := hheld
      exact absurd rfl hi
  | openAck => exact ⟨rfl, .inl hheld⟩
  | store i seq' command args now hinp hactive hfree hnew hge =>
      refine ⟨rfl, ?_⟩
      obtain ⟨j, hj, hjseq⟩ := hheld
      rw [EdgeSrNode.received, setEntry_entries] at hj hjseq
      split_ifs at hj hjseq
      · -- the slot that was free
        obtain rfl : seq' = seq := hjseq
        exact .inr ⟨_, hinp, rfl, rfl, hge⟩
      · exact .inl ⟨j, hj, hjseq⟩
  | confirm => exact ⟨rfl, .inl hheld⟩
  | execute i result now hactive hbase hseq hstate =>
      refine ⟨rfl, .inl ?_⟩
      obtain ⟨j, hj, hjseq⟩ := hheld
      change ((n.setEntry i _).entries j).state ≠ _ at hj
      change ((n.setEntry i _).entries j).seq = _ at hjseq
      rw [setEntry_entries] at hj hjseq
      split_ifs at hj hjseq with hji
      · -- the slot was buffered before
        refine ⟨i, ?_, hjseq⟩
        rw [hstate]
        decide
      · exact ⟨j, hj, hjseq⟩
  | result => exact ⟨rfl, .inl hheld⟩
  | resend i now hstate => exact ⟨rfl, .inl (holds_forgets (forgets_resent now hstate) hheld)⟩

/-- The session and the window only move by an OPEN. -/
theorem base_act (h : NodeAct inp n es n') :
    n'.session = n.session ∧ n.base ≤ n'.base ∨ ∃ session, inp = .openSession session := by
  cases h with
  | «open» session hinp => exact .inr ⟨session, hinp⟩
  | execute => exact .inl ⟨rfl, Nat.le_succ _⟩
  | _ => exact .inl ⟨rfl, Nat.le_refl _⟩

/-- The window does not move back while the session stays. -/
theorem base_le_steps (h : Steps (NodeAct inp) n es n') (hsame : n'.session = n.session) :
    n.base ≤ n'.base := by
  have hrun := h.preserves (I := fun m => n.session ≤ m.session ∧
    (m.session = n.session → n.base ≤ m.base)) ?_ ⟨UInt64.le_refl _, fun _ => Nat.le_refl _⟩
  · exact hrun.2 hsame
  · rintro m es m' ⟨hle, hbase⟩ hact
    have hle' := nodeAct_session_le hact
    refine ⟨UInt64.le_trans hle hle', fun heq => ?_⟩
    have hback : m.session = n.session := UInt64.le_antisymm (heq ▸ hle') hle
    cases hact with
    | «open» session hinp hlt =>
        -- a session that is opened is above all before it
        have hopened : session = n.session := heq
        rw [hback, hopened] at hlt
        exact absurd hlt (UInt64.lt_irrefl _)
    | execute => exact Nat.le_succ_of_le (hbase hback)
    | _ => exact hbase hback

/-- **A slot in use was in use before, or its command's frame came and was new.** -/
theorem holds_steps (h : Steps (NodeAct inp) n es n') (hheld : n'.Holds seq) :
    n'.session = n.session ∧ (n.Holds seq ∨ Takes n inp seq) := by
  have hrun := h.preserves (I := fun m =>
    (∀ q, m.Holds q → m.session = n.session ∧ (n.Holds q ∨ Takes n inp q)) ∧
      (m.session = n.session ∧ n.base ≤ m.base ∨ ∃ session, inp = .openSession session)) ?_
    ⟨fun q hq => ⟨rfl, .inl hq⟩, .inl ⟨rfl, Nat.le_refl _⟩⟩
  · exact hrun.1 seq hheld
  · rintro m es m' ⟨hholds, hbase⟩ hact
    refine ⟨fun q hq => ?_, ?_⟩
    · obtain ⟨hsame, hold | ⟨c, hinp, hsession, hseq, hge⟩⟩ := holds_act hact hq
      · obtain ⟨hsame', hfrom⟩ := hholds q hold
        exact ⟨hsame.trans hsame', hfrom⟩
      · rcases hbase with ⟨hsame', hle⟩ | ⟨session, hopen⟩
        · exact ⟨hsame.trans hsame', .inr ⟨c, hinp, hsession.trans hsame', hseq,
            Nat.le_trans hle hge⟩⟩
        · -- the same frame is not an OPEN as well
          rw [hopen] at hinp
          cases hinp
    · rcases hbase with ⟨hsame, hle⟩ | hopen
      · rcases base_act hact with ⟨hsame', hle'⟩ | hopen
        · exact .inl ⟨hsame'.trans hsame, Nat.le_trans hle hle'⟩
        · exact .inr hopen
      · exact .inr hopen

/-! ## Freeing a slot -/

theorem slotInv_expire (now : τ) {r : NodeRun τ σ} (hr : SlotInv r.node) :
    SlotInv (expire now r).node :=
  slotInv_replays (replays_expire now r : Replays .silent r _) hr

theorem expireLoop_session (gap : Bool) (now : τ) (is : List Slot) :
    ∀ n : EdgeSrNode τ, (expireLoop gap now n is).1.session = n.session := by
  induction is with
  | nil => intro n; rfl
  | cons i rest ih =>
      intro n
      unfold expireLoop
      dsimp only
      split_ifs
      · rfl
      · rw [ih, setEntry_session]
      · exact ih n

theorem expire_session (now : τ) (r : NodeRun τ σ) :
    (expire now r).node.session = r.node.session :=
  expireLoop_session r.node.gap now (List.finRange EDGE_SR_RESULT_CAPACITY) r.node

omit [Clock τ] in
/-- The acknowledgement of an executed command leaves no slot in use for it. -/
theorem onResultAck_frees {r : NodeRun τ σ} (hr : SlotInv r.node)
    (hexecuted : seq.toNat < r.node.base) : ¬ (onResultAck seq 9 r).node.Holds seq := by
  unfold onResultAck
  cases hfind : findEntry r.node seq with
  | none => exact not_holds_iff.mp hfind
  | some i =>
      obtain ⟨hi, hseq⟩ := findEntry_eq_some hfind
      -- a slot that waits is not left of the window
      have hstate : (r.node.entries i).state = .executed := by
        cases hcase : (r.node.entries i).state with
        | free => exact absurd hcase hi
        | executed => rfl
        | buffered =>
            have := (hr.buffered i hcase).1
            rw [hseq] at this
            omega
      dsimp only
      rw [if_pos ⟨rfl, hstate⟩]
      rintro ⟨j, hj, hjseq⟩
      rw [setEntry_entries] at hj hjseq
      split_ifs at hj hjseq with hji
      · exact absurd rfl hj
      · exact hji (hr.seq_inj j i hj hi (hjseq.trans hseq.symm))

/-- A frame of a session: an acknowledgement of a result, or a command. -/
theorem onFrame_data (hooks : EdgeSrHooks τ σ) (n : EdgeSrNode τ) (user : σ) {type : UInt8}
    {p : List UInt8} (hmax : p.length ≤ EDGE_PAYLOAD_MAX) (hmin : 8 ≤ p.length)
    (hopen : type ≠ EDGE_TYPE_SR_OPEN) :
    edgeSrNodeOnFrame hooks n user type (some p) =
      let r := started hooks n user
      if r.node.active = false ∨ edgeU64BeRead p ≠ r.node.session ∨ p.length < 9 then r
      else if type = EDGE_TYPE_SR_RESULT_ACK then onResultAck (p.getD 8 0) p.length r
      else if type ≠ EDGE_TYPE_SR_COMMAND ∨ p.length < 10 then r
      else onCommand hooks (hooks.nowMs user).1 (p.getD 8 0) (p.getD 9 0) (p.drop 10) r := by
  have hshape : ¬ (p.length > EDGE_PAYLOAD_MAX ∨ p.length < 8) := by omega
  unfold edgeSrNodeOnFrame
  dsimp only
  rw [if_neg hshape, if_neg hopen]
  rfl

theorem ack_frees (hooks : EdgeSrHooks τ σ) (user : σ) (hn : SlotInv n) {p : List UInt8}
    (hlength : p.length = 9) (hsession : edgeU64BeRead p = n.session) (hseq : p.getD 8 0 = seq)
    (hexecuted : seq.toNat < n.base) :
    ¬ (edgeSrNodeOnFrame hooks n user EDGE_TYPE_SR_RESULT_ACK (some p)).node.Holds seq := by
  have hr : SlotInv (started hooks n user).node := slotInv_expire _ hn
  have hbase : (started hooks n user).node.base = n.base := expire_base _ _
  have hsame : (started hooks n user).node.session = n.session := expire_session _ _
  rw [onFrame_data hooks n user (by rw [hlength]; decide) (by omega) (by decide)]
  dsimp only
  rw [if_pos (show EDGE_TYPE_SR_RESULT_ACK = EDGE_TYPE_SR_RESULT_ACK from rfl)]
  split_ifs with hskip
  · rintro ⟨i, hi, -⟩
    rcases hskip with hclosed | hother | hshort
    · exact hi (hr.closed_free hclosed i)
    · exact hother (hsession.trans hsame.symm)
    · omega
  · rw [hseq, hlength]
    exact onResultAck_frees hr (hbase ▸ hexecuted)

/-! ## Storing a command -/

theorem holds_expired {now : τ} (h : (n.expired now).Holds seq) : n.Holds seq := by
  have hacts : Steps (NodeAct .silent) n _ (n.expired now) := expireLoop_acts n.gap now _ n id
  rcases (holds_steps hacts h).2 with hold | ⟨c, hinp, -⟩
  · exact hold
  · cases hinp

/-- A new command in the window is stored when a slot is free. -/
theorem onNewCommand_stores (hooks : EdgeSrHooks τ σ) (now : τ) (command : UInt8)
    (args : List UInt8) {r : NodeRun τ σ} (hge : r.node.base ≤ seq.toNat)
    (hlt : seq.toNat < r.node.base + EDGE_SR_WINDOW_SIZE) {i : Slot}
    (hfree : freeEntry r.node = some i) :
    ⟨r.node.session, seq, command, args⟩ ∈
      stores (onNewCommand hooks now seq command args r).events := by
  unfold onNewCommand
  rw [if_neg (Nat.not_lt.mpr hge), if_neg (Nat.not_le.mpr hlt), hfree]
  dsimp only
  have hmoves : ∀ r' : NodeRun τ σ, Moves .silent false now r' (deliver hooks r') :=
    fun r' => (moves_deliverLoop hooks _ r' le_rfl).1
  obtain ⟨es, hevents, -⟩ := hmoves (emitReceived hooks seq
    { r with
      node := r.node.setEntry i ((r.node.entries i).receive seq command args now)
      events := r.events ++ [.store (r.node.commandOf
        ((r.node.entries i).receive seq command args now))] })
  rw [hevents, mem_stores]
  refine List.mem_append_left _ (List.mem_append_left _ (List.mem_append_right _ ?_))
  exact List.mem_singleton_self _

/-- **A command in the window that no slot holds is stored**, when not all slots are in use. -/
theorem onFrame_stores (hooks : EdgeSrHooks τ σ) (user : σ) {p : List UInt8}
    (hmax : p.length ≤ EDGE_PAYLOAD_MAX) (hmin : 10 ≤ p.length) (hseq : p.getD 8 0 = seq)
    (hactive : (n.expired (hooks.nowMs user).1).active = true)
    (hsession : edgeU64BeRead p = n.session)
    (hge : (n.expired (hooks.nowMs user).1).base ≤ seq.toNat)
    (hlt : seq.toNat < (n.expired (hooks.nowMs user).1).base + EDGE_SR_WINDOW_SIZE)
    (hnew : findEntry (n.expired (hooks.nowMs user).1) seq = none)
    (hfree : (n.expired (hooks.nowMs user).1).inUse.length < EDGE_SR_RESULT_CAPACITY) :
    ⟨n.session, seq, p.getD 9 0, p.drop 10⟩ ∈
      stores (edgeSrNodeOnFrame hooks n user EDGE_TYPE_SR_COMMAND (some p)).events := by
  have hnode : (started hooks n user).node = n.expired (hooks.nowMs user).1 := rfl
  have hsame : (started hooks n user).node.session = n.session := expire_session _ _
  have hserve : ¬ ((started hooks n user).node.active = false ∨
      edgeU64BeRead p ≠ (started hooks n user).node.session ∨ p.length < 9) := by
    rw [hsame, hsession, hnode, hactive]
    simp only [ne_eq, not_true_eq_false, false_or, reduceCtorEq]
    omega
  have hbody : ¬ (EDGE_TYPE_SR_COMMAND ≠ EDGE_TYPE_SR_COMMAND ∨ p.length < 10) := by
    simp only [ne_eq, not_true_eq_false, false_or]
    omega
  have heq : edgeSrNodeOnFrame hooks n user EDGE_TYPE_SR_COMMAND (some p) =
      onNewCommand hooks (hooks.nowMs user).1 seq (p.getD 9 0) (p.drop 10)
        (started hooks n user) := by
    rw [onFrame_data hooks n user hmax (by omega) (by decide)]
    dsimp only
    rw [if_neg hserve, if_neg (by decide), if_neg hbody, hseq, onCommand, hnode, hnew]
  obtain ⟨i, hi⟩ := exists_freeEntry hfree
  rw [heq, ← hsame]
  exact onNewCommand_stores hooks _ _ _ hge hlt (hnode ▸ hi)

end Calls

end EdgeGateway
