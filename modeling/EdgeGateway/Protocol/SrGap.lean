import EdgeGateway.Protocol.SrWrap

set_option autoImplicit false

/-! # The gap deadline

A command that waits behind a missing one is executed in a call that began before it was 4000 ms
old, or never: the first scan that finds it older closes the session for good. Commands that wait
for nothing but the executions before them are not bound by the deadline.
-/

namespace EdgeGateway

variable {τ σ : Type}

/-! ## Scans at a gap -/

section Deadlines

variable [Clock τ]

/-- **An overdue command behind a gap closes the session**, and every slot is freed. -/
theorem expireLoop_closes {now : τ} {i : Slot} (is : List Slot) :
    ∀ n : EdgeSrNode τ, i ∈ is → (n.entries i).state = .buffered →
      Clock.elapsed now (n.entries i).receivedAt ≥ EDGE_COMMAND_LIFETIME_MS →
      (expireLoop true now n is).1.active = false ∧
        (∀ j, ((expireLoop true now n is).1.entries j).state = .free) ∧
        (expireLoop true now n is).2 = [.close n.session] := by
  induction is with
  | nil =>
      intro n hi
      cases hi
  | cons j rest ih =>
      intro n hi hstate hage
      unfold expireLoop
      dsimp only
      split_ifs with hclose hdrop
      · exact ⟨rfl, fun _ => rfl, rfl⟩
      · -- a result is dropped, which is another slot
        have hij : i ≠ j := by
          rintro rfl
          rw [hstate] at hdrop
          cases hdrop.1
        have hsame : ((n.freed j).entries i) = n.entries i := by
          rw [EdgeSrNode.freed, setEntry_entries, if_neg hij]
        exact ih (n.freed j) (List.mem_of_ne_of_mem hij hi) (hsame ▸ hstate) (hsame ▸ hage)
      · rcases List.mem_cons.mp hi with rfl | hi
        · exact absurd ⟨rfl, hstate, hage⟩ hclose
        · exact ih n hi hstate hage

/-- Without a gap nothing is closed, and no waiting command is lost. -/
theorem expireLoop_waits {now : τ} (is : List Slot) :
    ∀ n : EdgeSrNode τ, (expireLoop false now n is).1.active = n.active ∧
      ∀ i, (n.entries i).state = .buffered →
        (expireLoop false now n is).1.entries i = n.entries i := by
  induction is with
  | nil => exact fun n => ⟨rfl, fun _ _ => rfl⟩
  | cons j rest ih =>
      intro n
      unfold expireLoop
      dsimp only
      rw [if_neg (fun h => Bool.false_ne_true h.1)]
      split_ifs with hdrop
      · refine ⟨(ih _).1, fun i hi => ?_⟩
        have hij : i ≠ j := by
          rintro rfl
          rw [hi] at hdrop
          cases hdrop.1
        have hsame : ((n.freed j).entries i) = n.entries i := by
          rw [EdgeSrNode.freed, setEntry_entries, if_neg hij]
        exact ((ih (n.freed j)).2 i (hsame ▸ hi)).trans hsame
      · exact ih n

/-! ## Contiguous commands -/

/-- The next `k` commands wait in slots. -/
def EdgeSrNode.Contiguous (n : EdgeSrNode τ) (k : Nat) : Prop :=
  ∀ j < k, ∃ i, (n.entries i).state = .buffered ∧ (n.entries i).seq.toNat = n.base + j

omit [Clock τ] in
theorem Contiguous.gap {n : EdgeSrNode τ} {k : Nat} (h : n.Contiguous (k + 1)) : n.gap = false := by
  obtain ⟨i, hi, hseq⟩ := h 0 (Nat.succ_pos k)
  have hne : findEntry n (UInt8.ofNat n.base) ≠ none := by
    intro hnone
    refine findEntry_eq_none.mp hnone i (ne_free hi (by decide)) ?_
    rw [← Nat.add_zero n.base, ← hseq]
    exact (UInt8.ofNat_toNat).symm
  rw [EdgeSrNode.gap, decide_eq_false_iff_not]
  exact fun hgap => hne hgap.2

/-- The node after a scan without a gap: it is active and has lost no waiting command. -/
theorem expired_waits {n : EdgeSrNode τ} (hgap : n.gap = false) (now : τ) :
    (n.expired now).active = n.active ∧ ∀ i, (n.entries i).state = .buffered →
      (n.expired now).entries i = n.entries i := by
  unfold EdgeSrNode.expired
  rw [hgap]
  exact expireLoop_waits _ n

/-- `r'` is `r` after the command of the slot `i` was executed. -/
structure Advances (r : NodeRun τ σ) (i : Slot) (r' : NodeRun τ σ) : Prop where
  slots : SlotInv r'.node
  active : r'.node.active = true
  base : r'.node.base = r.node.base + 1
  session : r'.node.session = r.node.session
  executed : ∃ raw, .execute (r.node.commandOf (r.node.entries i)) raw ∈ r'.events
  others : ∀ j, j ≠ i → (r.node.entries j).state = .buffered →
    r'.node.entries j = r.node.entries j

/-- A round of `deliver` executes the command that waits at `base`. -/
theorem deliverLoop_advances (hooks : EdgeSrHooks τ σ) (fuel : Nat) {r : NodeRun τ σ}
    (hslots : SlotInv r.node) (hactive : r.node.active = true) {i : Slot}
    (hi : (r.node.entries i).state = .buffered) (hseq : (r.node.entries i).seq.toNat = r.node.base) :
    ∃ r', deliverLoop hooks (fuel + 1) r = deliverLoop hooks fuel r' ∧ Advances r i r' := by
  have hlt := (r.node.entries i).seq.toNat_lt
  have hgap : r.node.gap = false := Contiguous.gap (k := 0) fun j hj => by
    obtain rfl : j = 0 := by omega
    exact ⟨i, hi, hseq⟩
  obtain ⟨hopen, hwaits⟩ := expired_waits hgap (hooks.nowMs r.user).1
  have hbase : (expire (r.nowMs hooks).1 (r.nowMs hooks).2).node.base = r.node.base :=
    expire_base _ _
  have hsession : (expire (r.nowMs hooks).1 (r.nowMs hooks).2).node.session
      = r.node.session := expire_session _ _
  have hslots₁ : SlotInv (expire (r.nowMs hooks).1 (r.nowMs hooks).2).node :=
    slotInv_expire _ hslots
  have hnode : (expire (r.nowMs hooks).1 (r.nowMs hooks).2).node
      = r.node.expired (hooks.nowMs r.user).1 := rfl
  rw [← hnode] at hopen hwaits
  rw [deliverLoop]
  dsimp only
  generalize expire (r.nowMs hooks).1 (r.nowMs hooks).2 = r₁ at *
  have hactive₁ : r₁.node.active = true := hopen.trans hactive
  have hstate₁ : (r₁.node.entries i).state = .buffered := by rw [hwaits i hi, hi]
  have hseq₁ : (r₁.node.entries i).seq = UInt8.ofNat r₁.node.base := by
    rw [hwaits i hi, hbase, ← hseq]
    exact (UInt8.ofNat_toNat).symm
  -- the slot that is found is the one that waits at `base`
  have hfind : findEntry r₁.node (UInt8.ofNat r₁.node.base) = some i := by
    rw [← hseq₁]
    exact EdgeSrNode.findEntry_slot hslots₁ (ne_free hstate₁ (by decide))
  rw [if_neg (by rw [hactive₁]; decide), hfind]
  dsimp only
  rw [if_neg (not_not.mpr hstate₁)]
  refine ⟨executeEntry hooks i r₁, rfl, ?_⟩
  have hexec : Replays .silent r₁ (executeEntry hooks i r₁) :=
    replays_executeEntry hooks hactive₁ (by omega) hseq₁ hstate₁
  constructor
  · exact slotInv_replays hexec hslots₁
  · exact hactive₁
  · rw [executeEntry_base, hbase]
  · exact hsession
  · have hcommand : r₁.node.commandOf (r₁.node.entries i) = r.node.commandOf (r.node.entries i) := by
      rw [EdgeSrNode.commandOf, hsession, hwaits i hi]
      rfl
    let e := r₁.node.entries i
    refine ⟨(hooks.execute e.seq e.command e.args r₁.user).1, ?_⟩
    rw [← hcommand]
    exact List.mem_append_left _ (List.mem_append_left _ (List.mem_append_right _
      (List.mem_singleton_self _)))
  · intro j hj hstate
    rw [← hwaits j hstate]
    exact executed_other hj _ _

/-- **Contiguous commands are executed** whatever the clock says between them. -/
theorem deliverLoop_contiguous (hooks : EdgeSrHooks τ σ) (fuel : Nat) :
    ∀ r : NodeRun τ σ, SlotInv r.node → r.node.active = true → fuel = 256 - r.node.base →
      ∀ k, r.node.Contiguous k → ∀ i, (r.node.entries i).state = .buffered →
        (r.node.entries i).seq.toNat < r.node.base + k →
        ∃ raw, .execute (r.node.commandOf (r.node.entries i)) raw ∈
          (deliverLoop hooks fuel r).events := by
  induction fuel with
  | zero =>
      intro r hslots _ hfuel k _ i hi _
      have hlt := (r.node.entries i).seq.toNat_lt
      have hge := (hslots.buffered i hi).1
      omega
  | succ fuel ih =>
      intro r hslots hactive hfuel k hk i hi hlt
      have hge := (hslots.buffered i hi).1
      cases k with
      | zero => omega
      | succ k =>
          obtain ⟨i₀, hi₀, hseq₀⟩ := hk 0 (Nat.succ_pos k)
          obtain ⟨r', heq, hadv⟩ := deliverLoop_advances hooks fuel hslots hactive hi₀ hseq₀
          rw [heq]
          by_cases hii₀ : i = i₀
          · -- the event of this round stays in the log
            subst hii₀
            obtain ⟨raw, hraw⟩ := hadv.executed
            have hmoves : Moves .silent false (hooks.nowMs r.user).1 r' (deliverLoop hooks fuel r') :=
              (moves_deliverLoop hooks fuel r' (by rw [hadv.base]; omega)).1
            exact ⟨raw, hmoves.le.subset hraw⟩
          · have hne : (r.node.entries i).seq.toNat ≠ r.node.base := by
              intro heq
              refine hii₀ (hslots.seq_inj i i₀ (ne_free hi (by decide)) (ne_free hi₀ (by decide)) ?_)
              exact UInt8.toNat_inj.mp (heq.trans hseq₀.symm)
            have hsame := hadv.others i hii₀ hi
            have hrest : r'.node.Contiguous k := by
              intro j hj
              obtain ⟨i₁, hi₁, hseq₁⟩ := hk (j + 1) (by omega)
              have hne₁ : i₁ ≠ i₀ := by
                rintro rfl
                omega
              refine ⟨i₁, ?_, ?_⟩
              · rw [hadv.others i₁ hne₁ hi₁, hi₁]
              · rw [hadv.others i₁ hne₁ hi₁, hadv.base, hseq₁]
                omega
            have hnext := ih r' hadv.slots hadv.active (by rw [hadv.base]; omega) k hrest i
              (by rw [hsame, hi]) (by rw [hsame, hadv.base]; omega)
            rwa [EdgeSrNode.commandOf, hsame, hadv.session] at hnext

end Deadlines

/-! ## In time -/

/-- `c` was stored in a call that began at `t`. -/
def StoredAt (history : List (NodeCall Nat σ × List (NodeEvent Nat))) (c : Command) (t : Nat) :
    Prop :=
  ∃ entry ∈ history, .store c ∈ entry.2 ∧ entry.1.start = t

/-- `c` was stored less than the deadline before `start`. -/
def InTime (history : List (NodeCall Nat σ × List (NodeEvent Nat))) (start : Nat) (c : Command) :
    Prop :=
  ∃ t, StoredAt history c t ∧ start < t + EDGE_COMMAND_LIFETIME_MS

variable {history rest : List (NodeCall Nat σ × List (NodeEvent Nat))} {c : Command} {t : Nat}

theorem StoredAt.append (h : StoredAt history c t) : StoredAt (history ++ rest) c t := by
  obtain ⟨entry, hentry, hc⟩ := h
  exact ⟨entry, List.mem_append_left _ hentry, hc⟩

/-- The history grows with the call in progress. -/
theorem StoredAt.grow {call : NodeCall Nat σ} {es : List (NodeEvent Nat)}
    (h : StoredAt (history ++ [(call, es)]) c t) (es' : List (NodeEvent Nat)) :
    StoredAt (history ++ [(call, es ++ es')]) c t := by
  obtain ⟨entry, hentry, hc, ht⟩ := h
  rcases List.mem_append.mp hentry with hentry | hentry
  · exact ⟨entry, List.mem_append_left _ hentry, hc, ht⟩
  · obtain rfl := List.mem_singleton.mp hentry
    exact ⟨(call, es ++ es'), List.mem_append_right _ (List.mem_singleton_self _),
      List.mem_append_left _ hc, ht⟩

/-- Every waiting command was stored at its stamp. -/
def Origins (n : EdgeSrNode Nat) (history : List (NodeCall Nat σ × List (NodeEvent Nat))) : Prop :=
  ∀ i, (n.entries i).state = .buffered →
    StoredAt history (n.commandOf (n.entries i)) (n.entries i).receivedAt

/-- A call in progress: what waits and what was executed is in time. -/
structure CallInTime (history : List (NodeCall Nat σ × List (NodeEvent Nat)))
    (call : NodeCall Nat σ) (n : EdgeSrNode Nat) (es : List (NodeEvent Nat)) : Prop where
  origins : Origins n (history ++ [(call, es)])
  waiting : ∀ i, (n.entries i).state = .buffered →
    call.start < (n.entries i).receivedAt + EDGE_COMMAND_LIFETIME_MS
  executed : ∀ c raw, .execute c raw ∈ es →
    call.isTick = false ∧ InTime (history ++ [(call, es)]) call.start c

theorem callInTime_move {call : NodeCall Nat σ} {n n' : EdgeSrNode Nat}
    {es es' : List (NodeEvent Nat)} (h : CallInTime history call n es)
    (hmove : NodeMove call.input call.isTick call.start n es' n') :
    CallInTime history call n' (es ++ es') := by
  have hslot : ∀ i, (n'.entries i).state = .buffered →
      StoredAt (history ++ [(call, es ++ es')]) (n'.commandOf (n'.entries i))
        (n'.entries i).receivedAt ∧
      call.start < (n'.entries i).receivedAt + EDGE_COMMAND_LIFETIME_MS := by
    intro i hi
    obtain ⟨hsession, hslot⟩ := slot_move hmove (ne_free hi (by decide))
    rw [EdgeSrNode.commandOf, hsession]
    generalize n'.entries i = e at hi hslot
    cases hslot with
    | kept => exact ⟨(h.origins i hi).grow es', h.waiting i hi⟩
    | stored c htick hinp haccepts hes =>
        have hcommand : (⟨n.session, c.seq, c.type, c.args⟩ : Command) = c := by
          rw [← haccepts.2.1]
        refine ⟨⟨(call, es ++ es'), List.mem_append_right _ (List.mem_singleton_self _), ?_, rfl⟩,
          Nat.lt_add_of_pos_right (by decide)⟩
        show .store (⟨n.session, c.seq, c.type, c.args⟩ : Command) ∈ es ++ es'
        rw [hcommand]
        exact List.mem_append_right _ hes
    | completed => cases hi
    | resent htick hstate =>
        rw [show (n.entries i).state = .buffered from hi] at hstate
        cases hstate
  refine ⟨fun i hi => (hslot i hi).1, fun i hi => (hslot i hi).2, fun c raw hc => ?_⟩
  rcases List.mem_append.mp hc with hc | hc
  · obtain ⟨htick, t, ht, hlt⟩ := h.executed c raw hc
    exact ⟨htick, t, ht.grow es', hlt⟩
  · obtain ⟨htick, i, -, hi, rfl, -⟩ := move_execute hmove hc
    exact ⟨htick, _, (h.origins i hi).grow es', h.waiting i hi⟩

theorem callInTime_started {n : EdgeSrNode Nat} (call : NodeCall Nat σ) (hslots : SlotInv n)
    (hn : n.Settled) (horigins : Origins n history) :
    CallInTime history call (n.expired call.start) (.now call.start :: n.expiry call.start) := by
  have hsession : (n.expired call.start).session = n.session := expireLoop_session _ _ _ _
  refine ⟨fun i hi => ?_, fun i hi => (young_expired hslots hn _ i).waiting hi, fun c raw hc => ?_⟩
  · have hsame := expired_same (ne_free hi (by decide))
    rw [EdgeSrNode.commandOf, hsession]
    rw [hsame] at hi ⊢
    exact (horigins i hi).append
  · rcases List.mem_cons.mp hc with hc | hc
    · cases hc
    · cases mem_expiry hc

/-- **A waiting command is executed in time**, in a call that is no tick. -/
theorem executed_in_time {memory : EdgeSrNode Nat} (calls : List (NodeCall Nat σ)) :
    ∀ entry ∈ (runCalls (edgeSrNodeInit memory) calls).2, ∀ c raw, .execute c raw ∈ entry.2 →
      entry.1.isTick = false ∧
        InTime (runCalls (edgeSrNodeInit memory) calls).2 entry.1.start c := by
  have hrun := runCalls_invariant (I := fun n history => SlotInv n ∧ n.Settled ∧
    Origins n history ∧ ∀ entry ∈ history, ∀ c raw, .execute c raw ∈ entry.2 →
      entry.1.isTick = false ∧ InTime history entry.1.start c) ?_ calls (edgeSrNodeInit memory) []
    ⟨(nodeInv_init memory).slots, settled_init memory, (fun _ h => by cases h),
      (fun _ h => by cases h)⟩
  · simpa using hrun.2.2.2
  · rintro n history call ⟨hslots, hsettled, horigins, hpast⟩
    have hcall := (call_invariant (I := CallInTime history call) n call
      (callInTime_started call hslots hsettled horigins)
      fun _ _ _ _ h hmove => callInTime_move h hmove).1
    refine ⟨(nodeCall_acts n call).preserves (fun _ _ _ hI hact => slotInv_act hact hI) hslots,
      settled_call call hslots hsettled, hcall.origins, fun entry hentry c raw hc => ?_⟩
    rcases List.mem_append.mp hentry with hentry | hentry
    · obtain ⟨htick, t, ht, hlt⟩ := hpast entry hentry c raw hc
      exact ⟨htick, t, ht.append, hlt⟩
    · obtain rfl := List.mem_singleton.mp hentry
      exact hcall.executed c raw hc

/-! ## The end of a session -/

section Sessions

variable [Clock τ]

/-- **A scan that finds an overdue command behind a gap closes the session**: every slot is freed,
and the record goes on with the close. -/
theorem scan_closes {n : EdgeSrNode τ} {call : NodeCall τ σ} {scan : Scan τ σ}
    (hscan : scan ∈ call.scans n) (hgap : scan.run.node.gap = true) {i : Slot}
    (hi : (scan.run.node.entries i).state = .buffered)
    (hage : Clock.elapsed scan.now (scan.run.node.entries i).receivedAt ≥
      EDGE_COMMAND_LIFETIME_MS) :
    (expire scan.now scan.run).node.active = false ∧
      (∀ j, ((expire scan.now scan.run).node.entries j).state = .free) ∧
      scan.run.events ++ [.close scan.run.node.session] <+: (call.run n).events := by
  obtain ⟨hclosed, hfree, hevents⟩ := expireLoop_closes _ scan.run.node (List.mem_finRange i) hi hage
  have hexpiry : scan.run.node.expiry scan.now = [.close scan.run.node.session] := by
    rw [EdgeSrNode.expiry, hgap]
    exact hevents
  have hnode : (expire scan.now scan.run).node = (expireLoop true scan.now scan.run.node
      (List.finRange EDGE_SR_RESULT_CAPACITY)).1 := by
    rw [← hgap]
    rfl
  refine ⟨hnode ▸ hclosed, fun j => hnode ▸ hfree j, ?_⟩
  have hrecorded := (call_scans n call hscan).1
  rwa [expire_events, hexpiry] at hrecorded

/-- A closed session stays closed. -/
theorem closed_session (memory : EdgeSrNode τ) (calls : List (NodeCall τ σ)) {session : UInt64}
    (h : .close session ∈ logOf (runCalls (edgeSrNodeInit memory) calls).2) :
    session < (runCalls (edgeSrNodeInit memory) calls).1.session ∨
      session = (runCalls (edgeSrNodeInit memory) calls).1.session ∧
        (runCalls (edgeSrNodeInit memory) calls).1.active = false := by
  have hinv := nodeInv_runCalls calls (nodeInv_init memory)
  rw [List.nil_append] at hinv
  obtain ⟨hle, hclosed⟩ := hinv.closes.closed session h
  rcases UInt64.lt_or_eq_of_le hle with hlt | heq
  · exact .inl hlt
  · exact .inr ⟨heq, hclosed heq⟩

end Sessions

/-- **The gap deadline.** The clock never decreases, and no slot in use gets `2 ^ 32` old, so the
node does what it does by this clock. What is executed was stored less than 4000 ms before the call,
which is no tick. A scan that finds a command of 4000 ms behind a gap closes the session at once;
nothing of a closed session is executed, and no call makes it active again. The commands that are
contiguous from `base` when a frame enters `deliver` are executed in its call. -/
theorem gap_deadline (memory : EdgeSrNode Nat) (calls : List (NodeCall Nat σ))
    (hmono : Nondecreasing (logOf (runCalls (edgeSrNodeInit memory) calls).2))
    (hlife : EveryScan Scan.InLife (edgeSrNodeInit memory) calls) :
    let run : List (NodeCall Nat σ) → EdgeSrNode Nat × List (NodeCall Nat σ × List (NodeEvent Nat)) :=
      runCalls (edgeSrNodeInit memory)
    runCalls (edgeSrNodeInit (memory.map wrapMs)) (calls.map (NodeCall.map wrapMs)) =
      ((run calls).1.map wrapMs, mapHistory wrapMs (run calls).2) ∧
    (∀ entry ∈ (run calls).2, ∀ c raw, .execute c raw ∈ entry.2 →
      entry.1.isTick = false ∧ InTime (run calls).2 entry.1.start c) ∧
    (∀ before call rest, calls = before ++ call :: rest →
      ∀ scan ∈ call.scans (run before).1, scan.run.node.gap = true →
        (∃ i, (scan.run.node.entries i).state = .buffered ∧
          (scan.run.node.entries i).receivedAt + EDGE_COMMAND_LIFETIME_MS ≤ scan.now) →
        (expire scan.now scan.run).node.active = false ∧
          (∀ j, ((expire scan.now scan.run).node.entries j).state = .free) ∧
          scan.run.events ++ [.close scan.run.node.session] <+: (call.run (run before).1).events) ∧
    ((logOf (run calls).2).Pairwise fun a b =>
      ∀ s c raw, a = .close s → b = .execute c raw → c.session ≠ s) ∧
    (∀ before rest, calls = before ++ rest → ∀ s, .close s ∈ logOf (run before).2 →
      s < (run before).1.session ∨ s = (run before).1.session ∧ (run before).1.active = false) ∧
    (∀ before hooks user type payload rest r,
      calls = before ++ .onFrame hooks user type payload :: rest →
      storedRun hooks (hooks.nowMs user).1 type payload (started hooks (run before).1 user) =
        some r →
      ∀ k, r.node.Contiguous k → ∀ i, (r.node.entries i).state = .buffered →
        (r.node.entries i).seq.toNat < r.node.base + k →
        ∃ raw, .execute (r.node.commandOf (r.node.entries i)) raw ∈
          (edgeSrNodeOnFrame hooks (run before).1 user type payload).events) := by
  intro run
  have hinv : ∀ before, NodeInv (run before).1 (logOf (run before).2) := fun before => by
    simpa using nodeInv_runCalls before (nodeInv_init memory)
  refine ⟨wrap_run memory calls hmono hlife, executed_in_time calls, ?_, (hinv calls).closes.final,
    fun before rest _ s hs => closed_session memory before hs, ?_⟩
  · rintro before call rest - scan hscan hgap ⟨i, hi, hage⟩
    exact scan_closes hscan hgap hi (Nat.le_sub_of_add_le (Nat.add_comm _ _ ▸ hage))
  · rintro before hooks user type payload rest r - hstored k hk i hi hlt
    have hslots : SlotInv (started hooks (run before).1 user).node :=
      slotInv_expire _ (hinv before).slots
    obtain ⟨c, j, hinp, haccepts, hfree, rfl⟩ := storedRun_eq_some hooks hstored
    have hslots' : SlotInv ((started hooks (run before).1 user).stored hooks
        (hooks.nowMs user).1 c j).node :=
      slotInv_received hslots haccepts.1 haccepts.2.2.1 haccepts.2.2.2.1 haccepts.2.2.2.2
    rw [onFrame_eq, (handleFrame_stored hooks hstored).1]
    exact deliverLoop_contiguous hooks _ _ hslots' haccepts.1 rfl k hk i hi hlt

/-- The command 1 waits for the command 0 until a tick. -/
def demoHole : List (NodeCall Nat Nat) :=
  [.onFrame demoHooks 0 EDGE_TYPE_SR_OPEN (some [0, 0, 0, 0, 0, 0, 0, 1]),
    .onFrame demoHooks 10 EDGE_TYPE_SR_COMMAND (some [0, 0, 0, 0, 0, 0, 0, 1, 1, 0x20])]

theorem gap_deadline_hole :
    NodeEvent.close 1 ∈ ((NodeCall.tick demoHooks 4010).run
      (runCalls (edgeSrNodeInit demoMemory) demoHole).1).events := by
  have h := (gap_deadline demoMemory (demoHole ++ [.tick demoHooks 4010]) (by decide +kernel)
    (by decide +kernel)).2.2.1 demoHole (.tick demoHooks 4010) [] rfl _ List.mem_cons_self
    (by decide +kernel) ⟨⟨0, by decide⟩, by decide +kernel, by decide +kernel⟩
  exact h.2.2.subset (List.mem_append_right _ (List.mem_singleton.mpr (by decide +kernel)))

end EdgeGateway
