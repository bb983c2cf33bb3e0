import EdgeGateway.Protocol.SrWrap

set_option autoImplicit false

/-! # Archived results

A result is sent when its command was executed, when the command comes again, and by a tick. All
three send the bytes of the slot, which nothing but the execution writes. What the slot counts and
stamps is what the history of the calls says, so the laws of the timers are laws about the history.
-/

namespace EdgeGateway

variable {τ σ : Type}

/-! ## Results in the log -/

/-- The event sends a result of the command `seq` of `session`. -/
def NodeEvent.resultOf (session : UInt64) (seq : UInt8) : NodeEvent τ → Bool
  | .emit type p =>
      decide (type = EDGE_TYPE_SR_RESULT ∧ edgeU64BeRead p = session ∧ p.getD 8 0 = seq)
  | _ => false

section Results

variable {session : UInt64} {seq : UInt8}

theorem resultOf_iff {e : NodeEvent τ} : e.resultOf session seq = true ↔
    ∃ p, e = .emit EDGE_TYPE_SR_RESULT p ∧ edgeU64BeRead p = session ∧ p.getD 8 0 = seq := by
  constructor
  · intro h
    cases e with
    | emit type p =>
        obtain ⟨rfl, hsession, hseq⟩ := of_decide_eq_true h
        exact ⟨p, rfl, hsession, hseq⟩
    | now => cases h
    | close => cases h
    | store => cases h
    | execute => cases h
  · rintro ⟨p, rfl, hsession, hseq⟩
    exact decide_eq_true ⟨rfl, hsession, hseq⟩

/-- The result of a slot is one of its own sequence number. -/
theorem resultOf_resultEvent {n : EdgeSrNode τ} {i : Slot} :
    (n.resultEvent i).resultOf session seq = true ↔
      n.session = session ∧ (n.entries i).seq = seq := by
  have hread := read_resultPayload n.session (n.entries i).seq (n.entries i).command
    (n.entries i).result
  have hseq := seq_resultPayload n.session (n.entries i).seq (n.entries i).command
    (n.entries i).result
  rw [EdgeSrNode.resultEvent, NodeEvent.resultOf, decide_eq_true_eq, hread, hseq]
  exact and_iff_right rfl

/-- A frame of another type is no result. -/
theorem resultOf_emit {type : UInt8} (h : type ≠ EDGE_TYPE_SR_RESULT) (p : List UInt8) :
    (NodeEvent.emit type p : NodeEvent τ).resultOf session seq = false :=
  decide_eq_false fun hand => h hand.1

end Results

/-- The log goes on with the last call. -/
theorem logOf_concat (history : List (NodeCall τ σ × List (NodeEvent τ))) (call : NodeCall τ σ)
    (es : List (NodeEvent τ)) : logOf (history ++ [(call, es)]) = logOf history ++ es := by
  rw [logOf_append]
  exact congrArg _ (List.flatMap_singleton _ _)

/-- `c` was executed with `raw`, completed at `u`, and its result was sent. -/
def CompletedAt (log : List (NodeEvent τ)) (c : Command) (raw : List UInt8) (u : τ) : Prop :=
  ∃ before after, log = before ++ .execute c raw :: .now u ::
    .emit EDGE_TYPE_SR_RESULT (resultPayload c.session c.seq c.type (storedResult raw)) :: after

theorem CompletedAt.append {log : List (NodeEvent τ)} {c : Command} {raw : List UInt8} {u : τ}
    (h : CompletedAt log c raw u) (es : List (NodeEvent τ)) : CompletedAt (log ++ es) c raw u := by
  obtain ⟨before, after, rfl⟩ := h
  exact ⟨before, after ++ es, by simp only [List.append_assoc, List.cons_append]⟩

theorem CompletedAt.execute {log : List (NodeEvent τ)} {c : Command} {raw : List UInt8} {u : τ}
    (h : CompletedAt log c raw u) : .execute c raw ∈ log := by
  obtain ⟨before, after, rfl⟩ := h
  exact List.mem_append_right _ List.mem_cons_self

/-- **A command is executed once**, and with one result. -/
theorem LogInv.execute_unique {n : EdgeSrNode τ} {log : List (NodeEvent τ)} (hn : LogInv n log)
    {c d : Command} {raw raw' : List UInt8} (hc : .execute c raw ∈ log) (hd : .execute d raw' ∈ log)
    (hsession : c.session = d.session) (hseq : c.seq = d.seq) : c = d ∧ raw = raw' := by
  -- two events that execute commands of one index are the same event
  have hone : ∀ a ∈ log, ∀ b ∈ log, ∀ x ∈ a.executed?, ∀ y ∈ b.executed?,
      x.index = y.index → a = b := by
    have hsorted := List.pairwise_filterMap.mp hn.execute_sorted
    refine List.Pairwise.forall_of_forall_of_flip (fun _ _ _ _ _ _ _ => rfl) (hsorted.imp ?_)
      (hsorted.imp ?_)
    · exact fun {a b} h x hx y hy heq => absurd heq (Nat.ne_of_lt (h x hx y hy))
    · exact fun {a b} h x hx y hy heq => absurd heq.symm (Nat.ne_of_lt (h y hy x hx))
  have hindex : c.index = d.index := by simp only [Command.index, hsession, hseq]
  exact NodeEvent.execute.inj (hone _ hc _ hd c rfl d rfl hindex)

/-! ## Retransmissions in the history -/

/-- When ticks sent the result again: the starts of their calls, once for every result. -/
def resends (session : UInt64) (seq : UInt8) (history : List (NodeCall τ σ × List (NodeEvent τ))) :
    List τ :=
  history.flatMap fun entry =>
    if entry.1.isTick then
      (entry.2.filter (NodeEvent.resultOf session seq)).map fun _ => entry.1.start
    else []

section Resends

variable {session : UInt64} {seq : UInt8} {call : NodeCall τ σ}
  {history : List (NodeCall τ σ × List (NodeEvent τ))}

theorem resends_append (rest : List (NodeCall τ σ × List (NodeEvent τ))) :
    resends session seq (history ++ rest) =
      resends session seq history ++ resends session seq rest :=
  List.flatMap_append

theorem resends_eq_nil (h : ∀ entry ∈ history, ∀ e ∈ entry.2, e.resultOf session seq = true →
    entry.1.isTick = false) : resends session seq history = [] := by
  refine List.flatMap_eq_nil_iff.mpr fun entry hentry => ?_
  by_cases htick : entry.1.isTick = true
  · rw [if_pos htick, List.map_eq_nil_iff, List.filter_eq_nil_iff]
    intro e he hresult
    rw [h entry hentry e he hresult] at htick
    cases htick
  · rw [if_neg htick]

/-- A call that sends no result of the command. -/
theorem resends_quiet {es : List (NodeEvent τ)}
    (h : ∀ e ∈ es, e.resultOf session seq = false) : resends session seq [(call, es)] = [] := by
  refine resends_eq_nil fun entry hentry e he hresult => ?_
  obtain rfl := List.mem_singleton.mp hentry
  rw [h e he] at hresult
  cases hresult

/-- The call in progress goes on. -/
theorem resends_grow (es es' : List (NodeEvent τ)) :
    resends session seq (history ++ [(call, es ++ es')]) =
      resends session seq (history ++ [(call, es)]) ++ resends session seq [(call, es')] := by
  have hcall : resends session seq [(call, es ++ es')] =
      resends session seq [(call, es)] ++ resends session seq [(call, es')] := by
    simp only [resends, List.flatMap_singleton]
    split_ifs
    · rw [List.filter_append, List.map_append]
    · rfl
  calc resends session seq (history ++ [(call, es ++ es')])
      = resends session seq history ++ resends session seq [(call, es ++ es')] :=
        resends_append _
    _ = resends session seq history ++ resends session seq [(call, es)] ++
          resends session seq [(call, es')] := by rw [hcall, List.append_assoc]
    _ = resends session seq (history ++ [(call, es)]) ++ resends session seq [(call, es')] := by
        rw [resends_append]

/-- A tick sends the result once more. -/
theorem resends_result {e : NodeEvent τ} (htick : call.isTick = true)
    (he : e.resultOf session seq = true) : resends session seq [(call, [e])] = [call.start] := by
  rw [resends, List.flatMap_singleton, if_pos htick, List.filter_singleton, he]
  rfl

end Resends

/-- At most three times, each 500 ms after the one before, the first 500 ms after `u`. -/
def Spaced (u : Nat) (times : List Nat) : Prop :=
  times.length ≤ EDGE_MAX_RETRY ∧ (u :: times).IsChain fun a b => a + EDGE_ACK_TIMEOUT_MS ≤ b

theorem spaced_nil (u : Nat) : Spaced u [] := ⟨Nat.zero_le _, List.isChain_singleton u⟩

theorem Spaced.concat {u t : Nat} {times : List Nat} (h : Spaced u times)
    (hlt : times.length < EDGE_MAX_RETRY) (ht : times.getLast?.getD u + EDGE_ACK_TIMEOUT_MS ≤ t) :
    Spaced u (times ++ [t]) := by
  constructor
  · rw [List.length_append]
    exact hlt
  · rw [← List.cons_append, List.isChain_append]
    refine ⟨h.2, List.isChain_singleton t, fun a ha b hb => ?_⟩
    obtain rfl : t = b := Option.some.inj hb
    -- the last of the times before, or `u`
    obtain rfl : times.getLast?.getD u = a := by
      rw [List.getLast?_cons] at ha
      exact Option.some.inj ha
    exact ht

/-! ## What moves send -/

section Moves

variable [Clock τ] {inp : NodeInput} {tick : Bool} {t : τ} {n n' : EdgeSrNode τ}
  {es : List (NodeEvent τ)}

/-- The deadlines send no result. -/
theorem start_silent (n : EdgeSrNode τ) (now : τ) (session : UInt64) (seq : UInt8) :
    ∀ e ∈ (.now now :: n.expiry now : List (NodeEvent τ)), e.resultOf session seq = false := by
  intro e he
  rcases List.mem_cons.mp he with rfl | he
  · rfl
  · rw [mem_expiry he]
    rfl

omit [Clock τ] in
/-- An execution sends a result with its last event. -/
theorem execution_result {session : UInt64} {seq : UInt8} {c : Command} {raw : List UInt8} {u : τ}
    {e last : NodeEvent τ} (he : e ∈ [.execute c raw, .now u, last])
    (hresult : e.resultOf session seq = true) : e = last := by
  rcases List.mem_cons.mp he with rfl | he
  · cases hresult
  rcases List.mem_cons.mp he with rfl | he
  · cases hresult
  exact List.mem_singleton.mp he

/-- A move sends no result but that of a slot, and a tick counts it there. -/
theorem move_result (h : NodeMove inp tick t n es n') {session : UInt64} {seq : UInt8}
    {e : NodeEvent τ} (he : e ∈ es) (hresult : e.resultOf session seq = true) :
    ∃ i, (n'.entries i).state = .executed ∧ n'.session = n.session ∧ e = n'.resultEvent i ∧
      (tick = true → (n'.entries i).retries = (n.entries i).retries + 1) := by
  cases h with
  | acked => cases he
  | «open» => cases he
  | openAck =>
      obtain rfl := List.mem_singleton.mp he
      rw [resultOf_emit (by decide)] at hresult
      cases hresult
  | store =>
      rcases List.mem_cons.mp he with rfl | he
      · cases hresult
      · obtain rfl := List.mem_singleton.mp he
        rw [resultOf_emit (by decide)] at hresult
        cases hresult
  | confirm =>
      obtain rfl := List.mem_singleton.mp he
      rw [resultOf_emit (by decide)] at hresult
      cases hresult
  | replay i htick hactive hstate =>
      obtain rfl := List.mem_singleton.mp he
      refine ⟨i, hstate, rfl, rfl, fun hand => ?_⟩
      rw [htick] at hand
      cases hand
  | round u =>
      rw [start_silent n u session seq e he] at hresult
      cases hresult
  | execute i result u htick =>
      have hdone : ((n.executed i result u).entries i).state = .executed := by
        rw [executed_self]
        rfl
      obtain rfl := execution_result he hresult
      refine ⟨i, hdone, rfl, rfl, fun hand => ?_⟩
      rw [htick] at hand
      cases hand
  | resend i htick hactive hstate =>
      obtain rfl := List.mem_singleton.mp he
      refine ⟨i, ?_, rfl, ?_, fun _ => ?_⟩ <;>
        simp [EdgeSrNode.resultEvent, EdgeSrNode.resent, setEntry_entries, hstate]

/-- What a move executes is archived in a slot. -/
theorem move_executed (h : NodeMove inp tick t n es n') {c : Command} {raw : List UInt8}
    (hc : .execute c raw ∈ es) :
    ∃ i, (n'.entries i).state = .executed ∧ n'.session = c.session ∧
      (n'.entries i).seq = c.seq := by
  obtain ⟨-, i, u, -, rfl, rfl⟩ := move_execute h hc
  refine ⟨i, ?_, rfl, ?_⟩
  · rw [executed_self]
    rfl
  · rw [executed_self]
    rfl

omit [Clock τ] in
/-- No result of a command that waits was sent. -/
theorem NodeInv.unsent {log : List (NodeEvent τ)} (hn : NodeInv n log) {i : Slot}
    (hi : (n.entries i).state = .buffered) {e : NodeEvent τ} (he : e ∈ log) :
    e.resultOf n.session (n.entries i).seq = false := by
  refine Bool.eq_false_iff.mpr fun hresult => ?_
  obtain ⟨p, rfl, hsession, hseq⟩ := resultOf_iff.mp hresult
  obtain ⟨c, raw, hc, rfl⟩ := hn.emits.result p he
  rw [read_resultPayload] at hsession
  rw [seq_resultPayload] at hseq
  -- a command of the session that was executed is left of the window
  have hmem : c.seq.toNat ∈ seqsOf n.session (executes log) :=
    mem_seqsOf.mpr ⟨c, mem_executes.mpr ⟨raw, hc⟩, hsession, rfl⟩
  rw [hn.record.execute_current, List.mem_range, hseq] at hmem
  have hge := (hn.slots.buffered i hi).1
  omega

end Moves

/-! ## The archive -/

section Archive

variable {history : List (NodeCall Nat σ × List (NodeEvent Nat))} {call : NodeCall Nat σ}
  {es es' : List (NodeEvent Nat)} {n n' : EdgeSrNode Nat} {c : Command} {raw : List UInt8} {u : Nat}

/-- **The laws of a result**: it was completed at `u`, is sent with the bytes of its first sending,
in no call that begins 5000 ms after `u` or later, and by ticks at spaced times. -/
structure Archived (history : List (NodeCall Nat σ × List (NodeEvent Nat))) (c : Command)
    (raw : List UInt8) (u : Nat) : Prop where
  completed : CompletedAt (logOf history) c raw u
  same : ∀ e ∈ logOf history, e.resultOf c.session c.seq = true →
    e = .emit EDGE_TYPE_SR_RESULT (resultPayload c.session c.seq c.type (storedResult raw))
  live : ∀ entry ∈ history, ∀ e ∈ entry.2, e.resultOf c.session c.seq = true →
    entry.1.start < u + EDGE_SR_RESULT_TTL_MS
  spaced : Spaced u (resends c.session c.seq history)

/-- A call begins. -/
theorem Archived.enter (h : Archived history c raw u) (call : NodeCall Nat σ) :
    Archived (history ++ [(call, [])]) c raw u where
  completed := by
    rw [logOf_concat]
    exact h.completed.append []
  same := by
    rw [logOf_concat, List.append_nil]
    exact h.same
  live := by
    intro entry hentry e he
    rcases List.mem_append.mp hentry with hentry | hentry
    · exact h.live entry hentry e he
    · obtain rfl := List.mem_singleton.mp hentry
      cases he
  spaced := by
    rw [resends_append, resends_quiet (fun _ he => by cases he), List.append_nil]
    exact h.spaced

/-- The call in progress goes on, and keeps the laws. -/
theorem Archived.grow (h : Archived (history ++ [(call, es)]) c raw u)
    (hsame : ∀ e ∈ es', e.resultOf c.session c.seq = true →
      e = .emit EDGE_TYPE_SR_RESULT (resultPayload c.session c.seq c.type (storedResult raw)) ∧
        call.start < u + EDGE_SR_RESULT_TTL_MS)
    (hspaced : Spaced u (resends c.session c.seq (history ++ [(call, es)]) ++
      resends c.session c.seq [(call, es')])) :
    Archived (history ++ [(call, es ++ es')]) c raw u where
  completed := by
    have hold := h.completed
    rw [logOf_concat] at hold ⊢
    rw [← List.append_assoc]
    exact hold.append es'
  same := by
    intro e he hresult
    rw [logOf_concat, ← List.append_assoc] at he
    rcases List.mem_append.mp he with he | he
    · exact h.same e (by rwa [logOf_concat]) hresult
    · exact (hsame e he hresult).1
  live := by
    intro entry hentry e he hresult
    rcases List.mem_append.mp hentry with hentry | hentry
    · exact h.live entry (List.mem_append_left _ hentry) e he hresult
    · obtain rfl := List.mem_singleton.mp hentry
      rcases List.mem_append.mp he with he | he
      · exact h.live (call, es) (List.mem_append_right _ (List.mem_singleton_self _)) e he hresult
      · exact (hsame e he hresult).2
  spaced := by
    rw [resends_grow]
    exact hspaced

/-- A call goes on without sending the result. -/
theorem Archived.quiet (h : Archived (history ++ [(call, es)]) c raw u)
    (hquiet : ∀ e ∈ es', e.resultOf c.session c.seq = false) :
    Archived (history ++ [(call, es ++ es')]) c raw u := by
  refine h.grow (fun e he hresult => ?_) ?_
  · rw [hquiet e he] at hresult
    cases hresult
  · rw [resends_quiet hquiet, List.append_nil]
    exact h.spaced

/-- The slot counts and stamps what the history says of its command. -/
structure Timer (history : List (NodeCall Nat σ × List (NodeEvent Nat))) (c : Command)
    (e : EdgeSrEntry Nat) : Prop where
  archived : ∃ raw, e.result = storedResult raw ∧ Archived history c raw e.completedAt
  retries : e.retries = (resends c.session c.seq history).length
  lastSentAt : e.lastSentAt = (resends c.session c.seq history).getLast?.getD e.completedAt

/-- Everything executed keeps the laws, and every result in a slot is timed. -/
structure Archive (n : EdgeSrNode Nat) (history : List (NodeCall Nat σ × List (NodeEvent Nat))) :
    Prop where
  commands : ∀ c raw, .execute c raw ∈ logOf history → ∃ u, Archived history c raw u
  slots : ∀ i, (n.entries i).state = .executed →
    Timer history (n.commandOf (n.entries i)) (n.entries i)

/-- The result of a slot that stays is sent by no tick, and with the bytes of the slot. -/
theorem kept_result (h : NodeMove call.input call.isTick call.start n es' n') (hslots : SlotInv n')
    {i : Slot} (hi : (n'.entries i).state = .executed) (hkept : n'.entries i = n.entries i)
    {e : NodeEvent Nat} (he : e ∈ es')
    (hresult : e.resultOf n'.session (n'.entries i).seq = true) :
    call.isTick = false ∧ e = n'.resultEvent i := by
  obtain ⟨j, hj, -, rfl, hretries⟩ := move_result h he hresult
  obtain ⟨-, hseq⟩ := resultOf_resultEvent.mp hresult
  obtain rfl := hslots.seq_inj j i (ne_free hj (by decide)) (ne_free hi (by decide)) hseq
  refine ⟨Bool.eq_false_iff.mpr fun htick => ?_, rfl⟩
  -- a tick counts what it sends
  have hcount := hretries htick
  rw [hkept] at hcount
  omega

theorem timer_kept (h : NodeMove call.input call.isTick call.start n es' n') (hslots : SlotInv n')
    {i : Slot} (hi : (n'.entries i).state = .executed) (hkept : n'.entries i = n.entries i)
    (hyoung : Young call.start (n'.entries i)) (hcommand : c = n'.commandOf (n'.entries i))
    (hold : Timer (history ++ [(call, es)]) c (n'.entries i)) :
    Timer (history ++ [(call, es ++ es')]) c (n'.entries i) := by
  have hmine : ∀ e ∈ es', e.resultOf c.session c.seq = true →
      call.isTick = false ∧ e = n'.resultEvent i := by
    intro e he hresult
    rw [hcommand] at hresult
    exact kept_result h hslots hi hkept he hresult
  have hcall : resends c.session c.seq [(call, es')] = [] :=
    resends_eq_nil fun entry hentry e he hresult => by
      obtain rfl := List.mem_singleton.mp hentry
      exact (hmine e he hresult).1
  obtain ⟨raw, hraw, harchived⟩ := hold.archived
  constructor
  · refine ⟨raw, hraw, harchived.grow (fun e he hresult => ⟨?_, hyoung.kept hi⟩) ?_⟩
    · rw [(hmine e he hresult).2, ← hraw, hcommand]
      rfl
    · rw [hcall, List.append_nil]
      exact harchived.spaced
  · rw [resends_grow, hcall, List.append_nil]
    exact hold.retries
  · rw [resends_grow, hcall, List.append_nil]
    exact hold.lastSentAt

/-- A result that is new starts its timers. -/
theorem timer_completed (hinv : NodeInv n (logOf history ++ es)) {i : Slot}
    (hi : (n.entries i).state = .buffered) (htick : call.isTick = false)
    (hes : es' = [.execute (n.commandOf (n.entries i)) raw, .now u,
      (n.executed i raw u).resultEvent i])
    (hyoung : Young call.start ((n.entries i).complete raw u)) :
    Timer (history ++ [(call, es ++ es')]) (n.commandOf (n.entries i))
      ((n.entries i).complete raw u) := by
  have hevent : (n.executed i raw u).resultEvent i = .emit EDGE_TYPE_SR_RESULT
      (resultPayload n.session (n.entries i).seq (n.entries i).command (storedResult raw)) := by
    rw [EdgeSrNode.resultEvent, executed_self]
    rfl
  -- before it was executed no result of the command was sent, and no tick executes it
  have hunsent : ∀ e ∈ logOf history ++ es, e.resultOf n.session (n.entries i).seq = false :=
    fun e he => hinv.unsent hi he
  have hold : ∀ entry ∈ history, ∀ e ∈ entry.2,
      e.resultOf n.session (n.entries i).seq = false := fun entry hentry e he =>
    hunsent e (List.mem_append_left _ (List.mem_flatMap.mpr ⟨entry, hentry, he⟩))
  have hnone : resends n.session (n.entries i).seq (history ++ [(call, es ++ es')]) = [] := by
    refine resends_eq_nil fun entry hentry e he hresult => ?_
    rcases List.mem_append.mp hentry with hentry | hentry
    · rw [hold entry hentry e he] at hresult
      cases hresult
    · obtain rfl := List.mem_singleton.mp hentry
      exact htick
  refine ⟨⟨raw, rfl, ?_⟩, (congrArg List.length hnone).symm, ?_⟩
  · constructor
    · rw [logOf_concat, hes, hevent]
      exact ⟨logOf history ++ es, [], (List.append_assoc _ _ _).symm⟩
    · intro e he hresult
      rw [logOf_concat, ← List.append_assoc] at he
      rcases List.mem_append.mp he with he | he
      · exact absurd (hunsent e he) (Bool.not_eq_false _ ▸ hresult)
      · rw [hes, hevent] at he
        exact execution_result he hresult
    · intro entry hentry e he hresult
      rcases List.mem_append.mp hentry with hentry | hentry
      · exact absurd (hold entry hentry e he) (Bool.not_eq_false _ ▸ hresult)
      · obtain rfl := List.mem_singleton.mp hentry
        exact hyoung.kept rfl
    · exact hnone ▸ spaced_nil _
  · show u = (resends n.session (n.entries i).seq (history ++ [(call, es ++ es')])).getLast?.getD u
    rw [hnone]
    rfl

/-- A tick counts and stamps the result it sends. -/
theorem timer_resent {i : Slot} (hi : (n.entries i).state = .executed) (htick : call.isTick = true)
    (hretries : (n.entries i).retries < EDGE_MAX_RETRY)
    (hage : Clock.elapsed call.start (n.entries i).lastSentAt ≥ EDGE_ACK_TIMEOUT_MS)
    (hyoung : Young call.start (n.entries i)) (hcommand : c = n.commandOf (n.entries i))
    (hold : Timer (history ++ [(call, es)]) c (n.entries i)) :
    Timer (history ++ [(call, es ++ [n.resultEvent i])]) c
      { n.entries i with retries := (n.entries i).retries + 1, lastSentAt := call.start } := by
  have hevent : (n.resultEvent i).resultOf c.session c.seq = true := by
    rw [hcommand]
    exact resultOf_resultEvent.mpr ⟨rfl, rfl⟩
  have hcall : resends c.session c.seq [(call, [n.resultEvent i])] = [call.start] :=
    resends_result htick hevent
  have hlater : (n.entries i).lastSentAt + EDGE_ACK_TIMEOUT_MS ≤ call.start := by
    have hage' : call.start - (n.entries i).lastSentAt ≥ EDGE_ACK_TIMEOUT_MS := hage
    simp only [EDGE_ACK_TIMEOUT_MS] at hage' ⊢
    omega
  obtain ⟨raw, hraw, harchived⟩ := hold.archived
  refine ⟨⟨raw, hraw, harchived.grow (fun e he _ => ⟨?_, hyoung.kept hi⟩) ?_⟩, ?_, ?_⟩
  · rw [List.mem_singleton.mp he, ← hraw, hcommand]
    rfl
  · rw [hcall]
    exact harchived.spaced.concat (hold.retries ▸ hretries) (hold.lastSentAt ▸ hlater)
  · rw [resends_grow, hcall, List.length_append, ← hold.retries]
    rfl
  · rw [resends_grow, hcall, List.getLast?_concat]
    rfl

theorem archive_move (hinv : NodeInv n (logOf history ++ es))
    (h : NodeMove call.input call.isTick call.start n es' n')
    (hyoung : ∀ i, Young call.start (n'.entries i)) (hn : Archive n (history ++ [(call, es)])) :
    Archive n' (history ++ [(call, es ++ es')]) := by
  have hinv' : NodeInv n' (logOf (history ++ [(call, es ++ es')])) := by
    rw [logOf_concat, ← List.append_assoc]
    exact nodeInv_steps (move_acts h) hinv
  -- each slot on its own: nothing but its own result concerns its timers
  have hslots : ∀ i, (n'.entries i).state = .executed →
      Timer (history ++ [(call, es ++ es')]) (n'.commandOf (n'.entries i)) (n'.entries i) := by
    intro i hi
    obtain ⟨hsession, hslot⟩ := slot_move h (ne_free hi (by decide))
    have hcommand : n'.commandOf (n'.entries i) = n.commandOf (n'.entries i) := by
      rw [EdgeSrNode.commandOf, hsession]
      rfl
    have hage := hyoung i
    generalize hentry : n'.entries i = e at hi hslot hcommand hage ⊢
    rw [hcommand]
    cases hslot with
    | kept =>
        rw [← hentry] at hi hage ⊢
        refine timer_kept h hinv'.slots hi hentry hage ?_ (hentry ▸ hn.slots i (hentry ▸ hi))
        rw [EdgeSrNode.commandOf, EdgeSrNode.commandOf, hsession]
    | stored => cases hi
    | completed result u htick hstate hes => exact timer_completed hinv hstate htick hes hage
    | resent htick hstate hretries hlate hes =>
        rw [hes]
        exact timer_resent hstate htick hretries hlate ⟨hage.waiting, hage.kept⟩ rfl
          (hn.slots i hstate)
  -- a command of the record is archived in a slot, or the move does not concern it
  refine ⟨fun c raw hc => ?_, hslots⟩
  by_cases hslot : ∃ i, (n'.entries i).state = .executed ∧ n'.session = c.session ∧
      (n'.entries i).seq = c.seq
  · -- the slot of the command has its laws
    obtain ⟨i, hi, hsession, hseq⟩ := hslot
    obtain ⟨raw', -, harchived⟩ := (hslots i hi).archived
    obtain ⟨rfl, rfl⟩ := hinv'.record.execute_unique hc harchived.completed.execute
      hsession.symm hseq.symm
    exact ⟨_, harchived⟩
  · -- nothing of the command happens
    rw [logOf_concat, ← List.append_assoc] at hc
    rcases List.mem_append.mp hc with hc | hc
    · obtain ⟨u, harchived⟩ := hn.commands c raw (by rwa [logOf_concat])
      refine ⟨u, harchived.quiet fun e he => Bool.eq_false_iff.mpr fun hresult => hslot ?_⟩
      obtain ⟨i, hi, -, rfl, -⟩ := move_result h he hresult
      exact ⟨i, hi, resultOf_resultEvent.mp hresult⟩
    · exact absurd (move_executed h hc) hslot

/-- The deadlines keep the archive. -/
theorem archive_started (call : NodeCall Nat σ) (hn : Archive n history) :
    Archive (n.expired call.start)
      (history ++ [(call, .now call.start :: n.expiry call.start)]) := by
  have hquiet := start_silent n call.start
  have hnext : ∀ {c raw u}, Archived history c raw u →
      Archived (history ++ [(call, .now call.start :: n.expiry call.start)]) c raw u :=
    fun h => (h.enter call).quiet (hquiet _ _)
  constructor
  · intro c raw hc
    rw [logOf_concat] at hc
    rcases List.mem_append.mp hc with hc | hc
    · obtain ⟨u, harchived⟩ := hn.commands c raw hc
      exact ⟨u, hnext harchived⟩
    · rcases List.mem_cons.mp hc with hc | hc
      · cases hc
      · cases mem_expiry hc
  · intro i hi
    have hsame := expired_same (ne_free hi (by decide))
    have hsession : (n.expired call.start).session = n.session := expireLoop_session _ _ _ _
    rw [EdgeSrNode.commandOf, hsession, hsame]
    rw [hsame] at hi
    obtain ⟨⟨raw, hraw, harchived⟩, hretries, hlast⟩ := hn.slots i hi
    have hresends : ∀ s q, resends s q
        (history ++ [(call, .now call.start :: n.expiry call.start)]) = resends s q history := by
      intro s q
      rw [resends_append, resends_quiet (hquiet s q), List.append_nil]
    exact ⟨⟨raw, hraw, hnext harchived⟩, by rw [hresends]; exact hretries,
      by rw [hresends]; exact hlast⟩

/-- **Every run keeps the archive** while the clock does not decrease. -/
theorem archive_runCalls (memory : EdgeSrNode Nat) (calls : List (NodeCall Nat σ))
    (hmono : Nondecreasing (logOf (runCalls (edgeSrNodeInit memory) calls).2)) :
    Archive (runCalls (edgeSrNodeInit memory) calls).1
      (runCalls (edgeSrNodeInit memory) calls).2 := by
  have hrun := runCalls_invariant (I := fun n history => NodeInv n (logOf history) ∧ n.Settled ∧
    (Nondecreasing (logOf history) → Archive n history)) ?_ calls (edgeSrNodeInit memory) []
    ⟨nodeInv_init memory, settled_init memory, fun _ =>
      ⟨(fun _ _ h => by cases h), (fun _ h => by cases h)⟩⟩
  · exact hrun.2.2 hmono
  rintro n history call ⟨hinv, hsettled, harchive⟩
  rw [logOf_concat]
  refine ⟨nodeInv_call call hinv, settled_call call hinv.slots hsettled, fun hsorted => ?_⟩
  have hcall := (call_invariant (I := fun m es => call.start ∈ readings es ∧
    NodeInv m (logOf history ++ es) ∧ (Nondecreasing es →
      (∀ i, Young call.start (m.entries i)) ∧ Archive m (history ++ [(call, es)]))) n call ?_ ?_).1
  · rw [Nondecreasing, readings_append, List.pairwise_append] at hsorted
    exact (hcall.2.2 hsorted.2.1).2
  · refine ⟨by simp, ?_, fun _ => ⟨young_expired hinv.slots hsettled _, archive_started call ?_⟩⟩
    · have hread : Steps (NodeAct .silent) n [.now call.start] n := Steps.single (.now n call.start)
      exact nodeInv_steps (hread.trans (expiry_acts n call.start)) hinv
    · exact harchive (hsorted.of_le (List.prefix_append _ _))
  · rintro m es es' m' ⟨hstart, hm, hages⟩ hmove
    refine ⟨?_, ?_, fun hes => ?_⟩
    · rw [readings_append]
      exact List.mem_append_left _ hstart
    · rw [← List.append_assoc]
      exact nodeInv_steps (move_acts hmove) hm
    · obtain ⟨hyoung, hold⟩ := hages (hes.of_le (List.prefix_append _ _))
      have hnext := young_move hmove (fun u hu => hes.le hstart hu) hyoung
      exact ⟨hnext, archive_move hm hmove hnext hold⟩

end Archive

/-! ## Results that are gone -/

section Gone

variable [Clock τ] {inp : NodeInput} {n n' : EdgeSrNode τ} {es : List (NodeEvent τ)}
  {session : UInt64} {seq : UInt8}

/-- The node has left the session, or it has executed the command and keeps no result of it. -/
def Gone (session : UInt64) (seq : UInt8) (n : EdgeSrNode τ) : Prop :=
  session < n.session ∨
    session = n.session ∧ (n.active = false ∨ seq.toNat < n.base ∧ ¬ n.Holds seq)

theorem gone_kept (h : NodeAct inp n es n') (hgone : Gone session seq n) :
    Gone session seq n' := by
  have hle := nodeAct_session_le h
  rcases hgone with hlt | ⟨rfl, hgone⟩
  · exact .inl (UInt64.lt_of_lt_of_le hlt hle)
  rcases UInt64.lt_or_eq_of_le hle with hlt | heq
  · exact .inl hlt
  refine .inr ⟨heq, ?_⟩
  rcases hgone with hclosed | ⟨hpast, hfree⟩
  · -- only an OPEN of a higher session makes the node active
    left
    cases h with
    | «open» session hinp hlt => exact absurd (heq ▸ hlt) (UInt64.lt_irrefl _)
    | close => rfl
    | _ => exact hclosed
  · -- a slot is taken only by a command that the window has not passed
    right
    refine ⟨Nat.lt_of_lt_of_le hpast (base_le_steps (Steps.single h) heq.symm), fun hheld => ?_⟩
    rcases (holds_act h hheld).2 with hold | ⟨c, -, -, -, hge⟩
    · exact hfree hold
    · omega

theorem gone_silent (h : NodeAct inp n es n') (hgone : Gone session seq n) :
    ∀ e ∈ es, e.resultOf session seq = false := by
  intro e he
  cases h with
  | result i hactive hstate =>
      obtain rfl := List.mem_singleton.mp he
      refine Bool.eq_false_iff.mpr fun hresult => ?_
      obtain ⟨rfl, hseq⟩ := resultOf_resultEvent.mp hresult
      rcases hgone with hlt | ⟨-, hclosed | ⟨-, hfree⟩⟩
      · exact UInt64.lt_irrefl _ hlt
      · exact Bool.false_ne_true (hclosed.symm.trans hactive)
      · exact hfree ⟨i, ne_free hstate (by decide), hseq⟩
  | store =>
      rcases List.mem_cons.mp he with rfl | he
      · rfl
      · obtain rfl := List.mem_singleton.mp he
        exact resultOf_emit (by decide) _
  | openAck =>
      obtain rfl := List.mem_singleton.mp he
      exact resultOf_emit (by decide) _
  | confirm =>
      obtain rfl := List.mem_singleton.mp he
      exact resultOf_emit (by decide) _
  | execute =>
      rcases List.mem_cons.mp he with rfl | he
      · rfl
      · obtain rfl := List.mem_singleton.mp he
        rfl
  | now =>
      obtain rfl := List.mem_singleton.mp he
      rfl
  | close =>
      obtain rfl := List.mem_singleton.mp he
      rfl
  | _ => cases he

/-- **The invariant rule for actions over whole runs.** -/
theorem runCalls_acts {I : EdgeSrNode τ → List (NodeEvent τ) → Prop}
    (hact : ∀ inp m log es m', I m log → NodeAct inp m es m' → I m' (log ++ es))
    (calls : List (NodeCall τ σ)) (hn : I n []) :
    I (runCalls n calls).1 (logOf (runCalls n calls).2) := by
  refine runCalls_invariant (I := fun m history => I m (logOf history)) ?_ calls n [] hn
  intro m history call hm
  rw [logOf_concat]
  exact Steps.invariant (hact call.input) _ (nodeCall_acts m call) hm

/-- **What is gone is not sent again**, in no run from there. -/
theorem gone_runCalls (calls : List (NodeCall τ σ)) (hgone : Gone session seq n) :
    ∀ e ∈ logOf (runCalls n calls).2, e.resultOf session seq = false := by
  refine (runCalls_acts (I := fun m log => Gone session seq m ∧
    ∀ e ∈ log, e.resultOf session seq = false) ?_ calls ⟨hgone, fun _ h => by cases h⟩).2
  rintro inp m log es m' ⟨hm, hlog⟩ hact
  exact ⟨gone_kept hact hm, List.forall_mem_append.mpr ⟨hlog, gone_silent hact hm⟩⟩

theorem act_close (h : NodeAct inp n es n') (hclose : .close session ∈ es) :
    es = [.close session] ∧ ∀ q, Gone session q n' := by
  cases h with
  | close =>
      obtain rfl := NodeEvent.close.inj (List.mem_singleton.mp hclose)
      exact ⟨rfl, fun q => .inr ⟨rfl, .inl rfl⟩⟩
  | result => simp [EdgeSrNode.resultEvent] at hclose
  | _ => simp at hclose

/-- **No result of a session is sent after it was closed.** -/
theorem closed_pairwise (memory : EdgeSrNode τ) (calls : List (NodeCall τ σ)) :
    (logOf (runCalls (edgeSrNodeInit memory) calls).2).Pairwise fun a b =>
      ∀ s q, a = .close s → b.resultOf s q = false := by
  refine (runCalls_acts (I := fun m log => (∀ s q, .close s ∈ log → Gone s q m) ∧
    log.Pairwise fun a b => ∀ s q, a = .close s → b.resultOf s q = false) ?_ calls
    ⟨(fun _ _ h => by cases h), List.Pairwise.nil⟩).2
  rintro inp m log es m' ⟨hclosed, hlog⟩ hact
  refine ⟨fun s q hs => ?_, List.pairwise_append.mpr ⟨hlog, ?_, ?_⟩⟩
  · rcases List.mem_append.mp hs with hs | hs
    · exact gone_kept hact (hclosed s q hs)
    · exact (act_close hact hs).2 q
  · -- a session is closed by an action of its own
    refine List.pairwise_of_forall_mem_list fun a ha b hb s q hs => ?_
    subst hs
    rw [(act_close hact ha).1, List.mem_singleton] at hb
    rw [hb]
    rfl
  · rintro a ha b hb s q rfl
    exact gone_silent hact (hclosed s q ha) b hb

theorem started_silent (hooks : EdgeSrHooks τ σ) (n : EdgeSrNode τ) (user : σ) :
    ∀ e ∈ (started hooks n user).events, e.resultOf session seq = false := by
  rw [(started_node hooks n user).2]
  exact start_silent n _ session seq

/-- A call sends nothing of the command and leaves nothing of it to send. -/
structure Ends (session : UInt64) (seq : UInt8) (r : NodeRun τ σ) : Prop where
  silent : ∀ e ∈ r.events, e.resultOf session seq = false
  gone : Gone session seq r.node

theorem Ends.rest {call : NodeCall τ σ} (h : Ends session seq (call.run n))
    (rest : List (NodeCall τ σ)) :
    ∀ e ∈ logOf (runCalls n (call :: rest)).2, e.resultOf session seq = false := by
  have hlog : logOf (runCalls n (call :: rest)).2 =
      (call.run n).events ++ logOf (runCalls (call.run n).node rest).2 := rfl
  rw [hlog, List.forall_mem_append]
  exact ⟨h.silent, gone_runCalls rest h.gone⟩

/-- **The acknowledgement of an executed command ends its results.** -/
theorem ack_ends {log : List (NodeEvent τ)} (hooks : EdgeSrHooks τ σ) (user : σ)
    (hn : NodeInv n log) {p : List UInt8} (hlength : p.length = 9) {c : Command}
    (hc : c ∈ executes log) (hsession : edgeU64BeRead p = c.session) (hseq : p.getD 8 0 = c.seq) :
    Ends c.session c.seq (edgeSrNodeOnFrame hooks n user EDGE_TYPE_SR_RESULT_ACK (some p)) := by
  have hacts : Steps (NodeAct (nodeInput EDGE_TYPE_SR_RESULT_ACK (some p))) n _
      (edgeSrNodeOnFrame hooks n user EDGE_TYPE_SR_RESULT_ACK (some p)).node :=
    onFrame_acts hooks n user _ _
  constructor
  · have hevents : (edgeSrNodeOnFrame hooks n user EDGE_TYPE_SR_RESULT_ACK (some p)).events =
        (started hooks n user).events := by
      rw [onFrame_data hooks n user (by rw [hlength]; decide) (by omega) (by decide)]
      dsimp only
      rw [if_pos (show EDGE_TYPE_SR_RESULT_ACK = EDGE_TYPE_SR_RESULT_ACK from rfl)]
      split_ifs
      · rfl
      · unfold onResultAck
        split
        · rfl
        · split_ifs <;> rfl
    rw [hevents]
    exact started_silent hooks n user
  · have hle := steps_session_le hacts
    rcases UInt64.lt_or_eq_of_le (hn.record.execute_session hc) with hlt | heq
    · exact .inl (UInt64.lt_of_lt_of_le hlt hle)
    rcases UInt64.lt_or_eq_of_le hle with hlt | hsame
    · exact .inl (heq ▸ hlt)
    -- the session goes on: the slot is free, and the window has passed the command
    have hpast : c.seq.toNat < n.base := by
      have hmem : c.seq.toNat ∈ seqsOf n.session (executes log) := mem_seqsOf.mpr ⟨c, hc, heq, rfl⟩
      rwa [hn.record.execute_current, List.mem_range] at hmem
    exact .inr ⟨heq.trans hsame, .inr
      ⟨Nat.lt_of_lt_of_le hpast (base_le_steps hacts hsame.symm),
        ack_frees hooks user hn.slots hlength (hsession.trans heq) hseq hpast⟩⟩

/-- **An OPEN of a higher session ends the results** of those before. -/
theorem open_ends (hooks : EdgeSrHooks τ σ) (user : σ) (n : EdgeSrNode τ) {p : List UInt8}
    (hlength : p.length = 8) (hlt : session < edgeU64BeRead p) :
    Ends session seq (edgeSrNodeOnFrame hooks n user EDGE_TYPE_SR_OPEN (some p)) := by
  have hshape : ¬ (p.length > EDGE_PAYLOAD_MAX ∨ p.length < 8) := by
    rw [hlength]
    decide
  have hopen : edgeSrNodeOnFrame hooks n user EDGE_TYPE_SR_OPEN (some p) =
      onOpen hooks (edgeU64BeRead p) (started hooks n user) := by
    rw [onFrame_eq, handleFrame]
    dsimp only
    rw [if_neg hshape, if_pos rfl, if_neg (not_not.mpr hlength)]
  rw [hopen]
  have hsilent : ∀ e ∈ (started hooks n user).events, e.resultOf session seq = false :=
    started_silent hooks n user
  generalize started hooks n user = r at hsilent ⊢
  unfold onOpen
  dsimp only
  by_cases hhigher : edgeU64BeRead p > r.node.session
  · rw [if_pos hhigher]
    refine ⟨List.forall_mem_append.mpr ⟨hsilent, ?_⟩, .inl hlt⟩
    simpa using resultOf_emit (by decide) _
  · rw [if_neg hhigher]
    refine ⟨List.forall_mem_append.mpr ⟨hsilent, ?_⟩, .inl ?_⟩
    · simpa using resultOf_emit (by decide) _
    · exact UInt64.lt_of_lt_of_le hlt (UInt64.not_lt.mp hhigher)

end Gone

/-! ## Commands that come again -/

section Duplicates

variable [Clock τ]

/-- The frame is no copy of the stored command: its command, its length or an argument differs. -/
def EdgeSrEntry.Conflicts (e : EdgeSrEntry τ) (p : List UInt8) : Prop :=
  p.length < 10 ∨ p.length > EDGE_PAYLOAD_MAX ∨ e.command ≠ p.getD 9 0 ∨ e.args ≠ p.drop 10

instance (e : EdgeSrEntry τ) (p : List UInt8) : Decidable (e.Conflicts p) :=
  inferInstanceAs (Decidable (_ ∨ _))

/-- What the node says to a copy of the command in the slot. -/
def EdgeSrNode.receipt (n : EdgeSrNode τ) (i : Slot) : List HookCall :=
  .emit EDGE_TYPE_SR_RECEIVED (receivedPayload n.session (n.entries i).seq) ::
    if (n.entries i).state = .executed then
      [.emit EDGE_TYPE_SR_RESULT (resultPayload n.session (n.entries i).seq
        (n.entries i).command (n.entries i).result)]
    else []

/-- What the node says to a command that is stored. -/
def EdgeSrNode.answers (n : EdgeSrNode τ) (i : Slot) (p : List UInt8) : List HookCall :=
  if (n.entries i).Conflicts p then [] else n.receipt i

theorem hookCalls_started (hooks : EdgeSrHooks τ σ) (n : EdgeSrNode τ) (user : σ) :
    hookCalls (started hooks n user).events = [] := by
  refine List.filterMap_eq_nil_iff.mpr fun e he => ?_
  rw [(started_node hooks n user).2] at he
  rcases List.mem_cons.mp he with rfl | he
  · rfl
  · rw [mem_expiry he]
    rfl

/-- A command that a slot holds is answered from the slot or not at all. -/
theorem onCommand_stored (hooks : EdgeSrHooks τ σ) (now : τ) {seq : UInt8} {i : Slot}
    {r : NodeRun τ σ} (hfind : findEntry r.node seq = some i) (command : UInt8)
    (args : List UInt8) :
    (onCommand hooks now seq command args r).node = r.node ∧
      hookCalls (onCommand hooks now seq command args r).events = hookCalls r.events ++
        if (r.node.entries i).command ≠ command ∨ (r.node.entries i).args ≠ args then []
        else r.node.receipt i := by
  have hseq : seq = (r.node.entries i).seq := (findEntry_eq_some hfind).2.symm
  unfold onCommand EdgeSrNode.receipt
  rw [hfind]
  dsimp only
  by_cases hconflict : (r.node.entries i).command ≠ command ∨ (r.node.entries i).args ≠ args
  · rw [if_pos hconflict, if_pos hconflict, List.append_nil]
    exact ⟨rfl, rfl⟩
  rw [if_neg hconflict, if_neg hconflict, ← hseq]
  by_cases hdone : (r.node.entries i).state = .executed
  · rw [if_pos hdone, if_pos hdone]
    refine ⟨rfl, ?_⟩
    show hookCalls (r.events ++ [_] ++ [_]) = _
    rw [List.append_assoc, hookCalls_append, hseq]
    rfl
  · rw [if_neg hdone, if_neg hdone]
    refine ⟨rfl, ?_⟩
    show hookCalls (r.events ++ [_]) = _
    rw [hookCalls_append]
    rfl

/-- **A command that is stored changes nothing**, and is answered from its slot or not at all. -/
theorem onFrame_stored (hooks : EdgeSrHooks τ σ) (n : EdgeSrNode τ) (user : σ) (hn : SlotInv n)
    {p : List UInt8} {i : Slot} (hi : ((started hooks n user).node.entries i).state ≠ .free)
    (hsession : edgeU64BeRead p = (started hooks n user).node.session)
    (hseq : p.getD 8 0 = ((started hooks n user).node.entries i).seq) :
    (edgeSrNodeOnFrame hooks n user EDGE_TYPE_SR_COMMAND (some p)).node =
        (started hooks n user).node ∧
      hookCalls (edgeSrNodeOnFrame hooks n user EDGE_TYPE_SR_COMMAND (some p)).events =
        (started hooks n user).node.answers i p := by
  have hslots : SlotInv (started hooks n user).node := slotInv_expire _ hn
  have hquiet := hookCalls_started hooks n user
  rw [onFrame_eq]
  generalize started hooks n user = r at *
  have hactive : r.node.active = true :=
    Bool.eq_true_of_not_eq_false fun hclosed => hi (hslots.closed_free hclosed i)
  have hfind : findEntry r.node (p.getD 8 0) = some i := hseq ▸ EdgeSrNode.findEntry_slot hslots hi
  have hrest : (r.node.entries i).Conflicts p →
      r.node = r.node ∧ hookCalls r.events = r.node.answers i p := by
    intro h
    rw [EdgeSrNode.answers, if_pos h]
    exact ⟨rfl, hquiet⟩
  unfold handleFrame
  dsimp only
  by_cases hshape : p.length > EDGE_PAYLOAD_MAX ∨ p.length < 8
  · rw [if_pos hshape]
    rcases hshape with hlong | hshort
    · exact hrest (.inr (.inl hlong))
    · exact hrest (.inl (by omega))
  rw [if_neg hshape, if_neg (by decide)]
  by_cases hserve : r.node.active = false ∨ edgeU64BeRead p ≠ r.node.session ∨ p.length < 9
  · rw [if_pos hserve]
    rcases hserve with hclosed | hother | hshort
    · exact absurd (hclosed.symm.trans hactive) Bool.false_ne_true
    · exact absurd hsession hother
    · exact hrest (.inl (Nat.lt_succ_of_lt hshort))
  rw [if_neg hserve, if_neg (by decide)]
  by_cases hbody : EDGE_TYPE_SR_COMMAND ≠ EDGE_TYPE_SR_COMMAND ∨ p.length < 10
  · rw [if_pos hbody]
    exact hrest (.inl (hbody.resolve_left (not_not.mpr rfl)))
  rw [if_neg hbody]
  -- the lengths are those of a command: only its content can differ
  have hconflicts : (r.node.entries i).Conflicts p ↔
      (r.node.entries i).command ≠ p.getD 9 0 ∨ (r.node.entries i).args ≠ p.drop 10 := by
    constructor
    · rintro (hshort | hlong | hother)
      · exact absurd (.inr hshort) hbody
      · exact absurd (.inl hlong) hshape
      · exact hother
    · exact fun hother => .inr (.inr hother)
  obtain ⟨hnode, hcalls⟩ :=
    onCommand_stored hooks (hooks.nowMs user).1 hfind (p.getD 9 0) (p.drop 10)
  refine ⟨hnode, ?_⟩
  rw [hcalls, hquiet, List.nil_append, EdgeSrNode.answers]
  exact (if_congr hconflicts rfl rfl).symm

end Duplicates

/-- **Archived results.** The clock never decreases, and no slot in use gets `2 ^ 32` old, so the
node does what it does by this clock. Every executed command keeps the laws of its result. Nothing
of it is sent after its acknowledgement, after an OPEN of a higher session or after its session was
closed. A command that is stored leaves the slots and their timers as the deadlines left them; a
conflicting one is not answered. -/
theorem results_replayed (memory : EdgeSrNode Nat) (calls : List (NodeCall Nat σ))
    (hmono : Nondecreasing (logOf (runCalls (edgeSrNodeInit memory) calls).2))
    (hlife : EveryScan Scan.InLife (edgeSrNodeInit memory) calls) :
    let run := fun calls : List (NodeCall Nat σ) => runCalls (edgeSrNodeInit memory) calls
    runCalls (edgeSrNodeInit (memory.map wrapMs)) (calls.map (NodeCall.map wrapMs)) =
      ((run calls).1.map wrapMs, mapHistory wrapMs (run calls).2) ∧
    (∀ c raw, .execute c raw ∈ logOf (run calls).2 → ∃ u, Archived (run calls).2 c raw u) ∧
    (∀ before hooks user p rest,
      calls = before ++ .onFrame hooks user EDGE_TYPE_SR_RESULT_ACK (some p) :: rest →
      p.length = 9 → ∀ c ∈ executes (logOf (run before).2), edgeU64BeRead p = c.session →
      p.getD 8 0 = c.seq →
      ∀ e ∈ logOf (runCalls (run before).1
          (.onFrame hooks user EDGE_TYPE_SR_RESULT_ACK (some p) :: rest)).2,
        e.resultOf c.session c.seq = false) ∧
    (∀ before hooks user p rest,
      calls = before ++ .onFrame hooks user EDGE_TYPE_SR_OPEN (some p) :: rest → p.length = 8 →
      ∀ s q, s < edgeU64BeRead p →
      ∀ e ∈ logOf (runCalls (run before).1
          (.onFrame hooks user EDGE_TYPE_SR_OPEN (some p) :: rest)).2,
        e.resultOf s q = false) ∧
    ((logOf (run calls).2).Pairwise fun a b => ∀ s q, a = .close s → b.resultOf s q = false) ∧
    (∀ before hooks user p rest,
      calls = before ++ .onFrame hooks user EDGE_TYPE_SR_COMMAND (some p) :: rest →
      let r := started hooks (run before).1 user
      let r' := edgeSrNodeOnFrame hooks (run before).1 user EDGE_TYPE_SR_COMMAND (some p)
      ∀ i, (r.node.entries i).state ≠ .free → edgeU64BeRead p = r.node.session →
        p.getD 8 0 = (r.node.entries i).seq →
        r'.node = r.node ∧ r'.node.entries i = (run before).1.entries i ∧
          hookCalls r'.events = r.node.answers i p) := by
  intro run
  have hinv : ∀ before, NodeInv (run before).1 (logOf (run before).2) := fun before => by
    simpa using nodeInv_runCalls before (nodeInv_init memory)
  refine ⟨wrap_run memory calls hmono hlife, (archive_runCalls memory calls hmono).commands, ?_, ?_,
    closed_pairwise memory calls, ?_⟩
  · rintro before hooks user p rest - hlength c hc hsession hseq
    exact Ends.rest (ack_ends hooks user (hinv before) hlength hc hsession hseq) rest
  · rintro before hooks user p rest - hlength s q hlt
    exact Ends.rest (open_ends hooks user _ hlength hlt) rest
  · intro before hooks user p rest _ r r' i hi hsession hseq
    obtain ⟨hnode, hcalls⟩ := onFrame_stored hooks _ user (hinv before).slots hi hsession hseq
    refine ⟨hnode, ?_, hcalls⟩
    calc r'.node.entries i
        = r.node.entries i := congrArg (fun n : EdgeSrNode Nat => n.entries i) hnode
      _ = (run before).1.entries i := expired_same hi

theorem results_replayed_demo :
    ∃ u, Archived (runCalls (edgeSrNodeInit demoMemory) (demoCalls 0)).2 ⟨1, 0, 0x20, []⟩
      [EDGE_RC_OK, 0, 7] u :=
  (results_replayed demoMemory (demoCalls 0) (by decide +kernel) (by decide +kernel)).2.1 _ _
    (by decide +kernel)

end EdgeGateway
