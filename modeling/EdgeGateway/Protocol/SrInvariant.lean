import EdgeGateway.Protocol.SrMove
import Mathlib.Data.List.Nodup
import Mathlib.Data.List.Range

set_option autoImplicit false

/-! # The receiver's invariants

Four groups: what the slots hold, how the slots relate to the record of what was stored and
executed, what the frames sent say about that record, and what a closed session means. Each is
preserved by every elementary action, hence by every call.
-/

namespace EdgeGateway

variable {τ σ : Type}

/-! ## The record -/

def NodeEvent.stored? : NodeEvent τ → Option Command
  | .store c => some c
  | _ => none

def NodeEvent.executed? : NodeEvent τ → Option Command
  | .execute c _ => some c
  | _ => none

/-- The commands stored, in order. -/
def stores (log : List (NodeEvent τ)) : List Command := log.filterMap NodeEvent.stored?

/-- The commands executed, in order. -/
def executes (log : List (NodeEvent τ)) : List Command := log.filterMap NodeEvent.executed?

/-- The sequence numbers of a session, in order. -/
def seqsOf (session : UInt64) (cs : List Command) : List Nat :=
  (cs.filter fun c => c.session = session).map fun c => c.seq.toNat

@[simp] theorem stores_nil : stores ([] : List (NodeEvent τ)) = [] := rfl

@[simp] theorem executes_nil : executes ([] : List (NodeEvent τ)) = [] := rfl

@[simp] theorem stores_append (log es : List (NodeEvent τ)) :
    stores (log ++ es) = stores log ++ stores es :=
  List.filterMap_append

@[simp] theorem executes_append (log es : List (NodeEvent τ)) :
    executes (log ++ es) = executes log ++ executes es :=
  List.filterMap_append

theorem mem_stores {c : Command} {log : List (NodeEvent τ)} : c ∈ stores log ↔ .store c ∈ log := by
  rw [stores, List.mem_filterMap]
  constructor
  · rintro ⟨e, he, hc⟩
    cases e <;> simp_all [NodeEvent.stored?]
  · intro h
    exact ⟨_, h, rfl⟩

theorem mem_executes {c : Command} {log : List (NodeEvent τ)} :
    c ∈ executes log ↔ ∃ raw, .execute c raw ∈ log := by
  rw [executes, List.mem_filterMap]
  constructor
  · rintro ⟨e, he, hc⟩
    cases e <;> simp_all [NodeEvent.executed?]
    exact ⟨_, he⟩
  · rintro ⟨raw, h⟩
    exact ⟨_, h, rfl⟩

@[simp] theorem seqsOf_append (session : UInt64) (cs ds : List Command) :
    seqsOf session (cs ++ ds) = seqsOf session cs ++ seqsOf session ds := by
  simp [seqsOf]

theorem mem_seqsOf {session : UInt64} {cs : List Command} {q : Nat} :
    q ∈ seqsOf session cs ↔ ∃ c ∈ cs, c.session = session ∧ c.seq.toNat = q := by
  simp [seqsOf, and_assoc]

/-! ## Invariants -/

/-- What the slots hold: at most one entry for each sequence number, buffered commands inside the
window, results left of it. -/
structure SlotInv (n : EdgeSrNode τ) : Prop where
  base_le : n.base ≤ 256
  closed_free : n.active = false → ∀ i, (n.entries i).state = .free
  seq_inj : ∀ i j, (n.entries i).state ≠ .free → (n.entries j).state ≠ .free →
    (n.entries i).seq = (n.entries j).seq → i = j
  buffered : ∀ i, (n.entries i).state = .buffered →
    n.base ≤ (n.entries i).seq.toNat ∧ (n.entries i).seq.toNat < n.base + EDGE_SR_WINDOW_SIZE
  executed : ∀ i, (n.entries i).state = .executed → (n.entries i).seq.toNat < n.base

/-- The slots and the record. The last two fields are the order of execution. -/
structure LogInv (n : EdgeSrNode τ) (log : List (NodeEvent τ)) : Prop where
  slot_stored : ∀ i, (n.entries i).state ≠ .free → n.commandOf (n.entries i) ∈ stores log
  slot_executed : ∀ i, (n.entries i).state = .executed →
    ∃ raw, .execute (n.commandOf (n.entries i)) raw ∈ log ∧
      (n.entries i).result = storedResult raw
  store_session : ∀ c ∈ stores log, c.session ≤ n.session
  store_placed : n.active = true → ∀ c ∈ stores log, c.session = n.session →
    c.seq.toNat < n.base ∨ ∃ i, (n.entries i).state = .buffered ∧ n.commandOf (n.entries i) = c
  store_closed : n.active = false → ∀ c ∈ stores log, c.session = n.session →
    c.seq.toNat ≠ n.base
  store_args : ∀ c ∈ stores log, c.args.length ≤ EDGE_SR_ARGS_MAX
  store_nodup : ((stores log).map Command.index).Nodup
  execute_stored : ∀ c ∈ executes log, c ∈ stores log
  execute_current : seqsOf n.session (executes log) = List.range n.base
  execute_seqs : ∀ session, ∃ k, k ≤ 256 ∧ seqsOf session (executes log) = List.range k
  execute_sorted : (executes log).Pairwise fun c d => c.index < d.index

/-- What the frames sent say about the record. -/
structure EmitInv (n : EdgeSrNode τ) (log : List (NodeEvent τ)) : Prop where
  received : ∀ p, .emit EDGE_TYPE_SR_RECEIVED p ∈ log →
    ∃ c ∈ stores log, p = receivedPayload c.session c.seq
  result : ∀ p, .emit EDGE_TYPE_SR_RESULT p ∈ log →
    ∃ c raw, .execute c raw ∈ log ∧ p = resultPayload c.session c.seq c.type (storedResult raw)
  openAck : ∀ p, .emit EDGE_TYPE_SR_OPEN_ACK p ∈ log →
    ∃ requested highWater rc, p = openAckPayload requested highWater rc ∧
      highWater ≤ n.session ∧ (rc = EDGE_RC_OK → requested = highWater)

/-- A closed session is not the active one, and executes nothing more. -/
structure CloseInv (n : EdgeSrNode τ) (log : List (NodeEvent τ)) : Prop where
  closed : ∀ s, .close s ∈ log → s ≤ n.session ∧ (s = n.session → n.active = false)
  final : log.Pairwise fun a b => ∀ s c raw, a = .close s → b = .execute c raw → c.session ≠ s

structure NodeInv (n : EdgeSrNode τ) (log : List (NodeEvent τ)) : Prop where
  slots : SlotInv n
  record : LogInv n log
  emits : EmitInv n log
  closes : CloseInv n log

theorem nodeInv_init (n : EdgeSrNode τ) : NodeInv (edgeSrNodeInit n) [] where
  slots :=
    { base_le := Nat.zero_le _
      closed_free := fun _ _ => rfl
      seq_inj := fun _ _ h => absurd rfl h
      buffered := fun _ h => by cases h
      executed := fun _ h => by cases h }
  record :=
    { slot_stored := fun _ h => absurd rfl h
      slot_executed := fun _ h => by cases h
      store_session := by simp
      store_placed := by simp
      store_closed := by simp
      store_args := by simp
      store_nodup := List.nodup_nil
      execute_stored := by simp
      execute_current := rfl
      execute_seqs := fun _ => ⟨0, by omega, rfl⟩
      execute_sorted := List.Pairwise.nil }
  emits := ⟨by simp, by simp, by simp⟩
  closes := ⟨by simp, List.Pairwise.nil⟩

/-! ## Forgetting -/

/-- `n'` is `n` after some results were dropped or the session was closed at a gap. -/
structure Forgets (n n' : EdgeSrNode τ) : Prop where
  session : n'.session = n.session
  base : n'.base = n.base
  closes : n'.active = false → n.active = false ∨ n.gap = true
  opens : n'.active = true → n.active = true
  closed_free : n'.active = false → n.active = true → ∀ i, (n'.entries i).state = .free
  state : ∀ i, (n'.entries i).state ≠ .free → (n'.entries i).state = (n.entries i).state
  seq : ∀ i, (n'.entries i).seq = (n.entries i).seq
  command : ∀ i, (n'.entries i).command = (n.entries i).command
  args : ∀ i, (n'.entries i).args = (n.entries i).args
  result : ∀ i, (n'.entries i).result = (n.entries i).result
  kept : n'.active = true → ∀ i, (n.entries i).state = .buffered →
    (n'.entries i).state = .buffered

theorem forgets_closed {n : EdgeSrNode τ} (hgap : n.gap = true) : Forgets n n.closed where
  session := rfl
  base := rfl
  closes := fun _ => .inr hgap
  opens := fun h => by cases h
  closed_free := fun _ _ _ => rfl
  state := fun _ h => absurd rfl h
  seq := fun _ => rfl
  command := fun _ => rfl
  args := fun _ => rfl
  result := fun _ => rfl
  kept := fun h => by cases h

/-- A slot with a result may change its state to free, or its timers. -/
theorem forgets_setEntry {n : EdgeSrNode τ} {i : Slot} {e : EdgeSrEntry τ}
    (hold : (n.entries i).state = .executed) (hnew : e.state = .free ∨ e.state = .executed)
    (hseq : e.seq = (n.entries i).seq) (hcommand : e.command = (n.entries i).command)
    (hargs : e.args = (n.entries i).args) (hresult : e.result = (n.entries i).result) :
    Forgets n (n.setEntry i e) where
  session := rfl
  base := rfl
  closes := .inl
  opens := id
  closed_free := fun h h' => absurd (h.symm.trans h') Bool.false_ne_true
  state := by
    intro j hj
    rw [setEntry_entries] at hj ⊢
    by_cases hji : j = i
    · rw [if_pos hji] at hj ⊢
      rw [hji, hold]
      exact hnew.resolve_left hj
    · rw [if_neg hji]
  seq := by intro j; rw [setEntry_entries]; split_ifs with hji <;> simp [*]
  command := by intro j; rw [setEntry_entries]; split_ifs with hji <;> simp [*]
  args := by intro j; rw [setEntry_entries]; split_ifs with hji <;> simp [*]
  result := by intro j; rw [setEntry_entries]; split_ifs with hji <;> simp [*]
  kept := by
    intro _ j hj
    have hji : j ≠ i := by
      rintro rfl
      rw [hold] at hj
      cases hj
    rw [setEntry_entries, if_neg hji, hj]

theorem forgets_freed {n : EdgeSrNode τ} {i : Slot} (h : (n.entries i).state = .executed) :
    Forgets n (n.freed i) :=
  forgets_setEntry h (.inl rfl) rfl rfl rfl rfl

theorem forgets_resent {n : EdgeSrNode τ} {i : Slot} (now : τ)
    (h : (n.entries i).state = .executed) : Forgets n (n.resent i now) :=
  forgets_setEntry h (.inr h) rfl rfl rfl rfl

namespace Forgets

variable {n n' : EdgeSrNode τ} {log : List (NodeEvent τ)}

theorem commandOf (h : Forgets n n') (i : Slot) :
    n'.commandOf (n'.entries i) = n.commandOf (n.entries i) := by
  simp only [EdgeSrNode.commandOf, h.session, h.seq, h.command, h.args]

theorem state_ne (h : Forgets n n') {i : Slot} (hi : (n'.entries i).state ≠ .free) :
    (n.entries i).state ≠ .free :=
  h.state i hi ▸ hi

theorem of_state (h : Forgets n n') {i : Slot} {s : EntryState} (hs : s ≠ .free)
    (hi : (n'.entries i).state = s) : (n.entries i).state = s :=
  (h.state i (hi ▸ hs)).symm.trans hi

theorem slotInv (h : Forgets n n') (hn : SlotInv n) : SlotInv n' where
  base_le := h.base ▸ hn.base_le
  closed_free := by
    intro hclosed i
    rcases Bool.eq_false_or_eq_true n.active with hactive | hactive
    · exact h.closed_free hclosed hactive i
    · by_contra hi
      exact h.state_ne hi (hn.closed_free hactive i)
  seq_inj := by
    intro i j hi hj hseq
    rw [h.seq, h.seq] at hseq
    exact hn.seq_inj i j (h.state_ne hi) (h.state_ne hj) hseq
  buffered := by
    intro i hi
    rw [h.seq, h.base]
    exact hn.buffered i (h.of_state (by decide) hi)
  executed := by
    intro i hi
    rw [h.seq, h.base]
    exact hn.executed i (h.of_state (by decide) hi)

theorem logInv (h : Forgets n n') (hn : LogInv n log) : LogInv n' log where
  slot_stored := by
    intro i hi
    rw [h.commandOf]
    exact hn.slot_stored i (h.state_ne hi)
  slot_executed := by
    intro i hi
    rw [h.commandOf, h.result]
    exact hn.slot_executed i (h.of_state (by decide) hi)
  store_session := h.session ▸ hn.store_session
  store_placed := by
    intro hactive c hc hsession
    rw [h.base]
    rcases hn.store_placed (h.opens hactive) c hc (h.session ▸ hsession) with hlt | ⟨i, hi, rfl⟩
    · exact .inl hlt
    · exact .inr ⟨i, h.kept hactive i hi, h.commandOf i⟩
  store_closed := by
    intro hclosed c hc hsession
    rw [h.base]
    rw [h.session] at hsession
    rcases Bool.eq_false_or_eq_true n.active with hactive | hactive
    · have hgap : n.gap = true := (h.closes hclosed).resolve_left (by simp [hactive])
      simp only [EdgeSrNode.gap, Bool.decide_and, Bool.and_eq_true, decide_eq_true_eq] at hgap
      rcases hn.store_placed hactive c hc hsession with hlt | ⟨i, hi, rfl⟩
      · omega
      · -- the command at `base` is not in a slot
        intro hbase
        refine findEntry_eq_none.mp hgap.2 i (by simp [hi]) ?_
        rw [← hbase]
        exact (UInt8.ofNat_toNat).symm
    · exact hn.store_closed hactive c hc hsession
  store_args := hn.store_args
  store_nodup := hn.store_nodup
  execute_stored := hn.execute_stored
  execute_current := by rw [h.session, h.base]; exact hn.execute_current
  execute_seqs := hn.execute_seqs
  execute_sorted := hn.execute_sorted

end Forgets

/-! ## The other actions on the slots -/

section Actions

variable {n : EdgeSrNode τ} {log : List (NodeEvent τ)}

theorem slotInv_opened (session : UInt64) : SlotInv (n.opened session) where
  base_le := Nat.zero_le _
  closed_free := fun _ _ => rfl
  seq_inj := fun _ _ h => absurd rfl h
  buffered := fun _ h => by cases h
  executed := fun _ h => by cases h

theorem slotInv_received (hn : SlotInv n) {i : Slot} {seq command : UInt8} {args : List UInt8}
    {now : τ} (hactive : n.active = true) (hnew : findEntry n seq = none)
    (hge : n.base ≤ seq.toNat) (hlt : seq.toNat < n.base + EDGE_SR_WINDOW_SIZE) :
    SlotInv (n.received i seq command args now) where
  base_le := hn.base_le
  closed_free := fun h => absurd (h.symm.trans hactive) Bool.false_ne_true
  seq_inj := by
    intro j k hj hk hseq
    by_cases hji : j = i <;> by_cases hki : k = i
    · rw [hji, hki]
    · subst hji
      rw [received_self, received_other hki] at hseq
      rw [received_other hki] at hk
      exact absurd hseq.symm (findEntry_eq_none.mp hnew k hk)
    · subst hki
      rw [received_self, received_other hji] at hseq
      rw [received_other hji] at hj
      exact absurd hseq (findEntry_eq_none.mp hnew j hj)
    · rw [received_other hji] at hj hseq
      rw [received_other hki] at hk hseq
      exact hn.seq_inj j k hj hk hseq
  buffered := by
    intro j hj
    by_cases hji : j = i
    · subst hji
      rw [received_self]
      exact ⟨hge, hlt⟩
    · rw [received_other hji] at hj ⊢
      exact hn.buffered j hj
  executed := by
    intro j hj
    by_cases hji : j = i
    · subst hji
      rw [received_self] at hj
      cases hj
    · rw [received_other hji] at hj ⊢
      exact hn.executed j hj

/-- Only the entry at `base` changes, and `base` passes it. -/
theorem slotInv_executed (hn : SlotInv n) {i : Slot} {raw : List UInt8} {now : τ}
    (hactive : n.active = true) (hbase : n.base < 256)
    (hseq : (n.entries i).seq = UInt8.ofNat n.base) (hstate : (n.entries i).state = .buffered) :
    SlotInv (n.executed i raw now) where
  base_le := hbase
  closed_free := fun h => absurd (h.symm.trans hactive) Bool.false_ne_true
  seq_inj := by
    have hsame : ∀ j, ((n.executed i raw now).entries j).seq = (n.entries j).seq := by
      intro j
      by_cases hji : j = i
      · subst hji
        rw [executed_self]
        rfl
      · rw [executed_other hji]
    have hbusy : ∀ j, ((n.executed i raw now).entries j).state ≠ .free →
        (n.entries j).state ≠ .free := by
      intro j hj
      by_cases hji : j = i
      · subst hji
        simp [hstate]
      · rwa [executed_other hji] at hj
    intro j k hj hk hjk
    rw [hsame, hsame] at hjk
    exact hn.seq_inj j k (hbusy j hj) (hbusy k hk) hjk
  buffered := by
    intro j hj
    by_cases hji : j = i
    · subst hji
      rw [executed_self] at hj
      cases hj
    · rw [executed_other hji] at hj ⊢
      obtain ⟨hlo, hhi⟩ := hn.buffered j hj
      have hne : (n.entries j).seq.toNat ≠ n.base := by
        intro h
        refine hji (hn.seq_inj j i (by simp [hj]) (by simp [hstate]) ?_)
        rw [hseq, ← h]
        exact (UInt8.ofNat_toNat).symm
      exact ⟨by show n.base + 1 ≤ _; omega, by show _ < n.base + 1 + _; omega⟩
  executed := by
    intro j hj
    by_cases hji : j = i
    · subst hji
      rw [executed_self]
      show (n.entries j).seq.toNat < n.base + 1
      rw [hseq, UInt8.toNat_ofNat_of_lt' hbase]
      omega
    · rw [executed_other hji] at hj ⊢
      have := hn.executed j hj
      show (n.entries j).seq.toNat < n.base + 1
      omega

/-! ## The other actions on the record -/

theorem LogInv.append (hn : LogInv n log) {es : List (NodeEvent τ)} (hs : stores es = [])
    (he : executes es = []) : LogInv n (log ++ es) where
  slot_stored := by simpa [hs] using hn.slot_stored
  slot_executed := by
    intro i hi
    obtain ⟨raw, hraw, hresult⟩ := hn.slot_executed i hi
    exact ⟨raw, List.mem_append_left _ hraw, hresult⟩
  store_session := by simpa [hs] using hn.store_session
  store_placed := by simpa [hs] using hn.store_placed
  store_closed := by simpa [hs] using hn.store_closed
  store_args := by simpa [hs] using hn.store_args
  store_nodup := by simpa [hs] using hn.store_nodup
  execute_stored := by simpa [hs, he] using hn.execute_stored
  execute_current := by simpa [he] using hn.execute_current
  execute_seqs := by simpa [he] using hn.execute_seqs
  execute_sorted := by simpa [he] using hn.execute_sorted

theorem LogInv.execute_session (hn : LogInv n log) {c : Command} (hc : c ∈ executes log) :
    c.session ≤ n.session :=
  hn.store_session c (hn.execute_stored c hc)

theorem logInv_opened (hn : LogInv n log) {session : UInt64} (hlt : n.session < session) :
    LogInv (n.opened session) log where
  slot_stored := fun _ h => absurd rfl h
  slot_executed := fun _ h => by cases h
  store_session := fun c hc => UInt64.le_trans (hn.store_session c hc) (UInt64.le_of_lt hlt)
  store_placed := by
    rintro - c hc rfl
    exact absurd (UInt64.lt_of_lt_of_le hlt (hn.store_session c hc)) (UInt64.lt_irrefl _)
  store_closed := fun h => by cases h
  store_args := hn.store_args
  store_nodup := hn.store_nodup
  execute_stored := hn.execute_stored
  execute_current := by
    -- nothing is executed yet in a session above all others
    show seqsOf session (executes log) = []
    rw [seqsOf, List.map_eq_nil_iff, List.filter_eq_nil_iff]
    intro c hc
    rw [decide_eq_true_eq]
    rintro rfl
    exact absurd (UInt64.lt_of_lt_of_le hlt (hn.execute_session hc)) (UInt64.lt_irrefl _)
  execute_seqs := hn.execute_seqs
  execute_sorted := hn.execute_sorted

/-- A command that no slot holds, not left of the window, was not stored before. -/
theorem LogInv.new_index (hn : LogInv n log) (hactive : n.active = true) {c : Command}
    (hsession : c.session = n.session) (hnew : findEntry n c.seq = none)
    (hge : n.base ≤ c.seq.toNat) : c.index ∉ (stores log).map Command.index := by
  intro hmem
  obtain ⟨d, hd, hindex⟩ := List.mem_map.mp hmem
  obtain ⟨hds, hdq⟩ := Command.index_inj hindex
  rcases hn.store_placed hactive d hd (hds.trans hsession) with hlt | ⟨i, hi, rfl⟩
  · rw [hdq] at hlt
    omega
  · exact findEntry_eq_none.mp hnew i (by simp [hi]) hdq

theorem logInv_received (hn : LogInv n log) {i : Slot} {seq command : UInt8} {args : List UInt8}
    {now : τ} (hactive : n.active = true) (hfree : (n.entries i).state = .free)
    (hnew : findEntry n seq = none) (hge : n.base ≤ seq.toNat)
    (hargs : args.length ≤ EDGE_SR_ARGS_MAX) (p : List UInt8) :
    LogInv (n.received i seq command args now)
      (log ++ [.store ⟨n.session, seq, command, args⟩, .emit EDGE_TYPE_SR_RECEIVED p]) := by
  have hstores : stores (log ++ [.store ⟨n.session, seq, command, args⟩,
      .emit EDGE_TYPE_SR_RECEIVED p]) = stores log ++ [⟨n.session, seq, command, args⟩] := by
    rw [stores_append]
    rfl
  have hexecutes : executes (log ++ [.store ⟨n.session, seq, command, args⟩,
      .emit EDGE_TYPE_SR_RECEIVED p]) = executes log := by
    rw [executes_append]
    exact List.append_nil _
  have hcommand : (n.received i seq command args now).commandOf
      ((n.received i seq command args now).entries i) = ⟨n.session, seq, command, args⟩ := by
    rw [received_self]
    rfl
  constructor
  case slot_stored =>
    intro j hj
    rw [hstores, List.mem_append]
    by_cases hji : j = i
    · subst hji
      exact .inr (List.mem_singleton.mpr hcommand)
    · rw [received_other hji] at hj ⊢
      exact .inl (hn.slot_stored j hj)
  case slot_executed =>
    intro j hj
    by_cases hji : j = i
    · subst hji
      rw [received_self] at hj
      cases hj
    · rw [received_other hji] at hj ⊢
      obtain ⟨raw, hraw, hresult⟩ := hn.slot_executed j hj
      exact ⟨raw, List.mem_append_left _ hraw, hresult⟩
  case store_session =>
    rw [hstores, List.forall_mem_append]
    exact ⟨hn.store_session, by simp [EdgeSrNode.received]⟩
  case store_placed =>
    intro _ c hc hsession
    rw [hstores, List.mem_append, List.mem_singleton] at hc
    rcases hc with hc | rfl
    · rcases hn.store_placed hactive c hc hsession with hlt | ⟨j, hj, rfl⟩
      · exact .inl hlt
      · have hji : j ≠ i := by
          rintro rfl
          rw [hfree] at hj
          cases hj
        exact .inr ⟨j, by rw [received_other hji]; exact ⟨hj, rfl⟩⟩
    · exact .inr ⟨i, by rw [received_self]; rfl, hcommand⟩
  case store_closed => exact fun h => absurd (h.symm.trans hactive) Bool.false_ne_true
  case store_args =>
    rw [hstores, List.forall_mem_append]
    exact ⟨hn.store_args, by simpa using hargs⟩
  case store_nodup =>
    rw [hstores, List.map_append, List.map_singleton, List.nodup_append]
    refine ⟨hn.store_nodup, List.nodup_singleton _, ?_⟩
    rintro a ha b hb rfl
    rw [List.mem_singleton] at hb
    subst hb
    exact hn.new_index hactive rfl hnew hge ha
  case execute_stored =>
    intro c hc
    rw [hexecutes] at hc
    rw [hstores]
    exact List.mem_append_left _ (hn.execute_stored c hc)
  case execute_current => rw [hexecutes]; exact hn.execute_current
  case execute_seqs => rw [hexecutes]; exact hn.execute_seqs
  case execute_sorted => rw [hexecutes]; exact hn.execute_sorted

/-- Everything executed is before the command at the base of the window. -/
theorem LogInv.execute_index_lt (hn : LogInv n log) {c d : Command} (hc : c ∈ executes log)
    (hsession : d.session = n.session) (hseq : d.seq.toNat = n.base) : c.index < d.index := by
  rcases UInt64.lt_or_eq_of_le (hn.execute_session hc) with hlt | heq
  · exact Command.index_lt_of_session (hsession ▸ hlt)
  · have hmem : c.seq.toNat ∈ seqsOf n.session (executes log) :=
      mem_seqsOf.mpr ⟨c, hc, heq, rfl⟩
    rw [hn.execute_current, List.mem_range, ← hseq] at hmem
    exact Command.index_lt_of_seq (heq.trans hsession.symm) hmem

/-- The command at the base of the window continues the numbers executed in its session. -/
theorem LogInv.seqsOf_next (hn : LogInv n log) {d : Command} (hsession : d.session = n.session)
    (hseq : d.seq.toNat = n.base) :
    seqsOf n.session (executes log ++ [d]) = List.range (n.base + 1) := by
  rw [seqsOf_append, hn.execute_current, List.range_succ]
  simp [seqsOf, hsession, hseq]

theorem logInv_executed (hn : LogInv n log) {i : Slot} {raw : List UInt8} {now : τ}
    (hactive : n.active = true) (hbase : n.base < 256)
    (hseq : (n.entries i).seq = UInt8.ofNat n.base) (hstate : (n.entries i).state = .buffered) :
    LogInv (n.executed i raw now)
      (log ++ [.execute (n.commandOf (n.entries i)) raw, .now now]) := by
  have hstores : stores (log ++ [.execute (n.commandOf (n.entries i)) raw, .now now]) =
      stores log := by
    rw [stores_append]
    exact List.append_nil _
  have hexecutes : executes (log ++ [.execute (n.commandOf (n.entries i)) raw, .now now]) =
      executes log ++ [n.commandOf (n.entries i)] := by
    rw [executes_append]
    rfl
  have hcommand : ∀ j, (n.executed i raw now).commandOf ((n.executed i raw now).entries j) =
      n.commandOf (n.entries j) := by
    intro j
    by_cases hji : j = i
    · subst hji
      rw [executed_self]
      rfl
    · rw [executed_other hji]
      rfl
  have hstored : n.commandOf (n.entries i) ∈ stores log := hn.slot_stored i (by simp [hstate])
  have hnat : (n.commandOf (n.entries i)).seq.toNat = n.base := by
    show (n.entries i).seq.toNat = n.base
    rw [hseq, UInt8.toNat_ofNat_of_lt' hbase]
  constructor
  case slot_stored =>
    intro j hj
    rw [hstores, hcommand]
    by_cases hji : j = i
    · exact hji ▸ hstored
    · rw [executed_other hji] at hj
      exact hn.slot_stored j hj
  case slot_executed =>
    intro j hj
    rw [hcommand]
    by_cases hji : j = i
    · subst hji
      rw [executed_self]
      exact ⟨raw, by simp, rfl⟩
    · rw [executed_other hji] at hj ⊢
      obtain ⟨raw', hraw, hresult⟩ := hn.slot_executed j hj
      exact ⟨raw', List.mem_append_left _ hraw, hresult⟩
  case store_session => rw [hstores]; exact hn.store_session
  case store_placed =>
    intro _ c hc hsession
    rw [hstores] at hc
    rcases hn.store_placed hactive c hc hsession with hlt | ⟨j, hj, rfl⟩
    · exact .inl (Nat.lt_succ_of_lt hlt)
    · by_cases hji : j = i
      · subst hji
        refine .inl ?_
        rw [hnat]
        exact Nat.lt_succ_self _
      · exact .inr ⟨j, by rw [executed_other hji]; exact ⟨hj, rfl⟩⟩
  case store_closed => exact fun h => absurd (h.symm.trans hactive) Bool.false_ne_true
  case store_args => rw [hstores]; exact hn.store_args
  case store_nodup => rw [hstores]; exact hn.store_nodup
  case execute_stored =>
    rw [hstores, hexecutes, List.forall_mem_append]
    exact ⟨hn.execute_stored, by simpa using hstored⟩
  case execute_current =>
    show seqsOf n.session _ = List.range (n.base + 1)
    rw [hexecutes]
    exact hn.seqsOf_next rfl hnat
  case execute_seqs =>
    intro session
    rw [hexecutes]
    by_cases hs : session = n.session
    · subst hs
      exact ⟨n.base + 1, hbase, hn.seqsOf_next rfl hnat⟩
    · obtain ⟨k, hk, hrange⟩ := hn.execute_seqs session
      refine ⟨k, hk, ?_⟩
      rw [seqsOf_append, hrange]
      simp [seqsOf, EdgeSrNode.commandOf, Ne.symm hs]
  case execute_sorted =>
    rw [hexecutes, List.pairwise_append]
    refine ⟨hn.execute_sorted, List.pairwise_singleton _ _, ?_⟩
    intro c hc d hd
    rw [List.mem_singleton] at hd
    subst hd
    exact hn.execute_index_lt hc rfl hnat

/-! ## The frames sent and the sessions closed -/

/-- The log only grows, so what was sent stays explained; the new frames need an explanation. -/
theorem EmitInv.append (hn : EmitInv n log) {n' : EdgeSrNode τ} {es : List (NodeEvent τ)}
    (hsession : n.session ≤ n'.session)
    (hreceived : ∀ p, .emit EDGE_TYPE_SR_RECEIVED p ∈ es →
      ∃ c ∈ stores (log ++ es), p = receivedPayload c.session c.seq)
    (hresult : ∀ p, .emit EDGE_TYPE_SR_RESULT p ∈ es → ∃ c raw, .execute c raw ∈ log ++ es ∧
      p = resultPayload c.session c.seq c.type (storedResult raw))
    (hopenAck : ∀ p, .emit EDGE_TYPE_SR_OPEN_ACK p ∈ es →
      ∃ requested highWater rc, p = openAckPayload requested highWater rc ∧
        highWater ≤ n'.session ∧ (rc = EDGE_RC_OK → requested = highWater)) :
    EmitInv n' (log ++ es) where
  received := by
    intro p hp
    rcases List.mem_append.mp hp with hp | hp
    · obtain ⟨c, hc, rfl⟩ := hn.received p hp
      exact ⟨c, by rw [stores_append]; exact List.mem_append_left _ hc, rfl⟩
    · exact hreceived p hp
  result := by
    intro p hp
    rcases List.mem_append.mp hp with hp | hp
    · obtain ⟨c, raw, hc, rfl⟩ := hn.result p hp
      exact ⟨c, raw, List.mem_append_left _ hc, rfl⟩
    · exact hresult p hp
  openAck := by
    intro p hp
    rcases List.mem_append.mp hp with hp | hp
    · obtain ⟨requested, highWater, rc, rfl, hle, hrc⟩ := hn.openAck p hp
      exact ⟨requested, highWater, rc, rfl, UInt64.le_trans hle hsession, hrc⟩
    · exact hopenAck p hp

theorem EmitInv.append_quiet (hn : EmitInv n log) {n' : EdgeSrNode τ} {es : List (NodeEvent τ)}
    (hsession : n.session ≤ n'.session) (hes : ∀ type p, .emit type p ∉ es) :
    EmitInv n' (log ++ es) :=
  hn.append hsession (fun p hp => absurd hp (hes _ p)) (fun p hp => absurd hp (hes _ p))
    (fun p hp => absurd hp (hes _ p))

/-- Sessions never become lower, and a session is never active again. -/
theorem CloseInv.append (hn : CloseInv n log) {n' : EdgeSrNode τ} {es : List (NodeEvent τ)}
    (hsession : n.session ≤ n'.session)
    (hactive : n'.session = n.session → n.active = false → n'.active = false)
    (hclose : ∀ s, .close s ∉ es)
    (hexecute : ∀ c raw, .execute c raw ∈ es → c.session = n.session ∧ n.active = true) :
    CloseInv n' (log ++ es) where
  closed := by
    intro s hs
    rcases List.mem_append.mp hs with hs | hs
    · obtain ⟨hle, hclosed⟩ := hn.closed s hs
      refine ⟨UInt64.le_trans hle hsession, ?_⟩
      rintro rfl
      have heq : n'.session = n.session := UInt64.le_antisymm hle hsession
      exact hactive heq (hclosed heq)
    · exact absurd hs (hclose s)
  final := by
    refine List.pairwise_append.mpr ⟨hn.final, ?_, ?_⟩
    · refine List.pairwise_iff_forall_sublist.mpr fun hsub => ?_
      rintro s c raw rfl
      exact absurd (hsub.subset List.mem_cons_self) (hclose s)
    · rintro a ha b hb s c raw rfl rfl hs
      obtain ⟨hcs, hopen⟩ := hexecute c raw hb
      have := (hn.closed s ha).2 (hs.symm.trans hcs)
      exact Bool.false_ne_true (this.symm.trans hopen)

end Actions

/-! ## Every action keeps the invariants -/

section Runs

variable [Clock τ] {inp : NodeInput} {n n' : EdgeSrNode τ} {log es : List (NodeEvent τ)}

theorem nodeAct_session_le (h : NodeAct inp n es n') : n.session ≤ n'.session := by
  cases h with
  | «open» session hinp hlt => exact UInt64.le_of_lt hlt
  | _ => exact UInt64.le_refl _

theorem slotInv_act (h : NodeAct inp n es n') (hn : SlotInv n) : SlotInv n' := by
  cases h with
  | now => exact hn
  | close i now hgap => exact (forgets_closed hgap).slotInv hn
  | drop i now hstate => exact (forgets_freed hstate).slotInv hn
  | acked i hactive hstate => exact (forgets_freed hstate).slotInv hn
  | «open» session => exact slotInv_opened session
  | openAck => exact hn
  | store i seq command args now hinp hactive hfree hnew hge hlt =>
      exact slotInv_received hn hactive hnew hge hlt
  | confirm => exact hn
  | execute i result now hactive hbase hseq hstate =>
      exact slotInv_executed hn hactive hbase hseq hstate
  | result => exact hn
  | resend i now hstate => exact (forgets_resent now hstate).slotInv hn

theorem logInv_act (h : NodeAct inp n es n') (hn : LogInv n log) : LogInv n' (log ++ es) := by
  cases h with
  | now => exact hn.append rfl rfl
  | close i now hgap => exact ((forgets_closed hgap).logInv hn).append rfl rfl
  | drop i now hstate => exact ((forgets_freed hstate).logInv hn).append rfl rfl
  | acked i hactive hstate => exact ((forgets_freed hstate).logInv hn).append rfl rfl
  | «open» session hinp hlt => exact (logInv_opened hn hlt).append rfl rfl
  | openAck => exact hn.append rfl rfl
  | store i seq command args now hinp hactive hfree hnew hge hlt hargs =>
      exact logInv_received hn hactive hfree hnew hge hargs _
  | confirm => exact hn.append rfl rfl
  | execute i result now hactive hbase hseq hstate =>
      exact logInv_executed hn hactive hbase hseq hstate
  | result => exact hn.append rfl rfl
  | resend i now hstate => exact ((forgets_resent now hstate).logInv hn).append rfl rfl

omit [Clock τ] in
/-- What the window has passed was stored. -/
theorem LogInv.stored_of_lt_base (hn : LogInv n log) {q : Nat} (h : q < n.base) :
    ∃ c ∈ stores log, c.session = n.session ∧ c.seq.toNat = q := by
  have hmem : q ∈ seqsOf n.session (executes log) := by
    rw [hn.execute_current]
    exact List.mem_range.mpr h
  obtain ⟨c, hc, hs, hq⟩ := mem_seqsOf.mp hmem
  exact ⟨c, hn.execute_stored c hc, hs, hq⟩

theorem emitInv_act (h : NodeAct inp n es n') (hlog : LogInv n log) (hn : EmitInv n log) :
    EmitInv n' (log ++ es) := by
  have hsession := nodeAct_session_le h
  cases h with
  | now => exact hn.append_quiet hsession (by simp)
  | close => exact hn.append_quiet hsession (by simp)
  | drop => exact hn.append_quiet hsession (by simp)
  | acked => exact hn.append_quiet hsession (by simp)
  | «open» => exact hn.append_quiet hsession (by simp)
  | openAck session hinp =>
      refine hn.append hsession (by simp [EDGE_TYPE_SR_RECEIVED, EDGE_TYPE_SR_OPEN_ACK])
        (by simp [EDGE_TYPE_SR_RESULT, EDGE_TYPE_SR_OPEN_ACK]) ?_
      intro p hp
      rw [List.mem_singleton, NodeEvent.emit.injEq] at hp
      refine ⟨session, n.session, _, hp.2, hsession, ?_⟩
      split_ifs with hok
      · exact fun _ => hok.1
      · exact fun h => by cases h
  | store i seq command args now hinp hactive hfree hnew hge hlt hargs =>
      refine hn.append hsession ?_ (by simp [EDGE_TYPE_SR_RESULT, EDGE_TYPE_SR_RECEIVED])
        (by simp [EDGE_TYPE_SR_OPEN_ACK, EDGE_TYPE_SR_RECEIVED])
      intro p hp
      refine ⟨⟨n.session, seq, command, args⟩, mem_stores.mpr (by simp), ?_⟩
      simpa using hp
  | confirm seq hactive hknown =>
      refine hn.append hsession ?_ (by simp [EDGE_TYPE_SR_RESULT, EDGE_TYPE_SR_RECEIVED])
        (by simp [EDGE_TYPE_SR_OPEN_ACK, EDGE_TYPE_SR_RECEIVED])
      intro p hp
      rw [List.mem_singleton, NodeEvent.emit.injEq] at hp
      obtain ⟨c, hc, hs, hq⟩ : ∃ c ∈ stores log, c.session = n.session ∧ c.seq = seq := by
        rcases hknown with hlt | ⟨i, hi, rfl⟩
        · obtain ⟨c, hc, hs, hq⟩ := hlog.stored_of_lt_base hlt
          exact ⟨c, hc, hs, UInt8.toNat_inj.mp hq⟩
        · exact ⟨_, hlog.slot_stored i hi, rfl, rfl⟩
      refine ⟨c, by rw [stores_append]; exact List.mem_append_left _ hc, ?_⟩
      rw [hp.2, hs, hq]
  | execute i result now hactive hbase hseq hstate => exact hn.append_quiet hsession (by simp)
  | result i hactive hstate =>
      refine hn.append hsession (by simp [EdgeSrNode.resultEvent, EDGE_TYPE_SR_RESULT,
        EDGE_TYPE_SR_RECEIVED]) ?_ (by simp [EdgeSrNode.resultEvent, EDGE_TYPE_SR_RESULT,
        EDGE_TYPE_SR_OPEN_ACK])
      intro p hp
      rw [List.mem_singleton, EdgeSrNode.resultEvent, NodeEvent.emit.injEq] at hp
      obtain ⟨raw, hraw, hresult⟩ := hlog.slot_executed i hstate
      refine ⟨_, raw, List.mem_append_left _ hraw, ?_⟩
      rw [hp.2, hresult]
      rfl
  | resend => exact hn.append_quiet hsession (by simp)

theorem closeInv_act (h : NodeAct inp n es n') (hn : CloseInv n log) :
    CloseInv n' (log ++ es) := by
  have hsession := nodeAct_session_le h
  cases h with
  | close i now hgap =>
      refine ⟨?_, List.pairwise_append.mpr ⟨hn.final, List.pairwise_singleton _ _, by simp⟩⟩
      intro s hs
      refine ⟨?_, fun _ => rfl⟩
      rcases List.mem_append.mp hs with hs | hs
      · exact (hn.closed s hs).1
      · rw [List.mem_singleton, NodeEvent.close.injEq] at hs
        exact hs ▸ UInt64.le_refl _
  | execute i result now hactive =>
      refine hn.append hsession (fun _ h => h) (by simp) ?_
      simp [EdgeSrNode.commandOf, hactive]
  | «open» session hinp hlt =>
      refine hn.append hsession ?_ (by simp) (by simp)
      rintro rfl
      exact absurd hlt (UInt64.lt_irrefl _)
  | result =>
      refine hn.append hsession (fun _ h => h) ?_ ?_ <;> simp [EdgeSrNode.resultEvent]
  | _ => exact hn.append hsession (fun _ h => h) (by simp) (by simp)

/-- **The invariants hold along every run of the receiver.** -/
theorem nodeInv_steps (h : Steps (NodeAct inp) n es n') (hn : NodeInv n log) :
    NodeInv n' (log ++ es) :=
  Steps.invariant (fun _ _ _ _ hI hact =>
    ⟨slotInv_act hact hI.slots, logInv_act hact hI.record, emitInv_act hact hI.record hI.emits,
      closeInv_act hact hI.closes⟩) log h hn

theorem steps_session_le (h : Steps (NodeAct inp) n es n') : n.session ≤ n'.session :=
  h.preserves (I := fun m => n.session ≤ m.session)
    (fun _ _ _ hI hact => UInt64.le_trans hI (nodeAct_session_le hact)) (UInt64.le_refl _)

/-- What is executed belongs to the session of before, or a later one. -/
theorem steps_execute_session (h : Steps (NodeAct inp) n es n') :
    ∀ c ∈ executes es, n.session ≤ c.session := by
  have hrun := Steps.invariant
    (I := fun m log => n.session ≤ m.session ∧ ∀ c ∈ executes log, n.session ≤ c.session) ?_ [] h
    ⟨UInt64.le_refl _, by simp⟩
  · exact hrun.2
  · rintro m log es m' ⟨hle, hlog⟩ hact
    refine ⟨UInt64.le_trans hle (nodeAct_session_le hact), ?_⟩
    rw [executes_append, List.forall_mem_append]
    refine ⟨hlog, fun c hc => ?_⟩
    obtain ⟨raw, hraw⟩ := mem_executes.mp hc
    cases hact with
    | execute i result now =>
        obtain rfl : c = m.commandOf (m.entries i) := by
          have : c = m.commandOf (m.entries i) ∧ raw = result := by simpa using hraw
          exact this.1
        exact hle
    | result => simp [EdgeSrNode.resultEvent] at hraw
    | _ => simp at hraw

/-! ## What a call takes from its input -/

/-- A command is stored only from a command frame with that command, and is confirmed in the same
call. -/
theorem steps_store (h : Steps (NodeAct inp) n es n') :
    ∀ c ∈ stores es, inp = .command c ∧
      .emit EDGE_TYPE_SR_RECEIVED (receivedPayload c.session c.seq) ∈ es := by
  refine Steps.invariant (I := fun _ log => ∀ c ∈ stores log, inp = .command c ∧
    .emit EDGE_TYPE_SR_RECEIVED (receivedPayload c.session c.seq) ∈ log) ?_ [] h (by simp)
  intro m log es m' hI hact c hc
  rw [stores_append, List.mem_append] at hc
  rcases hc with hc | hc
  · exact ⟨(hI c hc).1, List.mem_append_left _ (hI c hc).2⟩
  · rw [mem_stores] at hc
    cases hact with
    | store i seq command args now hinp =>
        obtain rfl : c = ⟨m.session, seq, command, args⟩ := by simpa using hc
        exact ⟨hinp, by simp⟩
    | result => simp [EdgeSrNode.resultEvent] at hc
    | _ => simp at hc

/-- A session becomes current only by an open frame with that session. -/
theorem steps_session (h : Steps (NodeAct inp) n es n') :
    n'.session = n.session ∨ inp = .openSession n'.session := by
  refine h.preserves (I := fun m => m.session = n.session ∨ inp = .openSession m.session) ?_
    (.inl rfl)
  intro m es m' hI hact
  cases hact with
  | «open» session hinp => exact .inr hinp
  | _ => exact hI

end Runs

end EdgeGateway
