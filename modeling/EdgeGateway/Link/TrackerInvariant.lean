import EdgeGateway.Link.TrackerAction

set_option autoImplicit false

/-! # The sender's invariants

The window and the entries; the record of what was accepted, sent and completed; and the balance
of the two: every accepted command is in flight or completed.
-/

namespace EdgeGateway

/-! ## The record -/

def TrackerEvent.submitted? : TrackerEvent → Option Command
  | .submit c _ => some c
  | _ => none

def TrackerEvent.finished? : TrackerEvent → Option (UInt64 × CommandCompletion)
  | .finish session completion => some (session, completion)
  | _ => none

/-- The commands accepted, in order. -/
def submits (log : List TrackerEvent) : List Command := log.filterMap TrackerEvent.submitted?

/-- The completions, in order, with their sessions. -/
def finishes (log : List TrackerEvent) : List (UInt64 × CommandCompletion) :=
  log.filterMap TrackerEvent.finished?

/-- What identifies a command in a completion: session, sequence number and type. -/
abbrev Ticket := UInt64 × UInt8 × UInt8

def Command.ticket (c : Command) : Ticket := (c.session, c.seq, c.type)

def finishTicket (f : UInt64 × CommandCompletion) : Ticket := (f.1, f.2.seq, f.2.type)

/-- The tickets of the entries. -/
def CommandTracker.inflight (t : CommandTracker) : List Ticket :=
  t.entries.toList.map fun entry => (t.session, entry.1, entry.2.type)

@[simp] theorem submits_nil : submits [] = [] := rfl

@[simp] theorem finishes_nil : finishes [] = [] := rfl

@[simp] theorem submits_append (log es : List TrackerEvent) :
    submits (log ++ es) = submits log ++ submits es :=
  List.filterMap_append

@[simp] theorem finishes_append (log es : List TrackerEvent) :
    finishes (log ++ es) = finishes log ++ finishes es :=
  List.filterMap_append

theorem mem_submits {c : Command} {log : List TrackerEvent} :
    c ∈ submits log ↔ ∃ now, .submit c now ∈ log := by
  rw [submits, List.mem_filterMap]
  constructor
  · rintro ⟨e, he, hc⟩
    cases e <;> simp_all [TrackerEvent.submitted?]
    exact ⟨_, he⟩
  · rintro ⟨now, h⟩
    exact ⟨_, h, rfl⟩

theorem mem_finishes {f : UInt64 × CommandCompletion} {log : List TrackerEvent} :
    f ∈ finishes log ↔ .finish f.1 f.2 ∈ log := by
  rw [finishes, List.mem_filterMap]
  constructor
  · rintro ⟨e, he, hf⟩
    cases e <;> simp_all [TrackerEvent.finished?]
    subst hf
    exact he
  · intro h
    exact ⟨_, h, rfl⟩

theorem finishes_events (session : UInt64) (actions : TrackerActions) :
    finishes (actions.events session) = actions.finished.map fun c => (session, c) := by
  rw [TrackerActions.events, finishes_append, finishes, finishes, List.filterMap_map,
    List.filterMap_map]
  rw [show (TrackerEvent.finished? ∘ TrackerEvent.send) = fun _ => none from rfl]
  rw [show (TrackerEvent.finished? ∘ TrackerEvent.finish session) = some ∘ fun c => (session, c)
    from rfl, List.filterMap_eq_map]
  simp

theorem submits_events (session : UInt64) (actions : TrackerActions) :
    submits (actions.events session) = [] := by
  rw [submits, List.filterMap_eq_nil_iff]
  intro e he
  rcases List.mem_append.mp he with he | he
  · obtain ⟨completion, -, rfl⟩ := List.mem_map.mp he
    rfl
  · obtain ⟨send, -, rfl⟩ := List.mem_map.mp he
    rfl

namespace CommandTracker

/-! ## Invariants -/

/-- The window, and what the entries agree on with it. Commands are in flight only in a session
that is ready. -/
structure WindowInv (t : CommandTracker) : Prop where
  next_le : t.next ≤ 256
  base_le : t.base ≤ t.next
  window : t.next ≤ t.base + EDGE_SR_WINDOW_SIZE
  entry_lt : ∀ seq e, t.entries.find? seq = some e → seq.toNat < t.next
  entry_received : ∀ seq e, t.entries.find? seq = some e → e.received = t.received seq
  received_lt : ∀ seq, t.received seq = true → seq.toNat < t.next
  received_base : ∀ seq : UInt8, seq.toNat < t.base → t.received seq = true
  idle : t.state ≠ .ready → t.entries = KeyMap.empty
  opening : t.state = .opening → t.next = 0

/-- The record of accepted commands and of the frames sent. -/
structure RecordInv (t : CommandTracker) (log : List TrackerEvent) : Prop where
  submit_session : ∀ c ∈ submits log, c.session ≤ t.session
  submit_seq : ∀ c ∈ submits log, c.session = t.session → c.seq.toNat < t.next
  submit_sorted : (submits log).Pairwise fun c d => c.index < d.index
  submit_args : ∀ c ∈ submits log, c.args.length ≤ EDGE_SR_ARGS_MAX
  entry_queued : ∀ seq e, t.entries.find? seq = some e →
    .submit ⟨t.session, seq, e.type, e.args⟩ e.queuedAt ∈ log
  sent_command : ∀ s, .send s ∈ log → s.type = EDGE_TYPE_SR_COMMAND →
    ∃ c ∈ submits log, s.payload = commandPayload c.session c.seq c.type c.args
  sent_open : ∀ s, .send s ∈ log → s.type = EDGE_TYPE_SR_OPEN →
    ∃ session, session ≤ t.session ∧ s.payload = edgeU64BeWrite session
  sent_length : ∀ s, .send s ∈ log → s.payload.length ≤ EDGE_PAYLOAD_MAX

/-- Every accepted command is completed or in flight, once. -/
def Balanced (t : CommandTracker) (log : List TrackerEvent) : Prop :=
  ((finishes log).map finishTicket ++ t.inflight).Perm ((submits log).map Command.ticket)

structure TrackerInv (t : CommandTracker) (log : List TrackerEvent) : Prop where
  window : WindowInv t
  record : RecordInv t log
  balance : Balanced t log

theorem trackerInv_new : TrackerInv new [] where
  window :=
    { next_le := Nat.zero_le _
      base_le := Nat.le_refl _
      window := Nat.zero_le _
      entry_lt := fun _ _ h => by cases h
      entry_received := fun _ _ h => by cases h
      received_lt := fun _ h => by cases h
      received_base := fun _ h => absurd h (Nat.not_lt_zero _)
      idle := fun _ => rfl
      opening := fun h => by cases h }
  record :=
    { submit_session := by simp
      submit_seq := by simp
      submit_sorted := List.Pairwise.nil
      submit_args := by simp
      entry_queued := fun _ _ h => by cases h
      sent_command := by simp
      sent_open := by simp
      sent_length := by simp }
  balance := by simp [Balanced, inflight, new]

/-! ## The left edge of the window -/

/-- The edge stops at the first number without a receipt. -/
theorem slideBase_spec (t : CommandTracker) (fuel : Nat) :
    ∀ base, base + fuel = t.next → ∃ b, t.slideBase fuel base = b ∧ base ≤ b ∧ b ≤ t.next ∧
      (∀ q, base ≤ q → q < b → t.received (UInt8.ofNat q) = true) ∧
      (b < t.next → t.received (UInt8.ofNat b) = false) := by
  induction fuel with
  | zero =>
      intro base hbase
      exact ⟨base, rfl, Nat.le_refl _, by omega, fun q h h' => absurd h (by omega),
        fun h => absurd h (by omega)⟩
  | succ fuel ih =>
      intro base hbase
      unfold slideBase
      by_cases hreceived : base < t.next ∧ t.received (UInt8.ofNat base) = true
      · rw [if_pos hreceived]
        obtain ⟨b, hb, hle, hnext, hall, hstop⟩ := ih (base + 1) (by omega)
        refine ⟨b, hb, by omega, hnext, ?_, hstop⟩
        intro q hq hqb
        rcases Nat.eq_or_lt_of_le hq with rfl | hlt
        · exact hreceived.2
        · exact hall q hlt hqb
      · rw [if_neg hreceived]
        refine ⟨base, rfl, Nat.le_refl _, by omega, fun q h h' => absurd h (by omega), ?_⟩
        intro hlt
        simpa using not_and.mp hreceived hlt

theorem ofNat_next_toNat {t : CommandTracker} (h : t.next < 256) :
    (UInt8.ofNat t.next).toNat = t.next :=
  UInt8.toNat_ofNat_of_lt' h

theorem canSubmit_spec {t : CommandTracker} (h : t.canSubmit = true) :
    t.state = .ready ∧ t.next < 256 ∧ t.next < t.base + EDGE_SR_WINDOW_SIZE := by
  simp only [canSubmit, decide_eq_true_eq] at h
  exact ⟨h.1, h.2.1, h.2.2.1⟩

/-- The number of a new command is not in use. -/
theorem WindowInv.next_new {t : CommandTracker} (h : WindowInv t) (hlt : t.next < 256) :
    t.entries.find? (UInt8.ofNat t.next) = none := by
  cases hfind : t.entries.find? (UInt8.ofNat t.next) with
  | none => rfl
  | some e =>
      have := h.entry_lt _ e hfind
      rw [ofNat_next_toNat hlt] at this
      exact absurd this (Nat.lt_irrefl _)

/-- Only a ready tracker has commands in flight. -/
theorem WindowInv.ready_of_entry {t : CommandTracker} (h : WindowInv t) {seq : UInt8} {e : Entry}
    (hentry : t.entries.find? seq = some e) : t.state = .ready := by
  by_contra hnot
  rw [h.idle hnot] at hentry
  cases hentry

/-! ## The actions on the window -/

section Actions

variable {t t' : CommandTracker} {log : List TrackerEvent}

theorem SameData.windowInv (h : SameData t t') (hw : WindowInv t)
    (hstate : t'.state = t.state ∨ t.state = .opening ∧ t'.state = .failed) : WindowInv t' where
  next_le := h.next ▸ hw.next_le
  base_le := h.base ▸ h.next ▸ hw.base_le
  window := h.base ▸ h.next ▸ hw.window
  entry_lt := h.entries ▸ h.next ▸ hw.entry_lt
  entry_received := h.entries ▸ h.received ▸ hw.entry_received
  received_lt := h.received ▸ h.next ▸ hw.received_lt
  received_base := h.received ▸ h.base ▸ hw.received_base
  idle := by
    intro hnot
    rw [h.entries]
    refine hw.idle fun hready => ?_
    rcases hstate with heq | ⟨hopening, -⟩
    · exact hnot (heq.trans hready)
    · cases (hopening.symm.trans hready)
  opening := by
    intro hopening
    rw [h.next]
    rcases hstate with heq | ⟨-, hfailed⟩
    · exact hw.opening (heq ▸ hopening)
    · cases (hfailed.symm.trans hopening)

theorem windowInv_openSession (hempty : t.entries = KeyMap.empty) (session : UInt64)
    (now : TimePoint) : WindowInv (t.openSession session now) where
  next_le := Nat.zero_le _
  base_le := Nat.le_refl _
  window := Nat.zero_le _
  entry_lt := by
    intro seq e he
    rw [show (t.openSession session now).entries = t.entries from rfl, hempty] at he
    cases he
  entry_received := by
    intro seq e he
    rw [show (t.openSession session now).entries = t.entries from rfl, hempty] at he
    cases he
  received_lt := fun _ h => by cases h
  received_base := fun _ h => absurd h (Nat.not_lt_zero _)
  idle := fun _ => hempty
  opening := fun _ => rfl

theorem windowInv_submitted (hw : WindowInv t) (hcan : t.canSubmit = true) (type : UInt8)
    (args : List UInt8) (now : TimePoint) : WindowInv (t.submitted (Entry.new type args now)) := by
  obtain ⟨hready, hlt, hwindow⟩ := canSubmit_spec hcan
  have hfind : ∀ seq, (t.submitted (Entry.new type args now)).entries.find? seq =
      if seq = UInt8.ofNat t.next then some (Entry.new type args now)
      else t.entries.find? seq :=
    KeyMap.find?_emplace (hw.next_new hlt) _
  have hnext : (t.submitted (Entry.new type args now)).next = t.next + 1 := rfl
  constructor
  case next_le => exact hlt
  case base_le => exact Nat.le_succ_of_le hw.base_le
  case window => exact hwindow
  case entry_lt =>
    intro seq e he
    rw [hfind] at he
    rw [hnext]
    split_ifs at he with hseq
    · rw [hseq, ofNat_next_toNat hlt]
      omega
    · exact Nat.lt_succ_of_lt (hw.entry_lt seq e he)
  case entry_received =>
    intro seq e he
    rw [hfind] at he
    show e.received = t.received seq
    split_ifs at he with hseq
    · obtain rfl := Option.some.inj he
      -- nothing was received for a number that was not used
      cases hreceived : t.received seq with
      | false => rfl
      | true =>
          have := hw.received_lt seq hreceived
          rw [hseq, ofNat_next_toNat hlt] at this
          exact absurd this (Nat.lt_irrefl _)
    · exact hw.entry_received seq e he
  case received_lt => exact fun seq h => Nat.lt_succ_of_lt (hw.received_lt seq h)
  case received_base => exact hw.received_base
  case idle => exact fun h => absurd hready h
  case opening =>
    intro h
    cases (hready.symm.trans h)

theorem receive_entries (t : CommandTracker) (seq seq' : UInt8) :
    (t.receive seq).entries.find? seq' =
      if seq' = seq then (t.entries.find? seq').map fun e => { e with received := true }
      else t.entries.find? seq' :=
  KeyMap.find?_modify _ _ _ _

theorem receive_received (t : CommandTracker) (seq seq' : UInt8) :
    (t.receive seq).received seq' = if seq' = seq then true else t.received seq' := by
  show Function.update t.received seq true seq' = _
  rw [Function.update_apply]

theorem windowInv_receive (hw : WindowInv t) {seq : UInt8} {e : Entry}
    (hentry : t.entries.find? seq = some e) : WindowInv (t.receive seq) := by
  have hfuel : t.base + (t.next - t.base) = t.next := Nat.add_sub_of_le hw.base_le
  obtain ⟨b, hb, hle, hnext, hall, -⟩ := slideBase_spec { t with
    received := Function.update t.received seq true
    entries := t.entries.modify seq fun e => { e with received := true } } _ t.base hfuel
  have hb' : (t.receive seq).base = b := hb
  constructor
  case next_le => exact hw.next_le
  case base_le => exact hb' ▸ hnext
  case window =>
    have := hw.window
    rw [hb']
    show t.next ≤ b + EDGE_SR_WINDOW_SIZE
    omega
  case entry_lt =>
    intro seq' e' he'
    rw [receive_entries] at he'
    split_ifs at he' with hseq
    · exact hseq ▸ hw.entry_lt seq e hentry
    · exact hw.entry_lt seq' e' he'
  case entry_received =>
    intro seq' e' he'
    rw [receive_entries] at he'
    rw [receive_received]
    split_ifs at he' ⊢ with hseq
    · obtain ⟨e₀, -, rfl⟩ := Option.map_eq_some_iff.mp he'
      rfl
    · exact hw.entry_received seq' e' he'
  case received_lt =>
    intro seq' h
    rw [receive_received] at h
    split_ifs at h with hseq
    · exact hseq ▸ hw.entry_lt seq e hentry
    · exact hw.received_lt seq' h
  case received_base =>
    intro seq' h
    rw [hb'] at h
    by_cases hlow : seq'.toNat < t.base
    · rw [receive_received, hw.received_base seq' hlow, ite_self]
    · have := hall seq'.toNat (Nat.not_lt.mp hlow) h
      rwa [UInt8.ofNat_toNat] at this
  case idle => exact fun h => absurd (hw.ready_of_entry hentry) h
  case opening =>
    intro h
    cases h.symm.trans (hw.ready_of_entry hentry)

/-- Dropping entries keeps the window. -/
theorem WindowInv.sub (hw : WindowInv t) (hbase : t'.base = t.base) (hnext : t'.next = t.next)
    (hreceived : t'.received = t.received) (hstate : t'.state = t.state)
    (hsub : ∀ seq e, t'.entries.find? seq = some e → ∃ e₀, t.entries.find? seq = some e₀ ∧
      e.received = e₀.received) : WindowInv t' where
  next_le := hnext ▸ hw.next_le
  base_le := hbase ▸ hnext ▸ hw.base_le
  window := hbase ▸ hnext ▸ hw.window
  entry_lt := by
    intro seq e he
    obtain ⟨e₀, he₀, -⟩ := hsub seq e he
    exact hnext ▸ hw.entry_lt seq e₀ he₀
  entry_received := by
    intro seq e he
    obtain ⟨e₀, he₀, heq⟩ := hsub seq e he
    rw [heq, hreceived]
    exact hw.entry_received seq e₀ he₀
  received_lt := hreceived ▸ hnext ▸ hw.received_lt
  received_base := hreceived ▸ hbase ▸ hw.received_base
  idle := by
    intro h
    ext seq e
    constructor
    · intro he
      obtain ⟨e₀, he₀, -⟩ := hsub seq e he
      rw [hw.idle (hstate ▸ h)] at he₀
      cases he₀
    · intro he
      cases he
  opening := fun h => hnext ▸ hw.opening (hstate ▸ h)

/-- Entries that agree in what identifies the command. -/
theorem find?_of_same {entries : KeyMap UInt8 Entry}
    (hsame : ∀ seq, (entries.find? seq).map (fun e => (e.type, e.args, e.queuedAt, e.received)) =
      (t.entries.find? seq).map (fun e => (e.type, e.args, e.queuedAt, e.received)))
    {seq : UInt8} {e : Entry} (he : entries.find? seq = some e) :
    ∃ e₀, t.entries.find? seq = some e₀ ∧ e.type = e₀.type ∧ e.args = e₀.args ∧
      e.queuedAt = e₀.queuedAt ∧ e.received = e₀.received := by
  have := hsame seq
  rw [he, Option.map_some] at this
  obtain ⟨e₀, he₀, heq⟩ := Option.map_eq_some_iff.mp this.symm
  rw [Prod.mk.injEq, Prod.mk.injEq, Prod.mk.injEq] at heq
  exact ⟨e₀, he₀, heq.1.symm, heq.2.1.symm, heq.2.2.1.symm, heq.2.2.2.symm⟩

theorem windowInv_act {call : TrackerCall} {es : List TrackerEvent}
    (h : TrackerAct call t es t') (hw : WindowInv t) : WindowInv t' := by
  cases h with
  | handshake _ hdata hstate => exact SameData.windowInv hdata hw hstate
  | exhausted hempty =>
      exact { hw with
        idle := fun _ => hempty
        opening := fun h => by cases h }
  | begin session now hwhy hempty => exact windowInv_openSession hempty session now
  | rejected p highWater hframe hstate => exact { hw with }
  | openSent => exact hw
  | ready p hframe hstate =>
      exact { hw with
        idle := fun h => absurd rfl h
        opening := fun h => by cases h }
  | submit type args now hcan => exact windowInv_submitted hw hcan type args now
  | dataSent => exact hw
  | received type p seq e hframe htype hsession hseq hentry => exact windowInv_receive hw hentry
  | result p seq e hframe hsession hseq hentry =>
      refine hw.sub rfl rfl rfl rfl fun seq' e' he' => ?_
      rw [show (t.finished seq).entries = t.entries.erase seq from rfl, KeyMap.find?_erase] at he'
      split_ifs at he'
      exact ⟨e', he', rfl⟩
  | ackSent => exact hw
  | entries entries hsame =>
      refine hw.sub rfl rfl rfl rfl fun seq e he => ?_
      obtain ⟨e₀, he₀, -, -, -, hreceived⟩ := find?_of_same hsame he
      exact ⟨e₀, he₀, hreceived⟩
  | cancel =>
      refine hw.sub rfl rfl rfl rfl fun seq e he => ?_
      cases he

/-! ## The actions on the record -/

/-- Sessions never become lower. -/
theorem act_session_le {call : TrackerCall} {es : List TrackerEvent}
    (h : TrackerAct call t es t') : t.session ≤ t'.session := by
  cases h with
  | handshake _ hdata => exact hdata.session ▸ UInt64.le_refl _
  | begin session now hwhy hempty hlt => exact UInt64.le_of_lt hlt
  | rejected p highWater hframe hstate hsession hwater hle hmax =>
      exact UInt64.le_trans hle (UInt64.le_of_lt (lt_session_succ hmax))
  | _ => exact UInt64.le_refl _

/-- Actions that accept nothing: the entries left are entries of before, and the frames sent are
explained. -/
theorem RecordInv.append (hr : RecordInv t log) {es : List TrackerEvent}
    (hsession : t.session ≤ t'.session) (hnext : t'.session = t.session → t.next ≤ t'.next)
    (hentries : ∀ seq e, t'.entries.find? seq = some e → t'.session = t.session ∧
      ∃ e₀, t.entries.find? seq = some e₀ ∧ e.type = e₀.type ∧ e.args = e₀.args ∧
        e.queuedAt = e₀.queuedAt)
    (hsubmits : submits es = [])
    (hcommand : ∀ s, .send s ∈ es → s.type = EDGE_TYPE_SR_COMMAND →
      ∃ c ∈ submits log, s.payload = commandPayload c.session c.seq c.type c.args)
    (hopen : ∀ s, .send s ∈ es → s.type = EDGE_TYPE_SR_OPEN →
      ∃ session, session ≤ t'.session ∧ s.payload = edgeU64BeWrite session)
    (hlength : ∀ s, .send s ∈ es → s.payload.length ≤ EDGE_PAYLOAD_MAX) :
    RecordInv t' (log ++ es) where
  submit_session := by
    intro c hc
    rw [submits_append, hsubmits, List.append_nil] at hc
    exact UInt64.le_trans (hr.submit_session c hc) hsession
  submit_seq := by
    intro c hc heq
    rw [submits_append, hsubmits, List.append_nil] at hc
    have hsame : t'.session = t.session :=
      UInt64.le_antisymm (heq ▸ hr.submit_session c hc) hsession
    exact Nat.lt_of_lt_of_le (hr.submit_seq c hc (heq.trans hsame)) (hnext hsame)
  submit_sorted := by
    rw [submits_append, hsubmits, List.append_nil]
    exact hr.submit_sorted
  submit_args := by
    rw [submits_append, hsubmits, List.append_nil]
    exact hr.submit_args
  entry_queued := by
    intro seq e he
    obtain ⟨hsame, e₀, he₀, htype, hargs, hqueued⟩ := hentries seq e he
    rw [hsame, htype, hargs, hqueued]
    exact List.mem_append_left _ (hr.entry_queued seq e₀ he₀)
  sent_command := by
    intro s hs htype
    rw [submits_append, hsubmits, List.append_nil]
    rcases List.mem_append.mp hs with hs | hs
    · exact hr.sent_command s hs htype
    · exact hcommand s hs htype
  sent_open := by
    intro s hs htype
    rcases List.mem_append.mp hs with hs | hs
    · obtain ⟨session, hle, hp⟩ := hr.sent_open s hs htype
      exact ⟨session, UInt64.le_trans hle hsession, hp⟩
    · exact hopen s hs htype
  sent_length := by
    intro s hs
    rcases List.mem_append.mp hs with hs | hs
    · exact hr.sent_length s hs
    · exact hlength s hs

/-- Actions that accept and send nothing in the current session. -/
theorem RecordInv.quiet (hr : RecordInv t log) {es : List TrackerEvent}
    (hsession : t'.session = t.session) (hnext : t'.next = t.next)
    (hentries : ∀ seq e, t'.entries.find? seq = some e →
      ∃ e₀, t.entries.find? seq = some e₀ ∧ e.type = e₀.type ∧ e.args = e₀.args ∧
        e.queuedAt = e₀.queuedAt)
    (hsubmits : submits es = []) (hsends : ∀ s, .send s ∉ es) : RecordInv t' (log ++ es) :=
  hr.append (hsession ▸ UInt64.le_refl _) (fun _ => hnext ▸ Nat.le_refl _)
    (fun seq e he => ⟨hsession, hentries seq e he⟩) hsubmits (fun s hs => absurd hs (hsends s))
    (fun s hs => absurd hs (hsends s)) (fun s hs => absurd hs (hsends s))

/-- A frame that is explained is handed out. -/
theorem RecordInv.sent (hr : RecordInv t log) {s : CommandSend}
    (hcommand : s.type = EDGE_TYPE_SR_COMMAND →
      ∃ c ∈ submits log, s.payload = commandPayload c.session c.seq c.type c.args)
    (hopen : s.type = EDGE_TYPE_SR_OPEN →
      ∃ session, session ≤ t.session ∧ s.payload = edgeU64BeWrite session)
    (hlength : s.payload.length ≤ EDGE_PAYLOAD_MAX) : RecordInv t (log ++ [.send s]) := by
  have honly : ∀ {s'}, TrackerEvent.send s' ∈ [TrackerEvent.send s] → s' = s := by
    intro s' hs'
    simpa using hs'
  exact hr.append (UInt64.le_refl _) (fun _ => Nat.le_refl _)
    (fun seq e he => ⟨rfl, e, he, rfl, rfl, rfl⟩) rfl
    (fun s' hs' => honly hs' ▸ hcommand) (fun s' hs' => honly hs' ▸ hopen)
    (fun s' hs' => honly hs' ▸ hlength)

theorem RecordInv.entry_submitted (hr : RecordInv t log) {seq : UInt8} {e : Entry}
    (he : t.entries.find? seq = some e) :
    (⟨t.session, seq, e.type, e.args⟩ : Command) ∈ submits log :=
  mem_submits.mpr ⟨_, hr.entry_queued seq e he⟩

/-- No number is accepted twice in a session. -/
theorem RecordInv.submits_nodup (hr : RecordInv t log) :
    ((submits log).map fun c => (c.session, c.seq)).Nodup := by
  refine List.pairwise_map.mpr (hr.submit_sorted.imp fun {c d} hlt heq => ?_)
  rw [Prod.mk.injEq] at heq
  simp only [Command.index, heq.1, heq.2] at hlt
  exact Nat.lt_irrefl _ hlt

theorem recordInv_submitted (hr : RecordInv t log) (hw : WindowInv t) (hcan : t.canSubmit = true)
    (type : UInt8) {args : List UInt8} (now : TimePoint)
    (hargs : args.length ≤ EDGE_SR_ARGS_MAX) :
    RecordInv (t.submitted (Entry.new type args now))
      (log ++ [.submit ⟨t.session, UInt8.ofNat t.next, type, args⟩ now]) := by
  obtain ⟨hready, hlt, -⟩ := canSubmit_spec hcan
  have hsubmits : submits (log ++ [.submit ⟨t.session, UInt8.ofNat t.next, type, args⟩ now]) =
      submits log ++ [⟨t.session, UInt8.ofNat t.next, type, args⟩] := by
    rw [submits_append]
    rfl
  constructor
  case submit_session =>
    rw [hsubmits, List.forall_mem_append]
    exact ⟨hr.submit_session, by simp [submitted]⟩
  case submit_seq =>
    rw [hsubmits, List.forall_mem_append]
    refine ⟨fun c hc hs => Nat.lt_succ_of_lt (hr.submit_seq c hc hs), ?_⟩
    intro c hc _
    rw [List.mem_singleton] at hc
    subst hc
    show (UInt8.ofNat t.next).toNat < t.next + 1
    rw [ofNat_next_toNat hlt]
    omega
  case submit_sorted =>
    rw [hsubmits, List.pairwise_append]
    refine ⟨hr.submit_sorted, List.pairwise_singleton _ _, ?_⟩
    intro c hc d hd
    rw [List.mem_singleton] at hd
    subst hd
    rcases UInt64.lt_or_eq_of_le (hr.submit_session c hc) with hs | hs
    · exact Command.index_lt_of_session hs
    · refine Command.index_lt_of_seq hs ?_
      rw [ofNat_next_toNat hlt]
      exact hr.submit_seq c hc hs
  case submit_args =>
    rw [hsubmits, List.forall_mem_append]
    exact ⟨hr.submit_args, by simpa using hargs⟩
  case entry_queued =>
    intro seq e he
    rw [show (t.submitted (Entry.new type args now)).entries =
      t.entries.emplace (UInt8.ofNat t.next) (Entry.new type args now) from rfl,
      KeyMap.find?_emplace (hw.next_new hlt)] at he
    rw [List.mem_append]
    split_ifs at he with hseq
    · obtain rfl := Option.some.inj he
      exact .inr (by rw [hseq]; exact List.mem_singleton.mpr rfl)
    · exact .inl (hr.entry_queued seq e he)
  case sent_command =>
    intro s hs htype
    obtain ⟨c, hc, hp⟩ := hr.sent_command s (by simpa using hs) htype
    exact ⟨c, by rw [hsubmits]; exact List.mem_append_left _ hc, hp⟩
  case sent_open =>
    intro s hs htype
    exact hr.sent_open s (by simpa using hs) htype
  case sent_length => exact fun s hs => hr.sent_length s (by simpa using hs)

theorem dataSend_length {t : CommandTracker} {log : List TrackerEvent} (hr : RecordInv t log)
    {seq : UInt8} {e : Entry} (hentry : t.entries.find? seq = some e) :
    (t.dataSend seq e).payload.length ≤ EDGE_PAYLOAD_MAX := by
  have hargs := hr.submit_args _ (hr.entry_submitted hentry)
  simp only [dataSend, commandPayload, List.length_append, edgeU64BeWrite_length, List.length_cons,
    EDGE_SR_ARGS_MAX, EDGE_PAYLOAD_MAX] at hargs ⊢
  omega

theorem recordInv_act {call : TrackerCall} {es : List TrackerEvent}
    (h : TrackerAct call t es t') (hw : WindowInv t) (hr : RecordInv t log) :
    RecordInv t' (log ++ es) := by
  have hself : ∀ seq e, t.entries.find? seq = some e → ∃ e₀, t.entries.find? seq = some e₀ ∧
      e.type = e₀.type ∧ e.args = e₀.args ∧ e.queuedAt = e₀.queuedAt :=
    fun seq e he => ⟨e, he, rfl, rfl, rfl⟩
  have hsession := act_session_le h
  cases h with
  | handshake _ hdata =>
      exact hr.quiet hdata.session hdata.next (hdata.entries ▸ hself) rfl (by simp)
  | exhausted => exact hr.quiet rfl rfl hself rfl (by simp)
  | begin session now hwhy hempty hlt =>
      refine hr.append hsession ?_ ?_ rfl (by simp) (by simp) (by simp)
      · intro heq
        exact absurd (heq ▸ hlt) (UInt64.lt_irrefl _)
      · intro seq e he
        rw [show (t.openSession session now).entries = t.entries from rfl, hempty] at he
        cases he
  | rejected p highWater hframe hstate hsession hwater hle hmax =>
      refine hr.append hsession (fun _ => Nat.le_refl _) ?_ rfl (by simp) (by simp) (by simp)
      intro seq e he
      rw [hw.idle (by rw [hstate]; decide)] at he
      cases he
  | openSent =>
      refine hr.sent (fun htype => ?_) (fun _ => ⟨t.session, UInt64.le_refl _, rfl⟩) ?_
      · exact absurd htype (show EDGE_TYPE_SR_OPEN ≠ EDGE_TYPE_SR_COMMAND by decide)
      · rw [openSend, edgeU64BeWrite_length]
        decide
  | ready => exact hr.quiet rfl rfl hself rfl (by simp)
  | submit type args now hcan hargs => exact recordInv_submitted hr hw hcan type now hargs
  | dataSent seq e hentry =>
      refine hr.sent (fun _ => ⟨_, hr.entry_submitted hentry, rfl⟩) (fun htype => ?_)
        (dataSend_length hr hentry)
      exact absurd htype (show EDGE_TYPE_SR_COMMAND ≠ EDGE_TYPE_SR_OPEN by decide)
  | received type p seq e =>
      refine hr.quiet rfl rfl ?_ rfl (by simp)
      intro seq' e' he'
      rw [receive_entries] at he'
      split_ifs at he'
      · obtain ⟨e₀, he₀, rfl⟩ := Option.map_eq_some_iff.mp he'
        exact ⟨e₀, he₀, rfl, rfl, rfl⟩
      · exact ⟨e', he', rfl, rfl, rfl⟩
  | result p seq e =>
      refine hr.quiet rfl rfl ?_ rfl (by simp)
      intro seq' e' he'
      rw [show (t.finished seq).entries = t.entries.erase seq from rfl, KeyMap.find?_erase] at he'
      split_ifs at he'
      exact ⟨e', he', rfl, rfl, rfl⟩
  | ackSent seq =>
      refine hr.sent (fun htype => ?_) (fun htype => ?_) ?_
      · exact absurd htype (show EDGE_TYPE_SR_RESULT_ACK ≠ EDGE_TYPE_SR_COMMAND by decide)
      · exact absurd htype (show EDGE_TYPE_SR_RESULT_ACK ≠ EDGE_TYPE_SR_OPEN by decide)
      · rw [resultAck, List.length_append, edgeU64BeWrite_length]
        show 9 ≤ EDGE_PAYLOAD_MAX
        decide
  | entries entries hsame =>
      refine hr.quiet rfl rfl ?_ rfl (by simp)
      intro seq e he
      obtain ⟨e₀, he₀, htype, hargs, hqueued, -⟩ := find?_of_same hsame he
      exact ⟨e₀, he₀, htype, hargs, hqueued⟩
  | cancel error =>
      refine hr.quiet rfl rfl (fun seq e he => by cases he) ?_ (by simp)
      rw [submits, List.filterMap_map]
      exact List.filterMap_eq_nil_iff.mpr fun _ _ => rfl

/-! ## The actions on the balance -/

theorem inflight_empty (h : t.entries = KeyMap.empty) : t.inflight = [] := by
  rw [inflight, h, KeyMap.toList_empty]
  rfl

/-- The tickets depend on the types alone. -/
theorem inflight_congr (hsession : t'.session = t.session)
    (h : ∀ seq, (t'.entries.find? seq).map Entry.type = (t.entries.find? seq).map Entry.type) :
    t'.inflight = t.inflight := by
  refine KeyMap.map_toList_congr (fun seq e => (t'.session, seq, Entry.type e))
    (fun seq e => (t.session, seq, Entry.type e)) fun seq => ?_
  have := congrArg (Option.map fun type => (t.session, seq, type)) (h seq)
  rw [Option.map_map, Option.map_map] at this
  rw [hsession]
  exact this

/-- Between two states: what was in flight or accepted is completed or in flight. -/
def Settles (t : CommandTracker) (es : List TrackerEvent) (t' : CommandTracker) : Prop :=
  ((finishes es).map finishTicket ++ t'.inflight).Perm
    (t.inflight ++ (submits es).map Command.ticket)

theorem settles_same {es : List TrackerEvent} (hsubmits : submits es = [])
    (hfinishes : finishes es = []) (h : t'.inflight = t.inflight) : Settles t es t' := by
  rw [Settles, hsubmits, hfinishes, h, List.map_nil, List.map_nil, List.append_nil]
  rfl

theorem settles_act {call : TrackerCall} {es : List TrackerEvent} (h : TrackerAct call t es t')
    (hw : WindowInv t) : Settles t es t' := by
  cases h with
  | handshake _ hdata =>
      refine settles_same rfl rfl ?_
      rw [inflight, inflight, hdata.entries, hdata.session]
  | exhausted => exact settles_same rfl rfl rfl
  | begin session now hwhy hempty =>
      refine settles_same rfl rfl ?_
      rw [inflight_empty hempty, inflight_empty (t := t.openSession session now) hempty]
  | rejected p highWater hframe hstate =>
      have hempty := hw.idle (by rw [hstate]; decide)
      refine settles_same rfl rfl ?_
      rw [inflight_empty hempty]
      exact inflight_empty (t := { t with session := highWater + 1, openPending := true }) hempty
  | openSent => exact settles_same rfl rfl rfl
  | ready => exact settles_same rfl rfl rfl
  | submit type args now hcan =>
      obtain ⟨hready, hlt, -⟩ := canSubmit_spec hcan
      have hinflight : (t.submitted (Entry.new type args now)).inflight.Perm
          ((t.session, UInt8.ofNat t.next, type) :: t.inflight) :=
        (KeyMap.toList_emplace_perm (hw.next_new hlt) (Entry.new type args now)).map
          fun entry : UInt8 × Entry => (t.session, entry.1, entry.2.type)
      exact hinflight.trans (List.perm_append_singleton _ _).symm
  | dataSent => exact settles_same rfl rfl rfl
  | received type p seq e =>
      refine settles_same rfl rfl (inflight_congr rfl fun seq' => ?_)
      rw [receive_entries]
      split_ifs
      · rw [Option.map_map]
        rfl
      · rfl
  | result p seq e hframe hsession hseq hentry =>
      rw [Settles, show submits [_] = [] from rfl, List.map_nil, List.append_nil]
      exact ((KeyMap.toList_erase_perm hentry).map
        fun entry : UInt8 × Entry => (t.session, entry.1, entry.2.type)).symm
  | ackSent => exact settles_same rfl rfl rfl
  | entries entries hsame =>
      refine settles_same rfl rfl (inflight_congr rfl fun seq => ?_)
      have := congrArg (Option.map Prod.fst) (hsame seq)
      rwa [Option.map_map, Option.map_map] at this
  | cancel error =>
      have hsubmits : submits (t.entries.toList.map fun entry =>
          .finish t.session (failure entry (error entry.1))) = [] := by
        rw [submits, List.filterMap_map]
        exact List.filterMap_eq_nil_iff.mpr fun _ _ => rfl
      have hfinishes : finishes (t.entries.toList.map fun entry =>
          .finish t.session (failure entry (error entry.1))) =
          t.entries.toList.map fun entry => (t.session, failure entry (error entry.1)) := by
        rw [finishes, List.filterMap_map]
        exact congrFun List.filterMap_eq_map' _
      rw [Settles, hsubmits, hfinishes, List.map_map,
        inflight_empty (t := { t with entries := KeyMap.empty }) rfl, List.append_nil,
        List.map_nil, List.append_nil]
      exact List.Perm.refl _

theorem Balanced.append (hb : Balanced t log) {es : List TrackerEvent} (h : Settles t es t') :
    Balanced t' (log ++ es) := by
  unfold Balanced Settles at *
  rw [finishes_append, submits_append, List.map_append, List.map_append, List.append_assoc]
  calc
    List.Perm ((finishes log).map finishTicket ++ ((finishes es).map finishTicket ++ t'.inflight))
        ((finishes log).map finishTicket ++ (t.inflight ++ (submits es).map Command.ticket)) :=
      h.append_left _
    List.Perm _ ((submits log).map Command.ticket ++ (submits es).map Command.ticket) := by
      rw [← List.append_assoc]
      exact hb.append_right _

theorem Settles.trans {u : CommandTracker} {es es' : List TrackerEvent} (h : Settles t es t')
    (h' : Settles t' es' u) : Settles t (es ++ es') u := by
  unfold Settles at *
  rw [finishes_append, submits_append, List.map_append, List.map_append, List.append_assoc,
    ← List.append_assoc t.inflight]
  calc
    List.Perm ((finishes es).map finishTicket ++ ((finishes es').map finishTicket ++ u.inflight))
        ((finishes es).map finishTicket ++ (t'.inflight ++ (submits es').map Command.ticket)) :=
      h'.append_left _
    List.Perm _
        (t.inflight ++ (submits es).map Command.ticket ++ (submits es').map Command.ticket) := by
      rw [← List.append_assoc]
      exact h.append_right _

end Actions

/-! ## Runs -/

/-- **The invariants hold along every run of the sender.** -/
theorem trackerInv_steps {call : TrackerCall} {t t' : CommandTracker}
    {log es : List TrackerEvent} (h : Steps (TrackerAct call) t es t') (ht : TrackerInv t log) :
    TrackerInv t' (log ++ es) :=
  Steps.invariant (fun _ _ _ _ hI hact =>
    ⟨windowInv_act hact hI.window, recordInv_act hact hI.window hI.record,
      hI.balance.append (settles_act hact hI.window)⟩) log h ht

theorem trackerInv_call {t : CommandTracker} {log : List TrackerEvent} (call : TrackerCall)
    (ht : TrackerInv t log) : TrackerInv (t.call call).1 (log ++ (t.call call).2) :=
  trackerInv_steps (call_acts t call) ht

/-- What a call completes and what it accepts. -/
theorem call_settles {t : CommandTracker} (hw : WindowInv t) (call : TrackerCall) :
    Settles t (t.call call).2 (t.call call).1 := by
  have h := Steps.invariant (I := fun t' es => WindowInv t' ∧ Settles t es t')
    (fun t' es es' u hI hact => ⟨windowInv_act hact hI.1, hI.2.trans (settles_act hact hI.1)⟩) []
    (call_acts t call) ⟨hw, settles_same rfl rfl rfl⟩
  exact h.2

/-- Only `submit` accepts a command: under the next number of a session that is ready. -/
theorem submitted_of_call {t : CommandTracker} {call : TrackerCall} {c : Command}
    (hc : c ∈ submits (t.call call).2) :
    t.state = .ready ∧ c.session = t.session ∧ ∃ now, call = .submit c.type c.args now := by
  cases call with
  | submit type args now =>
      change c ∈ submits (submitEvents type args now (t.submit type args now).2) at hc
      unfold submit at hc
      split_ifs at hc with hreject
      · cases hc
      · rw [not_or, Bool.not_eq_false] at hreject
        obtain rfl : c = ⟨t.session, UInt8.ofNat t.next, type, args⟩ := by
          simpa [submitEvents, dataSend, submits, TrackerEvent.submitted?] using hc
        exact ⟨(canSubmit_spec hreject.1).1, rfl, now, rfl⟩
  | start session now =>
      change c ∈ submits ((t.start session now).2.events t.session) at hc
      rw [submits_events] at hc
      cases hc
  | onFrame type p now =>
      change c ∈ submits ((t.onFrame type p now).2.events t.session) at hc
      rw [submits_events] at hc
      cases hc
  | onWritten send success now =>
      change c ∈ submits ((t.onWritten send success now).2.events t.session) at hc
      rw [submits_events] at hc
      cases hc
  | tick now =>
      change c ∈ submits ((t.tick now).2.events t.session) at hc
      rw [submits_events] at hc
      cases hc

theorem call_session_le (t : CommandTracker) (call : TrackerCall) :
    t.session ≤ (t.call call).1.session :=
  (call_acts t call).preserves (I := fun t' => t.session ≤ t'.session)
    (fun _ _ _ hI hact => UInt64.le_trans hI (act_session_le hact)) (UInt64.le_refl _)

end CommandTracker

end EdgeGateway
