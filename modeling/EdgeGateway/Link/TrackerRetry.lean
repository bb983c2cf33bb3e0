import EdgeGateway.Link.TrackerWindow

set_option autoImplicit false

/-! # Selective retransmission

The frame of a command is handed out when the command is accepted, and again by a tick half a second
after its last write, until a receipt or a result comes, four writes are made or its time is over.
A frame that was handed out waits for its write before the next one is.
-/

namespace EdgeGateway

/-- The send carries the command `seq` of the session. -/
def CommandSend.carries (s : CommandSend) (session : UInt64) (seq : UInt8) : Bool :=
  s.type = EDGE_TYPE_SR_COMMAND ∧ s.session = session ∧ s.seq = seq

theorem CommandSend.carries_iff {s : CommandSend} {session : UInt64} {seq : UInt8} :
    s.carries session seq = true ↔
      s.type = EDGE_TYPE_SR_COMMAND ∧ s.session = session ∧ s.seq = seq := by
  simp only [carries, decide_eq_true_eq]

/-- The frames of commands that were handed out. -/
def commands (log : List TrackerEvent) : List CommandSend :=
  (sends log).filter fun s => s.type = EDGE_TYPE_SR_COMMAND

@[simp] theorem commands_append (log es : List TrackerEvent) :
    commands (log ++ es) = commands log ++ commands es := by
  rw [commands, sends_append, List.filter_append, commands, commands]

theorem mem_commands {s : CommandSend} {log : List TrackerEvent} :
    s ∈ commands log ↔ .send s ∈ log ∧ s.type = EDGE_TYPE_SR_COMMAND := by
  rw [commands, List.mem_filter, mem_sends, decide_eq_true_eq]

/-- The call reports what became of `s`: it was written, or cancelled. -/
def Visit.reports (v : Visit) (s : CommandSend) : Bool :=
  match v.call with
  | .onWritten send _ _ => send.session = s.session ∧ send.type = s.type ∧ send.seq = s.seq ∧
      send.attempt = s.attempt
  | _ => false

/-- The call is accepted as the report of a full write of the command `seq` of the session. -/
def Visit.accepts (v : Visit) (session : UInt64) (seq : UInt8) : Bool :=
  match v.call, v.before.entries.find? seq with
  | .onWritten send true now, some e =>
      send.session = session ∧ send.seq = seq ∧ v.after.entries.find? seq = some (e.written now)
  | _, _ => false

/-- What was handed out and neither written nor cancelled. -/
def outstanding (history : List Visit) : List CommandSend :=
  history.foldl (fun out v => (out.filter fun s => !v.reports s) ++ commands v.events) []

theorem outstanding_append (history : List Visit) (v : Visit) :
    outstanding (history ++ [v]) =
      (outstanding history).filter (fun s => !v.reports s) ++ commands v.events := by
  rw [outstanding, List.foldl_append]
  rfl

namespace CommandTracker

variable {call : TrackerCall} {t t' : CommandTracker} {es : List TrackerEvent}

/-! ## What is handed out -/

/-- The frame of a command is handed out: when it is accepted, or again when it is due. -/
inductive Sent (t : CommandTracker) (call : TrackerCall) (es : List TrackerEvent)
    (t' : CommandTracker) : CommandSend → Prop
  | first (type : UInt8) (args : List UInt8) (now : TimePoint)
      (hcall : call = .submit type args now) (hcan : t.canSubmit = true)
      (hevent : .submit ⟨t.session, UInt8.ofNat t.next, type, args⟩ now ∈ es)
      (hnext : t'.next = t.next + 1)
      (hafter : t'.entries.find? (UInt8.ofNat t.next) = some (Entry.new type args now)) :
      Sent t call es t' (t.dataSend (UInt8.ofNat t.next) (Entry.new type args now))
  | again (now : TimePoint) (seq : UInt8) (e : Entry) (hcall : call = .tick now)
      (hentry : t.entries.find? seq = some e) (hdue : e.due now = true)
      (hafter : t'.entries.find? seq = some { e with pending := true }) :
      Sent t call es t' (t.dataSend seq e)

/-- What is handed out is the frame of an entry. -/
theorem Sent.entry {s : CommandSend} (h : Sent t call es t' s) :
    ∃ e, t'.entries.find? s.seq = some e := by
  cases h with
  | first _ _ _ _ _ _ _ hafter => exact ⟨_, hafter⟩
  | again _ _ _ _ _ _ hafter => exact ⟨_, hafter⟩

theorem commands_ended {ended : List TrackerEvent} (h : SessionEnd t call ended) :
    commands ended = [] := by
  rw [commands, List.filter_eq_nil_iff]
  intro s hs
  rw [sends_ended h s hs]
  decide

theorem commands_open (u : CommandTracker) : commands [.send u.openSend] = [] := rfl

theorem commands_begun {ended : List TrackerEvent} (h : SessionEnd t call ended)
    (u : CommandTracker) : commands (ended ++ [.send u.openSend]) = [] := by
  rw [commands_append, commands_ended h, commands_open]
  rfl

theorem commands_retry (now : TimePoint) (t : CommandTracker) :
    commands ((t.retry now).2.send.map .send) = (t.retry now).2.send := by
  rw [commands, sends_map, List.filter_eq_self]
  intro s hs
  obtain ⟨seq, e, -, -, rfl⟩ := mem_retry hs
  exact decide_eq_true rfl

theorem sent_step (hw : WindowInv t) (hstep : TrackerStep t call es t') :
    ∀ s ∈ commands es, Sent t call es t' s := by
  have hnone : ∀ {es : List TrackerEvent} {t' : CommandTracker}, commands es = [] →
      ∀ s ∈ commands es, Sent t call es t' s := by
    intro es t' hnil s hs
    rw [hnil] at hs
    cases hs
  cases hstep with
  | begun _ ended session hend => exact hnone (commands_begun hend _)
  | exhausted _ ended _ hend => exact hnone (commands_ended hend)
  | submitted type args now hcan =>
      intro s hs
      obtain rfl := List.mem_singleton.mp hs
      refine .first type args now rfl hcan List.mem_cons_self rfl ?_
      show (t.entries.emplace _ _).find? _ = _
      rw [KeyMap.find?_emplace (hw.next_new (canSubmit_spec hcan).2.1), if_pos rfl]
  | retried now =>
      intro s hs
      rw [commands_retry] at hs
      obtain ⟨seq, e, hentry, hdue, rfl⟩ := mem_retry hs
      exact .again now seq e rfl hentry hdue (find?_retry hentry hdue)
  | _ => exact hnone rfl

/-- A call hands out at most one frame of each command. -/
theorem seqs_nodup (hstep : TrackerStep t call es t') :
    ((commands es).map CommandSend.seq).Nodup := by
  have hnone : ∀ {es : List TrackerEvent}, commands es = [] →
      ((commands es).map CommandSend.seq).Nodup := by
    intro es hnil
    rw [hnil]
    exact List.nodup_nil
  cases hstep with
  | begun _ ended session hend => exact hnone (commands_begun hend _)
  | exhausted _ ended _ hend => exact hnone (commands_ended hend)
  | submitted => exact List.nodup_singleton _
  | retried now =>
      rw [commands_retry]
      exact retry_seqs_nodup t now
  | _ => exact hnone rfl

/-! ## Payloads -/

/-- Every frame handed out carries an accepted command. -/
def CarriesAccepted (log : List TrackerEvent) : Prop :=
  ∀ s ∈ commands log, ∃ c ∈ submits log, (c.session, c.seq) = (s.session, s.seq) ∧
    s.payload = commandPayload c.session c.seq c.type c.args

theorem carriesAccepted_step {log : List TrackerEvent} (hw : WindowInv t) (hr : RecordInv t log)
    (h : CarriesAccepted log) (hstep : TrackerStep t call es t') : CarriesAccepted (log ++ es) := by
  intro s hs
  rw [commands_append, List.mem_append] at hs
  rcases hs with hs | hs
  · obtain ⟨c, hc, hsame, hpayload⟩ := h s hs
    exact ⟨c, by rw [submits_append]; exact List.mem_append_left _ hc, hsame, hpayload⟩
  · cases sent_step hw hstep s hs with
    | first type args now hcall hcan hevent =>
        exact ⟨_, mem_submits.mpr ⟨now, List.mem_append_right _ hevent⟩, rfl, rfl⟩
    | again now seq e hcall hentry =>
        refine ⟨⟨t.session, seq, e.type, e.args⟩, ?_, rfl, rfl⟩
        rw [submits_append]
        exact List.mem_append_left _ (hr.entry_submitted hentry)

/-- The frames of one command carry the same payload. -/
theorem payload_eq {log : List TrackerEvent} (hr : RecordInv t log) (h : CarriesAccepted log)
    {s s' : CommandSend} (hs : s ∈ commands log) (hs' : s' ∈ commands log)
    (hsession : s.session = s'.session) (hseq : s.seq = s'.seq) : s.payload = s'.payload := by
  obtain ⟨c, hc, hsame, hpayload⟩ := h s hs
  obtain ⟨c', hc', hsame', hpayload'⟩ := h s' hs'
  have hkey : (c.session, c.seq) = (c'.session, c'.seq) := by
    rw [hsame, hsame', hsession, hseq]
  obtain rfl : c = c' := List.inj_on_of_nodup_map hr.submits_nodup hc hc' hkey
  rw [hpayload, hpayload']

/-! ## One frame at a time -/

/-- What is outstanding of a command in flight is the attempt that waits. -/
structure WaitInv (t : CommandTracker) (out : List CommandSend) : Prop where
  known : ∀ s ∈ out, ∀ session seq, s.carries session seq = true →
    session < t.session ∨ session = t.session ∧ seq.toNat < t.next
  waits : ∀ s ∈ out, ∀ seq e, s.carries t.session seq = true → t.entries.find? seq = some e →
    e.received = false → e.pending = true ∧ s.attempt = e.sends
  one : ∀ session seq, (out.filter (·.carries session seq)).length ≤ 1

theorem waitInv_new : WaitInv new [] where
  known := fun _ h => by cases h
  waits := fun _ h => by cases h
  one := fun _ _ => Nat.zero_le _

theorem carries_dataSend {t : CommandTracker} {seq seq' : UInt8} {e : Entry} {session : UInt64}
    (h : (t.dataSend seq e).carries session seq' = true) : session = t.session ∧ seq' = seq := by
  obtain ⟨-, hsession, hseq⟩ := CommandSend.carries_iff.mp h
  exact ⟨hsession.symm, hseq.symm⟩

/-- A frame is handed out only of a command that nothing is outstanding of. -/
theorem nothing_outstanding {out : List CommandSend} (h : WaitInv t out) {s s' : CommandSend}
    (hsent : Sent t call es t' s) (hs' : s' ∈ out) {session : UInt64} {seq : UInt8}
    (hcarries : s.carries session seq = true) : s'.carries session seq = false := by
  rw [← Bool.not_eq_true]
  intro hcarries'
  cases hsent with
  | first type args now hcall hcan =>
      obtain ⟨-, hlt, -⟩ := canSubmit_spec hcan
      obtain ⟨rfl, rfl⟩ := carries_dataSend hcarries
      rcases h.known s' hs' _ _ hcarries' with hlater | ⟨-, hseq⟩
      · exact UInt64.lt_irrefl _ hlater
      · rw [ofNat_next_toNat hlt] at hseq
        exact Nat.lt_irrefl _ hseq
  | again now seq' e hcall hentry hdue =>
      obtain ⟨rfl, rfl⟩ := carries_dataSend hcarries
      obtain ⟨hreceived, hpending, -⟩ := due_spec hdue
      have := (h.waits s' hs' _ e hcarries' hentry hreceived).1
      rw [hpending] at this
      cases this

theorem known_step {session : UInt64} {seq : UInt8} (hstep : TrackerStep t call es t')
    (h : session < t.session ∨ session = t.session ∧ seq.toNat < t.next) :
    session < t'.session ∨ session = t'.session ∧ seq.toNat < t'.next := by
  have hle := session_le_step hstep
  rcases h with hlt | ⟨heq, hlt⟩
  · exact .inl (UInt64.lt_of_lt_of_le hlt hle)
  · rcases UInt64.lt_or_eq_of_le hle with hlater | hsame
    · exact .inl (heq ▸ hlater)
    · exact .inr ⟨heq.trans hsame, Nat.lt_of_lt_of_le hlt (next_le_step hstep hsame.symm)⟩

/-- An attempt that waited and was not reported waits on. -/
theorem waits_kept {out : List CommandSend} (hw : WindowInv t) (h : WaitInv t out)
    (hstep : TrackerStep t call es t') {s : CommandSend} (hs : s ∈ out)
    (hopen : Visit.reports ⟨t, call, es, t'⟩ s = false) {seq : UInt8} {e' : Entry}
    (hcarries : s.carries t'.session seq = true) (hafter : t'.entries.find? seq = some e')
    (hreceived : e'.received = false) : e'.pending = true ∧ s.attempt = e'.sends := by
  obtain ⟨hsame, hentry⟩ := entry_step hw hstep hafter
  rw [hsame] at hcarries
  cases hentry with
  | created type args now hcall hseq =>
      rcases h.known s hs _ _ hcarries with hlater | ⟨-, hlt⟩
      · exact absurd hlater (UInt64.lt_irrefl _)
      · omega
  | kept e hentry => exact h.waits s hs seq _ hcarries hentry hreceived
  | received e hentry => cases hreceived
  | written send now e hcall hsession htype hseq hentry hpending hattempt =>
      -- the attempt that waited is the one whose write is reported
      obtain ⟨htype', hsession', hseq'⟩ := CommandSend.carries_iff.mp hcarries
      obtain ⟨-, hattempt'⟩ := h.waits s hs seq e hcarries hentry hreceived
      subst hcall
      have : Visit.reports ⟨t, .onWritten send true now, es, t'⟩ s = true :=
        decide_eq_true ⟨hsession.trans hsession'.symm, htype.trans htype'.symm,
          hseq.trans hseq'.symm, hattempt.trans hattempt'.symm⟩
      rw [this] at hopen
      cases hopen
  | retried now e hcall hentry hdue =>
      have hdue := due_spec hdue
      obtain ⟨hpending, -⟩ := h.waits s hs seq e hcarries hentry hdue.1
      rw [hdue.2.1] at hpending
      cases hpending

/-- What is handed out waits for its write. -/
theorem waits_sent {s : CommandSend} (hsent : Sent t call es t' s) (hsame : t'.session = t.session)
    {seq : UInt8} {e' : Entry} (hcarries : s.carries t'.session seq = true)
    (hafter' : t'.entries.find? seq = some e') : e'.pending = true ∧ s.attempt = e'.sends := by
  rw [hsame] at hcarries
  cases hsent with
  | first type args now hcall hcan hevent hnext hafter =>
      obtain ⟨-, rfl⟩ := carries_dataSend hcarries
      obtain rfl := Option.some.inj (hafter.symm.trans hafter')
      exact ⟨rfl, rfl⟩
  | again now seq' e hcall hentry hdue hafter =>
      obtain ⟨-, rfl⟩ := carries_dataSend hcarries
      obtain rfl := Option.some.inj (hafter.symm.trans hafter')
      exact ⟨rfl, rfl⟩

/-- A call hands out at most one frame of a command. -/
theorem one_sent (hstep : TrackerStep t call es t') (session : UInt64) (seq : UInt8) :
    ((commands es).filter (·.carries session seq)).length ≤ 1 :=
  calc
    ((commands es).filter (·.carries session seq)).length
        = (commands es).countP (·.carries session seq) := List.countP_eq_length_filter.symm
    _ ≤ (commands es).countP (·.seq == seq) :=
      List.countP_mono_left fun s _ hcarries =>
        beq_iff_eq.mpr (CommandSend.carries_iff.mp hcarries).2.2
    _ = ((commands es).map CommandSend.seq).count seq := by
      rw [List.count, List.countP_map]
      rfl
    _ ≤ 1 := List.nodup_iff_count_le_one.mp (seqs_nodup hstep) seq

theorem waitInv_step {out : List CommandSend} (hw : WindowInv t) (h : WaitInv t out)
    (hstep : TrackerStep t call es t') :
    WaitInv t' ((out.filter fun s => !Visit.reports ⟨t, call, es, t'⟩ s) ++ commands es) := by
  have hkept : ∀ {s}, s ∈ out.filter (fun s => !Visit.reports ⟨t, call, es, t'⟩ s) →
      s ∈ out ∧ Visit.reports ⟨t, call, es, t'⟩ s = false := by
    intro s hs
    rw [List.mem_filter, Bool.not_eq_true'] at hs
    exact hs
  constructor
  case known =>
    intro s hs session seq hcarries
    rcases List.mem_append.mp hs with hs | hs
    · exact known_step hstep (h.known s (hkept hs).1 session seq hcarries)
    · cases sent_step hw hstep s hs with
      | first type args now hcall hcan hevent hnext hafter =>
          obtain ⟨rfl, rfl⟩ := carries_dataSend hcarries
          refine .inr ⟨(entry_step hw hstep hafter).1.symm, ?_⟩
          rw [ofNat_next_toNat (canSubmit_spec hcan).2.1, hnext]
          exact Nat.lt_succ_self _
      | again now seq' e hcall hentry =>
          obtain ⟨rfl, rfl⟩ := carries_dataSend hcarries
          exact known_step hstep (.inr ⟨rfl, hw.entry_lt _ e hentry⟩)
  case waits =>
    intro s hs seq e hcarries hafter hreceived
    rcases List.mem_append.mp hs with hs | hs
    · exact waits_kept hw h hstep (hkept hs).1 (hkept hs).2 hcarries hafter hreceived
    · exact waits_sent (sent_step hw hstep s hs) (entry_step hw hstep hafter).1 hcarries hafter
  case one =>
    intro session seq
    rw [List.filter_append, List.length_append]
    cases hnew : (commands es).filter (·.carries session seq) with
    | nil =>
        have hsub := (List.filter_sublist (l := out)
          (p := fun s => !Visit.reports ⟨t, call, es, t'⟩ s)).filter (·.carries session seq)
        exact Nat.le_trans hsub.length_le (h.one session seq)
    | cons s rest =>
        -- nothing of this command was outstanding before
        have hmem : s ∈ (commands es).filter (·.carries session seq) := by
          rw [hnew]
          exact List.mem_cons_self
        obtain ⟨hs, hcarries⟩ := List.mem_filter.mp hmem
        have hnone : (out.filter fun s => !Visit.reports ⟨t, call, es, t'⟩ s).filter
            (·.carries session seq) = [] := by
          refine List.filter_eq_nil_iff.mpr fun s' hs' => ?_
          rw [nothing_outstanding h (sent_step hw hstep s hs) (hkept hs').1 hcarries]
          decide
        have hone := one_sent hstep session seq
        rw [hnew] at hone
        rw [hnone]
        simpa using hone

/-! ## Four writes -/

/-- An accepted report is that of the attempt that waits. -/
theorem accepts_step (hw : WindowInv t) (hstep : TrackerStep t call es t') {session : UInt64}
    {seq : UInt8} (h : Visit.accepts ⟨t, call, es, t'⟩ session seq = true) :
    ∃ send now e, call = .onWritten send true now ∧ session = t.session ∧
      t.entries.find? seq = some e ∧ e.pending = true ∧ send.attempt = e.sends ∧
      t'.entries.find? seq = some (e.written now) := by
  unfold Visit.accepts at h
  dsimp only at h
  split at h
  case h_2 => cases h
  case h_1 send now e hold =>
    obtain ⟨hsession, hseq, hafter⟩ := of_decide_eq_true h
    obtain ⟨-, hentry⟩ := entry_step hw hstep hafter
    generalize hwritten : e.written now = e' at hentry
    have hsends : e'.sends = e.sends + 1 := by rw [← hwritten]; rfl
    cases hentry with
    | created type args now' hcall => cases hcall
    | kept _ hkept =>
        obtain rfl := Option.some.inj (hold.symm.trans hkept)
        omega
    | received e₀ hkept =>
        obtain rfl := Option.some.inj (hold.symm.trans hkept)
        exact absurd hsends (by simp)
    | written send' now' e₀ hcall hsame htype hseq' hkept hpending hattempt =>
        obtain rfl := Option.some.inj (hold.symm.trans hkept)
        cases hcall
        exact ⟨send, now, e, rfl, hsession.symm.trans hsame, hold, hpending, hattempt, hafter⟩
    | retried now' e₀ hcall => cases hcall

/-- The accepted reports of a command. -/
def writes (history : List Visit) (session : UInt64) (seq : UInt8) : Nat :=
  history.countP (·.accepts session seq)

theorem writes_append (history : List Visit) (v : Visit) (session : UInt64) (seq : UInt8) :
    writes (history ++ [v]) session seq =
      writes history session seq + if v.accepts session seq = true then 1 else 0 := by
  rw [writes, List.countP_append, List.countP_singleton, writes]

/-- The attempts of the entries are the accepted reports, and the clock of a retry starts with
the last of them. -/
structure WriteInv (t : CommandTracker) (history : List Visit) : Prop where
  count : ∀ seq e, t.entries.find? seq = some e → writes history t.session seq = e.sends
  unused : ∀ session seq, t.session < session ∨ t.session = session ∧ t.next ≤ seq.toNat →
    writes history session seq = 0
  bound : ∀ session seq, writes history session seq ≤ EDGE_MAX_RETRY + 1
  first : ∀ seq e, t.entries.find? seq = some e → e.sends = 0 → e.pending = true
  budget : ∀ seq e, t.entries.find? seq = some e → e.pending = true → e.sends ≤ EDGE_MAX_RETRY
  last : ∀ seq e, t.entries.find? seq = some e → ∀ n, e.sends = n + 1 →
    ∃ v ∈ history, ∃ send, v.call = .onWritten send true e.sentAt ∧
      v.accepts t.session seq = true ∧ send.attempt = n

theorem writeInv_new : WriteInv new [] where
  count := fun _ _ h => by cases h
  unused := fun _ _ _ => rfl
  bound := fun _ _ => Nat.zero_le _
  first := fun _ _ h => by cases h
  budget := fun _ _ h => by cases h
  last := fun _ _ h => by cases h

theorem not_lost_budget {e : Entry} {now : TimePoint} (hdue : e.due now = true)
    (hlost : e.lost now = false) : e.sends ≤ EDGE_MAX_RETRY := by
  obtain ⟨hreceived, hpending, hage⟩ := due_spec hdue
  simp only [Entry.lost, decide_eq_false_iff_not, not_or, not_and, not_le, ge_iff_le] at hlost
  by_contra hover
  exact absurd hage (not_le.mpr (hlost.2.2 hreceived hpending (Nat.lt_of_not_le hover)))

variable {history : List Visit}

/-- Reports of a command that is not in flight are not accepted. -/
theorem unused_step (hw : WindowInv t) (h : WriteInv t history) (hstep : TrackerStep t call es t')
    {session : UInt64} {seq : UInt8}
    (hunused : t'.session < session ∨ t'.session = session ∧ t'.next ≤ seq.toNat) :
    writes (history ++ [⟨t, call, es, t'⟩]) session seq = 0 := by
  have hold : t.session < session ∨ t.session = session ∧ t.next ≤ seq.toNat := by
    have hle := session_le_step hstep
    rcases hunused with hlt | ⟨heq, hnext⟩
    · exact .inl (UInt64.lt_of_le_of_lt hle hlt)
    · rcases UInt64.lt_or_eq_of_le hle with hlater | hsame
      · exact .inl (heq ▸ hlater)
      · exact .inr ⟨hsame.trans heq, Nat.le_trans (next_le_step hstep hsame.symm) hnext⟩
  rw [writes_append, h.unused session seq hold, if_neg]
  intro haccepts
  obtain ⟨send, now, e, -, hsession, hentry, -⟩ := accepts_step hw hstep haccepts
  rcases hold with hlt | ⟨-, hnext⟩
  · exact UInt64.lt_irrefl _ (hsession ▸ hlt)
  · exact absurd (hw.entry_lt seq e hentry) (Nat.not_lt.mpr hnext)

theorem count_step (hw : WindowInv t) (h : WriteInv t history) (hstep : TrackerStep t call es t')
    {seq : UInt8} {e' : Entry} (hafter : t'.entries.find? seq = some e') :
    writes (history ++ [⟨t, call, es, t'⟩]) t'.session seq = e'.sends := by
  obtain ⟨hsame, hentry⟩ := entry_step hw hstep hafter
  rw [writes_append, hsame]
  by_cases haccepts : Visit.accepts ⟨t, call, es, t'⟩ t.session seq = true
  · obtain ⟨send, now, e, -, -, hold, -, -, hwritten⟩ := accepts_step hw hstep haccepts
    obtain rfl := Option.some.inj (hafter.symm.trans hwritten)
    rw [if_pos haccepts, h.count seq e hold]
    rfl
  · rw [if_neg haccepts, Nat.add_zero]
    cases hentry with
    | created type args now hcall hseq => exact h.unused _ _ (.inr ⟨rfl, hseq ▸ Nat.le_refl _⟩)
    | kept e hold => exact h.count seq _ hold
    | received e hold => exact h.count seq e hold
    | written send now e hcall hsession htype hseq hold =>
        refine absurd ?_ haccepts
        subst hcall hseq
        unfold Visit.accepts
        dsimp only
        rw [hold]
        exact decide_eq_true ⟨hsession, rfl, hafter⟩
    | retried now e hcall hold => exact h.count seq e hold

/-- The last report of an entry that a call leaves. -/
theorem last_step (hw : WindowInv t) (h : WriteInv t history) (hstep : TrackerStep t call es t')
    {seq : UInt8} {e' : Entry} (hafter : t'.entries.find? seq = some e') {n : Nat}
    (hsends : e'.sends = n + 1) :
    ∃ v ∈ history ++ [⟨t, call, es, t'⟩], ∃ send, v.call = .onWritten send true e'.sentAt ∧
      v.accepts t'.session seq = true ∧ send.attempt = n := by
  obtain ⟨hsame, hentry⟩ := entry_step hw hstep hafter
  rw [hsame]
  have hbefore : ∀ e, t.entries.find? seq = some e → e.sends = n + 1 →
      ∃ v ∈ history ++ [⟨t, call, es, t'⟩], ∃ send, v.call = .onWritten send true e.sentAt ∧
        v.accepts t.session seq = true ∧ send.attempt = n := by
    intro e hold heq
    obtain ⟨v, hv, hlast⟩ := h.last seq e hold n heq
    exact ⟨v, List.mem_append_left _ hv, hlast⟩
  cases hentry with
  | created => cases hsends
  | kept e hold => exact hbefore _ hold hsends
  | received e hold => exact hbefore e hold hsends
  | written send now e hcall hsession htype hseq hold hpending hattempt =>
      subst hcall hseq
      refine ⟨_, List.mem_append_right _ (List.mem_singleton_self _), send, rfl, ?_, ?_⟩
      · unfold Visit.accepts
        dsimp only
        rw [hold]
        exact decide_eq_true ⟨hsession, rfl, hafter⟩
      · have heq : e.sends + 1 = n + 1 := hsends
        omega
  | retried now e hcall hold => exact hbefore e hold hsends

theorem writeInv_step (hw : WindowInv t) (h : WriteInv t history)
    (hstep : TrackerStep t call es t') : WriteInv t' (history ++ [⟨t, call, es, t'⟩]) := by
  constructor
  case count => exact fun seq e hafter => count_step hw h hstep hafter
  case unused => exact fun session seq hunused => unused_step hw h hstep hunused
  case bound =>
    intro session seq
    rw [writes_append]
    split_ifs with haccepts
    · obtain ⟨send, now, e, -, hsession, hold, hpending, -⟩ := accepts_step hw hstep haccepts
      rw [hsession, h.count seq e hold]
      exact Nat.succ_le_succ (h.budget seq e hold hpending)
    · exact h.bound session seq
  case first =>
    intro seq e' hafter hzero
    cases (entry_step hw hstep hafter).2 with
    | created => rfl
    | kept e hold => exact h.first seq _ hold hzero
    | received e hold => exact h.first seq e hold hzero
    | written => cases hzero
    | retried => rfl
  case budget =>
    intro seq e' hafter hpending
    cases (entry_step hw hstep hafter).2 with
    | created => exact Nat.zero_le _
    | kept e hold => exact h.budget seq _ hold hpending
    | received e hold => exact h.budget seq e hold hpending
    | written => cases hpending
    | retried now e hcall hold hdue hlost => exact not_lost_budget (e := e) hdue hlost
  case last => exact fun seq e hafter n hsends => last_step hw h hstep hafter hsends

/-- When a frame is handed out: at first, or half a second after the last accepted report. -/
theorem sent_when (hw : WindowInv t) (h : WriteInv t history) (hstep : TrackerStep t call es t')
    {s : CommandSend} (hs : s ∈ commands es) :
    (s.attempt = 0 ∧ ∃ type args now, call = .submit type args now) ∨
      ∃ now, call = .tick now ∧ ∃ v ∈ history, ∃ send written,
        v.call = .onWritten send true written ∧ v.accepts s.session s.seq = true ∧
        send.attempt + 1 = s.attempt ∧ now - written ≥ Ms EDGE_ACK_TIMEOUT_MS := by
  cases sent_step hw hstep s hs with
  | first type args now hcall => exact .inl ⟨rfl, type, args, now, hcall⟩
  | again now seq e hcall hold hdue =>
      obtain ⟨-, hpending, hage⟩ := due_spec hdue
      cases hsends : e.sends with
      | zero =>
          have := h.first seq e hold hsends
          rw [hpending] at this
          cases this
      | succ n =>
          obtain ⟨v, hv, send, hcall', haccepts, hattempt⟩ := h.last seq e hold n hsends
          refine .inr ⟨now, hcall, v, hv, send, e.sentAt, hcall', haccepts, ?_, hage⟩
          show send.attempt + 1 = e.sends
          omega

/-! ## After a receipt -/

/-- The command is received, completed or of an earlier session. -/
def Settled (t : CommandTracker) (session : UInt64) (seq : UInt8) : Prop :=
  session < t.session ∨ session = t.session ∧ seq.toNat < t.next ∧
    ∀ e, t.entries.find? seq = some e → e.received = true

variable {session : UInt64} {seq : UInt8}

theorem settled_step (hw : WindowInv t) (hstep : TrackerStep t call es t')
    (h : Settled t session seq) : Settled t' session seq := by
  have hle := session_le_step hstep
  rcases h with hlt | ⟨rfl, hlt, hreceived⟩
  · exact .inl (UInt64.lt_of_lt_of_le hlt hle)
  rcases UInt64.lt_or_eq_of_le hle with hlater | hsame
  · exact .inl hlater
  refine .inr ⟨hsame, Nat.lt_of_lt_of_le hlt (next_le_step hstep hsame.symm), fun e' hafter => ?_⟩
  cases (entry_step hw hstep hafter).2 with
  | created type args now hcall hseq => omega
  | kept e hold => exact hreceived _ hold
  | received => rfl
  | written send now e hcall hsession htype hseq hold => exact hreceived e hold
  | retried now e hcall hold => exact hreceived e hold

/-- Nothing more is handed out of a settled command. -/
theorem settled_silent (hw : WindowInv t) (hstep : TrackerStep t call es t')
    (h : Settled t session seq) : (commands es).filter (·.carries session seq) = [] := by
  refine List.filter_eq_nil_iff.mpr fun s hs hcarries => ?_
  cases sent_step hw hstep s hs with
  | first type args now hcall hcan =>
      obtain ⟨rfl, rfl⟩ := carries_dataSend hcarries
      rcases h with hlt | ⟨-, hlt, -⟩
      · exact UInt64.lt_irrefl _ hlt
      · rw [ofNat_next_toNat (canSubmit_spec hcan).2.1] at hlt
        exact Nat.lt_irrefl _ hlt
  | again now seq' e hcall hold hdue =>
      obtain ⟨rfl, rfl⟩ := carries_dataSend hcarries
      rcases h with hlt | ⟨-, -, hreceived⟩
      · exact UInt64.lt_irrefl _ hlt
      · have := hreceived e hold
        rw [(due_spec hdue).1] at this
        cases this

/-- What a frame of a command has to meet to be sent. -/
theorem canSend_command {s : CommandSend} {now : TimePoint} (htype : s.type = EDGE_TYPE_SR_COMMAND)
    (h : t.canSend s now = true) : s.session = t.session ∧ ∃ e, t.entries.find? s.seq = some e ∧
      e.received = false ∧ now - e.queuedAt < Ms EDGE_COMMAND_LIFETIME_MS := by
  unfold canSend at h
  rw [htype] at h
  split_ifs at h with hsession hopen hready hack
  · exact absurd hopen (by decide)
  · exact absurd hack (by decide)
  · refine ⟨not_not.mp hsession, ?_⟩
    cases hentry : t.entries.find? s.seq with
    | none =>
        rw [hentry] at h
        cases h
    | some e =>
        rw [hentry] at h
        obtain ⟨-, -, hreceived, -, hage⟩ := of_decide_eq_true h
        exact ⟨e, rfl, hreceived, hage⟩

theorem settled_canSend (h : Settled t session seq) {s : CommandSend}
    (hcarries : s.carries session seq = true) (now : TimePoint) : t.canSend s now = false := by
  obtain ⟨htype, rfl, rfl⟩ := CommandSend.carries_iff.mp hcarries
  rw [← Bool.not_eq_true]
  intro hcan
  obtain ⟨hsession, e, hentry, hreceived, -⟩ := canSend_command htype hcan
  rcases h with hlt | ⟨-, -, hall⟩
  · exact UInt64.lt_irrefl _ (hsession ▸ hlt)
  · have := hall e hentry
    rw [hreceived] at this
    cases this

/-- A receipt or a result that is not ignored settles its command. -/
theorem settled_of_frame {type : UInt8} {p : List UInt8} {now : TimePoint} (hw : WindowInv t)
    (htables : t.state = .ready → ∀ seq, seq.toNat < t.next →
      (t.entries.find? seq = none ↔ t.completed seq = true))
    (htype : type = EDGE_TYPE_SR_RECEIVED ∨ type = EDGE_TYPE_SR_RESULT)
    (hstep : TrackerStep t (.onFrame type p now) es t') (hactive : es ≠ [] ∨ t' ≠ t) :
    Settled t' t.session (p.getD 8 0) := by
  have hopenAck : type ≠ EDGE_TYPE_SR_OPEN_ACK := by rcases htype with rfl | rfl <;> decide
  cases hstep with
  | ignored => rcases hactive with h | h <;> exact absurd rfl h
  | begun _ ended session hend hlt => exact .inl hlt
  | exhausted _ ended _ hend hmax hfailed hempty hsession hnext =>
      cases hend with
      | rollover _ _ seq e hready hsame hseq hentry =>
          subst hseq
          refine .inr ⟨hsession.symm, hnext ▸ hw.entry_lt _ e hentry, fun e' he' => ?_⟩
          rw [hempty] at he'
          cases he'
  | openFailed _ hopening hcall =>
      rcases hcall with ⟨_, h⟩ | ⟨_, _, h⟩
      · cases h
      · exact absurd (TrackerCall.onFrame.inj h).1 hopenAck
  | openRejected => exact absurd rfl hopenAck
  | opened => exact absurd rfl hopenAck
  | receipt _ _ seq e hready hsame hseq hentry =>
      subst hseq
      refine .inr ⟨rfl, hw.entry_lt _ e hentry, fun e' he' => ?_⟩
      rw [receive_entries, if_pos rfl, hentry] at he'
      obtain rfl := Option.some.inj he'
      rfl
  | result _ _ seq e hready hsame hseq hentry =>
      subst hseq
      refine .inr ⟨rfl, hw.entry_lt _ e hentry, fun e' he' => ?_⟩
      change ((t.receive _).entries.erase _).find? _ = some e' at he'
      rw [KeyMap.find?_erase, if_pos rfl] at he'
      cases he'
  | resultAgain _ _ seq hready hsame hseq hlt hcompleted =>
      subst hseq
      refine .inr ⟨rfl, hlt, fun e' he' => ?_⟩
      rw [(htables hready _ hlt).mpr hcompleted] at he'
      cases he'

/-- The rest of a run after a command is settled. -/
theorem settled_run (calls : List TrackerCall) (hw : WindowInv t) (h : Settled t session seq) :
    Settled (runTracker t calls).1 session seq ∧
      (commands (runTracker t calls).2).filter (·.carries session seq) = [] := by
  induction calls generalizing t with
  | nil => exact ⟨h, rfl⟩
  | cons call rest ih =>
      have hstep := call_step hw call
      obtain ⟨hsettled, hsilent⟩ := ih (windowInv_call hw call) (settled_step hw hstep h)
      refine ⟨hsettled, ?_⟩
      rw [runTracker, commands_append, List.filter_append, settled_silent hw hstep h, hsilent]
      rfl

/-! ## The lifetime -/

/-- An entry keeps the time its command was accepted at. -/
def QueuedInv (t : CommandTracker) (log : List TrackerEvent) : Prop :=
  ∀ c queued, .submit c queued ∈ log → c.session = t.session →
    ∀ e, t.entries.find? c.seq = some e → e.queuedAt = queued

theorem queued_of_submit (hw : WindowInv t) (hstep : TrackerStep t call es t') {c : Command}
    {queued : TimePoint} (h : .submit c queued ∈ es) :
    ∃ e, t'.entries.find? c.seq = some e ∧ e.queuedAt = queued := by
  have hended : ∀ {ended : List TrackerEvent}, SessionEnd t call ended →
      .submit c queued ∉ ended := by
    intro ended hend hin
    cases hend <;> simp [cancelled, completion] at hin
  cases hstep with
  | begun _ ended session hend =>
      rw [List.mem_append, List.mem_singleton] at h
      rcases h with h | h
      · exact absurd h (hended hend)
      · cases h
  | exhausted _ ended _ hend => exact absurd h (hended hend)
  | submitted type args now hcan =>
      simp only [List.mem_cons, List.not_mem_nil, or_false, reduceCtorEq] at h
      cases h
      refine ⟨Entry.new type args queued, ?_, rfl⟩
      show (t.entries.emplace _ _).find? _ = _
      rw [KeyMap.find?_emplace (hw.next_new (canSubmit_spec hcan).2.1), if_pos rfl]
  | retried now =>
      obtain ⟨s, -, hs⟩ := List.mem_map.mp h
      cases hs
  | _ => simp [completion] at h

theorem queuedInv_step {log : List TrackerEvent} (hw : WindowInv t) (hr : RecordInv t log)
    (h : QueuedInv t log) (hstep : TrackerStep t call es t') : QueuedInv t' (log ++ es) := by
  intro c queued hin hsession e' hafter
  rcases List.mem_append.mp hin with hin | hin
  · obtain ⟨hsame, hentry⟩ := entry_step hw hstep hafter
    have hold := h c queued hin (hsession.trans hsame)
    cases hentry with
    | created type args now hcall hseq =>
        have := hr.submit_seq c (mem_submits.mpr ⟨queued, hin⟩) (hsession.trans hsame)
        omega
    | kept _ hentry => exact hold _ hentry
    | received e hentry => exact hold e hentry
    | written send now e hcall hsession' htype hseq hentry => exact hold e hentry
    | retried now e hcall hentry => exact hold e hentry
  · obtain ⟨e, hentry, hqueued⟩ := queued_of_submit hw hstep hin
    obtain rfl := Option.some.inj (hafter.symm.trans hentry)
    exact hqueued

/-- No frame of a command is sent after its lifetime. -/
theorem expired_canSend {log : List TrackerEvent} (h : QueuedInv t log) {c : Command}
    {queued now : TimePoint} (hin : .submit c queued ∈ log) {s : CommandSend}
    (hcarries : s.carries c.session c.seq = true)
    (hlate : now - queued ≥ Ms EDGE_COMMAND_LIFETIME_MS) : t.canSend s now = false := by
  obtain ⟨htype, hsession, hseq⟩ := CommandSend.carries_iff.mp hcarries
  rw [← Bool.not_eq_true]
  intro hcan
  obtain ⟨hsame, e, hentry, -, hage⟩ := canSend_command htype hcan
  rw [h c queued hin (hsession.symm.trans hsame) e (hseq ▸ hentry)] at hage
  exact absurd hlate (not_le.mpr hage)

/-! ## Runs -/

structure RetryInv (t : CommandTracker) (history : List Visit) : Prop where
  tables : TableInv t
  payloads : CarriesAccepted (record history)
  queued : QueuedInv t (record history)
  waits : WaitInv t (outstanding history)
  writes : WriteInv t history

theorem retryInv_new : RetryInv new [] where
  tables := tableInv_new
  payloads := fun _ h => by cases h
  queued := fun _ _ h => by cases h
  waits := waitInv_new
  writes := writeInv_new

theorem retryInv_step (hinv : TrackerInv t (record history)) (h : RetryInv t history)
    (hstep : TrackerStep t call es t') : RetryInv t' (history ++ [⟨t, call, es, t'⟩]) := by
  have hw := hinv.window
  have hr := hinv.record
  constructor
  case tables => exact tableInv_step hw h.tables hstep
  case payloads =>
    rw [record_append, record_singleton]
    exact carriesAccepted_step hw hr h.payloads hstep
  case queued =>
    rw [record_append, record_singleton]
    exact queuedInv_step hw hr h.queued hstep
  case waits =>
    rw [outstanding_append]
    exact waitInv_step hw h.waits hstep
  case writes => exact writeInv_step hw h.writes hstep

/-- **Selective retransmission**, after any calls. All frames of a command carry the same payload;
at most one of them is outstanding; at most four writes of a command are accepted; a retry is handed
out by a tick, half a second after the last accepted write; after a receipt or a result that was not
ignored no frame of the command is handed out or sent, and none is sent four seconds after the
command was accepted. -/
theorem selective_retransmission (calls : List TrackerCall) :
    let t := (runTracker new calls).1
    let log := (runTracker new calls).2
    let history := visits new calls
    (∀ s ∈ commands log, ∀ s' ∈ commands log, s.session = s'.session → s.seq = s'.seq →
      s.payload = s'.payload) ∧
    (∀ session seq, ((outstanding history).filter (·.carries session seq)).length ≤ 1) ∧
    (∀ session seq, history.countP (·.accepts session seq) ≤ 4) ∧
    (∀ call, ∀ s ∈ commands (t.call call).2,
      (s.attempt = 0 ∧ ∃ type args now, call = .submit type args now) ∨
      ∃ now, call = .tick now ∧ ∃ v ∈ history, ∃ send written,
        v.call = .onWritten send true written ∧ v.accepts s.session s.seq = true ∧
        send.attempt + 1 = s.attempt ∧ now - written ≥ Ms EDGE_ACK_TIMEOUT_MS) ∧
    (∀ type p now rest, type = EDGE_TYPE_SR_RECEIVED ∨ type = EDGE_TYPE_SR_RESULT →
      t.onFrame type p now ≠ (t, {}) →
      let t' := (runTracker t (.onFrame type p now :: rest)).1
      let log' := (runTracker t (.onFrame type p now :: rest)).2
      (commands log').filter (·.carries t.session (p.getD 8 0)) = [] ∧
      ∀ s now', s.carries t.session (p.getD 8 0) = true → t'.canSend s now' = false) ∧
    (∀ c queued, .submit c queued ∈ log → ∀ s now, s.carries c.session c.seq = true →
      now - queued ≥ Ms EDGE_COMMAND_LIFETIME_MS → t.canSend s now = false) := by
  intro t log history
  obtain ⟨hinv, h⟩ := run_invariant_new (I := RetryInv)
    (fun _ _ _ _ _ hinv hI hstep => retryInv_step hinv hI hstep) retryInv_new calls
  have hlog : record history = log := record_visits new calls
  have hw : WindowInv t := hinv.window
  refine ⟨?_, h.waits.one, h.writes.bound, ?_, ?_, ?_⟩
  · rw [← hlog]
    exact fun s hs s' hs' hsession hseq => payload_eq hinv.record h.payloads hs hs' hsession hseq
  · exact fun call s hs => sent_when hw h.writes (call_step hw call) hs
  · intro type p now rest htype hactive t' log'
    have hstep := onFrame_step type p now t
    have hsettled : Settled (t.onFrame type p now).1 t.session (p.getD 8 0) := by
      refine settled_of_frame hw h.tables.split htype hstep ?_
      by_contra hquiet
      rw [not_or, not_not, not_not] at hquiet
      refine hactive (Prod.ext hquiet.2 ?_)
      have hnil := List.append_eq_nil_iff.mp hquiet.1
      cases hactions : (t.onFrame type p now).2 with
      | mk send finished =>
          rw [hactions, List.map_eq_nil_iff, List.map_eq_nil_iff] at hnil
          rw [show send = [] from hnil.2, show finished = [] from hnil.1]
    obtain ⟨hrest, hsilent⟩ := settled_run rest (windowInv_call hw (.onFrame type p now)) hsettled
    refine ⟨?_, fun s now' hcarries => settled_canSend hrest hcarries now'⟩
    have hfirst : commands ((t.onFrame type p now).2.events t.session) = [] := by
      refine List.eq_nil_iff_forall_not_mem.mpr fun s hs => ?_
      cases sent_step hw hstep s hs with
      | first _ _ _ hcall => cases hcall
      | again _ _ _ hcall => cases hcall
    show (commands ((t.onFrame type p now).2.events t.session ++ _)).filter _ = []
    rw [commands_append, hfirst, List.nil_append]
    exact hsilent
  · rw [← hlog]
    exact fun c queued hin s now hcarries hlate => expired_canSend h.queued hin hcarries hlate

end CommandTracker

end EdgeGateway
