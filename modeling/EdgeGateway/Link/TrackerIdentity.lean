import EdgeGateway.Link.TrackerRun

set_option autoImplicit false

/-! # Stale identities are inert

Session, type, sequence number and attempt identify a transmission. An identity is behind the
tracker when it can be handed out no more, and reported when no write of it can change anything
more. Both are kept by every call; what is handed out was not behind the tracker before, and a write
that changes something was not reported before.
-/

namespace EdgeGateway

/-- What identifies a transmission in the callback of its write. -/
structure Identity where
  session : UInt64
  type : UInt8
  seq : UInt8
  attempt : Nat
  deriving DecidableEq

def CommandSend.identity (s : CommandSend) : Identity := ⟨s.session, s.type, s.seq, s.attempt⟩

/-- The transmissions that open a session or carry a command. -/
def tracked (log : List TrackerEvent) : List CommandSend :=
  (sends log).filter fun s => s.type = EDGE_TYPE_SR_OPEN ∨ s.type = EDGE_TYPE_SR_COMMAND

@[simp] theorem tracked_append (log es : List TrackerEvent) :
    tracked (log ++ es) = tracked log ++ tracked es := by
  rw [tracked, sends_append, List.filter_append, tracked, tracked]

/-- The call reports a write of `i` and changes the tracker. -/
def Visit.Writes (v : Visit) (i : Identity) : Prop :=
  ∃ send success now, v.call = .onWritten send success now ∧ send.identity = i ∧ v.after ≠ v.before

namespace CommandTracker

/-! ## Used attempts -/

/-- An attempt below the number of writes; when `queued`, the one that waits for its write too. -/
def Used (queued : Bool) (attempt sends : Nat) (pending : Bool) : Prop :=
  attempt < sends ∨ (queued = true ∧ attempt = sends ∧ pending = true)

theorem Used.mono {queued pending pending' : Bool} {attempt sends sends' : Nat}
    (h : Used queued attempt sends pending) (hle : sends ≤ sends')
    (hpending : sends' = sends → pending = true → pending' = true) :
    Used queued attempt sends' pending' := by
  rcases h with hlt | ⟨hqueued, hattempt, hwaits⟩
  · exact .inl (Nat.lt_of_lt_of_le hlt hle)
  · rcases Nat.eq_or_lt_of_le hle with heq | hlt
    · exact .inr ⟨hqueued, hattempt.trans heq, hpending heq.symm hwaits⟩
    · exact .inl (hattempt ▸ hlt)

/-- The identity is of an earlier session, or its attempt is used. -/
def Past (queued : Bool) (t : CommandTracker) (i : Identity) : Prop :=
  i.session < t.session ∨ i.session = t.session ∧
    (i.type = EDGE_TYPE_SR_OPEN → t.state = .opening →
      Used queued i.attempt t.openSends t.openPending) ∧
    (i.type = EDGE_TYPE_SR_COMMAND → i.seq.toNat < t.next ∧
      ∀ e, t.entries.find? i.seq = some e → Used queued i.attempt e.sends e.pending)

/-- Handed out before, or never to be handed out. -/
abbrev Behind : CommandTracker → Identity → Prop := Past true

/-- Reported before, or never to be reported with an effect. -/
abbrev Reported : CommandTracker → Identity → Prop := Past false

variable {t t' : CommandTracker} {queued : Bool} {i : Identity}

theorem Past.session_le (h : Past queued t i) : i.session ≤ t.session := by
  rcases h with hlt | ⟨heq, -⟩
  · exact UInt64.le_of_lt hlt
  · exact heq ▸ UInt64.le_refl _

theorem Past.later (h : Past queued t i) (hlt : t.session < t'.session) : Past queued t' i :=
  .inl (UInt64.lt_of_le_of_lt h.session_le hlt)

/-- Writes only add up, and a waiting transmission waits until it is written. -/
theorem Past.mono (h : Past queued t i) (hsession : t'.session = t.session)
    (hopen : t'.state = .opening → t.state = .opening ∧ t.openSends ≤ t'.openSends ∧
      (t'.openSends = t.openSends → t.openPending = true → t'.openPending = true))
    (hnext : t.next ≤ t'.next)
    (hentries : ∀ seq e', seq.toNat < t.next → t'.entries.find? seq = some e' →
      ∃ e, t.entries.find? seq = some e ∧ e.sends ≤ e'.sends ∧
        (e'.sends = e.sends → e.pending = true → e'.pending = true)) : Past queued t' i := by
  rcases h with hlt | ⟨heq, hopens, hdata⟩
  · exact .inl (hsession ▸ hlt)
  · refine .inr ⟨heq.trans hsession.symm, ?_, ?_⟩
    · intro htype hopening
      obtain ⟨hopening, hle, hwaits⟩ := hopen hopening
      exact (hopens htype hopening).mono hle hwaits
    · intro htype
      obtain ⟨hlt, hused⟩ := hdata htype
      refine ⟨Nat.lt_of_lt_of_le hlt hnext, fun e' he' => ?_⟩
      obtain ⟨e, he, hle, hwaits⟩ := hentries i.seq e' hlt he'
      exact (hused e he).mono hle hwaits

/-- Out of the handshake only the entries count. -/
theorem Past.mono_data (h : Past queued t i) (hsession : t'.session = t.session)
    (hstate : t'.state ≠ .opening) (hnext : t.next ≤ t'.next)
    (hentries : ∀ seq e', seq.toNat < t.next → t'.entries.find? seq = some e' →
      ∃ e, t.entries.find? seq = some e ∧ e.sends ≤ e'.sends ∧
        (e'.sends = e.sends → e.pending = true → e'.pending = true)) : Past queued t' i :=
  h.mono hsession (fun hopening => absurd hopening hstate) hnext hentries

theorem not_opening (hready : t.state = .ready) : t.state ≠ .opening := by
  rw [hready]
  decide

/-- The attempts of an entry that is not new only add up. -/
theorem sends_step {call : TrackerCall} {seq : UInt8} {e' : Entry} (h : EntryStep t call seq e')
    (hlt : seq.toNat < t.next) : ∃ e, t.entries.find? seq = some e ∧ e.sends ≤ e'.sends ∧
      (e'.sends = e.sends → e.pending = true → e'.pending = true) := by
  cases h with
  | created type args now hcall hseq => exact absurd hlt (by omega)
  | kept e hentry => exact ⟨_, hentry, Nat.le_refl _, fun _ hwaits => hwaits⟩
  | received e hentry => exact ⟨e, hentry, Nat.le_refl _, fun _ hwaits => hwaits⟩
  | written send now e hcall hsession htype hseq hentry =>
      exact ⟨e, hentry, Nat.le_succ _, fun heq => absurd heq (Nat.succ_ne_self _)⟩
  | retried now e hcall hentry => exact ⟨e, hentry, Nat.le_refl _, fun _ _ => rfl⟩

/-- **What is past stays past.** -/
theorem past_step {call : TrackerCall} {es : List TrackerEvent} (hw : WindowInv t)
    (hstep : TrackerStep t call es t') (h : Past queued t i) : Past queued t' i := by
  have hentries : ∀ seq e', seq.toNat < t.next → t'.entries.find? seq = some e' →
      ∃ e, t.entries.find? seq = some e ∧ e.sends ≤ e'.sends ∧
        (e'.sends = e.sends → e.pending = true → e'.pending = true) :=
    fun seq e' hlt he' => sends_step (entry_step hw hstep he').2 hlt
  cases hstep with
  | ignored => exact h
  | begun _ ended session hend hlt => exact h.later hlt
  | exhausted _ ended _ hend hmax hfailed hempty hsession hnext =>
      exact h.mono_data hsession (by rw [hfailed]; decide) (hnext ▸ Nat.le_refl _) hentries
  | openFailed => exact h.mono_data rfl TrackerState.noConfusion (Nat.le_refl _) hentries
  | openUnwritten => exact h.mono_data rfl TrackerState.noConfusion (Nat.le_refl _) hentries
  | openWritten send now hopening =>
      refine h.mono rfl (fun _ => ⟨hopening, Nat.le_succ _, fun heq => ?_⟩) (Nat.le_refl _) hentries
      exact absurd heq (Nat.succ_ne_self _)
  | openRetried now hopening =>
      exact h.mono rfl (fun _ => ⟨hopening, Nat.le_refl _, fun _ _ => rfl⟩) (Nat.le_refl _) hentries
  | openRejected p now highWater hopening hbudget htime hwater hmax =>
      exact h.later (UInt64.lt_of_le_of_lt hwater (lt_session_succ hmax))
  | opened => exact h.mono_data rfl TrackerState.noConfusion (Nat.le_refl _) hentries
  | submitted type args now hcan =>
      exact h.mono_data rfl (not_opening (canSubmit_spec hcan).1) (Nat.le_succ _) hentries
  | dataWritten send now e hready =>
      exact h.mono_data rfl (not_opening hready) (Nat.le_refl _) hentries
  | receipt p now seq e hready =>
      exact h.mono_data rfl (not_opening hready) (Nat.le_refl _) hentries
  | result p now seq e hready =>
      exact h.mono_data rfl (not_opening hready) (Nat.le_refl _) hentries
  | resultAgain => exact h
  | retried now hready =>
      exact h.mono_data rfl (not_opening hready) (Nat.le_refl _) hentries

/-! ## What is handed out -/

/-- The transmissions of a call are new, and behind the tracker from then on. -/
structure Fresh (t : CommandTracker) (sent : List CommandSend) (t' : CommandTracker) : Prop where
  nodup : (sent.map CommandSend.identity).Nodup
  new : ∀ s ∈ sent, ¬ Behind t s.identity
  behind : ∀ s ∈ sent, Behind t' s.identity

theorem fresh_nil : Fresh t [] t' where
  nodup := List.nodup_nil
  new := fun _ h => by cases h
  behind := fun _ h => by cases h

theorem fresh_single {s : CommandSend} (hnew : ¬ Behind t s.identity)
    (hbehind : Behind t' s.identity) : Fresh t [s] t' where
  nodup := List.nodup_singleton _
  new := by simpa using hnew
  behind := by simpa using hbehind

/-- The OPEN of a session above all earlier ones. -/
theorem fresh_open (hlt : t.session < t'.session) (hpending : t'.openPending = true) :
    Fresh t [t'.openSend] t' := by
  refine fresh_single (fun h => ?_) (.inr ⟨rfl, fun _ _ => .inr ⟨rfl, rfl, hpending⟩, ?_⟩)
  · exact UInt64.lt_irrefl _ (UInt64.lt_of_le_of_lt h.session_le hlt)
  · intro htype
    exact absurd htype (show EDGE_TYPE_SR_OPEN ≠ EDGE_TYPE_SR_COMMAND by decide)

theorem tracked_ended {call : TrackerCall} {ended : List TrackerEvent}
    (h : SessionEnd t call ended) : tracked ended = [] := by
  rw [tracked, List.filter_eq_nil_iff]
  intro s hs
  rw [sends_ended h s hs]
  decide

theorem tracked_open (u : CommandTracker) : tracked [.send u.openSend] = [u.openSend] := rfl

theorem tracked_retry (now : TimePoint) (t : CommandTracker) :
    tracked ((t.retry now).2.send.map .send) = (t.retry now).2.send := by
  rw [tracked, sends_map, List.filter_eq_self]
  intro s hs
  obtain ⟨seq, e, -, -, rfl⟩ := mem_retry hs
  exact decide_eq_true (.inr rfl)

/-- A command that is due was written and is handed out with its next attempt. -/
theorem fresh_retry (hw : WindowInv t) (now : TimePoint) (hready : t.state = .ready) :
    Fresh t (t.retry now).2.send (t.retry now).1 := by
  constructor
  case nodup =>
    refine List.Nodup.of_map Identity.seq ?_
    rw [List.map_map]
    exact retry_seqs_nodup t now
  case new =>
    intro s hs hbehind
    obtain ⟨seq, e, hentry, hdue, rfl⟩ := mem_retry hs
    rcases hbehind with hlt | ⟨-, -, hdata⟩
    · exact UInt64.lt_irrefl _ hlt
    · rcases (hdata rfl).2 e hentry with hlt | ⟨-, -, hwaits⟩
      · exact Nat.lt_irrefl _ hlt
      · rw [(due_spec hdue).2.1] at hwaits
        cases hwaits
  case behind =>
    intro s hs
    obtain ⟨seq, e, hentry, hdue, rfl⟩ := mem_retry hs
    refine .inr ⟨rfl, fun _ hopening => ?_, fun _ => ⟨hw.entry_lt seq e hentry, fun e' he' => ?_⟩⟩
    · cases hready.symm.trans hopening
    · obtain rfl := Option.some.inj ((find?_retry hentry hdue).symm.trans he')
      exact .inr ⟨rfl, rfl, rfl⟩

/-- **What a call hands out was never handed out before.** -/
theorem fresh_step {call : TrackerCall} {es : List TrackerEvent} (hw : WindowInv t)
    (hstep : TrackerStep t call es t') : Fresh t (tracked es) t' := by
  cases hstep with
  | ignored => exact fresh_nil
  | begun _ ended session hend hlt =>
      rw [tracked_append, tracked_ended hend, tracked_open]
      exact fresh_open hlt rfl
  | exhausted _ ended _ hend =>
      rw [tracked_ended hend]
      exact fresh_nil
  | openFailed => exact fresh_nil
  | openUnwritten => exact fresh_nil
  | openWritten => exact fresh_nil
  | openRetried now hopening hidle =>
      refine fresh_single (fun hbehind => ?_) (.inr ⟨rfl, fun _ _ => .inr ⟨rfl, rfl, rfl⟩, ?_⟩)
      · rcases hbehind with hlt | ⟨-, hopens, -⟩
        · exact UInt64.lt_irrefl _ hlt
        · rcases hopens rfl hopening with hlt | ⟨-, -, hwaits⟩
          · exact Nat.lt_irrefl _ hlt
          · rw [hidle] at hwaits
            cases hwaits
      · intro htype
        exact absurd htype (show EDGE_TYPE_SR_OPEN ≠ EDGE_TYPE_SR_COMMAND by decide)
  | openRejected p now highWater hopening hbudget htime hwater hmax =>
      have hlt : t.session < (t.reopened (highWater + 1)).session :=
        UInt64.lt_of_le_of_lt hwater (lt_session_succ hmax)
      exact fresh_open hlt rfl
  | opened => exact fresh_nil
  | submitted type args now hcan =>
      obtain ⟨hready, hlt, -⟩ := canSubmit_spec hcan
      refine fresh_single (fun hbehind => ?_) (.inr ⟨rfl, fun htype => ?_, fun _ => ⟨?_, ?_⟩⟩)
      · rcases hbehind with hsession | ⟨-, -, hdata⟩
        · exact UInt64.lt_irrefl _ hsession
        · have := (hdata rfl).1
          change (UInt8.ofNat t.next).toNat < t.next at this
          rw [ofNat_next_toNat hlt] at this
          exact Nat.lt_irrefl _ this
      · exact absurd htype (show EDGE_TYPE_SR_COMMAND ≠ EDGE_TYPE_SR_OPEN by decide)
      · show (UInt8.ofNat t.next).toNat < t.next + 1
        rw [ofNat_next_toNat hlt]
        exact Nat.lt_succ_self _
      · intro e he
        change (t.entries.emplace _ _).find? (UInt8.ofNat t.next) = some e at he
        rw [KeyMap.find?_emplace (hw.next_new hlt), if_pos rfl] at he
        obtain rfl := Option.some.inj he
        exact .inr ⟨rfl, rfl, rfl⟩
  | dataWritten => exact fresh_nil
  | receipt => exact fresh_nil
  | result => exact fresh_nil
  | resultAgain => exact fresh_nil
  | retried now hready hlost =>
      rw [tracked_retry]
      exact fresh_retry hw now hready

/-! ## What a write changes -/

theorem not_used_self (sends : Nat) (pending : Bool) : ¬ Used false sends sends pending := by
  rintro (hlt | ⟨hqueued, -⟩)
  · exact Nat.lt_irrefl _ hlt
  · cases hqueued

/-- The write of an OPEN that waits. -/
theorem not_reported_open {send : CommandSend} (hopening : t.state = .opening)
    (hsession : send.session = t.session) (htype : send.type = EDGE_TYPE_SR_OPEN)
    (hattempt : send.attempt = t.openSends) : ¬ Reported t send.identity := by
  rintro (hlt | ⟨-, hopens, -⟩)
  · exact UInt64.lt_irrefl _ (hsession ▸ hlt)
  · have := hopens htype hopening
    rw [show send.identity.attempt = t.openSends from hattempt] at this
    exact not_used_self _ _ this

/-- The write of a command that waits. -/
theorem not_reported_data {send : CommandSend} {e : Entry} (hsession : send.session = t.session)
    (htype : send.type = EDGE_TYPE_SR_COMMAND) (hentry : t.entries.find? send.seq = some e)
    (hattempt : send.attempt = e.sends) : ¬ Reported t send.identity := by
  rintro (hlt | ⟨-, -, hdata⟩)
  · exact UInt64.lt_irrefl _ (hsession ▸ hlt)
  · have := (hdata htype).2 e hentry
    rw [show send.identity.attempt = e.sends from hattempt] at this
    exact not_used_self _ _ this

/-- **A write changes something once**: its identity was not reported before, and is afterwards. -/
theorem reported_step {send : CommandSend} {success : Bool} {now : TimePoint}
    {es : List TrackerEvent} (hw : WindowInv t)
    (hstep : TrackerStep t (.onWritten send success now) es t') (hne : t' ≠ t) :
    ¬ Reported t send.identity ∧ Reported t' send.identity := by
  cases hstep with
  | ignored => exact absurd rfl hne
  | begun _ ended session hend hlt =>
      cases hend with
      | unwritten _ _ _ e error hready hsession htype hentry hpending hattempt =>
          exact ⟨not_reported_data hsession htype hentry hattempt,
            .inl (by rw [show send.identity.session = t.session from hsession]; exact hlt)⟩
  | exhausted _ ended _ hend hmax hfailed hempty hsame hnext =>
      cases hend with
      | unwritten _ _ _ e error hready hsession htype hentry hpending hattempt =>
          refine ⟨not_reported_data hsession htype hentry hattempt,
            .inr ⟨hsession.trans hsame.symm, fun _ hopening => ?_, fun _ => ⟨?_, fun e he => ?_⟩⟩⟩
          · cases hfailed.symm.trans hopening
          · rw [hnext]
            exact hw.entry_lt _ e hentry
          · rw [hempty] at he
            cases he
  | openFailed _ hopening hcall => rcases hcall with ⟨_, h⟩ | ⟨_, _, h⟩ <;> cases h
  | openUnwritten _ _ _ hopening hpending hsession htype hattempt =>
      refine ⟨not_reported_open hopening hsession htype hattempt,
        .inr ⟨hsession, fun _ h => (by cases h), fun hcommand => ?_⟩⟩
      have htypes : EDGE_TYPE_SR_OPEN = EDGE_TYPE_SR_COMMAND := htype.symm.trans hcommand
      exact absurd htypes (by decide)
  | openWritten _ _ hopening hpending hsession htype hattempt htime =>
      refine ⟨not_reported_open hopening hsession htype hattempt,
        .inr ⟨hsession, fun _ _ => .inl ?_, fun hcommand => ?_⟩⟩
      · show send.attempt < t.openSends + 1
        omega
      · have htypes : EDGE_TYPE_SR_OPEN = EDGE_TYPE_SR_COMMAND := htype.symm.trans hcommand
        exact absurd htypes (by decide)
  | dataWritten _ _ e hready hsession htype hentry hpending hreceived hattempt =>
      refine ⟨not_reported_data hsession htype hentry hattempt,
        .inr ⟨hsession, fun hopen => ?_, fun _ => ⟨hw.entry_lt _ e hentry, fun e' he' => ?_⟩⟩⟩
      · have htypes : EDGE_TYPE_SR_COMMAND = EDGE_TYPE_SR_OPEN := htype.symm.trans hopen
        exact absurd htypes (by decide)
      · change (t.entries.modify _ _).find? send.seq = some e' at he'
        rw [KeyMap.find?_modify, if_pos rfl, hentry] at he'
        obtain rfl := Option.some.inj he'
        refine .inl ?_
        show send.attempt < e.sends + 1
        omega

/-! ## Runs -/

/-- Everything handed out is behind the tracker, every effective report is reported. -/
structure IdentityInv (t : CommandTracker) (history : List Visit) : Prop where
  behind : ∀ s ∈ tracked (record history), Behind t s.identity
  nodup : ((tracked (record history)).map CommandSend.identity).Nodup
  reported : ∀ v ∈ history, ∀ i, v.Writes i → Reported t i
  once : history.Pairwise fun v w => ∀ i, v.Writes i → ¬ w.Writes i

theorem identityInv_new : IdentityInv new [] where
  behind := fun _ h => by cases h
  nodup := List.nodup_nil
  reported := fun _ h => by cases h
  once := List.Pairwise.nil

theorem identityInv_step {history : List Visit} {call : TrackerCall} {es : List TrackerEvent}
    (hw : WindowInv t) (h : IdentityInv t history) (hstep : TrackerStep t call es t') :
    IdentityInv t' (history ++ [⟨t, call, es, t'⟩]) := by
  have hfresh := fresh_step hw hstep
  have hwrites : ∀ i, Visit.Writes ⟨t, call, es, t'⟩ i → ¬ Reported t i ∧ Reported t' i := by
    rintro i ⟨send, success, now, rfl, rfl, hne⟩
    exact reported_step hw hstep hne
  constructor
  case behind =>
    rw [record_append, record_singleton, tracked_append, List.forall_mem_append]
    exact ⟨fun s hs => past_step hw hstep (h.behind s hs), hfresh.behind⟩
  case nodup =>
    rw [record_append, record_singleton, tracked_append, List.map_append, List.nodup_append]
    refine ⟨h.nodup, hfresh.nodup, ?_⟩
    intro i hi i' hi' heq
    obtain ⟨s, hs, rfl⟩ := List.mem_map.mp hi
    obtain ⟨s', hs', rfl⟩ := List.mem_map.mp hi'
    exact hfresh.new s' hs' (heq ▸ h.behind s hs)
  case reported =>
    rw [List.forall_mem_append]
    refine ⟨fun v hv i hi => past_step hw hstep (h.reported v hv i hi), ?_⟩
    intro v hv i hi
    rw [List.mem_singleton] at hv
    subst hv
    exact (hwrites i hi).2
  case once =>
    rw [List.pairwise_append]
    refine ⟨h.once, List.pairwise_singleton _ _, ?_⟩
    intro v hv w hw' i hi hi'
    rw [List.mem_singleton] at hw'
    subst hw'
    exact (hwrites i hi').1 (h.reported v hv i hi)

/-! ## The end of the numbers -/

theorem begin_exhausted (hmax : t.session = SESSION_MAX) (session : UInt64) (now : TimePoint)
    (actions : TrackerActions) :
    begin session now actions t = ({ t with state := .failed }, actions) := by
  have hle : session ≤ t.session := by
    rw [hmax, UInt64.le_iff_toNat_le]
    exact Nat.le_of_lt_succ session.toNat_lt
  rw [begin, if_pos ⟨hle, hmax⟩]

/-- The tracker has failed for good. -/
def Exhausted (t : CommandTracker) : Prop :=
  t.session = SESSION_MAX ∧ t.state = .failed ∧ t.entries = KeyMap.empty

theorem not_max_lt {session : UInt64} (h : SESSION_MAX < session) : False := by
  rw [UInt64.lt_iff_toNat_lt] at h
  exact absurd h (Nat.not_lt.mpr (Nat.le_of_lt_succ session.toNat_lt))

theorem exhausted_step {call : TrackerCall} {es : List TrackerEvent} (h : Exhausted t)
    (hstep : TrackerStep t call es t') : Exhausted t' := by
  obtain ⟨hmax, hfailed, hempty⟩ := h
  cases hstep with
  | ignored => exact ⟨hmax, hfailed, hempty⟩
  | begun _ ended session hend hlt => exact (not_max_lt (hmax ▸ hlt)).elim
  | exhausted _ ended _ hend _ hfailed' hempty' hsession =>
      exact ⟨hsession.trans hmax, hfailed', hempty'⟩
  | openFailed _ hopening => cases hfailed.symm.trans hopening
  | openUnwritten _ _ _ hopening => cases hfailed.symm.trans hopening
  | openWritten _ _ hopening => cases hfailed.symm.trans hopening
  | openRetried _ hopening => cases hfailed.symm.trans hopening
  | openRejected _ _ _ hopening => cases hfailed.symm.trans hopening
  | opened _ _ hopening => cases hfailed.symm.trans hopening
  | submitted _ _ _ hcan => cases hfailed.symm.trans (canSubmit_spec hcan).1
  | dataWritten _ _ _ hready => cases hfailed.symm.trans hready
  | receipt _ _ _ _ hready => cases hfailed.symm.trans hready
  | result _ _ _ _ hready => cases hfailed.symm.trans hready
  | resultAgain _ _ _ hready => cases hfailed.symm.trans hready
  | retried _ hready => cases hfailed.symm.trans hready

/-- A ready session is given up when no number is left. -/
theorem exhausted_of_left {call : TrackerCall} {es : List TrackerEvent}
    (hstep : TrackerStep t call es t') (hmax : t.session = SESSION_MAX) (hready : t.state = .ready)
    (hleft : t'.state ≠ .ready) : Exhausted t' := by
  cases hstep with
  | begun _ ended session hend hlt => exact (not_max_lt (hmax ▸ hlt)).elim
  | exhausted _ ended _ hend _ hfailed hempty hsession =>
      exact ⟨hsession.trans hmax, hfailed, hempty⟩
  | openFailed _ hopening => cases hready.symm.trans hopening
  | openUnwritten _ _ _ hopening => cases hready.symm.trans hopening
  | openWritten _ _ hopening => cases hready.symm.trans hopening
  | openRetried _ hopening => cases hready.symm.trans hopening
  | openRejected _ _ _ hopening => cases hready.symm.trans hopening
  | opened => exact absurd rfl hleft
  | _ => exact absurd hready hleft

/-- A call that asks for a new session, or gives up a ready one, when no number is left. -/
theorem exhausted_of_begin {call : TrackerCall} (hw : WindowInv t) (hmax : t.session = SESSION_MAX)
    (hbegin : (∃ session now, call = .start session now) ∨
      t.state = .ready ∧ (t.call call).1.state ≠ .ready) : Exhausted (t.call call).1 := by
  rcases hbegin with ⟨session, now, rfl⟩ | ⟨hready, hleft⟩
  · show Exhausted (t.start session now).1
    rw [start, begin_exhausted (t := { t with entries := KeyMap.empty }) hmax]
    exact ⟨hmax, rfl, rfl⟩
  · exact exhausted_of_left (call_step hw call) hmax hready hleft

/-! ## Sessions -/

theorem begin_session_lt (session : UInt64) (now : TimePoint) (actions : TrackerActions)
    (t : CommandTracker) (h : (begin session now actions t).1.state = .opening) :
    t.session < (begin session now actions t).1.session := by
  unfold begin at h ⊢
  split_ifs at h ⊢ with hmax
  exact lt_nextSession hmax

/-- A rejected OPEN is sent again above the session it was rejected for. -/
theorem onOpenAck_session_lt (p : List UInt8) (now : TimePoint)
    (h : (t.onOpenAck p now).2.send ≠ []) : t.session < (t.onOpenAck p now).1.session := by
  unfold onOpenAck at h ⊢
  dsimp only at h ⊢
  split_ifs at h ⊢ with hskip hlate hok hreject hlast
  · exact absurd rfl h
  · exact absurd rfl h
  · exact absurd rfl h
  · exact absurd rfl h
  · exact UInt64.lt_of_le_of_lt hreject.2 (lt_session_succ (not_or.mp hlast).1)
  · exact absurd rfl h

theorem onWritten_stale {send : CommandSend} (h : send.session ≠ t.session) (success : Bool)
    (now : TimePoint) : t.onWritten send success now = (t, {}) := by
  rw [onWritten, if_pos h]

theorem onFrame_stale {p : List UInt8} (h : edgeU64BeRead p ≠ t.session) (type : UInt8)
    (now : TimePoint) : t.onFrame type p now = (t, {}) := by
  rw [onFrame, if_pos (.inr (.inr h))]

theorem canSend_stale {send : CommandSend} (h : send.session ≠ t.session) (now : TimePoint) :
    t.canSend send now = false := by
  rw [canSend, if_pos h]

/-- **Stale identities are inert**, after any calls. The session number never decreases, it increases
with every session that is opened and every rejected OPEN that is sent again, and when it is used up
the tracker has failed for good; no OPEN or COMMAND is handed out twice under one identity, no write
is effective twice under one identity; and another session's writes, frames and transmissions have
no effect at all. -/
theorem stale_identities_inert (calls : List TrackerCall) :
    let t := (runTracker new calls).1
    let log := (runTracker new calls).2
    ((∀ call, t.session ≤ (t.call call).1.session) ∧
      (∀ session now actions u, (begin session now actions u).1.state = .opening →
        u.session < (begin session now actions u).1.session) ∧
      (∀ p now, (t.onOpenAck p now).2.send ≠ [] → t.session < (t.onOpenAck p now).1.session) ∧
      (∀ call rest, t.session = SESSION_MAX → ((∃ session now, call = .start session now) ∨
          t.state = .ready ∧ (t.call call).1.state ≠ .ready) →
        (runTracker (t.call call).1 rest).1.state = .failed ∧
        (runTracker (t.call call).1 rest).1.entries = KeyMap.empty)) ∧
    ((tracked log).map CommandSend.identity).Nodup ∧
    ((visits new calls).Pairwise fun v w => ∀ i, v.Writes i → ¬ w.Writes i) ∧
    (∀ send, send.session ≠ t.session →
      (∀ success now, t.onWritten send success now = (t, {})) ∧
      ∀ now, t.canSend send now = false) ∧
    (∀ type p now, edgeU64BeRead p ≠ t.session → t.onFrame type p now = (t, {})) := by
  intro t log
  obtain ⟨hinv, hid⟩ := run_invariant_new (I := IdentityInv)
    (fun _ _ _ _ _ hinv hI hstep => identityInv_step hinv.window hI hstep)
    identityInv_new calls
  have hw : WindowInv t := hinv.window
  have hlog : record (visits new calls) = log := record_visits new calls
  refine ⟨⟨call_session_le t, begin_session_lt, fun p now => onOpenAck_session_lt p now, ?_⟩,
    hlog ▸ hid.nodup, hid.once, ?_, fun type p now h => onFrame_stale h type now⟩
  · intro call rest hmax hbegin
    have hrest : Exhausted (runTracker (t.call call).1 rest).1 :=
      run_preserves (fun _ _ _ _ _ hI hstep => exhausted_step hI hstep) rest
        (windowInv_call hw call) (exhausted_of_begin hw hmax hbegin)
    exact ⟨hrest.2.1, hrest.2.2⟩
  · exact fun send h => ⟨onWritten_stale h, canSend_stale h⟩

end CommandTracker

end EdgeGateway
