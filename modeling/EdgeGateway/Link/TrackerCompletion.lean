import EdgeGateway.Link.TrackerInvariant

set_option autoImplicit false

/-! # Each command is completed once, in time

Runs of the sender with arbitrary arguments: arbitrary frames, arbitrary writes reported, times in
any order.
-/

namespace EdgeGateway

namespace CommandTracker

/-- The tracker after the calls, and everything returned. -/
def runTracker : CommandTracker → List TrackerCall → CommandTracker × List TrackerEvent
  | t, [] => (t, [])
  | t, call :: rest =>
      let (t', es) := t.call call
      let (t'', es') := runTracker t' rest
      (t'', es ++ es')

theorem trackerInv_runTracker (calls : List TrackerCall) {t : CommandTracker}
    {log : List TrackerEvent} (ht : TrackerInv t log) :
    TrackerInv (runTracker t calls).1 (log ++ (runTracker t calls).2) := by
  induction calls generalizing t log with
  | nil => simpa [runTracker] using ht
  | cons call rest ih =>
      have := ih (trackerInv_call call ht)
      rwa [List.append_assoc] at this

theorem inflight_length (t : CommandTracker) : t.inflight.length = t.entries.size := by
  rw [inflight, List.length_map, KeyMap.size]

/-! ## The end of a session -/

variable {t : CommandTracker}

theorem begin_state (session : UInt64) (now : TimePoint) (actions : TrackerActions)
    (t : CommandTracker) : (begin session now actions t).1.state ≠ .ready := by
  unfold begin
  split_ifs
  · exact fun h => by cases h
  · exact fun h => by cases h

theorem begin_finished (session : UInt64) (now : TimePoint) (actions : TrackerActions)
    (t : CommandTracker) : (begin session now actions t).2.finished = actions.finished := by
  unfold begin
  split_ifs <;> rfl

theorem abort_state (failedSeq : UInt8) (reason : String) (now : TimePoint) (t : CommandTracker) :
    (t.abort failedSeq reason now).1.state ≠ .ready :=
  begin_state _ _ _ _

theorem abort_finished (failedSeq : UInt8) (reason : String) (now : TimePoint)
    (t : CommandTracker) :
    (t.abort failedSeq reason now).2.finished = t.entries.toList.map fun entry =>
      failure entry (if entry.1 = failedSeq then reason else "session_aborted") :=
  begin_finished _ _ _ _

theorem tickOpening_state (now : TimePoint) (h : t.state = .opening) :
    (t.tickOpening now).1.state ≠ .ready := by
  unfold tickOpening
  split_ifs
  · exact fun h => by cases h
  · exact fun h => by cases h
  · exact fun h' => by cases h.symm.trans h'
  · exact fun h' => by cases h.symm.trans h'

/-- A tick that leaves the tracker ready has found no lost command. -/
theorem tick_ready {now : TimePoint} (h : (t.tick now).1.state = .ready) :
    t.tick now = t.retry now ∧ ∀ entry ∈ t.entries.toList, entry.2.lost now = false := by
  unfold tick at h ⊢
  split_ifs at h ⊢ with hopening hready
  · exact absurd h (tickOpening_state now hopening)
  · exact absurd h hready
  · cases hlost : t.entries.toList.find? fun entry => entry.2.lost now with
    | none =>
        refine ⟨rfl, fun entry hentry => ?_⟩
        simpa using List.find?_eq_none.mp hlost entry hentry
    | some entry =>
        rw [hlost] at h
        exact absurd h (abort_state _ _ _ _)

/-- A tick that ends a ready session aborts it for a lost command. -/
theorem tick_ends {now : TimePoint} (hready : t.state = .ready)
    (h : (t.tick now).1.state ≠ .ready) :
    ∃ seq e, t.entries.find? seq = some e ∧ t.tick now = t.abort seq "timeout" now := by
  unfold tick at h ⊢
  rw [if_neg (by rw [hready]; decide), if_neg (not_not.mpr hready)] at h ⊢
  cases hlost : t.entries.toList.find? fun entry => entry.2.lost now with
  | none =>
      rw [hlost] at h
      exact absurd hready h
  | some entry =>
      exact ⟨entry.1, entry.2, KeyMap.mem_toList.mp (List.mem_of_find?_eq_some hlost), rfl⟩

/-- Why a write that ends a session ends it: it came too late, or it failed. -/
def writeReason (send : CommandSend) (now : TimePoint) (t : CommandTracker) : String :=
  match t.entries.find? send.seq with
  | none => "session_aborted"
  | some e =>
      if now - e.queuedAt ≥ Ms EDGE_COMMAND_LIFETIME_MS then "timeout" else "send_failed"

theorem onWritten_ends {send : CommandSend} {success : Bool} {now : TimePoint}
    (hready : t.state = .ready) (h : (t.onWritten send success now).1.state ≠ .ready) :
    (∃ e, t.entries.find? send.seq = some e) ∧
      t.onWritten send success now = t.abort send.seq (t.writeReason send now) now := by
  unfold onWritten at h ⊢
  split_ifs at h ⊢ with hsession hopen hskip
  · exact absurd hready h
  · refine absurd ?_ h
    unfold onOpenWritten
    rw [if_pos (.inl (by rw [hready]; decide))]
    exact hready
  · exact absurd hready h
  · unfold onDataWritten writeReason at *
    cases hentry : t.entries.find? send.seq with
    | none =>
        rw [hentry] at h
        exact absurd hready h
    | some e =>
        rw [hentry] at h
        dsimp only at h ⊢
        refine ⟨⟨e, rfl⟩, ?_⟩
        by_cases hold : e.pending = false ∨ e.received = true ∨ send.attempt ≠ e.sends
        · rw [if_pos hold] at h
          exact absurd hready h
        rw [if_neg hold] at h ⊢
        split_ifs at h ⊢
        · rfl
        · rfl
        · exact absurd hready h

/-- All commands in flight are completed, one of them with the reason that ended the session, all
others with `session_aborted`. -/
structure EndsSession (t : CommandTracker) (reason : String)
    (ended : List (UInt64 × CommandCompletion)) : Prop where
  trigger : reason = "timeout" ∨ reason = "send_failed"
  all : ended.map finishTicket = t.inflight
  one : ended.countP (fun f => f.2.error = reason) = 1
  rest : ∀ f ∈ ended, f.2.error = reason ∨ f.2.error = "session_aborted"

/-- The entries have different numbers, so the one that failed is completed once. -/
theorem abort_endsSession {seq : UInt8} {e : Entry} (hentry : t.entries.find? seq = some e)
    {reason : String} (hreason : reason = "timeout" ∨ reason = "send_failed") (now : TimePoint) :
    EndsSession t reason (finishes ((t.abort seq reason now).2.events t.session)) := by
  have hne : reason ≠ "session_aborted" := by rcases hreason with rfl | rfl <;> decide
  rw [finishes_events, abort_finished, List.map_map]
  constructor
  case trigger => exact hreason
  case all =>
    rw [List.map_map]
    rfl
  case one =>
    rw [List.countP_map]
    have hcount : (t.entries.toList.map Prod.fst).count seq = 1 := by
      refine List.count_eq_one_of_mem (KeyMap.nodup_keys_toList _) ?_
      exact List.mem_map.mpr ⟨(seq, e), KeyMap.mem_toList.mpr hentry, rfl⟩
    rw [List.count, List.countP_map] at hcount
    rw [← hcount]
    refine List.countP_congr fun entry _ => ?_
    simp only [Function.comp_apply, failure, decide_eq_true_eq, beq_iff_eq]
    split_ifs with hseq
    · exact iff_of_true rfl hseq
    · exact iff_of_false (Ne.symm hne) hseq
  case rest =>
    intro f hf
    obtain ⟨entry, -, rfl⟩ := List.mem_map.mp hf
    simp only [Function.comp_apply, failure]
    split_ifs
    · exact .inl rfl
    · exact .inr rfl

/-- The reason a call gives when it ends a session. -/
def endReason (t : CommandTracker) : TrackerCall → String
  | .onWritten send _ now => t.writeReason send now
  | _ => "timeout"

theorem writeReason_eq {send : CommandSend} {now : TimePoint} {e : Entry}
    (h : t.entries.find? send.seq = some e) :
    t.writeReason send now = "timeout" ∨ t.writeReason send now = "send_failed" := by
  unfold writeReason
  rw [h]
  dsimp only
  split_ifs
  · exact .inl rfl
  · exact .inr rfl

theorem call_endsSession {call : TrackerCall}
    (hcall : (∃ now, call = .tick now) ∨ ∃ send success now, call = .onWritten send success now)
    (hready : t.state = .ready) (h : (t.call call).1.state ≠ .ready) :
    EndsSession t (t.endReason call) (finishes (t.call call).2) := by
  rcases hcall with ⟨now, rfl⟩ | ⟨send, success, now, rfl⟩
  · change (t.tick now).1.state ≠ .ready at h
    obtain ⟨seq, e, hentry, habort⟩ := tick_ends hready h
    show EndsSession t "timeout" (finishes ((t.tick now).2.events t.session))
    rw [habort]
    exact abort_endsSession hentry (.inl rfl) now
  · change (t.onWritten send success now).1.state ≠ .ready at h
    obtain ⟨⟨e, hentry⟩, habort⟩ := onWritten_ends hready h
    show EndsSession t (t.writeReason send now)
      (finishes ((t.onWritten send success now).2.events t.session))
    rw [habort]
    exact abort_endsSession hentry (writeReason_eq hentry) now

/-! ## Deadlines -/

theorem lost_eq_false {e : Entry} {now : TimePoint} (h : e.lost now = false) :
    now - e.queuedAt < Ms EDGE_SR_RESULT_TIMEOUT_MS ∧
      (e.received = false → now - e.queuedAt < Ms EDGE_COMMAND_LIFETIME_MS) := by
  simp only [Entry.lost, decide_eq_false_iff_not, not_or, not_and, not_le, ge_iff_le] at h
  exact ⟨h.2.1, h.1⟩

/-- **Every command is completed once and in time.** After any calls: completions and commands in
flight together are the accepted commands, which have different numbers in each session; a tick
that leaves the tracker ready leaves no command in flight that was accepted 10 s ago, or 4 s ago
without a receipt; and a tick or a write that ends a ready session completes all its commands, one
of them for the reason that ended it. -/
theorem sender_completes_once (calls : List TrackerCall) :
    let t := (runTracker new calls).1
    let log := (runTracker new calls).2
    (((finishes log).map finishTicket ++ t.inflight).Perm ((submits log).map Command.ticket) ∧
      ((submits log).map fun c => (c.session, c.seq)).Nodup ∧
      t.entries.size + (finishes log).length = (submits log).length) ∧
    (∀ now, (t.tick now).1.state = .ready →
      ∀ seq e, (t.tick now).1.entries.find? seq = some e →
        ∃ queued, .submit ⟨(t.tick now).1.session, seq, e.type, e.args⟩ queued ∈ log ∧
          now - queued < Ms EDGE_SR_RESULT_TIMEOUT_MS ∧
          (e.received = false → now - queued < Ms EDGE_COMMAND_LIFETIME_MS)) ∧
    (∀ call, ((∃ now, call = .tick now) ∨
        ∃ send success now, call = .onWritten send success now) →
      t.state = .ready → (t.call call).1.state ≠ .ready →
      EndsSession t (t.endReason call) (finishes (t.call call).2)) := by
  intro t log
  have hinv : TrackerInv t log := trackerInv_runTracker calls trackerInv_new
  refine ⟨⟨hinv.balance, hinv.record.submits_nodup, ?_⟩, ?_, fun call => call_endsSession⟩
  · have := hinv.balance.length_eq
    simp only [List.length_append, List.length_map, inflight_length] at this
    omega
  · intro now hready seq e he
    obtain ⟨hretry, hlost⟩ := tick_ready hready
    rw [hretry] at he ⊢
    obtain ⟨e₀, he₀, rfl⟩ := Option.map_eq_some_iff.mp he
    obtain ⟨hresult, hreceipt⟩ := lost_eq_false (hlost (seq, e₀) (KeyMap.mem_toList.mpr he₀))
    have hqueued := hinv.record.entry_queued seq e₀ he₀
    refine ⟨e₀.queuedAt, ?_, hresult, ?_⟩
    · unfold Entry.retried
      split_ifs <;> exact hqueued
    · intro hnot
      refine hreceipt ?_
      unfold Entry.retried at hnot
      split_ifs at hnot <;> exact hnot

end CommandTracker

end EdgeGateway
