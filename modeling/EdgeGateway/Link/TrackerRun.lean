import EdgeGateway.Link.TrackerCompletion
import EdgeGateway.Link.TrackerStep

set_option autoImplicit false

/-! # Runs of the sender with their history

A run is a list of calls. Its history keeps for each call the tracker it was made on, what it
returned and the tracker it left; `run_invariant` is the induction over it.
-/

namespace EdgeGateway

/-- One call of a run. -/
structure Visit where
  before : CommandTracker
  call : TrackerCall
  events : List TrackerEvent
  after : CommandTracker

/-- The frames handed out by a call. -/
def TrackerEvent.send? : TrackerEvent → Option CommandSend
  | .send s => some s
  | _ => none

def sends (log : List TrackerEvent) : List CommandSend := log.filterMap TrackerEvent.send?

/-- Everything a history returned. -/
def record (history : List Visit) : List TrackerEvent := history.flatMap Visit.events

theorem mem_sends {s : CommandSend} {log : List TrackerEvent} : s ∈ sends log ↔ .send s ∈ log := by
  rw [sends, List.mem_filterMap]
  constructor
  · rintro ⟨e, he, hs⟩
    cases e <;> simp_all [TrackerEvent.send?]
  · intro h
    exact ⟨_, h, rfl⟩

@[simp] theorem sends_nil : sends [] = [] := rfl

@[simp] theorem sends_append (log es : List TrackerEvent) :
    sends (log ++ es) = sends log ++ sends es :=
  List.filterMap_append

@[simp] theorem record_nil : record [] = [] := rfl

@[simp] theorem record_append (history rest : List Visit) :
    record (history ++ rest) = record history ++ record rest :=
  List.flatMap_append

@[simp] theorem record_singleton (v : Visit) : record [v] = v.events := by
  simp [record]

@[simp] theorem sends_map (l : List CommandSend) : sends (l.map .send) = l := by
  rw [sends, List.filterMap_map]
  exact List.filterMap_some

/-- Completions send nothing. -/
@[simp] theorem sends_cancelled (t : CommandTracker) (error : UInt8 → String) :
    sends (t.cancelled error) = [] := by
  rw [sends, CommandTracker.cancelled, List.filterMap_map]
  exact List.filterMap_eq_nil_iff.mpr fun _ _ => rfl

namespace CommandTracker

/-- The history of a run. -/
def visits : CommandTracker → List TrackerCall → List Visit
  | _, [] => []
  | t, call :: rest => ⟨t, call, (t.call call).2, (t.call call).1⟩ :: visits (t.call call).1 rest

theorem record_visits (t : CommandTracker) (calls : List TrackerCall) :
    record (visits t calls) = (runTracker t calls).2 := by
  induction calls generalizing t with
  | nil => rfl
  | cons call rest ih =>
      show (t.call call).2 ++ record (visits (t.call call).1 rest) = _
      rw [ih]
      rfl

theorem visits_append (t : CommandTracker) (calls rest : List TrackerCall) :
    visits t (calls ++ rest) = visits t calls ++ visits (runTracker t calls).1 rest := by
  induction calls generalizing t with
  | nil => rfl
  | cons call calls ih =>
      simp only [List.cons_append, visits, ih]
      rfl

theorem windowInv_call {t : CommandTracker} (h : WindowInv t) (call : TrackerCall) :
    WindowInv (t.call call).1 :=
  (call_acts t call).preserves (fun _ _ _ hI hact => windowInv_act hact hI) h

/-- **The invariant rule for runs.** A relation between the tracker and the history that every
outcome of a call preserves holds along every run. -/
theorem run_invariant {I : CommandTracker → List Visit → Prop}
    (hstep : ∀ t history call es t', TrackerInv t (record history) → I t history →
      TrackerStep t call es t' → I t' (history ++ [⟨t, call, es, t'⟩]))
    (calls : List TrackerCall) {t : CommandTracker} {history : List Visit}
    (ht : TrackerInv t (record history)) (hI : I t history) :
    TrackerInv (runTracker t calls).1 (record (history ++ visits t calls)) ∧
      I (runTracker t calls).1 (history ++ visits t calls) := by
  induction calls generalizing t history with
  | nil => simpa [runTracker, visits] using ⟨ht, hI⟩
  | cons call rest ih =>
      have hnext := hstep t history call _ _ ht hI (call_step ht.window call)
      have hinv := trackerInv_call call ht
      have := @ih _ (history ++ [⟨t, call, (t.call call).2, (t.call call).1⟩])
        (by simpa using hinv) hnext
      rwa [List.append_assoc] at this

/-- The invariant rule from the start. -/
theorem run_invariant_new {I : CommandTracker → List Visit → Prop}
    (hstep : ∀ t history call es t', TrackerInv t (record history) → I t history →
      TrackerStep t call es t' → I t' (history ++ [⟨t, call, es, t'⟩]))
    (hnew : I new []) (calls : List TrackerCall) :
    TrackerInv (runTracker new calls).1 (record (visits new calls)) ∧
      I (runTracker new calls).1 (visits new calls) :=
  run_invariant hstep calls trackerInv_new hnew

/-- The invariant rule for a property of the tracker alone. -/
theorem run_preserves {I : CommandTracker → Prop}
    (hstep : ∀ t call es t', WindowInv t → I t → TrackerStep t call es t' → I t')
    (calls : List TrackerCall) {t : CommandTracker} (hw : WindowInv t) (hI : I t) :
    I (runTracker t calls).1 := by
  induction calls generalizing t with
  | nil => exact hI
  | cons call rest ih =>
      exact ih (windowInv_call hw call) (hstep t call _ _ hw hI (call_step hw call))

/-! ## What retries and ends of sessions hand out -/

variable {t : CommandTracker} {now : TimePoint} {seq : UInt8} {e : Entry}

/-- The end of a session hands out acknowledgements at most. -/
theorem sends_ended {call : TrackerCall} {ended : List TrackerEvent}
    (h : SessionEnd t call ended) : ∀ s ∈ sends ended, s.type = EDGE_TYPE_SR_RESULT_ACK := by
  cases h with
  | rollover p now seq e =>
      intro s hs
      obtain rfl := List.mem_singleton.mp hs
      rfl
  | _ =>
      intro s hs
      rw [sends_cancelled] at hs
      cases hs

theorem due_spec (h : e.due now = true) :
    e.received = false ∧ e.pending = false ∧ now - e.sentAt ≥ Ms EDGE_ACK_TIMEOUT_MS := by
  simpa only [Entry.due, decide_eq_true_eq] using h

/-- A retry carries the attempt that its entry has come to. -/
theorem dataSend_retried (t : CommandTracker) (seq : UInt8) (e : Entry) (now : TimePoint) :
    t.dataSend seq (e.retried now) = t.dataSend seq e := by
  unfold Entry.retried
  split_ifs <;> rfl

theorem mem_retry {s : CommandSend} (hs : s ∈ (t.retry now).2.send) :
    ∃ seq e, t.entries.find? seq = some e ∧ e.due now = true ∧ s = t.dataSend seq e := by
  obtain ⟨⟨seq, e⟩, hentry, rfl⟩ := List.mem_map.mp hs
  obtain ⟨hmem, hdue⟩ := List.mem_filter.mp hentry
  exact ⟨seq, e, KeyMap.mem_toList.mp hmem, hdue, dataSend_retried t seq e now⟩

theorem find?_retry (hentry : t.entries.find? seq = some e) (hdue : e.due now = true) :
    (t.retry now).1.entries.find? seq = some { e with pending := true } := by
  show (t.entries.map _).find? seq = _
  rw [KeyMap.find?_map, hentry, Option.map_some, Entry.retried, if_pos hdue]

/-- The entries that are due have different numbers. -/
theorem retry_seqs_nodup (t : CommandTracker) (now : TimePoint) :
    ((t.retry now).2.send.map CommandSend.seq).Nodup := by
  have hkeys : ((t.entries.toList.filter fun entry => entry.2.due now).map Prod.fst).Nodup :=
    (KeyMap.nodup_keys_toList t.entries).sublist (List.filter_sublist.map _)
  simpa [retry, List.map_map, Function.comp_def, dataSend] using hkeys

end CommandTracker

end EdgeGateway
