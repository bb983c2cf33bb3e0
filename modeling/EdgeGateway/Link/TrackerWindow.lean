import EdgeGateway.Link.TrackerRun

set_option autoImplicit false

/-! # The window is never closed with nothing outstanding

In a ready session every allocated number is either in flight or completed, and the left edge of
the window stands at a number without a receipt. A closed window therefore has a command in flight,
and a command in flight has a deadline.
-/

namespace EdgeGateway

namespace CommandTracker

/-! ## The tables -/

/-- What the tables, the entries and the counters of a session agree on. -/
structure TableInv (t : CommandTracker) : Prop where
  size_le : t.entries.size ≤ EDGE_SR_WINDOW_SIZE
  completed_lt : t.state ≠ .failed → ∀ seq, t.completed seq = true → seq.toNat < t.next
  split : t.state = .ready →
    ∀ seq, seq.toNat < t.next → (t.entries.find? seq = none ↔ t.completed seq = true)
  completed_received : t.state = .ready →
    ∀ seq, t.completed seq = true → t.received seq = true
  edge : t.state = .ready → t.base < t.next → t.received (UInt8.ofNat t.base) = false
  busy : t.state = .ready → t.next = 256 → t.entries ≠ KeyMap.empty

theorem tableInv_new : TableInv new where
  size_le := by rw [new, KeyMap.size_empty]; exact Nat.zero_le _
  completed_lt := fun _ _ h => by cases h
  split := fun h => by cases h
  completed_received := fun h => by cases h
  edge := fun h => by cases h
  busy := fun h => by cases h

variable {t : CommandTracker}

/-- A session that is not ready and has completed nothing. -/
theorem tableInv_idle (hempty : t.entries = KeyMap.empty) (hready : t.state ≠ .ready)
    (hcompleted : t.state ≠ .failed → ∀ seq, t.completed seq = false) : TableInv t where
  size_le := by rw [hempty, KeyMap.size_empty]; exact Nat.zero_le _
  completed_lt := by
    intro hfailed seq h
    rw [hcompleted hfailed seq] at h
    cases h
  split := fun h => absurd h hready
  completed_received := fun h => absurd h hready
  edge := fun h => absurd h hready
  busy := fun h => absurd h hready

/-- Updates of the entries that keep which numbers are in flight. -/
theorem TableInv.entries (h : TableInv t) {entries : KeyMap UInt8 Entry}
    (hsame : ∀ seq, (entries.find? seq).isSome = (t.entries.find? seq).isSome) :
    TableInv { t with entries := entries } := by
  have hnone : ∀ seq, entries.find? seq = none ↔ t.entries.find? seq = none := by
    intro seq
    rw [← Option.not_isSome_iff_eq_none, ← Option.not_isSome_iff_eq_none, hsame seq]
  have hsize : entries.size = t.entries.size := KeyMap.size_congr hsame
  constructor
  case size_le => exact hsize ▸ h.size_le
  case completed_lt => exact h.completed_lt
  case split => exact fun hready seq hlt => (hnone seq).trans (h.split hready seq hlt)
  case completed_received => exact h.completed_received
  case edge => exact h.edge
  case busy =>
    intro hready hnext hempty
    have hzero : entries.size = 0 := KeyMap.size_eq_zero.mpr hempty
    exact h.busy hready hnext (KeyMap.size_eq_zero.mp (hsize ▸ hzero))

/-- A new number is in flight, and no window of eight is overfull. -/
theorem tableInv_submitted (hw : WindowInv t) (h : TableInv t) (hcan : t.canSubmit = true)
    (e : Entry) : TableInv (t.submitted e) := by
  obtain ⟨hready, hlt, -⟩ := canSubmit_spec hcan
  have hnew := hw.next_new hlt
  have hsize : t.entries.size < EDGE_SR_WINDOW_SIZE := by
    simp only [canSubmit, decide_eq_true_eq] at hcan
    exact hcan.2.2.2
  have hfind : ∀ seq, (t.submitted e).entries.find? seq =
      if seq = UInt8.ofNat t.next then some e else t.entries.find? seq :=
    KeyMap.find?_emplace hnew e
  have hne : t.state ≠ .failed := by rw [hready]; decide
  constructor
  case size_le =>
    show (t.entries.emplace _ _).size ≤ _
    rw [KeyMap.size_emplace hnew]
    exact hsize
  case completed_lt =>
    exact fun _ seq hcompleted => Nat.lt_succ_of_lt (h.completed_lt hne seq hcompleted)
  case split =>
    intro _ seq hseq
    rw [hfind]
    show _ ↔ t.completed seq = true
    split_ifs with heq
    · -- the number was not used before
      refine iff_of_false (fun hnone => by cases hnone) fun hcompleted => ?_
      have := h.completed_lt hne seq hcompleted
      rw [heq, ofNat_next_toNat hlt] at this
      exact Nat.lt_irrefl _ this
    · refine h.split hready seq (Nat.lt_of_le_of_ne (Nat.lt_succ_iff.mp hseq) fun hnext => heq ?_)
      rw [← hnext, UInt8.ofNat_toNat]
  case completed_received => exact fun _ => h.completed_received hready
  case edge =>
    intro _ _
    show t.received (UInt8.ofNat t.base) = false
    rcases Nat.lt_or_ge t.base t.next with hbase | hbase
    · exact h.edge hready hbase
    · -- the window was empty: its edge is the new number
      obtain hbase : t.base = t.next := Nat.le_antisymm hw.base_le hbase
      rw [hbase]
      cases hreceived : t.received (UInt8.ofNat t.next) with
      | false => rfl
      | true =>
          have := hw.received_lt _ hreceived
          rw [ofNat_next_toNat hlt] at this
          exact absurd this (Nat.lt_irrefl _)
  case busy =>
    intro _ _ hempty
    have : (t.entries.emplace (UInt8.ofNat t.next) e).size = 0 := KeyMap.size_eq_zero.mpr hempty
    rw [KeyMap.size_emplace hnew] at this
    cases this

/-- The edge stops at a number without a receipt. -/
theorem receive_edge (hw : WindowInv t) (seq : UInt8) (hlt : (t.receive seq).base < t.next) :
    (t.receive seq).received (UInt8.ofNat (t.receive seq).base) = false := by
  have hfuel : t.base + (t.next - t.base) = t.next := Nat.add_sub_of_le hw.base_le
  obtain ⟨b, hb, -, -, -, hstop⟩ := slideBase_spec { t with
    received := Function.update t.received seq true
    entries := t.entries.modify seq fun e => { e with received := true } } _ t.base hfuel
  have hb' : (t.receive seq).base = b := hb
  rw [hb'] at hlt ⊢
  exact hstop hlt

theorem tableInv_receive (hw : WindowInv t) (h : TableInv t) (seq : UInt8) :
    TableInv (t.receive seq) := by
  have hentries : TableInv { t with
      entries := t.entries.modify seq fun e => { e with received := true } } := by
    refine h.entries fun seq' => ?_
    rw [KeyMap.find?_modify]
    split_ifs
    · exact Option.isSome_map
    · rfl
  constructor
  case size_le => exact hentries.size_le
  case completed_lt => exact h.completed_lt
  case split => exact hentries.split
  case completed_received =>
    intro hready seq' hcompleted
    rw [receive_received]
    split_ifs
    · rfl
    · exact h.completed_received hready seq' hcompleted
  case edge => exact fun _ => receive_edge hw seq
  case busy => exact hentries.busy

/-- Taking the result of a received command; the last of a session is taken by `rollover`. -/
theorem tableInv_finished (h : TableInv t) {seq : UInt8} {e : Entry}
    (hentry : t.entries.find? seq = some e) (hlt : seq.toNat < t.next)
    (hreceived : t.received seq = true)
    (hmore : t.next = 256 → (t.finished seq).entries ≠ KeyMap.empty) :
    TableInv (t.finished seq) := by
  have hcompleted : ∀ seq', (t.finished seq).completed seq' =
      if seq' = seq then true else t.completed seq' := by
    intro seq'
    show Function.update t.completed seq true seq' = _
    rw [Function.update_apply]
  constructor
  case size_le =>
    have hsize := KeyMap.size_erase hentry
    have hle := h.size_le
    show (t.entries.erase seq).size ≤ _
    omega
  case completed_lt =>
    intro hfailed seq' hdone
    rw [hcompleted] at hdone
    split_ifs at hdone with heq
    · exact heq ▸ hlt
    · exact h.completed_lt hfailed seq' hdone
  case split =>
    intro hready seq' hseq'
    rw [hcompleted]
    show (t.entries.erase seq).find? seq' = none ↔ _
    rw [KeyMap.find?_erase]
    split_ifs
    · exact iff_of_true rfl rfl
    · exact h.split hready seq' hseq'
  case completed_received =>
    intro hready seq' hdone
    rw [hcompleted] at hdone
    split_ifs at hdone with heq
    · exact heq ▸ hreceived
    · exact h.completed_received hready seq' hdone
  case edge => exact h.edge
  case busy => exact fun _ => hmore

/-- **The tables stay consistent over every call.** -/
theorem tableInv_step {call : TrackerCall} {es : List TrackerEvent} {t' : CommandTracker}
    (hw : WindowInv t) (h : TableInv t) (hstep : TrackerStep t call es t') : TableInv t' := by
  cases hstep with
  | ignored => exact h
  | begun _ ended session =>
      exact tableInv_idle rfl (fun hready => by cases hready) fun _ _ => rfl
  | exhausted _ ended _ hend hmax hfailed hempty =>
      refine tableInv_idle hempty ?_ fun hne => absurd hfailed hne
      rw [hfailed]
      decide
  | openFailed _ hopening =>
      have hempty := hw.idle (by rw [hopening]; decide)
      exact tableInv_idle hempty (fun hready => by cases hready) fun hne => absurd rfl hne
  | openUnwritten send success now hopening =>
      have hempty := hw.idle (by rw [hopening]; decide)
      exact tableInv_idle hempty (fun hready => by cases hready) fun hne => absurd rfl hne
  | openWritten => exact { h with }
  | openRetried => exact { h with }
  | openRejected => exact { h with }
  | opened p now hopening =>
      -- nothing is allocated yet
      have hnext := hw.opening hopening
      have hzero : ∀ {n : Nat}, ¬ n < t.next := fun hlt => by omega
      have hne : t.state ≠ .failed := by rw [hopening]; decide
      constructor
      case size_le => exact h.size_le
      case completed_lt => exact fun _ => h.completed_lt hne
      case split => exact fun _ _ hlt => absurd hlt hzero
      case completed_received => exact fun _ seq hdone => absurd (h.completed_lt hne seq hdone) hzero
      case edge => exact fun _ hlt => absurd hlt hzero
      case busy =>
        intro _ hlast
        cases (hnext.symm.trans hlast)
  | submitted type args now hcan => exact tableInv_submitted hw h hcan _
  | dataWritten send now e =>
      refine h.entries fun seq => ?_
      rw [KeyMap.find?_modify]
      split_ifs
      · exact Option.isSome_map
      · rfl
  | receipt p now seq => exact tableInv_receive hw h seq
  | result p now seq e hready hsession hseq hentry hsent hmore =>
      have hentry' : (t.receive seq).entries.find? seq = some { e with received := true } := by
        rw [receive_entries, if_pos rfl, hentry]
        rfl
      refine tableInv_finished (tableInv_receive hw h seq) hentry' (hw.entry_lt seq e hentry) ?_ hmore
      rw [receive_received, if_pos rfl]
  | resultAgain => exact h
  | retried now =>
      refine h.entries fun seq => ?_
      rw [KeyMap.find?_map]
      exact Option.isSome_map

/-! ## No wedge -/

/-- A closed window has a command in flight: the number at its edge, when it is full, and the last
command, when the numbers are used up. -/
theorem canSubmit_or_busy (hw : WindowInv t) (h : TableInv t) (hready : t.state = .ready) :
    t.canSubmit = true ∨ ∃ seq e, t.entries.find? seq = some e := by
  by_contra hstuck
  rw [not_or, not_exists] at hstuck
  obtain ⟨hclosed, hnone⟩ := hstuck
  have hempty : t.entries = KeyMap.empty := by
    ext seq e
    exact iff_of_false (fun he => hnone seq ⟨e, he⟩) fun he => by cases he
  refine hclosed ?_
  simp only [canSubmit, decide_eq_true_eq]
  refine ⟨hready, ?_, ?_, ?_⟩
  · exact Nat.lt_of_le_of_ne hw.next_le fun hlast => h.busy hready hlast hempty
  · -- the number at the edge has no receipt, so it is not completed but in flight
    by_contra hfull
    have hlt : t.base < t.next := by
      have := hw.window
      simp only [EDGE_SR_WINDOW_SIZE] at this hfull
      omega
    have hbase : (UInt8.ofNat t.base).toNat = t.base :=
      UInt8.toNat_ofNat_of_lt' (Nat.lt_of_lt_of_le hlt hw.next_le)
    have hdone := (h.split hready (UInt8.ofNat t.base) (hbase.symm ▸ hlt)).mp (by rw [hempty]; rfl)
    have hreceived := h.completed_received hready _ hdone
    rw [h.edge hready hlt] at hreceived
    cases hreceived
  · rw [hempty, KeyMap.size_empty]
    decide

/-- A tick at a command's result deadline ends the session. -/
theorem tick_unblocks {seq : UInt8} {e : Entry} {now : TimePoint}
    (hentry : t.entries.find? seq = some e)
    (hlate : now - e.queuedAt ≥ Ms EDGE_SR_RESULT_TIMEOUT_MS) : (t.tick now).1.state ≠ .ready := by
  intro hready
  obtain ⟨-, hlost⟩ := tick_ready hready
  have hin := (lost_eq_false (hlost (seq, e) (KeyMap.mem_toList.mpr hentry))).1
  exact absurd hlate (not_le.mpr hin)

/-- **The window invariant and the absence of wedging**, after any calls with any arguments. -/
theorem window_never_wedged (calls : List TrackerCall) :
    let t := (runTracker new calls).1
    let log := (runTracker new calls).2
    (t.base ≤ t.next ∧ t.next ≤ min 256 (t.base + EDGE_SR_WINDOW_SIZE) ∧
      t.entries.size ≤ EDGE_SR_WINDOW_SIZE ∧
      (∀ seq e, t.entries.find? seq = some e → seq.toNat < t.next) ∧
      (t.state ≠ .ready → t.entries = KeyMap.empty)) ∧
    (t.state = .ready →
      (∀ seq, seq.toNat < t.next →
        ((∃ e, t.entries.find? seq = some e) ↔ t.completed seq = false)) ∧
      (∀ seq, t.completed seq = true → t.received seq = true) ∧
      (∀ seq : UInt8, seq.toNat < t.base → t.received seq = true) ∧
      (t.base < t.next → t.received (UInt8.ofNat t.base) = false)) ∧
    ((submits log).map fun c => (c.session, c.seq)).Nodup ∧
    (t.state = .ready → t.canSubmit = true ∨ ∃ seq e, t.entries.find? seq = some e ∧
      ∀ now, now - e.queuedAt ≥ Ms EDGE_SR_RESULT_TIMEOUT_MS →
        (t.tick now).1.state ≠ .ready) := by
  intro t log
  have hinv : TrackerInv t log := trackerInv_runTracker calls trackerInv_new
  have hw := hinv.window
  have h : TableInv t := run_preserves (fun _ _ _ _ hw hI => tableInv_step hw hI) calls
    trackerInv_new.window tableInv_new
  refine ⟨⟨hw.base_le, Nat.le_min.mpr ⟨hw.next_le, hw.window⟩, h.size_le, hw.entry_lt, hw.idle⟩,
    ?_, hinv.record.submits_nodup, ?_⟩
  · intro hready
    refine ⟨?_, h.completed_received hready, hw.received_base, h.edge hready⟩
    intro seq hseq
    have hsplit := h.split hready seq hseq
    rw [← Option.ne_none_iff_exists', ne_eq, hsplit, Bool.not_eq_true]
  · intro hready
    rcases canSubmit_or_busy hw h hready with hcan | ⟨seq, e, hentry⟩
    · exact .inl hcan
    · exact .inr ⟨seq, e, hentry, fun now => tick_unblocks hentry⟩

end CommandTracker

end EdgeGateway
