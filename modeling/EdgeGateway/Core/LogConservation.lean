import EdgeGateway.Core.AsyncLogger

set_option autoImplicit false

/-! # Log conservation

The history of a log is a list of blocks of consecutive messages, each kept or lost. What has been
written, what the flush thread still has and what is queued are the kept blocks, in order; the lost
ones are those that overflows dropped, and the notices count them.
-/

namespace EdgeGateway

/-! ## Histories -/

/-- Messages that went into one buffer. -/
structure LogBlock where
  messages : List (List UInt8)
  kept : Bool

namespace LogBlock

def text (b : LogBlock) : Buffer := b.messages.flatten

def lost (b : LogBlock) : LogBlock := { b with kept := false }

/-- The texts of the blocks that are kept. -/
def keptTexts (blocks : List LogBlock) : List Buffer := (blocks.filter (·.kept)).map text

/-- The texts of the blocks that are lost. -/
def lostTexts (blocks : List LogBlock) : List Buffer := (blocks.filter (!·.kept)).map text

@[simp] theorem keptTexts_append (a b : List LogBlock) :
    keptTexts (a ++ b) = keptTexts a ++ keptTexts b := by
  simp [keptTexts]

@[simp] theorem lostTexts_append (a b : List LogBlock) :
    lostTexts (a ++ b) = lostTexts a ++ lostTexts b := by
  simp [lostTexts]

theorem keptTexts_of_kept {blocks : List LogBlock} (h : ∀ b ∈ blocks, b.kept = true) :
    keptTexts blocks = blocks.map text := by
  rw [keptTexts, List.filter_eq_self.2 h]

theorem lostTexts_of_kept {blocks : List LogBlock} (h : ∀ b ∈ blocks, b.kept = true) :
    lostTexts blocks = [] := by
  have hnone : blocks.filter (!·.kept) = [] := by
    rw [List.filter_eq_nil_iff]
    intro b hb
    simp [h b hb]
  rw [lostTexts, hnone, List.map_nil]

@[simp] theorem keptTexts_lost (blocks : List LogBlock) : keptTexts (blocks.map lost) = [] := by
  simp [keptTexts, lost, List.filter_map, Function.comp_def]

@[simp] theorem lostTexts_lost (blocks : List LogBlock) :
    lostTexts (blocks.map lost) = blocks.map text := by
  simp [lostTexts, lost, List.filter_map, Function.comp_def, text]

@[simp] theorem messages_lost (blocks : List LogBlock) :
    (blocks.map lost).flatMap (·.messages) = blocks.flatMap (·.messages) := by
  simp [List.flatMap_map, lost]

@[simp] theorem keptTexts_single (messages : List (List UInt8)) :
    keptTexts [⟨messages, true⟩] = [messages.flatten] := rfl

@[simp] theorem lostTexts_single (messages : List (List UInt8)) :
    lostTexts [⟨messages, true⟩] = [] := rfl

end LogBlock

open LogBlock

namespace LogOutput

/-- The block that was written. -/
def text? : LogOutput → Option Buffer
  | .block text => some text
  | .note _ => none

/-- The number that a notice says. -/
def dropped? : LogOutput → Option Nat
  | .block _ => none
  | .note dropped => some dropped

@[simp] theorem text?_block (text : Buffer) : (block text).text? = some text := rfl

@[simp] theorem text?_note (dropped : Nat) : (note dropped).text? = none := rfl

@[simp] theorem dropped?_block (text : Buffer) : (block text).dropped? = none := rfl

@[simp] theorem dropped?_note (dropped : Nat) : (note dropped).dropped? = some dropped := rfl

end LogOutput

namespace LogSystem

/-! ## The account of a state -/

/-- The blocks that were written, in order. -/
def written (s : LogSystem) : List Buffer := s.output.filterMap LogOutput.text?

/-- The numbers in the overflow notices. -/
def announced (s : LogSystem) : List Nat := s.output.filterMap LogOutput.dropped?

/-- What the flush thread has taken and not written. -/
def unwritten (s : LogSystem) : List BufferPtr :=
  match s.point with
  | .report _ | .exitReport _ => s.localBuffers
  | .write index | .exitWrite index => s.localBuffers.drop index
  | _ => []

/-- The dropped blocks whose number the flush thread has taken and not reported. -/
def unreported (s : LogSystem) : Nat :=
  match s.point with
  | .report dropped | .exitReport dropped => dropped
  | _ => 0

/-- The flush thread has taken the last buffer. -/
def drained (s : LogSystem) : Prop :=
  match s.point with
  | .exitSwap | .exitReport _ | .exitWrite _ | .done => True
  | _ => False

/-- `blocks` is the history of the blocks that were queued, and `last` are the messages behind
them. -/
structure Account (s : LogSystem) (blocks : List LogBlock) (last : List (List UInt8)) : Prop where
  appended : s.appended = blocks.flatMap (·.messages) ++ last
  kept : (keptTexts blocks).map some =
    s.written.map some ++ s.unwritten ++ s.logger.bufferToWrite
  lost : (lostTexts blocks).map some = s.discarded
  -- The blocks behind the first two of the queue are the last ones of the history.
  recent : ∃ older newer, blocks = older ++ newer ∧ (∀ b ∈ newer, b.kept = true) ∧
    newer.length = s.logger.bufferToWrite.length - kKeepOnOverflow
  count : s.announced.sum + s.unreported + s.logger.dropped = s.discarded.length

/-- A spare buffer that is there is empty. -/
def Spare (buffer : BufferPtr) : Prop := ∀ text ∈ buffer, text = []

/-- Who has the buffers at which point of the flush thread. -/
def Custody (s : LogSystem) : Prop :=
  match s.point with
  | .loop | .wait => s.newCurrent ≠ none ∧ s.localBuffers = []
  | .exit => s.localBuffers = [] ∧ s.running = false
  | .swap => (s.newCurrent ≠ none ∨ s.logger.bufferToWrite ≠ []) ∧ s.localBuffers = []
  | .report _ | .write _ | .refill => s.localBuffers ≠ []
  | .exitSwap => s.localBuffers = [] ∧ s.running = false
  | .exitReport _ | .exitWrite _ | .done =>
      s.running = false ∧ s.logger.bufferToWrite = [] ∧ s.logger.dropped = 0

/-- The invariant of the pointers; `last` is the text of the current buffer. -/
structure Owned (s : LogSystem) (last : List (List UInt8)) : Prop where
  current : s.logger.currentBuffer = some last.flatten ∨ s.drained
  final : s.drained → last.flatten = []
  next : Spare s.logger.nextBuffer
  newCurrent : Spare s.newCurrent
  newNext : Spare s.newNext
  full : ∀ buffer ∈ s.localBuffers, buffer ≠ none
  custody : s.Custody
  bounded : s.unlocked → s.logger.bufferToWrite.length ≤ kMaxQueuedBuffers
  bounded_locked : s.logger.bufferToWrite.length ≤ kMaxQueuedBuffers + 1

/-- Both together. -/
def Inv (s : LogSystem) : Prop := ∃ blocks last, s.Account blocks last ∧ s.Owned last

theorem init_inv : init.Inv := by
  refine ⟨[], [], ?_, ?_⟩
  · exact ⟨rfl, rfl, rfl, ⟨[], [], rfl, by simp, rfl⟩, rfl⟩
  · exact ⟨.inl rfl, by simp, by simp [Spare, init], by simp [Spare, init], by simp [Spare, init],
      by simp [init], by simp [Custody, init], by simp [init], by simp [init]⟩

/-- Every queued block is there. -/
theorem Account.queue_full {s : LogSystem} {blocks : List LogBlock} {last : List (List UInt8)}
    (h : s.Account blocks last) : ∀ buffer ∈ s.logger.bufferToWrite, buffer ≠ none := by
  intro buffer hbuffer
  have hkept : buffer ∈ (keptTexts blocks).map some := by
    rw [h.kept]
    exact List.mem_append_right _ hbuffer
  obtain ⟨text, -, rfl⟩ := List.mem_map.1 hkept
  simp

/-- A block that joins the queue. -/
theorem recent_push {blocks : List LogBlock} {queue : List BufferPtr} {buffer : BufferPtr}
    (messages : List (List UInt8))
    (h : ∃ older newer, blocks = older ++ newer ∧ (∀ b ∈ newer, b.kept = true) ∧
      newer.length = queue.length - kKeepOnOverflow) :
    ∃ older newer, blocks ++ [⟨messages, true⟩] = older ++ newer ∧
      (∀ b ∈ newer, b.kept = true) ∧
      newer.length = (queue ++ [buffer]).length - kKeepOnOverflow := by
  obtain ⟨older, newer, rfl, hnewer, hlength⟩ := h
  simp only [kKeepOnOverflow] at hlength ⊢
  by_cases hqueue : queue.length < 2
  · -- The queue is still too short for an overflow to drop anything.
    refine ⟨older ++ newer ++ [⟨messages, true⟩], [], by simp, by simp, ?_⟩
    simp only [List.length_append, List.length_cons, List.length_nil]
    omega
  · refine ⟨older, newer ++ [⟨messages, true⟩], by simp, ?_, ?_⟩
    · intro b hb
      rcases List.mem_append.1 hb with hb | hb
      · exact hnewer b hb
      · rw [List.mem_singleton.1 hb]
    · simp only [List.length_append, List.length_cons, List.length_nil, hlength]
      omega

/-! ## `append` -/

section Append

variable {s : LogSystem} {blocks : List LogBlock} {last : List (List UInt8)}

theorem Owned.not_drained (h : s.Owned last) (hrunning : s.running = true) : ¬ s.drained := by
  intro hdrained
  have hcustody := h.custody
  unfold drained at hdrained
  unfold Custody at hcustody
  split at hdrained <;> simp_all

/-- As long as the destructor has not begun there is a current buffer. -/
theorem Owned.current_of_running (h : s.Owned last) (hrunning : s.running = true) :
    s.logger.currentBuffer = some last.flatten :=
  h.current.resolve_right (h.not_drained hrunning)

/-- A message that the current buffer has room for. -/
theorem append_fits (hs : s.Account blocks last) (ho : s.Owned last) (hrunning : s.running = true)
    (msg : List UInt8) (hfits : msg.length + last.flatten.length < kBufferSize) :
    ∃ logger, s.logger.append msg = some logger ∧ (s.recordAppend logger msg).Inv := by
  have hcurrent := ho.current_of_running hrunning
  refine ⟨{ s.logger with currentBuffer := some (last.flatten ++ msg) }, ?_, blocks,
    last ++ [msg], ?_, ?_⟩
  · rw [AsyncLogger.append, hcurrent]
    exact if_pos hfits
  · have hdrops : s.logger.dropsOn msg = [] := by
      rw [AsyncLogger.dropsOn, hcurrent]
      exact if_pos hfits
    constructor
    · show s.appended ++ [msg] = _
      rw [hs.appended, List.append_assoc]
    · exact hs.kept
    · show _ = s.discarded ++ s.logger.dropsOn msg
      rw [hdrops, List.append_nil]
      exact hs.lost
    · exact hs.recent
    · show _ = (s.discarded ++ s.logger.dropsOn msg).length
      rw [hdrops, List.append_nil]
      exact hs.count
  · exact { ho with
      current := .inl (by simp [recordAppend])
      final := fun hdrained => absurd hdrained (ho.not_drained hrunning) }

/-- The next buffer is empty or missing; either way the message is alone in the new one. -/
theorem Spare.getD_append {buffer : BufferPtr} (h : Spare buffer) (msg : List UInt8) :
    buffer.getD [] ++ msg = msg := by
  cases buffer with
  | none => rfl
  | some text => rw [h text rfl]; rfl

theorem custody_recordAppend {logger : AsyncLogger} {msg : List UInt8} (h : s.Custody)
    (hrunning : s.running = true) (hunlocked : s.unlocked) :
    (s.recordAppend logger msg).Custody := by
  unfold Custody at h ⊢
  cases hpoint : s.point <;> simp_all [recordAppend, unlocked]

/-- Behind a switch the message is alone in the current buffer. -/
theorem Owned.switch (ho : s.Owned last) (hrunning : s.running = true) (hunlocked : s.unlocked)
    {l : AsyncLogger} (hnext : Spare l.nextBuffer)
    (hqueue : l.bufferToWrite.length < kMaxQueuedBuffers) (msg : List UInt8) :
    (s.recordAppend (l.switch msg) msg).Owned [msg] := by
  have hlength : (l.bufferToWrite ++ [l.currentBuffer]).length ≤ kMaxQueuedBuffers := by
    rw [List.length_append, List.length_singleton]
    omega
  exact { ho with
    current := .inl (by
      show some (l.nextBuffer.getD [] ++ msg) = _
      rw [hnext.getD_append]
      simp)
    final := fun hdrained => absurd hdrained (ho.not_drained hrunning)
    next := by
      intro text htext
      cases htext
    custody := custody_recordAppend ho.custody hrunning hunlocked
    bounded := fun _ => hlength
    bounded_locked := Nat.le_succ_of_le hlength }

/-- The current buffer is full, and the queue is not. -/
theorem append_switches (hs : s.Account blocks last) (ho : s.Owned last)
    (hrunning : s.running = true) (hunlocked : s.unlocked) (msg : List UInt8)
    (hfull : ¬ msg.length + last.flatten.length < kBufferSize)
    (hqueue : ¬ kMaxQueuedBuffers ≤ s.logger.bufferToWrite.length) :
    ∃ logger, s.logger.append msg = some logger ∧ (s.recordAppend logger msg).Inv := by
  have hcurrent := ho.current_of_running hrunning
  refine ⟨s.logger.switch msg, ?_, blocks ++ [⟨last, true⟩], [msg], ?_, ?_⟩
  · rw [AsyncLogger.append, hcurrent]
    exact (if_neg hfull).trans (if_neg hqueue)
  · have hdrops : s.logger.dropsOn msg = [] := by
      rw [AsyncLogger.dropsOn, hcurrent]
      exact (if_neg hfull).trans (if_neg hqueue)
    constructor
    · show s.appended ++ [msg] = _
      simp [hs.appended]
    · calc (keptTexts (blocks ++ [⟨last, true⟩])).map some
          = (keptTexts blocks).map some ++ [some last.flatten] := by simp
        _ = s.written.map some ++ s.unwritten ++ s.logger.bufferToWrite ++
              [s.logger.currentBuffer] := by rw [hs.kept, hcurrent]
        _ = s.written.map some ++ s.unwritten ++
              (s.logger.bufferToWrite ++ [s.logger.currentBuffer]) := List.append_assoc ..
    · show _ = s.discarded ++ s.logger.dropsOn msg
      rw [hdrops, List.append_nil, ← hs.lost]
      simp
    · exact recent_push last hs.recent
    · show _ = (s.discarded ++ s.logger.dropsOn msg).length
      rw [hdrops, List.append_nil]
      exact hs.count
  · exact ho.switch hrunning hunlocked ho.next (not_le.1 hqueue) msg

/-- What an overflow drops are the last blocks of the history. -/
theorem Account.overflow (hs : s.Account blocks last) :
    ∃ older newer, blocks = older ++ newer ∧ (∀ b ∈ newer, b.kept = true) ∧
      (keptTexts older).map some =
        s.written.map some ++ s.unwritten ++ s.logger.bufferToWrite.take kKeepOnOverflow ∧
      (newer.map text).map some = s.logger.bufferToWrite.drop kKeepOnOverflow := by
  obtain ⟨older, newer, rfl, hnewer, hlength⟩ := hs.recent
  have hkept : (keptTexts older).map some ++ (newer.map text).map some =
      (s.written.map some ++ s.unwritten ++ s.logger.bufferToWrite.take kKeepOnOverflow) ++
        s.logger.bufferToWrite.drop kKeepOnOverflow :=
    calc (keptTexts older).map some ++ (newer.map text).map some
        = (keptTexts (older ++ newer)).map some := by
          rw [keptTexts_append, keptTexts_of_kept hnewer, List.map_append]
      _ = s.written.map some ++ s.unwritten ++ s.logger.bufferToWrite := hs.kept
      _ = _ := by rw [List.append_assoc _ (List.take _ _), List.take_append_drop]
  -- Both sides end with as many blocks.
  obtain ⟨holder, hnew⟩ := List.append_inj' hkept (by simp [hlength])
  exact ⟨older, newer, rfl, hnewer, holder, hnew⟩

/-- An overflow finds a block that it can recycle. -/
theorem trim_eq {l : AsyncLogger} (hfull : ∀ buffer ∈ l.bufferToWrite, buffer ≠ none)
    (hqueue : kMaxQueuedBuffers ≤ l.bufferToWrite.length) (hnext : Spare l.nextBuffer) :
    ∃ next, Spare next ∧ l.trim = some { l with
      nextBuffer := next
      bufferToWrite := l.bufferToWrite.take kKeepOnOverflow
      dropped := l.dropped + (l.bufferToWrite.length - kKeepOnOverflow) } := by
  cases hbuffer : l.nextBuffer with
  | some text => exact ⟨some text, hbuffer ▸ hnext, by simp [AsyncLogger.trim, hbuffer]⟩
  | none =>
      have hne : l.bufferToWrite ≠ [] := by
        intro hnil
        simp [hnil, kMaxQueuedBuffers] at hqueue
      obtain ⟨text, htext⟩ := Option.ne_none_iff_exists'.1 (hfull _ (List.getLast_mem hne))
      refine ⟨some [], by simp [Spare], ?_⟩
      simp [AsyncLogger.trim, hbuffer, List.getLast?_eq_some_getLast hne, htext]

/-- The current buffer is full, and so is the queue. -/
theorem append_trims (hs : s.Account blocks last) (ho : s.Owned last)
    (hrunning : s.running = true) (hunlocked : s.unlocked) (msg : List UInt8)
    (hfull : ¬ msg.length + last.flatten.length < kBufferSize)
    (hqueue : kMaxQueuedBuffers ≤ s.logger.bufferToWrite.length) :
    ∃ logger, s.logger.append msg = some logger ∧ (s.recordAppend logger msg).Inv := by
  have hcurrent := ho.current_of_running hrunning
  obtain ⟨next, hnext, htrim⟩ := trim_eq hs.queue_full hqueue ho.next
  obtain ⟨older, newer, rfl, hnewer, hkept, hnew⟩ := hs.overflow
  have hdrops : s.logger.dropsOn msg = s.logger.bufferToWrite.drop kKeepOnOverflow := by
    rw [AsyncLogger.dropsOn, hcurrent]
    exact (if_neg hfull).trans (if_pos hqueue)
  refine ⟨AsyncLogger.switch { s.logger with
    nextBuffer := next
    bufferToWrite := s.logger.bufferToWrite.take kKeepOnOverflow
    dropped := s.logger.dropped + (s.logger.bufferToWrite.length - kKeepOnOverflow) } msg, ?_,
    older ++ newer.map lost ++ [⟨last, true⟩], [msg], ?_, ?_⟩
  · rw [AsyncLogger.append, hcurrent]
    refine (if_neg hfull).trans ((if_pos hqueue).trans ?_)
    rw [htrim]
    rfl
  · constructor
    · show s.appended ++ [msg] = _
      simp [hs.appended]
    · -- The first two blocks and the current one are kept.
      calc (keptTexts (older ++ newer.map lost ++ [⟨last, true⟩])).map some
          = (keptTexts older).map some ++ [some last.flatten] := by simp
        _ = s.written.map some ++ s.unwritten ++
              s.logger.bufferToWrite.take kKeepOnOverflow ++ [s.logger.currentBuffer] := by
            rw [hkept, hcurrent]
        _ = s.written.map some ++ s.unwritten ++
              (s.logger.bufferToWrite.take kKeepOnOverflow ++ [s.logger.currentBuffer]) :=
            List.append_assoc ..
    · calc (lostTexts (older ++ newer.map lost ++ [⟨last, true⟩])).map some
          = (lostTexts (older ++ newer)).map some ++ (newer.map text).map some := by
            simp [lostTexts_of_kept hnewer]
        _ = s.discarded ++ s.logger.dropsOn msg := by rw [hs.lost, hnew, hdrops]
    · refine ⟨older ++ newer.map lost, [⟨last, true⟩], rfl, by simp, ?_⟩
      show 1 = (s.logger.bufferToWrite.take kKeepOnOverflow ++
        [s.logger.currentBuffer]).length - kKeepOnOverflow
      simp only [kMaxQueuedBuffers] at hqueue
      simp only [kKeepOnOverflow, List.length_append, List.length_take, List.length_singleton]
      omega
    · -- What is counted is what is dropped.
      calc s.announced.sum + s.unreported +
            (s.logger.dropped + (s.logger.bufferToWrite.length - kKeepOnOverflow))
          = s.announced.sum + s.unreported + s.logger.dropped +
              (s.logger.bufferToWrite.drop kKeepOnOverflow).length := by
            rw [List.length_drop]
            omega
        _ = s.discarded.length + (s.logger.dropsOn msg).length := by rw [hs.count, hdrops]
        _ = (s.discarded ++ s.logger.dropsOn msg).length := (List.length_append).symm
  · refine ho.switch hrunning hunlocked hnext ?_ msg
    simp only [kKeepOnOverflow, kMaxQueuedBuffers, List.length_take]
    omega

/-- What a call of `append` does: there is a buffer to put the message into. -/
theorem append_inv (h : s.Inv) (hrunning : s.running = true) (hunlocked : s.unlocked)
    (msg : List UInt8) :
    ∃ logger, s.logger.append msg = some logger ∧ (s.recordAppend logger msg).Inv := by
  obtain ⟨blocks, last, hs, ho⟩ := h
  by_cases hfits : msg.length + last.flatten.length < kBufferSize
  · exact append_fits hs ho hrunning msg hfits
  · by_cases hqueue : kMaxQueuedBuffers ≤ s.logger.bufferToWrite.length
    · exact append_trims hs ho hrunning hunlocked msg hfits hqueue
    · exact append_switches hs ho hrunning hunlocked msg hfits hqueue

end Append

/-! ## The flush thread -/

section Flush

variable {s : LogSystem} {blocks : List LogBlock} {last : List (List UInt8)}

/-- A step that moves the flush thread and nothing else. -/
theorem Account.move (hs : s.Account blocks last) {point : FlushPoint}
    (hunwritten : { s with point := point }.unwritten = s.unwritten)
    (hunreported : { s with point := point }.unreported = s.unreported) :
    { s with point := point }.Account blocks last := by
  constructor
  · exact hs.appended
  · rw [hunwritten]
    exact hs.kept
  · exact hs.lost
  · exact hs.recent
  · rw [hunreported]
    exact hs.count

/-- The notice says what was taken. -/
theorem Account.report (hs : s.Account blocks last) {dropped : Nat} {point : FlushPoint}
    (hunwritten : { s.reportDropped dropped with point := point }.unwritten = s.unwritten)
    (htaken : s.unreported = dropped)
    (hunreported : { s.reportDropped dropped with point := point }.unreported = 0) :
    { s.reportDropped dropped with point := point }.Account blocks last := by
  by_cases hzero : dropped = 0
  · simp only [reportDropped, if_pos hzero] at hunwritten hunreported ⊢
    exact hs.move hunwritten (by rw [hunreported, htaken, hzero])
  · simp only [reportDropped, if_neg hzero] at hunwritten hunreported ⊢
    constructor
    · exact hs.appended
    · rw [hunwritten]
      have hkept := hs.kept
      simpa [written, List.filterMap_cons] using hkept
    · exact hs.lost
    · exact hs.recent
    · have hcount := hs.count
      rw [hunreported]
      rw [htaken] at hcount
      simpa [announced] using hcount

/-- The next block is written. -/
theorem Account.write (hs : s.Account blocks last) {text : Buffer} {point : FlushPoint}
    (hunwritten : s.unwritten = some text :: { s with point := point }.unwritten)
    (hunreported : { s with point := point }.unreported = s.unreported) :
    { s with output := s.output ++ [LogOutput.block text], point := point }.Account blocks
      last := by
  constructor
  · exact hs.appended
  · have hkept := hs.kept
    rw [hunwritten] at hkept
    have hwritten :
        { s with output := s.output ++ [LogOutput.block text], point := point }.written =
          s.written ++ [text] := by simp [written]
    rw [hwritten, hkept]
    show _ = _ ++ { s with point := point }.unwritten ++ s.logger.bufferToWrite
    simp
  · exact hs.lost
  · exact hs.recent
  · have hannounced :
        { s with output := s.output ++ [LogOutput.block text], point := point }.announced =
          s.announced := by simp [announced]
    rw [hannounced]
    show _ + { s with point := point }.unreported + s.logger.dropped = _
    rw [hunreported]
    exact hs.count

/-- The queue and the number of dropped blocks are taken together. -/
theorem Account.take (hs : s.Account blocks last) {point : FlushPoint}
    (hlocal : s.localBuffers = []) (hnone : s.unwritten = []) (hzero : s.unreported = 0)
    (hunwritten : ∀ t : LogSystem, t.point = point → t.unwritten = t.localBuffers)
    (hunreported : ∀ t : LogSystem, t.point = point → t.unreported = s.logger.dropped) :
    { s with
      logger := { s.logger with bufferToWrite := s.localBuffers, dropped := 0 }
      localBuffers := s.logger.bufferToWrite
      point := point }.Account blocks last := by
  constructor
  · exact hs.appended
  · rw [hunwritten _ rfl]
    have hkept := hs.kept
    rw [hnone] at hkept
    show _ = s.written.map some ++ s.logger.bufferToWrite ++ s.localBuffers
    simpa [hlocal] using hkept
  · exact hs.lost
  · exact ⟨blocks, [], by simp, by simp, by simp [hlocal]⟩
  · rw [hunreported _ rfl]
    have hcount := hs.count
    rw [hzero] at hcount
    exact hcount

/-- The current buffer joins the queue. -/
theorem Account.push (hs : s.Account blocks last) {t : LogSystem}
    (hqueue : t.logger.bufferToWrite = s.logger.bufferToWrite ++ [some last.flatten])
    (hdropped : t.logger.dropped = s.logger.dropped) (houtput : t.output = s.output)
    (hnone : s.unwritten = []) (hunwritten : t.unwritten = [])
    (hunreported : t.unreported = s.unreported) (happended : t.appended = s.appended)
    (hdiscarded : t.discarded = s.discarded) :
    t.Account (blocks ++ [⟨last, true⟩]) [] := by
  constructor
  · simp [happended, hs.appended]
  · have hwritten : t.written = s.written := by rw [written, houtput]; rfl
    have hkept := hs.kept
    rw [hnone, List.append_nil] at hkept
    rw [hqueue, hunwritten, hwritten, keptTexts_append, List.map_append, hkept]
    simp
  · simp [hdiscarded, ← hs.lost]
  · rw [hqueue]
    exact recent_push last hs.recent
  · have hannounced : t.announced = s.announced := by rw [announced, houtput]; rfl
    rw [hannounced, hunreported, hdropped, hdiscarded]
    exact hs.count

theorem pushCurrent_nil {l : AsyncLogger} (h : l.currentBuffer = some []) :
    l.pushCurrent = (l, false) := by
  simp [AsyncLogger.pushCurrent, h]

theorem pushCurrent_of_ne_nil {l : AsyncLogger} {text : Buffer}
    (h : l.currentBuffer = some text) (hne : text ≠ []) :
    l.pushCurrent = ({ l with
      currentBuffer := none
      bufferToWrite := l.bufferToWrite ++ [some text] }, true) := by
  cases text with
  | nil => exact absurd rfl hne
  | cons c text => simp [AsyncLogger.pushCurrent, h]

/-- Outside the last critical section and what follows there is a current buffer. -/
theorem Owned.current_of_not_drained (ho : s.Owned last) (h : ¬ s.drained) :
    s.logger.currentBuffer = some last.flatten := ho.current.resolve_right h

theorem Spare.eq {buffer : BufferPtr} (h : Spare buffer) (hne : buffer ≠ none) :
    buffer = some [] := by
  obtain ⟨text, rfl⟩ := Option.ne_none_iff_exists'.1 hne
  rw [h text rfl]

theorem spare_none : Spare none := by
  intro text htext
  cases htext

theorem spare_nil : Spare (some []) := by
  intro text htext
  exact (Option.some.inj htext).symm

/-- A lemma for the steps that leave the logger as it is. -/
theorem Owned.move (ho : s.Owned last) {t : LogSystem} (hlogger : t.logger = s.logger)
    (hdrained : t.drained ↔ s.drained) (hnewCurrent : Spare t.newCurrent)
    (hnewNext : Spare t.newNext) (hfull : ∀ buffer ∈ t.localBuffers, buffer ≠ none)
    (hcustody : t.Custody) (hbounded : t.unlocked → s.unlocked) : t.Owned last where
  current := by
    rw [hlogger, hdrained]
    exact ho.current
  final := fun h => ho.final (hdrained.1 h)
  next := hlogger ▸ ho.next
  newCurrent := hnewCurrent
  newNext := hnewNext
  full := hfull
  custody := hcustody
  bounded := fun h => hlogger ▸ ho.bounded (hbounded h)
  bounded_locked := hlogger ▸ ho.bounded_locked

theorem flush_loop (hs : s.Account blocks last) (ho : s.Owned last) (hpoint : s.point = .loop) :
    ∃ t, s.flush = some t ∧ t.Inv := by
  have hcustody := ho.custody
  simp only [Custody, hpoint] at hcustody
  refine ⟨{ s with point := if s.running then .wait else .exit }, by rw [flush, hpoint], blocks,
    last, ?_, ?_⟩
  · by_cases hrunning : s.running = true
    · exact hs.move (by simp [unwritten, hpoint, hrunning]) (by simp [unreported, hpoint, hrunning])
    · exact hs.move (by simp [unwritten, hpoint, hrunning]) (by simp [unreported, hpoint, hrunning])
  · refine ho.move rfl ?_ ho.newCurrent ho.newNext ho.full ?_ ?_
    · by_cases hrunning : s.running = true <;> simp [drained, hpoint, hrunning]
    · by_cases hrunning : s.running = true
      · simpa [Custody, hrunning] using hcustody
      · simpa [Custody, hrunning] using hcustody.2
    · simp [unlocked, hpoint]

/-- Whatever `fillNext` does, it moves an empty buffer. -/
theorem fillNext_eq {s : LogSystem} (hnext : Spare s.logger.nextBuffer) (hnew : Spare s.newNext) :
    ∃ next newNext, Spare next ∧ Spare newNext ∧
      s.fillNext = { s with
        logger := { s.logger with nextBuffer := next }
        newNext := newNext } := by
  by_cases hnone : s.logger.nextBuffer = none
  · exact ⟨s.newNext, none, hnew, spare_none, if_pos hnone⟩
  · exact ⟨s.logger.nextBuffer, s.newNext, hnext, hnew, if_neg hnone⟩

/-- What the first critical section takes: the current buffer unless it is empty. -/
theorem flush_wait (hs : s.Account blocks last) (ho : s.Owned last) (hpoint : s.point = .wait) :
    ∃ t, s.flush = some t ∧ t.Inv := by
  have hcustody := ho.custody
  simp only [Custody, hpoint] at hcustody
  have hundrained : ¬ s.drained := by simp [drained, hpoint]
  have hcurrent := ho.current_of_not_drained hundrained
  have hunwritten : s.unwritten = [] := by simp [unwritten, hpoint]
  have hunreported : s.unreported = 0 := by simp [unreported, hpoint]
  have hbounded := ho.bounded (by simp [unlocked, hpoint])
  by_cases hempty : last.flatten = []
  · -- Nothing is taken, and the logger keeps its current buffer.
    have htake : s.takeCurrent = s := by
      rw [takeCurrent, pushCurrent_nil (by rw [hcurrent, hempty])]
    obtain ⟨next, newNext, hnext, hnewNext, hfill⟩ := fillNext_eq ho.next ho.newNext
    refine ⟨_, by rw [flush, hpoint], blocks, last, ?_, ?_⟩
    · rw [htake, hfill]
      exact { hs with
        kept := by
          have hkept := hs.kept
          rwa [hunwritten] at hkept
        count := by
          have hcount := hs.count
          rwa [hunreported] at hcount }
    · rw [htake, hfill]
      exact { ho with
        current := .inl hcurrent
        final := fun h => absurd h (by simp [drained])
        next := hnext
        newNext := hnewNext
        custody := ⟨.inl hcustody.1, hcustody.2⟩
        bounded := fun _ => hbounded }
  · -- The block joins the history; what the logger gets for it is empty.
    have htake : s.takeCurrent = { s with
        logger := { s.logger with
          currentBuffer := s.newCurrent
          bufferToWrite := s.logger.bufferToWrite ++ [some last.flatten] }
        newCurrent := none } := by
      rw [takeCurrent, pushCurrent_of_ne_nil hcurrent hempty]
    obtain ⟨next, newNext, hnext, hnewNext, hfill⟩ := fillNext_eq (s := s.takeCurrent)
      (by rw [htake]; exact ho.next) (by rw [htake]; exact ho.newNext)
    refine ⟨_, by rw [flush, hpoint], blocks ++ [⟨last, true⟩], [], ?_, ?_⟩
    · rw [hfill, htake]
      exact hs.push rfl rfl rfl hunwritten rfl hunreported.symm rfl rfl
    · rw [hfill, htake]
      refine ⟨.inl (ho.newCurrent.eq hcustody.1), fun _ => rfl, hnext, spare_none, hnewNext,
        ho.full, ⟨.inr (by simp), hcustody.2⟩, fun h => absurd rfl h.1, ?_⟩
      show (s.logger.bufferToWrite ++ [some last.flatten]).length ≤ kMaxQueuedBuffers + 1
      rw [List.length_append, List.length_singleton]
      omega

/-- The queue is taken, or there is nothing to write. -/
theorem flush_swap (hs : s.Account blocks last) (ho : s.Owned last) (hpoint : s.point = .swap) :
    ∃ t, s.flush = some t ∧ t.Inv := by
  have hcustody := ho.custody
  simp only [Custody, hpoint] at hcustody
  have hundrained : ¬ s.drained := by simp [drained, hpoint]
  by_cases hqueue : s.logger.bufferToWrite = []
  · -- `continue`: the current buffer was empty, so the spare one is still there.
    refine ⟨{ s with point := .loop }, by simp [flush, hpoint, hqueue], blocks, last, ?_, ?_⟩
    · exact hs.move (by simp [unwritten, hpoint]) (by simp [unreported, hpoint])
    · exact { ho with
        current := .inl (ho.current_of_not_drained hundrained)
        final := fun h => absurd h (by simp [drained])
        custody := ⟨hcustody.1.resolve_right (by simp [hqueue]), hcustody.2⟩
        bounded := fun _ => by simp [hqueue] }
  · refine ⟨_, by rw [flush, hpoint]; exact if_neg hqueue, blocks, last, ?_, ?_⟩
    · exact hs.take hcustody.2 (by simp [unwritten, hpoint]) (by simp [unreported, hpoint])
        (fun t ht => by simp [unwritten, ht]) (fun t ht => by simp [unreported, ht])
    · exact { ho with
        current := .inl (ho.current_of_not_drained hundrained)
        final := fun h => absurd h (by simp [drained])
        full := hs.queue_full
        custody := hqueue
        bounded := fun _ => by simp [hcustody.2]
        bounded_locked := by simp [hcustody.2] }

/-- The fields that `report_dropped` leaves alone. -/
theorem reportDropped_eq (s : LogSystem) (dropped : Nat) :
    ∃ output, s.reportDropped dropped = { s with output := output } := by
  by_cases hzero : dropped = 0
  · exact ⟨s.output, if_pos hzero⟩
  · exact ⟨s.output ++ [LogOutput.note dropped], if_neg hzero⟩

/-- The report, in the loop and behind it. -/
theorem report_inv (hs : s.Account blocks last) (ho : s.Owned last) {dropped : Nat}
    (point : FlushPoint) (hunwritten : s.unwritten = s.localBuffers)
    (hunreported : s.unreported = dropped) (hunlocked : s.unlocked)
    (hnext : ∀ t : LogSystem, t.point = point → t.unwritten = t.localBuffers ∧ t.unreported = 0)
    (hdrained : { s with point := point }.drained ↔ s.drained)
    (hcustody : { s with point := point }.Custody) :
    { s.reportDropped dropped with point := point }.Inv := by
  obtain ⟨output, hreport⟩ := reportDropped_eq s dropped
  refine ⟨blocks, last, ?_, ?_⟩
  · have hthere := hnext { s.reportDropped dropped with point := point } rfl
    refine hs.report ?_ hunreported hthere.2
    rw [hthere.1, hunwritten, hreport]
  · rw [hreport]
    exact ho.move rfl hdrained ho.newCurrent ho.newNext ho.full hcustody fun _ => hunlocked

theorem flush_report (hs : s.Account blocks last) (ho : s.Owned last) {dropped : Nat}
    (hpoint : s.point = .report dropped) : ∃ t, s.flush = some t ∧ t.Inv := by
  have hcustody := ho.custody
  simp only [Custody, hpoint] at hcustody
  exact ⟨_, by rw [flush, hpoint], report_inv hs ho (.write 0) (by simp [unwritten, hpoint])
    (by simp [unreported, hpoint]) (by simp [unlocked, hpoint])
    (fun t ht => by simp [unwritten, unreported, ht]) (by simp [drained, hpoint]) hcustody⟩

theorem flush_exitReport (hs : s.Account blocks last) (ho : s.Owned last) {dropped : Nat}
    (hpoint : s.point = .exitReport dropped) : ∃ t, s.flush = some t ∧ t.Inv := by
  have hcustody := ho.custody
  simp only [Custody, hpoint] at hcustody
  exact ⟨_, by rw [flush, hpoint], report_inv hs ho (.exitWrite 0) (by simp [unwritten, hpoint])
    (by simp [unreported, hpoint]) (by simp [unlocked, hpoint])
    (fun t ht => by simp [unwritten, unreported, ht]) (by simp [drained, hpoint]) hcustody⟩

/-- A block that the flush thread has taken is there. -/
theorem Owned.local_get (ho : s.Owned last) {index : Nat} {buffer : BufferPtr}
    (h : s.localBuffers[index]? = some buffer) : ∃ text, buffer = some text :=
  Option.ne_none_iff_exists'.1 (ho.full buffer (List.mem_of_getElem? h))

/-- One block is written, in the loop and behind it. -/
theorem write_inv (hs : s.Account blocks last) (ho : s.Owned last) {index : Nat} {text : Buffer}
    (point : FlushPoint) (hget : s.localBuffers[index]? = some (some text))
    (hunwritten : s.unwritten = s.localBuffers.drop index) (hunreported : s.unreported = 0)
    (hunlocked : s.unlocked)
    (hnext : ∀ t : LogSystem, t.point = point →
      t.unwritten = t.localBuffers.drop (index + 1) ∧ t.unreported = 0)
    (hdrained : { s with point := point }.drained ↔ s.drained)
    (hcustody : { s with point := point }.Custody) :
    { s with output := s.output ++ [LogOutput.block text], point := point }.Inv := by
  obtain ⟨hlt, htext⟩ := List.getElem?_eq_some_iff.1 hget
  refine ⟨blocks, last, ?_, ?_⟩
  · have hthere := hnext { s with point := point } rfl
    refine hs.write ?_ ?_
    · rw [hthere.1, hunwritten, List.drop_eq_getElem_cons hlt, htext]
    · rw [hthere.2, hunreported]
  · exact ho.move rfl hdrained ho.newCurrent ho.newNext ho.full hcustody fun _ => hunlocked

/-- All blocks are written. -/
theorem written_inv (hs : s.Account blocks last) (ho : s.Owned last) {index : Nat}
    (point : FlushPoint) (hget : s.localBuffers[index]? = none)
    (hunwritten : s.unwritten = s.localBuffers.drop index) (hunreported : s.unreported = 0)
    (hunlocked : s.unlocked)
    (hnext : ∀ t : LogSystem, t.point = point → t.unwritten = [] ∧ t.unreported = 0)
    (hdrained : { s with point := point }.drained ↔ s.drained)
    (hcustody : { s with point := point }.Custody) :
    { s with point := point }.Inv := by
  have hdrop : s.localBuffers.drop index = [] :=
    List.drop_eq_nil_of_le (List.getElem?_eq_none_iff.1 hget)
  refine ⟨blocks, last, ?_, ?_⟩
  · have hthere := hnext { s with point := point } rfl
    refine hs.move ?_ ?_
    · rw [hthere.1, hunwritten, hdrop]
    · rw [hthere.2, hunreported]
  · exact ho.move rfl hdrained ho.newCurrent ho.newNext ho.full hcustody fun _ => hunlocked

/-- What one round of the loop over the blocks does. -/
theorem write_cases (ho : s.Owned last) {index : Nat} (hpoint : s.point = .write index) :
    (∃ text, s.localBuffers[index]? = some (some text) ∧ s.flush = some { s with
      output := s.output ++ [LogOutput.block text]
      point := .write (index + 1) }) ∨
    s.localBuffers[index]? = none ∧ s.flush = some { s with point := .refill } := by
  cases hget : s.localBuffers[index]? with
  | some buffer =>
      obtain ⟨text, rfl⟩ := ho.local_get hget
      exact .inl ⟨text, rfl, by simp only [flush, hpoint, hget]⟩
  | none => exact .inr ⟨rfl, by simp only [flush, hpoint, hget]⟩

/-- And one of the loop behind the last critical section. -/
theorem exitWrite_cases (ho : s.Owned last) {index : Nat} (hpoint : s.point = .exitWrite index) :
    (∃ text, s.localBuffers[index]? = some (some text) ∧ s.flush = some { s with
      output := s.output ++ [LogOutput.block text]
      point := .exitWrite (index + 1) }) ∨
    s.localBuffers[index]? = none ∧ s.flush = some { s with point := .done } := by
  cases hget : s.localBuffers[index]? with
  | some buffer =>
      obtain ⟨text, rfl⟩ := ho.local_get hget
      exact .inl ⟨text, rfl, by simp only [flush, hpoint, hget]⟩
  | none => exact .inr ⟨rfl, by simp only [flush, hpoint, hget]⟩

theorem flush_write (hs : s.Account blocks last) (ho : s.Owned last) {index : Nat}
    (hpoint : s.point = .write index) : ∃ t, s.flush = some t ∧ t.Inv := by
  have hcustody := ho.custody
  simp only [Custody, hpoint] at hcustody
  have hunwritten : s.unwritten = s.localBuffers.drop index := by simp [unwritten, hpoint]
  have hunreported : s.unreported = 0 := by simp [unreported, hpoint]
  have hunlocked : s.unlocked := by simp [unlocked, hpoint]
  obtain ⟨text, hget, hflush⟩ | ⟨hget, hflush⟩ := write_cases ho hpoint
  · exact ⟨_, hflush, write_inv hs ho (.write (index + 1)) hget hunwritten hunreported hunlocked
      (fun t ht => by simp [unwritten, unreported, ht]) (by simp [drained, hpoint]) hcustody⟩
  · exact ⟨_, hflush, written_inv hs ho .refill hget hunwritten hunreported hunlocked
      (fun t ht => by simp [unwritten, unreported, ht]) (by simp [drained, hpoint]) hcustody⟩

theorem flush_exitWrite (hs : s.Account blocks last) (ho : s.Owned last) {index : Nat}
    (hpoint : s.point = .exitWrite index) : ∃ t, s.flush = some t ∧ t.Inv := by
  have hcustody := ho.custody
  simp only [Custody, hpoint] at hcustody
  have hunwritten : s.unwritten = s.localBuffers.drop index := by simp [unwritten, hpoint]
  have hunreported : s.unreported = 0 := by simp [unreported, hpoint]
  have hunlocked : s.unlocked := by simp [unlocked, hpoint]
  obtain ⟨text, hget, hflush⟩ | ⟨hget, hflush⟩ := exitWrite_cases ho hpoint
  · exact ⟨_, hflush, write_inv hs ho (.exitWrite (index + 1)) hget hunwritten hunreported
      hunlocked (fun t ht => by simp [unwritten, unreported, ht]) (by simp [drained, hpoint])
      hcustody⟩
  · exact ⟨_, hflush, written_inv hs ho .done hget hunwritten hunreported hunlocked
      (fun t ht => by simp [unwritten, unreported, ht]) (by simp [drained, hpoint]) hcustody⟩

/-- A spare buffer can be made of the blocks written, as long as there is one. -/
theorem recycle_eq {spare : BufferPtr} {written : List BufferPtr} (hspare : Spare spare)
    (hne : written ≠ []) (hfull : ∀ buffer ∈ written, buffer ≠ none) :
    ∃ rest, recycle spare written = some (some [], rest) ∧ ∀ buffer ∈ rest, buffer ∈ written := by
  cases spare with
  | some text =>
      obtain rfl : text = [] := hspare text rfl
      exact ⟨written, rfl, fun _ h => h⟩
  | none =>
      obtain ⟨text, htext⟩ := Option.ne_none_iff_exists'.1 (hfull _ (List.getLast_mem hne))
      refine ⟨written.dropLast, ?_, fun _ h => List.mem_of_mem_dropLast h⟩
      simp [recycle, List.getLast?_eq_some_getLast hne, htext]

/-- Both spare buffers come back empty; the second one may be missing. -/
theorem refill_eq (ho : s.Owned last) (hpoint : s.point = .refill) :
    ∃ newNext, Spare newNext ∧ s.flush = some { s with
      newCurrent := some []
      newNext := newNext
      localBuffers := []
      point := .loop } := by
  have hcustody := ho.custody
  simp only [Custody, hpoint] at hcustody
  obtain ⟨rest, hcurrent, hrest⟩ := recycle_eq ho.newCurrent hcustody ho.full
  by_cases hempty : rest = []
  · -- One block was written: the second spare buffer stays as it is.
    refine ⟨s.newNext, ho.newNext, ?_⟩
    simp [flush, hpoint, hcurrent, hempty]
  · obtain ⟨rest', hnext, -⟩ := recycle_eq ho.newNext hempty fun b hb => ho.full b (hrest b hb)
    refine ⟨some [], spare_nil, ?_⟩
    simp [flush, hpoint, hcurrent, hempty, hnext]

theorem flush_refill (hs : s.Account blocks last) (ho : s.Owned last) (hpoint : s.point = .refill) :
    ∃ t, s.flush = some t ∧ t.Inv := by
  obtain ⟨newNext, hnext, hspare⟩ := refill_eq ho hpoint
  refine ⟨_, hspare, blocks, last, ?_, ?_⟩
  · exact { hs with
      kept := by
        have hkept := hs.kept
        rwa [show s.unwritten = [] by simp [unwritten, hpoint]] at hkept
      count := by
        have hcount := hs.count
        rwa [show s.unreported = 0 by simp [unreported, hpoint]] at hcount }
  · exact ho.move rfl (by simp [drained, hpoint]) spare_nil hnext (by simp)
      ⟨by simp, rfl⟩ (by simp [unlocked, hpoint])

/-- What the last critical section takes. -/
theorem flush_exit (hs : s.Account blocks last) (ho : s.Owned last) (hpoint : s.point = .exit) :
    ∃ t, s.flush = some t ∧ t.Inv := by
  have hcustody := ho.custody
  simp only [Custody, hpoint] at hcustody
  have hcurrent := ho.current_of_not_drained (by simp [drained, hpoint])
  have hunwritten : s.unwritten = [] := by simp [unwritten, hpoint]
  have hunreported : s.unreported = 0 := by simp [unreported, hpoint]
  have hbounded := ho.bounded (by simp [unlocked, hpoint])
  refine ⟨{ s with logger := s.logger.pushCurrent.1, point := .exitSwap }, by rw [flush, hpoint],
    ?_⟩
  by_cases hempty : last.flatten = []
  · -- The messages since the last block have no bytes that would have to be written.
    rw [pushCurrent_nil (by rw [hcurrent, hempty])]
    refine ⟨blocks, last, ?_, ?_⟩
    · exact hs.move (by simp [unwritten, hpoint]) (by simp [unreported, hpoint])
    · exact { ho with
        current := .inl hcurrent
        final := fun _ => hempty
        custody := hcustody
        bounded := fun _ => hbounded }
  · rw [pushCurrent_of_ne_nil hcurrent hempty]
    refine ⟨blocks ++ [⟨last, true⟩], [], ?_, ?_⟩
    · exact hs.push rfl rfl rfl hunwritten rfl hunreported.symm rfl rfl
    · refine ⟨.inr trivial, fun _ => rfl, ho.next, ho.newCurrent, ho.newNext, ho.full, hcustody,
        fun h => absurd rfl h.2, ?_⟩
      show (s.logger.bufferToWrite ++ [some last.flatten]).length ≤ kMaxQueuedBuffers + 1
      rw [List.length_append, List.length_singleton]
      omega

theorem flush_exitSwap (hs : s.Account blocks last) (ho : s.Owned last)
    (hpoint : s.point = .exitSwap) : ∃ t, s.flush = some t ∧ t.Inv := by
  have hcustody := ho.custody
  simp only [Custody, hpoint] at hcustody
  refine ⟨_, by rw [flush, hpoint], blocks, last, ?_, ?_⟩
  · exact hs.take hcustody.1 (by simp [unwritten, hpoint]) (by simp [unreported, hpoint])
      (fun t ht => by simp [unwritten, ht]) (fun t ht => by simp [unreported, ht])
  · exact { ho with
      current := .inr trivial
      final := fun _ => ho.final (by simp [drained, hpoint])
      full := hs.queue_full
      custody := ⟨hcustody.2, hcustody.1, rfl⟩
      bounded := fun _ => by simp [hcustody.1]
      bounded_locked := by simp [hcustody.1] }

/-- The flush thread never follows a null pointer. -/
theorem flush_inv (h : s.Inv) : ∃ t, s.flush = some t ∧ t.Inv := by
  obtain ⟨blocks, last, hs, ho⟩ := h
  cases hpoint : s.point with
  | loop => exact flush_loop hs ho hpoint
  | wait => exact flush_wait hs ho hpoint
  | swap => exact flush_swap hs ho hpoint
  | report dropped => exact flush_report hs ho hpoint
  | write index => exact flush_write hs ho hpoint
  | refill => exact flush_refill hs ho hpoint
  | exit => exact flush_exit hs ho hpoint
  | exitSwap => exact flush_exitSwap hs ho hpoint
  | exitReport dropped => exact flush_exitReport hs ho hpoint
  | exitWrite index => exact flush_exitWrite hs ho hpoint
  | done => exact ⟨s, by rw [flush, hpoint], blocks, last, hs, ho⟩

end Flush

/-! ## Runs -/

theorem Reachable.inv {s : LogSystem} (h : Reachable s) : s.Inv := by
  induction h with
  | init => exact init_inv
  | append msg _ hrunning hunlocked hlogger ih =>
      obtain ⟨logger, happend, hinv⟩ := append_inv ih hrunning hunlocked msg
      rw [hlogger, Option.some.injEq] at happend
      exact happend ▸ hinv
  | flush _ hflush ih =>
      obtain ⟨t, ht, hinv⟩ := flush_inv ih
      rw [hflush, Option.some.injEq] at ht
      exact ht ▸ hinv
  | @destroy s _ ih =>
      obtain ⟨blocks, last, hs, ho⟩ := ih
      refine ⟨blocks, last, { hs with }, { ho with custody := ?_ }⟩
      have hcustody := ho.custody
      unfold Custody at hcustody ⊢
      cases hpoint : s.point <;> simp_all

/-- How many steps the flush thread may still take once the destructor has begun. -/
def stepsLeft (s : LogSystem) : Nat :=
  match s.point with
  | .wait => 2 * s.logger.bufferToWrite.length + 13
  | .swap => 2 * s.logger.bufferToWrite.length + 10
  | .report _ => s.logger.bufferToWrite.length + s.localBuffers.length + 9
  | .write index => s.logger.bufferToWrite.length + (s.localBuffers.length - index) + 8
  | .refill => s.logger.bufferToWrite.length + 7
  | .loop => s.logger.bufferToWrite.length + 6
  | .exit => s.logger.bufferToWrite.length + 5
  | .exitSwap => s.logger.bufferToWrite.length + 3
  | .exitReport _ => s.localBuffers.length + 2
  | .exitWrite index => s.localBuffers.length - index + 1
  | .done => 0

theorem pushCurrent_length (l : AsyncLogger) :
    l.pushCurrent.1.bufferToWrite.length ≤ l.bufferToWrite.length + 1 := by
  unfold AsyncLogger.pushCurrent
  split
  · simp
  · simp

/-- The first critical section queues one block at most. -/
theorem takeCurrent_length (s : LogSystem) :
    s.takeCurrent.fillNext.logger.bufferToWrite.length ≤ s.logger.bufferToWrite.length + 1 ∧
      s.takeCurrent.fillNext.running = s.running ∧
      s.takeCurrent.fillNext.appended = s.appended := by
  have hfill : ∀ t : LogSystem, t.fillNext.logger.bufferToWrite = t.logger.bufferToWrite ∧
      t.fillNext.running = t.running ∧ t.fillNext.appended = t.appended := by
    intro t
    unfold fillNext
    split <;> exact ⟨rfl, rfl, rfl⟩
  have hlength := pushCurrent_length s.logger
  rw [(hfill _).1, (hfill _).2.1, (hfill _).2.2, takeCurrent]
  split
  · rename_i logger hpush
    rw [hpush] at hlength
    exact ⟨hlength, rfl, rfl⟩
  · exact ⟨by omega, rfl, rfl⟩

/-- Every step brings the thread closer to its end. -/
theorem flush_progress {s t : LogSystem} (h : s.Inv) (hrunning : s.running = false)
    (hdone : s.point ≠ .done) (hflush : s.flush = some t) :
    t.stepsLeft < s.stepsLeft ∧ t.running = false ∧ t.appended = s.appended := by
  obtain ⟨blocks, last, -, ho⟩ := h
  have hcustody := ho.custody
  cases hpoint : s.point with
  | loop =>
      rw [flush, hpoint, hrunning, Option.some.injEq] at hflush
      subst hflush
      refine ⟨?_, rfl, rfl⟩
      simp [stepsLeft, hpoint]
  | wait =>
      rw [flush, hpoint, Option.some.injEq] at hflush
      subst hflush
      obtain ⟨hlength, hrun, happended⟩ := takeCurrent_length s
      refine ⟨?_, hrun.trans hrunning, happended⟩
      simp only [stepsLeft, hpoint]
      omega
  | swap =>
      simp only [Custody, hpoint] at hcustody
      simp only [flush, hpoint] at hflush
      by_cases hqueue : s.logger.bufferToWrite = []
      · rw [if_pos hqueue, Option.some.injEq] at hflush
        subst hflush
        refine ⟨?_, hrunning, rfl⟩
        simp only [stepsLeft, hpoint, hqueue, List.length_nil]
        omega
      · rw [if_neg hqueue, Option.some.injEq] at hflush
        subst hflush
        refine ⟨?_, hrunning, rfl⟩
        simp only [stepsLeft, hpoint, hcustody.2, List.length_nil]
        omega
  | report dropped =>
      obtain ⟨output, hreport⟩ := reportDropped_eq s dropped
      rw [flush, hpoint, Option.some.injEq, hreport] at hflush
      subst hflush
      refine ⟨?_, hrunning, rfl⟩
      simp only [stepsLeft, hpoint]
      omega
  | write index =>
      obtain ⟨text, hget, hwrite⟩ | ⟨hget, hwrite⟩ := write_cases ho hpoint
      · obtain ⟨hlt, -⟩ := List.getElem?_eq_some_iff.1 hget
        rw [hwrite, Option.some.injEq] at hflush
        subst hflush
        refine ⟨?_, hrunning, rfl⟩
        simp only [stepsLeft, hpoint]
        omega
      · rw [hwrite, Option.some.injEq] at hflush
        subst hflush
        refine ⟨?_, hrunning, rfl⟩
        simp only [stepsLeft, hpoint]
        omega
  | refill =>
      obtain ⟨newNext, -, hrefill⟩ := refill_eq ho hpoint
      rw [hrefill, Option.some.injEq] at hflush
      subst hflush
      refine ⟨?_, hrunning, rfl⟩
      simp only [stepsLeft, hpoint]
      omega
  | exit =>
      rw [flush, hpoint, Option.some.injEq] at hflush
      subst hflush
      have hlength := pushCurrent_length s.logger
      refine ⟨?_, hrunning, rfl⟩
      simp only [stepsLeft, hpoint]
      omega
  | exitSwap =>
      rw [flush, hpoint, Option.some.injEq] at hflush
      subst hflush
      refine ⟨?_, hrunning, rfl⟩
      simp only [stepsLeft, hpoint]
      omega
  | exitReport dropped =>
      obtain ⟨output, hreport⟩ := reportDropped_eq s dropped
      rw [flush, hpoint, Option.some.injEq, hreport] at hflush
      subst hflush
      refine ⟨?_, hrunning, rfl⟩
      simp only [stepsLeft, hpoint]
      omega
  | exitWrite index =>
      obtain ⟨text, hget, hwrite⟩ | ⟨hget, hwrite⟩ := exitWrite_cases ho hpoint
      · obtain ⟨hlt, -⟩ := List.getElem?_eq_some_iff.1 hget
        rw [hwrite, Option.some.injEq] at hflush
        subst hflush
        refine ⟨?_, hrunning, rfl⟩
        simp only [stepsLeft, hpoint]
        omega
      · rw [hwrite, Option.some.injEq] at hflush
        subst hflush
        refine ⟨?_, hrunning, rfl⟩
        simp only [stepsLeft, hpoint]
        omega
  | done => exact absurd hpoint hdone

/-- `n` steps of the flush thread. -/
def flushes : Nat → LogSystem → Option LogSystem
  | 0, s => some s
  | n + 1, s => s.flush.bind (flushes n)

/-- The destructor's `join` returns, with nothing appended in the meantime. -/
theorem flushes_done : ∀ (k : Nat) {s : LogSystem}, s.Inv → s.running = false →
    s.stepsLeft ≤ k → ∃ n t, s.flushes n = some t ∧ t.point = .done ∧ t.appended = s.appended := by
  intro k
  induction k with
  | zero =>
      intro s _ _ hleft
      refine ⟨0, s, rfl, ?_, rfl⟩
      unfold stepsLeft at hleft
      cases hpoint : s.point <;> simp_all
  | succ k ih =>
      intro s hinv hrunning hleft
      by_cases hdone : s.point = .done
      · exact ⟨0, s, rfl, hdone, rfl⟩
      · obtain ⟨t, hflush, ht⟩ := flush_inv hinv
        obtain ⟨hless, hrun, happended⟩ := flush_progress hinv hrunning hdone hflush
        obtain ⟨n, u, hu, hudone, huappended⟩ := ih ht hrun (by omega)
        refine ⟨n + 1, u, ?_, hudone, huappended.trans happended⟩
        rw [flushes, hflush]
        exact hu

theorem Reachable.flushes {s t : LogSystem} (h : Reachable s) {n : Nat}
    (hflushes : s.flushes n = some t) : Reachable t := by
  induction n generalizing s with
  | zero =>
      rw [LogSystem.flushes, Option.some.injEq] at hflushes
      exact hflushes ▸ h
  | succ n ih =>
      rw [LogSystem.flushes] at hflushes
      obtain ⟨u, hu, hrest⟩ := Option.bind_eq_some_iff.1 hflushes
      exact ih (h.flush hu) hrest

/-- What has been written is the beginning of the blocks that are kept, and all of it once the
thread has ended. -/
theorem Inv.history {s : LogSystem} (h : s.Inv) :
    ∃ blocks : List LogBlock,
      s.appended = blocks.flatMap (·.messages) ∧
      s.written <+: keptTexts blocks ∧
      (lostTexts blocks).map some = s.discarded ∧
      s.announced.sum ≤ s.discarded.length ∧
      (s.point = .done →
        s.written.flatten = (keptTexts blocks).flatten ∧
          s.announced.sum = s.discarded.length) := by
  obtain ⟨blocks, last, hs, ho⟩ := h
  -- The messages in the current buffer are the last block, and are not lost yet.
  have hkept : keptTexts (blocks ++ [⟨last, true⟩]) = keptTexts blocks ++ [last.flatten] := by
    simp
  have hprefix : s.written.map some <+: (keptTexts blocks).map some := by
    rw [hs.kept, List.append_assoc]
    exact List.prefix_append _ _
  refine ⟨blocks ++ [⟨last, true⟩], by simp [hs.appended], ?_, by simp [hs.lost], ?_, ?_⟩
  · rw [hkept]
    exact ((List.prefix_map_iff_of_injective (Option.some_injective _)).1 hprefix).trans
      (List.prefix_append _ _)
  · have hcount := hs.count
    omega
  · intro hdone
    have hcustody := ho.custody
    simp only [Custody, hdone] at hcustody
    obtain ⟨-, hqueue, hdropped⟩ := hcustody
    have hwritten : (keptTexts blocks).map some = s.written.map some := by
      rw [hs.kept, hqueue]
      simp [unwritten, hdone]
    constructor
    · rw [hkept, List.map_injective_iff.2 (Option.some_injective _) hwritten]
      -- A last buffer that was not queued has no bytes.
      simp [ho.final (by simp [drained, hdone])]
    · have hcount := hs.count
      rw [hdropped] at hcount
      simpa [unreported, hdone] using hcount

theorem keptTexts_of_lostTexts_nil {blocks : List LogBlock} (h : lostTexts blocks = []) :
    (keptTexts blocks).flatten = (blocks.flatMap (·.messages)).flatten := by
  have hkept : ∀ b ∈ blocks, b.kept = true := by
    intro b hb
    by_contra hlost
    have hmem : b ∈ blocks.filter (!·.kept) := List.mem_filter.2 ⟨hb, by simpa using hlost⟩
    rw [List.map_eq_nil_iff.1 h] at hmem
    cases hmem
  rw [keptTexts_of_kept hkept, List.flatMap_def, List.flatten_flatten, List.map_map]
  rfl

/-- Without a notice the output is what was written. -/
theorem bytes_of_quiet (output : List LogOutput)
    (h : output.filterMap LogOutput.dropped? = []) :
    output.flatMap LogOutput.bytes = (output.filterMap LogOutput.text?).flatten := by
  induction output with
  | nil => rfl
  | cons o output ih =>
      cases o with
      | note dropped => simp at h
      | block text => simp [LogOutput.bytes, ih (by simpa using h)]

/-- A log that ends without a notice is complete. -/
theorem Reachable.complete {s : LogSystem} (h : Reachable s) (hdone : s.point = .done)
    (hquiet : s.announced = []) : s.output.flatMap LogOutput.bytes = s.appended.flatten := by
  obtain ⟨blocks, happended, -, hlost, -, hend⟩ := h.inv.history
  obtain ⟨hwritten, hcount⟩ := hend hdone
  have hdiscarded : s.discarded = [] := by
    rw [hquiet, List.sum_nil] at hcount
    exact List.length_eq_zero_iff.1 hcount.symm
  rw [hdiscarded, List.map_eq_nil_iff] at hlost
  calc s.output.flatMap LogOutput.bytes
      = s.written.flatten := bytes_of_quiet s.output hquiet
    _ = (keptTexts blocks).flatten := hwritten
    _ = s.appended.flatten := by rw [keptTexts_of_lostTexts_nil hlost, happended]

/-- **Log conservation.** In every interleaving a caller of `append` finds a current buffer, the
flush thread follows no null pointer, and at most 65 blocks are queued. The messages are blocks of
consecutive ones, of which the kept ones are written in order, each once, and the lost ones are what
overflows dropped and notices announce. Once the destructor runs the thread ends, and then all of
the kept ones are written and all of the lost ones announced. -/
theorem log_conserved {s : LogSystem} (h : Reachable s) :
    (s.running = true → s.unlocked →
      s.logger.currentBuffer ≠ none ∧ ∀ msg, s.logger.append msg ≠ none) ∧
    s.flush ≠ none ∧
    s.logger.bufferToWrite.length ≤ kMaxQueuedBuffers + 1 ∧
    (∃ blocks : List LogBlock,
      s.appended = blocks.flatMap (·.messages) ∧
      s.written <+: keptTexts blocks ∧
      (lostTexts blocks).map some = s.discarded ∧
      s.announced.sum ≤ s.discarded.length ∧
      (s.point = .done →
        s.written.flatten = (keptTexts blocks).flatten ∧
          s.announced.sum = s.discarded.length)) ∧
    (s.running = false →
      ∃ n t, s.flushes n = some t ∧ Reachable t ∧ t.point = .done ∧ t.appended = s.appended) := by
  have hinv := h.inv
  refine ⟨?_, ?_, ?_, hinv.history, ?_⟩
  · intro hrunning hunlocked
    constructor
    · obtain ⟨blocks, last, -, ho⟩ := hinv
      rw [ho.current_of_running hrunning]
      simp
    · intro msg
      obtain ⟨logger, happend, -⟩ := append_inv hinv hrunning hunlocked msg
      rw [happend]
      simp
  · obtain ⟨t, hflush, -⟩ := flush_inv hinv
    rw [hflush]
    simp
  · obtain ⟨blocks, last, -, ho⟩ := hinv
    exact ho.bounded_locked
  · intro hrunning
    obtain ⟨n, t, hflushes, hdone, happended⟩ := flushes_done _ hinv hrunning le_rfl
    exact ⟨n, t, hflushes, h.flushes hflushes, hdone, happended⟩

/-- A message just before the destructor. -/
def lastMessage : LogSystem :=
  { init.recordAppend ⟨some [65], some [], [], 0⟩ [65] with running := false }

theorem log_conserved_lastMessage :
    (lastMessage.running = true → lastMessage.unlocked →
      lastMessage.logger.currentBuffer ≠ none ∧
        ∀ msg, lastMessage.logger.append msg ≠ none) ∧
    lastMessage.flush ≠ none ∧
    lastMessage.logger.bufferToWrite.length ≤ kMaxQueuedBuffers + 1 ∧
    (∃ blocks : List LogBlock,
      lastMessage.appended = blocks.flatMap (·.messages) ∧
      lastMessage.written <+: keptTexts blocks ∧
      (lostTexts blocks).map some = lastMessage.discarded ∧
      lastMessage.announced.sum ≤ lastMessage.discarded.length ∧
      (lastMessage.point = .done →
        lastMessage.written.flatten = (keptTexts blocks).flatten ∧
          lastMessage.announced.sum = lastMessage.discarded.length)) ∧
    (lastMessage.running = false →
      ∃ n t, lastMessage.flushes n = some t ∧ Reachable t ∧ t.point = .done ∧
        t.appended = lastMessage.appended) :=
  log_conserved (.destroy (.append [65] .init rfl (by simp [unlocked, init]) rfl))

end LogSystem

end EdgeGateway
