import EdgeGateway.Basic.Numerals

set_option autoImplicit false

/-! # The asynchronous logger

`append` puts whole messages into the current buffer under the mutex; the flush thread swaps the
queue out under the mutex and writes it outside. A buffer belongs to whoever has the pointer: the
moves leave null behind, and a null pointer that is followed ends the program, which is `none`.

The output is open, and a write that succeeds has written all of a buffer.
-/

namespace EdgeGateway

abbrev Buffer := List UInt8

/-- `std::unique_ptr<Buffer>`. -/
abbrev BufferPtr := Option Buffer

def kBufferSize : Nat := 64 * 1024

def kMaxQueuedBuffers : Nat := 64

def kKeepOnOverflow : Nat := 2

/-- What `mtx_` protects. -/
structure AsyncLogger where
  currentBuffer : BufferPtr
  nextBuffer : BufferPtr
  bufferToWrite : List BufferPtr
  dropped : Nat

namespace AsyncLogger

/-! ## `append` -/

/-- An overflow: the blocks behind the first two are dropped, and the last of them becomes the next
buffer if there is none. -/
def trim (l : AsyncLogger) : Option AsyncLogger := do
  let nextBuffer ← match l.nextBuffer with
    | some buffer => some (some buffer)
    | none => l.bufferToWrite.getLast?.join.map fun _ => some []
  return { l with
    nextBuffer := nextBuffer
    bufferToWrite := l.bufferToWrite.take kKeepOnOverflow
    dropped := l.dropped + (l.bufferToWrite.length - kKeepOnOverflow) }

/-- The current buffer goes to the queue, and `msg` into the next one. -/
def switch (l : AsyncLogger) (msg : List UInt8) : AsyncLogger :=
  { l with
    currentBuffer := some (l.nextBuffer.getD [] ++ msg)
    nextBuffer := none
    bufferToWrite := l.bufferToWrite ++ [l.currentBuffer] }

def append (l : AsyncLogger) (msg : List UInt8) : Option AsyncLogger :=
  match l.currentBuffer with
  | none => none
  | some current =>
      if msg.length + current.length < kBufferSize then
        some { l with currentBuffer := some (current ++ msg) }
      else if kMaxQueuedBuffers ≤ l.bufferToWrite.length then
        l.trim.map fun l => l.switch msg
      else some (l.switch msg)

/-- The blocks that `append` drops. -/
def dropsOn (l : AsyncLogger) (msg : List UInt8) : List BufferPtr :=
  if msg.length + (l.currentBuffer.getD []).length < kBufferSize then []
  else if kMaxQueuedBuffers ≤ l.bufferToWrite.length then l.bufferToWrite.drop kKeepOnOverflow
  else []

/-- The flush thread takes what there is: a current buffer that is not empty goes to the queue. -/
def pushCurrent (l : AsyncLogger) : AsyncLogger × Bool :=
  match l.currentBuffer with
  | some (c :: current) =>
      ({ l with
          currentBuffer := none
          bufferToWrite := l.bufferToWrite ++ [some (c :: current)] }, true)
  | _ => (l, false)

end AsyncLogger

/-! ## The flush thread -/

/-- What `report_dropped` prints. -/
def dropNote (dropped : Nat) : List UInt8 :=
  (bytes "[WARN ] AsyncLogger 待写队列溢出,丢弃 " ++ decimal dropped ++ bytes " 块缓冲\n").take 127

/-- The note has room for every `size_t`. -/
theorem dropNote_eq {dropped : Nat} (h : dropped < 2 ^ 64) :
    dropNote dropped =
      bytes "[WARN ] AsyncLogger 待写队列溢出,丢弃 " ++ decimal dropped ++ bytes " 块缓冲\n" := by
  have hdigits : (decimal dropped).length ≤ 20 := by
    rw [decimal, List.length_map, Nat.length_toDigits_le_iff (by decide) (by decide)]
    omega
  have hfront : (bytes "[WARN ] AsyncLogger 待写队列溢出,丢弃 ").length = 46 := by decide +kernel
  have hback : (bytes " 块缓冲\n").length = 11 := by decide +kernel
  apply List.take_of_length_le
  rw [List.length_append, List.length_append, hfront, hback]
  omega

/-- One thing that was written. -/
inductive LogOutput
  | note (dropped : Nat)
  | block (text : Buffer)

def LogOutput.bytes : LogOutput → List UInt8
  | .note dropped => dropNote dropped
  | .block text => text

/-- Where the flush thread is. `swap` and `exitSwap` are inside the critical sections. -/
inductive FlushPoint
  | loop
  | wait
  | swap
  | report (dropped : Nat)
  | write (index : Nat)
  | refill
  | exit
  | exitSwap
  | exitReport (dropped : Nat)
  | exitWrite (index : Nat)
  | done

/-- The logger and its thread; `appended` and `discarded` are kept for the statements. -/
structure LogSystem where
  logger : AsyncLogger
  running : Bool
  point : FlushPoint
  newCurrent : BufferPtr
  newNext : BufferPtr
  localBuffers : List BufferPtr
  output : List LogOutput
  appended : List (List UInt8)
  discarded : List BufferPtr

namespace LogSystem

def init : LogSystem where
  logger := ⟨some [], some [], [], 0⟩
  running := true
  point := .loop
  newCurrent := some []
  newNext := some []
  localBuffers := []
  output := []
  appended := []
  discarded := []

/-- `report_dropped`. -/
def reportDropped (s : LogSystem) (dropped : Nat) : LogSystem :=
  if dropped = 0 then s else { s with output := s.output ++ [.note dropped] }

/-- The flush thread gives its spare buffer for the one it takes. -/
def takeCurrent (s : LogSystem) : LogSystem :=
  match s.logger.pushCurrent with
  | (logger, true) =>
      { s with logger := { logger with currentBuffer := s.newCurrent }, newCurrent := none }
  | (_, false) => s

/-- And the other one, if the next buffer is missing. -/
def fillNext (s : LogSystem) : LogSystem :=
  if s.logger.nextBuffer = none then
    { s with logger := { s.logger with nextBuffer := s.newNext }, newNext := none }
  else s

/-- A spare buffer that is missing is the last of the blocks just written, emptied. -/
def recycle (spare : BufferPtr) (written : List BufferPtr) : Option (BufferPtr × List BufferPtr) :=
  match spare with
  | some buffer => some (some buffer, written)
  | none => written.getLast?.join.map fun _ => (some [], written.dropLast)

/-- The next thing the flush thread does. -/
def flush (s : LogSystem) : Option LogSystem :=
  match s.point with
  | .loop => some { s with point := if s.running then .wait else .exit }
  | .wait => some { s.takeCurrent.fillNext with point := .swap }
  | .swap =>
      if s.logger.bufferToWrite = [] then some { s with point := .loop }
      else
        some { s with
          logger := { s.logger with bufferToWrite := s.localBuffers, dropped := 0 }
          localBuffers := s.logger.bufferToWrite
          point := .report s.logger.dropped }
  | .report dropped => some { s.reportDropped dropped with point := .write 0 }
  | .write index =>
      match s.localBuffers[index]? with
      | some (some text) =>
          some { s with output := s.output ++ [.block text], point := .write (index + 1) }
      | some none => none
      | none => some { s with point := .refill }
  | .refill => do
      let (newCurrent, written) ← recycle s.newCurrent s.localBuffers
      let (newNext, _) ← if written = [] then some (s.newNext, written)
        else recycle s.newNext written
      return { s with
        newCurrent := newCurrent
        newNext := newNext
        localBuffers := []
        point := .loop }
  | .exit => some { s with logger := s.logger.pushCurrent.1, point := .exitSwap }
  | .exitSwap =>
      some { s with
        logger := { s.logger with bufferToWrite := s.localBuffers, dropped := 0 }
        localBuffers := s.logger.bufferToWrite
        point := .exitReport s.logger.dropped }
  | .exitReport dropped => some { s.reportDropped dropped with point := .exitWrite 0 }
  | .exitWrite index =>
      match s.localBuffers[index]? with
      | some (some text) =>
          some { s with output := s.output ++ [.block text], point := .exitWrite (index + 1) }
      | some none => none
      | none => some { s with point := .done }
  | .done => some s

/-- Nobody is in a critical section. -/
def unlocked (s : LogSystem) : Prop := s.point ≠ .swap ∧ s.point ≠ .exitSwap

/-- The state behind a call of `append` that left `logger`. -/
def recordAppend (s : LogSystem) (logger : AsyncLogger) (msg : List UInt8) : LogSystem :=
  { s with
    logger := logger
    appended := s.appended ++ [msg]
    discarded := s.discarded ++ s.logger.dropsOn msg }

/-- Any order of calls of `append`, steps of the flush thread and the destructor, which no `append`
follows. -/
inductive Reachable : LogSystem → Prop
  | init : Reachable init
  | append {s : LogSystem} {logger : AsyncLogger} (msg : List UInt8) : Reachable s →
      s.running = true → s.unlocked → s.logger.append msg = some logger →
      Reachable (s.recordAppend logger msg)
  | flush {s t : LogSystem} : Reachable s → s.flush = some t → Reachable t
  | destroy {s : LogSystem} : Reachable s → Reachable { s with running := false }

end LogSystem

end EdgeGateway
