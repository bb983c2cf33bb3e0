import EdgeGateway.Basic.KeyMap
import EdgeGateway.Protocol.Proto
import Mathlib.Tactic.SplitIfs

set_option autoImplicit false

/-! # The SR sender

`CommandTracker`: one session at a time, a window of eight sequence numbers whose left edge passes
consecutive receipts only, an independent retransmission for each command, and the handshake that
opens a session. Time points are nanoseconds of a steady clock.
-/

namespace EdgeGateway

/-! ## Data -/

/-- Nanoseconds since the epoch of the steady clock. -/
abbrev TimePoint := Int

/-- `std::chrono::milliseconds` as a duration of the clock. -/
def Ms (n : Nat) : Int := n * 1000000

/-- One transmission in the output queue; session and attempt identify it in the callback. -/
structure CommandSend where
  type : UInt8
  payload : List UInt8
  session : UInt64
  seq : UInt8
  attempt : Nat
  deriving DecidableEq

/-- `result` is `[rc][data...]`; `error` is empty on success, else timeout, session_aborted or
send_failed. -/
structure CommandCompletion where
  seq : UInt8
  type : UInt8
  result : List UInt8
  error : String
  deriving DecidableEq

structure TrackerActions where
  send : List CommandSend := []
  finished : List CommandCompletion := []

inductive TrackerState
  | closed
  | opening
  | ready
  | failed
  deriving DecidableEq

/-- `CommandTracker::Entry`. -/
structure Entry where
  type : UInt8
  args : List UInt8
  queuedAt : TimePoint
  sentAt : TimePoint
  sends : Nat
  pending : Bool
  received : Bool
  deriving DecidableEq

/-! ## Entries -/

/-- The entry of a submitted command. -/
def Entry.new (type : UInt8) (args : List UInt8) (now : TimePoint) : Entry where
  type := type
  args := args
  queuedAt := now
  sentAt := 0
  sends := 0
  pending := true
  received := false

/-- The entry after its frame was written. -/
def Entry.written (e : Entry) (now : TimePoint) : Entry :=
  { e with pending := false, sends := e.sends + 1, sentAt := now }

/-- A command that cannot be recovered. -/
def Entry.lost (e : Entry) (now : TimePoint) : Bool :=
  (e.received = false ∧ now - e.queuedAt ≥ Ms EDGE_COMMAND_LIFETIME_MS) ∨
    now - e.queuedAt ≥ Ms EDGE_SR_RESULT_TIMEOUT_MS ∨
    (e.received = false ∧ e.pending = false ∧ e.sends > EDGE_MAX_RETRY ∧
      now - e.sentAt ≥ Ms EDGE_ACK_TIMEOUT_MS)

/-- A command to be sent again. -/
def Entry.due (e : Entry) (now : TimePoint) : Bool :=
  e.received = false ∧ e.pending = false ∧ now - e.sentAt ≥ Ms EDGE_ACK_TIMEOUT_MS

/-- The entry after its retransmission was queued, when it is due. -/
def Entry.retried (e : Entry) (now : TimePoint) : Entry :=
  if e.due now then { e with pending := true } else e

/-! ## The tracker -/

structure CommandTracker where
  state : TrackerState
  session : UInt64
  base : Nat
  next : Nat
  received : UInt8 → Bool
  completed : UInt8 → Bool
  types : UInt8 → UInt8
  entries : KeyMap UInt8 Entry
  openingAt : TimePoint
  openSentAt : TimePoint
  openSends : Nat
  openPending : Bool

/-- The highest session number. -/
def SESSION_MAX : UInt64 := 0xFFFFFFFFFFFFFFFF

theorem lt_session_succ {session : UInt64} (h : session ≠ SESSION_MAX) : session < session + 1 := by
  have hne : session.toNat ≠ SESSION_MAX.toNat := fun heq => h (UInt64.toNat_inj.mp heq)
  have hmax : SESSION_MAX.toNat = 2 ^ 64 - 1 := rfl
  have hone : (1 : UInt64).toNat = 1 := rfl
  have hlt := session.toNat_lt
  rw [UInt64.lt_iff_toNat_lt, UInt64.toNat_add, hone]
  omega

/-- The session number the first command starts with: microseconds of the system clock. -/
def epochSession (epoch : Int) : UInt64 :=
  if epoch > 0 then UInt64.ofNat epoch.toNat else 1

namespace CommandTracker

/-- A new tracker. -/
def new : CommandTracker where
  state := .closed
  session := 0
  base := 0
  next := 0
  received _ := false
  completed _ := false
  types _ := 0
  entries := KeyMap.empty
  openingAt := 0
  openSentAt := 0
  openSends := 0
  openPending := false

/-- `resultValid` on a payload `[session][seq][type][rc][data...]`. -/
def resultValid (type : UInt8) (p : List UInt8) : Bool :=
  if p.length < 11 ∨ p.getD 10 0 > EDGE_RC_BUSY then false
  else if p.getD 10 0 ≠ EDGE_RC_OK then p.length = 11
  else if type = EDGE_TYPE_QUERY_LIGHT then p.length = 13
  else if type = EDGE_TYPE_QUERY_TH then p.length = 15
  else if type = EDGE_TYPE_SET_PERIOD then p.length = 11
  else false

/-! ## Frames to send -/

def openSend (t : CommandTracker) : CommandSend where
  type := EDGE_TYPE_SR_OPEN
  payload := edgeU64BeWrite t.session
  session := t.session
  seq := 0
  attempt := t.openSends

def commandPayload (session : UInt64) (seq type : UInt8) (args : List UInt8) : List UInt8 :=
  edgeU64BeWrite session ++ (seq :: type :: args)

def dataSend (t : CommandTracker) (seq : UInt8) (entry : Entry) : CommandSend where
  type := EDGE_TYPE_SR_COMMAND
  payload := commandPayload t.session seq entry.type entry.args
  session := t.session
  seq := seq
  attempt := entry.sends

def resultAck (t : CommandTracker) (seq : UInt8) : CommandSend where
  type := EDGE_TYPE_SR_RESULT_ACK
  payload := edgeU64BeWrite t.session ++ [seq]
  session := t.session
  seq := seq
  attempt := 0

/-! ## Sessions -/

/-- The tracker after a session number is chosen. -/
def openSession (t : CommandTracker) (session : UInt64) (now : TimePoint) : CommandTracker :=
  { t with
    session := session
    base := 0
    next := 0
    received := fun _ => false
    completed := fun _ => false
    types := fun _ => 0
    openingAt := now
    openSends := 0
    openPending := true
    state := .opening }

/-- A used session never comes back: what is not above the current session becomes the next one. -/
def nextSession (session : UInt64) (t : CommandTracker) : UInt64 :=
  if session ≤ t.session then t.session + 1 else session

/-- After the highest session there is none. -/
def begin (session : UInt64) (now : TimePoint) (actions : TrackerActions) (t : CommandTracker) :
    CommandTracker × TrackerActions :=
  if session ≤ t.session ∧ t.session = SESSION_MAX then ({ t with state := .failed }, actions)
  else
    let t := t.openSession (t.nextSession session) now
    (t, { actions with send := actions.send ++ [t.openSend] })

theorem lt_nextSession {session : UInt64} {t : CommandTracker}
    (h : ¬ (session ≤ t.session ∧ t.session = SESSION_MAX)) :
    t.session < t.nextSession session := by
  unfold nextSession
  split_ifs with hle
  · exact lt_session_succ fun heq => h ⟨hle, heq⟩
  · exact UInt64.not_le.mp hle

/-- The completion of an entry that has no result. -/
def failure (entry : UInt8 × Entry) (error : String) : CommandCompletion :=
  ⟨entry.1, entry.2.type, [], error⟩

def start (session : UInt64) (now : TimePoint) (t : CommandTracker) :
    CommandTracker × TrackerActions :=
  let finished := t.entries.toList.map fun entry => failure entry "session_aborted"
  begin session now { finished := finished } { t with entries := KeyMap.empty }

def canSubmit (t : CommandTracker) : Bool :=
  t.state = .ready ∧ t.next < 256 ∧ t.next < t.base + EDGE_SR_WINDOW_SIZE ∧
    t.entries.size < EDGE_SR_WINDOW_SIZE

def submit (type : UInt8) (args : List UInt8) (now : TimePoint) (t : CommandTracker) :
    CommandTracker × Option CommandSend :=
  if t.canSubmit = false ∨ args.length > EDGE_SR_ARGS_MAX then (t, none)
  else
    let seq := UInt8.ofNat t.next
    let e := Entry.new type args now
    let t := { t with
      next := t.next + 1
      entries := t.entries.emplace seq e
      types := Function.update t.types seq type }
    (t, some (t.dataSend seq ((t.entries.find? seq).getD e)))

/-- The loop of `receive`. -/
def slideBase (t : CommandTracker) : Nat → Nat → Nat
  | 0, base => base
  | fuel + 1, base =>
      if base < t.next ∧ t.received (UInt8.ofNat base) = true then t.slideBase fuel (base + 1)
      else base

def receive (seq : UInt8) (t : CommandTracker) : CommandTracker :=
  let t := { t with
    received := Function.update t.received seq true
    entries := t.entries.modify seq fun e => { e with received := true } }
  { t with base := t.slideBase (t.next - t.base) t.base }

def rollover (now : TimePoint) (actions : TrackerActions) (t : CommandTracker) :
    CommandTracker × TrackerActions :=
  if t.next = 256 ∧ t.entries.size = 0 then begin t.session now actions t else (t, actions)

def abort (failedSeq : UInt8) (reason : String) (now : TimePoint) (t : CommandTracker) :
    CommandTracker × TrackerActions :=
  let finished := t.entries.toList.map fun entry =>
    failure entry (if entry.1 = failedSeq then reason else "session_aborted")
  begin t.session now { finished := finished } { t with entries := KeyMap.empty }

/-! ## Writing -/

def canSend (send : CommandSend) (now : TimePoint) (t : CommandTracker) : Bool :=
  if send.session ≠ t.session then false
  else if send.type = EDGE_TYPE_SR_OPEN then
    t.state = .opening ∧ t.openPending = true ∧ send.attempt = t.openSends ∧
      now - t.openingAt < Ms EDGE_COMMAND_LIFETIME_MS
  else if t.state ≠ .ready then false
  else if send.type = EDGE_TYPE_SR_RESULT_ACK then t.completed send.seq
  else
    match t.entries.find? send.seq with
    | none => false
    | some e =>
        send.type = EDGE_TYPE_SR_COMMAND ∧ e.pending = true ∧ e.received = false ∧
          send.attempt = e.sends ∧ now - e.queuedAt < Ms EDGE_COMMAND_LIFETIME_MS

/-- The `SR_OPEN` branch of `onWritten`. -/
def onOpenWritten (send : CommandSend) (success : Bool) (now : TimePoint) (t : CommandTracker) :
    CommandTracker × TrackerActions :=
  if t.state ≠ .opening ∨ t.openPending = false ∨ send.attempt ≠ t.openSends then (t, {})
  else if success = false ∨ now - t.openingAt ≥ Ms EDGE_COMMAND_LIFETIME_MS then
    ({ t with openPending := false, state := .failed }, {})
  else ({ t with openPending := false, openSends := t.openSends + 1, openSentAt := now }, {})

/-- The `SR_COMMAND` branch of `onWritten`. -/
def onDataWritten (send : CommandSend) (success : Bool) (now : TimePoint) (t : CommandTracker) :
    CommandTracker × TrackerActions :=
  match t.entries.find? send.seq with
  | none => (t, {})
  | some e =>
      if e.pending = false ∨ e.received = true ∨ send.attempt ≠ e.sends then (t, {})
      else if now - e.queuedAt ≥ Ms EDGE_COMMAND_LIFETIME_MS then t.abort send.seq "timeout" now
      else if success = false then t.abort send.seq "send_failed" now
      else ({ t with entries := t.entries.modify send.seq (·.written now) }, {})

def onWritten (send : CommandSend) (success : Bool) (now : TimePoint) (t : CommandTracker) :
    CommandTracker × TrackerActions :=
  if send.session ≠ t.session then (t, {})
  else if send.type = EDGE_TYPE_SR_OPEN then t.onOpenWritten send success now
  else if t.state ≠ .ready ∨ send.type ≠ EDGE_TYPE_SR_COMMAND then (t, {})
  else t.onDataWritten send success now

/-! ## Frames -/

/-- The `SR_OPEN_ACK` branch of `onFrame`; a rejected OPEN uses up the handshake budget too. -/
def onOpenAck (p : List UInt8) (now : TimePoint) (t : CommandTracker) :
    CommandTracker × TrackerActions :=
  if p.length ≠ 17 ∨ t.state ≠ .opening ∨ t.openSends = 0 then (t, {})
  else if now - t.openingAt ≥ Ms EDGE_COMMAND_LIFETIME_MS then ({ t with state := .failed }, {})
  else
    let highWater := edgeU64BeRead (p.drop 8)
    if p.getD 16 0 = EDGE_RC_OK ∧ highWater = t.session then
      ({ t with state := .ready, openPending := false }, {})
    else if p.getD 16 0 = EDGE_RC_BAD_PARAM ∧ highWater ≥ t.session then
      if highWater = SESSION_MAX ∨ t.openSends > EDGE_MAX_RETRY then
        ({ t with state := .failed }, {})
      else
        let t := { t with session := highWater + 1, openPending := true }
        (t, { send := [t.openSend] })
    else (t, {})

/-- The `SR_RECEIVED` branch. -/
def onReceived (seq : UInt8) (p : List UInt8) (t : CommandTracker) : CommandTracker :=
  match t.entries.find? seq with
  | none => t
  | some e => if p.length = 9 ∧ e.sends ≠ 0 then t.receive seq else t

/-- The `SR_RESULT` branch; a result proves the receipt too. -/
def onResult (seq : UInt8) (p : List UInt8) (now : TimePoint) (t : CommandTracker) :
    CommandTracker × TrackerActions :=
  if p.length < 11 ∨ p.getD 9 0 ≠ t.types seq ∨ resultValid (p.getD 9 0) p = false then (t, {})
  else if t.completed seq = true then (t, { send := [t.resultAck seq] })
  else
    match t.entries.find? seq with
    | none => (t, {})
    | some e =>
        if e.sends = 0 then (t, {})
        else
          let t := t.receive seq
          let t := { t with
            completed := Function.update t.completed seq true
            entries := t.entries.erase seq }
          t.rollover now
            { send := [t.resultAck seq], finished := [⟨seq, e.type, p.drop 10, ""⟩] }

def onFrame (type : UInt8) (p : List UInt8) (now : TimePoint) (t : CommandTracker) :
    CommandTracker × TrackerActions :=
  if p.length < 8 ∨ p.length > EDGE_PAYLOAD_MAX ∨ edgeU64BeRead p ≠ t.session then (t, {})
  else if type = EDGE_TYPE_SR_OPEN_ACK then t.onOpenAck p now
  else if t.state ≠ .ready ∨ p.length < 9 then (t, {})
  else
    let seq := p.getD 8 0
    if seq.toNat ≥ t.next then (t, {})
    else if type = EDGE_TYPE_SR_RECEIVED then (t.onReceived seq p, {})
    else if type ≠ EDGE_TYPE_SR_RESULT then (t, {})
    else t.onResult seq p now

/-! ## Ticks -/

/-- The first branch of `tick`: the handshake. -/
def tickOpening (now : TimePoint) (t : CommandTracker) : CommandTracker × TrackerActions :=
  if now - t.openingAt ≥ Ms EDGE_COMMAND_LIFETIME_MS then ({ t with state := .failed }, {})
  else if t.openPending = false ∧ now - t.openSentAt ≥ Ms EDGE_ACK_TIMEOUT_MS then
    if t.openSends > EDGE_MAX_RETRY then ({ t with state := .failed }, {})
    else
      let t := { t with openPending := true }
      (t, { send := [t.openSend] })
  else (t, {})

/-- The second loop of `tick`. -/
def retry (now : TimePoint) (t : CommandTracker) : CommandTracker × TrackerActions :=
  let due := t.entries.toList.filter fun entry => entry.2.due now
  ({ t with entries := t.entries.map (·.retried now) },
    { send := due.map fun entry => t.dataSend entry.1 (entry.2.retried now) })

/-- Lost commands are looked for before anything is sent again. -/
def tick (now : TimePoint) (t : CommandTracker) : CommandTracker × TrackerActions :=
  if t.state = .opening then t.tickOpening now
  else if t.state ≠ .ready then (t, {})
  else
    match t.entries.toList.find? fun entry => entry.2.lost now with
    | some entry => t.abort entry.1 "timeout" now
    | none => t.retry now

end CommandTracker

end EdgeGateway
