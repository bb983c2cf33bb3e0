import EdgeGateway.Protocol.Proto

set_option autoImplicit false

/-! # The node's SR receiver

`edge_sr.c`: sixteen slots hold buffered commands and executed results; commands are executed in
sequence order. The three hooks act on a user state `σ`, as the C hooks act on `void *user`; a
call returns the new node, the new user state and the record of what happened. The record holds
the hook calls in order and two marks of the node's own, `store` and `close`, which the C code
does not report.

The clock type is a parameter: all the receiver asks of two readings is how far they are apart.
-/

namespace EdgeGateway

/-! ## Commands -/

/-- The identity `(session, seq)` and the content of a command. -/
structure Command where
  session : UInt64
  seq : UInt8
  type : UInt8
  args : List UInt8
  deriving DecidableEq

/-- The position of a command in the order of all sessions. -/
def Command.index (c : Command) : Nat := c.session.toNat * 256 + c.seq.toNat

theorem Command.index_inj {c d : Command} (h : c.index = d.index) :
    c.session = d.session ∧ c.seq = d.seq := by
  have hc := c.seq.toNat_lt
  have hd := d.seq.toNat_lt
  simp only [Command.index] at h
  exact ⟨UInt64.toNat_inj.mp (by omega), UInt8.toNat_inj.mp (by omega)⟩

theorem Command.index_lt_of_session {c d : Command} (h : c.session < d.session) :
    c.index < d.index := by
  have hc := c.seq.toNat_lt
  rw [UInt64.lt_iff_toNat_lt] at h
  simp only [Command.index]
  omega

theorem Command.index_lt_of_seq {c d : Command} (hs : c.session = d.session)
    (h : c.seq.toNat < d.seq.toNat) : c.index < d.index := by
  simp only [Command.index, hs]
  omega

theorem Command.session_le_of_index {c d : Command} (h : c.index ≤ d.index) :
    c.session ≤ d.session := by
  have hd := d.seq.toNat_lt
  simp only [Command.index] at h
  rw [UInt64.le_iff_toNat_le]
  omega

/-! ## The node -/

/-- Readings of a millisecond clock; `elapsed now at` is `now - at`. -/
class Clock (τ : Type) where
  elapsed : τ → τ → Nat

/-- The node's clock wraps at `2 ^ 32`, and so does the difference. -/
instance : Clock UInt32 where
  elapsed now at' := (now - at').toNat

inductive EntryState
  | free
  | buffered
  | executed
  deriving DecidableEq

/-- `edge_sr_entry_t`; `args` and `result` are the first `args_len` and `result_len` bytes. -/
structure EdgeSrEntry (τ : Type) where
  receivedAt : τ
  completedAt : τ
  lastSentAt : τ
  state : EntryState
  seq : UInt8
  command : UInt8
  args : List UInt8
  result : List UInt8
  retries : Nat

abbrev Slot := Fin EDGE_SR_RESULT_CAPACITY

/-- `edge_sr_node_t`. `base` is the next sequence number to execute, 256 when the session is
used up. -/
structure EdgeSrNode (τ : Type) where
  session : UInt64
  base : Nat
  active : Bool
  entries : Slot → EdgeSrEntry τ

/-- `edge_sr_hooks_t`. `execute` returns the `[rc][data...]` bytes it wrote. -/
structure EdgeSrHooks (τ σ : Type) where
  nowMs : σ → τ × σ
  execute : UInt8 → UInt8 → List UInt8 → σ → List UInt8 × σ
  emit : UInt8 → List UInt8 → σ → σ

/-- What happens in a call, in order. -/
inductive NodeEvent (τ : Type)
  | now (t : τ)
  | close (session : UInt64)
  | store (c : Command)
  | execute (c : Command) (result : List UInt8)
  | emit (type : UInt8) (payload : List UInt8)
  deriving DecidableEq

/-- A call in progress. -/
structure NodeRun (τ σ : Type) where
  node : EdgeSrNode τ
  user : σ
  events : List (NodeEvent τ)

variable {τ σ : Type}

/-! ## Slots -/

def EdgeSrNode.setEntry (node : EdgeSrNode τ) (i : Slot) (e : EdgeSrEntry τ) : EdgeSrNode τ :=
  { node with entries := Function.update node.entries i e }

def clearEntries (node : EdgeSrNode τ) : EdgeSrNode τ :=
  { node with entries := fun i => { node.entries i with state := .free } }

/-- `edge_sr_node_init`, on memory with any content. -/
def edgeSrNodeInit (node : EdgeSrNode τ) : EdgeSrNode τ :=
  clearEntries { node with session := 0, base := 0, active := false }

def findEntry (node : EdgeSrNode τ) (seq : UInt8) : Option Slot :=
  (List.finRange EDGE_SR_RESULT_CAPACITY).find? fun i =>
    (node.entries i).state ≠ .free ∧ (node.entries i).seq = seq

/-- The first free slot. -/
def freeEntry (node : EdgeSrNode τ) : Option Slot :=
  (List.finRange EDGE_SR_RESULT_CAPACITY).find? fun i => (node.entries i).state = .free

/-! ## Hook calls -/

namespace NodeRun

def nowMs (hooks : EdgeSrHooks τ σ) (r : NodeRun τ σ) : τ × NodeRun τ σ :=
  let (t, user) := hooks.nowMs r.user
  (t, { r with user := user, events := r.events ++ [.now t] })

def emit (hooks : EdgeSrHooks τ σ) (type : UInt8) (payload : List UInt8) (r : NodeRun τ σ) :
    NodeRun τ σ :=
  { r with user := hooks.emit type payload r.user, events := r.events ++ [.emit type payload] }

end NodeRun

def receivedPayload (session : UInt64) (seq : UInt8) : List UInt8 :=
  edgeU64BeWrite session ++ [seq]

def resultPayload (session : UInt64) (seq command : UInt8) (result : List UInt8) : List UInt8 :=
  edgeU64BeWrite session ++ (seq :: command :: result)

def openAckPayload (requested highWater : UInt64) (rc : UInt8) : List UInt8 :=
  edgeU64BeWrite requested ++ (edgeU64BeWrite highWater ++ [rc])

/-! ## Reading the payloads back -/

@[simp] theorem read_receivedPayload (session : UInt64) (seq : UInt8) :
    edgeU64BeRead (receivedPayload session seq) = session :=
  edgeU64BeRead_write session [seq]

theorem seq_receivedPayload (session : UInt64) (seq : UInt8) :
    (receivedPayload session seq).getD 8 0 = seq :=
  getD_edgeU64BeWrite_append session [seq] 0 0

@[simp] theorem read_resultPayload (session : UInt64) (seq command : UInt8)
    (result : List UInt8) : edgeU64BeRead (resultPayload session seq command result) = session :=
  edgeU64BeRead_write session _

theorem seq_resultPayload (session : UInt64) (seq command : UInt8) (result : List UInt8) :
    (resultPayload session seq command result).getD 8 0 = seq :=
  getD_edgeU64BeWrite_append session _ 0 0

@[simp] theorem drop_resultPayload (session : UInt64) (seq command : UInt8)
    (result : List UInt8) : (resultPayload session seq command result).drop 10 = result :=
  drop_edgeU64BeWrite_append session _ 2

@[simp] theorem read_openAckPayload (requested highWater : UInt64) (rc : UInt8) :
    edgeU64BeRead (openAckPayload requested highWater rc) = requested :=
  edgeU64BeRead_write requested _

@[simp] theorem highWater_openAckPayload (requested highWater : UInt64) (rc : UInt8) :
    edgeU64BeRead ((openAckPayload requested highWater rc).drop 8) = highWater := by
  rw [openAckPayload, drop_edgeU64BeWrite_append requested _ 0, List.drop_zero,
    edgeU64BeRead_write]

theorem rc_openAckPayload (requested highWater : UInt64) (rc : UInt8) :
    (openAckPayload requested highWater rc).getD 16 0 = rc := by
  rw [openAckPayload, getD_edgeU64BeWrite_append requested _ 8 0]
  exact getD_edgeU64BeWrite_append highWater [rc] 0 0

theorem receivedPayload_inj {s s' : UInt64} {q q' : UInt8}
    (h : receivedPayload s q = receivedPayload s' q') : s = s' ∧ q = q' := by
  have hread := congrArg edgeU64BeRead h
  have hseq := congrArg (fun p : List UInt8 => p.getD 8 0) h
  rw [read_receivedPayload, read_receivedPayload] at hread
  simp only [seq_receivedPayload] at hseq
  exact ⟨hread, hseq⟩

/-! ## Sending -/

def emitReceived (hooks : EdgeSrHooks τ σ) (seq : UInt8) (r : NodeRun τ σ) : NodeRun τ σ :=
  r.emit hooks EDGE_TYPE_SR_RECEIVED (receivedPayload r.node.session seq)

def emitResult (hooks : EdgeSrHooks τ σ) (i : Slot) (r : NodeRun τ σ) : NodeRun τ σ :=
  let e := r.node.entries i
  r.emit hooks EDGE_TYPE_SR_RESULT (resultPayload r.node.session e.seq e.command e.result)

/-! ## Deadlines -/

section Deadlines

variable [Clock τ]

/-- The loop of `expire`: an overdue gap closes the session and ends the loop; a result past its
lifetime is dropped. -/
def expireLoop (gap : Bool) (now : τ) (node : EdgeSrNode τ) :
    List Slot → EdgeSrNode τ × List (NodeEvent τ)
  | [] => (node, [])
  | i :: rest =>
      let e := node.entries i
      if gap ∧ e.state = .buffered ∧ Clock.elapsed now e.receivedAt ≥ EDGE_COMMAND_LIFETIME_MS then
        (clearEntries { node with active := false }, [.close node.session])
      else if e.state = .executed ∧ Clock.elapsed now e.completedAt ≥ EDGE_SR_RESULT_TTL_MS then
        expireLoop gap now (node.setEntry i { e with state := .free }) rest
      else expireLoop gap now node rest

/-- The command at `base` is missing while the session is not used up. -/
def EdgeSrNode.gap (node : EdgeSrNode τ) : Bool :=
  node.base < 256 ∧ findEntry node (UInt8.ofNat node.base) = none

def expire (now : τ) (r : NodeRun τ σ) : NodeRun τ σ :=
  let (node, events) :=
    expireLoop r.node.gap now r.node (List.finRange EDGE_SR_RESULT_CAPACITY)
  { r with node := node, events := r.events ++ events }

/-! ## Execution -/

/-- What is stored for a result: an empty or over-long one becomes `UNSUPPORTED`. -/
def storedResult (result : List UInt8) : List UInt8 :=
  if result.length = 0 ∨ result.length > EDGE_SR_RESULT_MAX then [EDGE_RC_UNSUPPORTED] else result

/-- The slot of an executed command. -/
def EdgeSrEntry.complete (e : EdgeSrEntry τ) (result : List UInt8) (now : τ) : EdgeSrEntry τ :=
  { e with result := storedResult result, completedAt := now, lastSentAt := now, retries := 0,
           state := .executed }

def EdgeSrNode.commandOf (node : EdgeSrNode τ) (e : EdgeSrEntry τ) : Command :=
  ⟨node.session, e.seq, e.command, e.args⟩

/-- One execution in `deliver`: the result is stored and the window moved before the result is
sent. -/
def executeEntry (hooks : EdgeSrHooks τ σ) (i : Slot) (r : NodeRun τ σ) : NodeRun τ σ :=
  let e := r.node.entries i
  let (result, user) := hooks.execute e.seq e.command e.args r.user
  let r : NodeRun τ σ :=
    { r with user := user, events := r.events ++ [.execute (r.node.commandOf e) result] }
  let (now, r) := r.nowMs hooks
  let node := r.node.setEntry i (e.complete result now)
  emitResult hooks i { r with node := { node with base := node.base + 1 } }

/-- The `while` loop of `deliver`; every further round has executed one more command, so `256 -
base` rounds are enough. -/
def deliverLoop (hooks : EdgeSrHooks τ σ) : Nat → NodeRun τ σ → NodeRun τ σ
  | 0, r => r
  | n + 1, r =>
      let (now, r) := r.nowMs hooks
      let r := expire now r
      if r.node.active = false then r
      else
        match findEntry r.node (UInt8.ofNat r.node.base) with
        | none => r
        | some i =>
            if (r.node.entries i).state ≠ .buffered then r
            else deliverLoop hooks n (executeEntry hooks i r)

def deliver (hooks : EdgeSrHooks τ σ) (r : NodeRun τ σ) : NodeRun τ σ :=
  deliverLoop hooks (256 - r.node.base) r

/-! ## Frames -/

/-- The `SR_OPEN` branch of `edge_sr_node_on_frame`. -/
def onOpen (hooks : EdgeSrHooks τ σ) (session : UInt64) (r : NodeRun τ σ) : NodeRun τ σ :=
  let r :=
    if session > r.node.session then
      { r with node := { clearEntries r.node with session := session, base := 0, active := true } }
    else r
  let rc :=
    if session = r.node.session ∧ r.node.active = true then EDGE_RC_OK else EDGE_RC_BAD_PARAM
  r.emit hooks EDGE_TYPE_SR_OPEN_ACK (openAckPayload session r.node.session rc)

/-- The `SR_RESULT_ACK` branch. -/
def onResultAck (seq : UInt8) (len : Nat) (r : NodeRun τ σ) : NodeRun τ σ :=
  match findEntry r.node seq with
  | none => r
  | some i =>
      if len = 9 ∧ (r.node.entries i).state = .executed then
        { r with node := r.node.setEntry i { r.node.entries i with state := .free } }
      else r

/-- The slot of a newly received command. -/
def EdgeSrEntry.receive (e : EdgeSrEntry τ) (seq command : UInt8) (args : List UInt8) (now : τ) :
    EdgeSrEntry τ :=
  { e with state := .buffered, seq := seq, command := command, args := args, receivedAt := now }

/-- The `SR_COMMAND` branch for a command that no slot holds. -/
def onNewCommand (hooks : EdgeSrHooks τ σ) (now : τ) (seq command : UInt8) (args : List UInt8)
    (r : NodeRun τ σ) : NodeRun τ σ :=
  -- left of the window: never executed again, even after its result was dropped
  if seq.toNat < r.node.base then emitReceived hooks seq r
  else if seq.toNat ≥ r.node.base + EDGE_SR_WINDOW_SIZE then r
  else
    match freeEntry r.node with
    | none => r
    | some i =>
        let e := (r.node.entries i).receive seq command args now
        let r : NodeRun τ σ :=
          { r with node := r.node.setEntry i e, events := r.events ++ [.store (r.node.commandOf e)] }
        deliver hooks (emitReceived hooks seq r)

/-- The `SR_COMMAND` branch. -/
def onCommand (hooks : EdgeSrHooks τ σ) (now : τ) (seq command : UInt8) (args : List UInt8)
    (r : NodeRun τ σ) : NodeRun τ σ :=
  match findEntry r.node seq with
  | some i =>
      let e := r.node.entries i
      -- the same (session, seq) must not change its content
      if e.command ≠ command ∨ e.args ≠ args then r
      else
        let r := emitReceived hooks seq r
        if e.state = .executed then emitResult hooks i r else r
  | none => onNewCommand hooks now seq command args r

def edgeSrNodeOnFrame (hooks : EdgeSrHooks τ σ) (node : EdgeSrNode τ) (user : σ) (type : UInt8)
    (payload : Option (List UInt8)) : NodeRun τ σ :=
  let (now, r) := NodeRun.nowMs hooks ⟨node, user, []⟩
  let r := expire now r
  match payload with
  | none => r
  | some p =>
      if p.length > EDGE_PAYLOAD_MAX ∨ p.length < 8 then r
      else
        let session := edgeU64BeRead p
        if type = EDGE_TYPE_SR_OPEN then
          if p.length ≠ 8 then r else onOpen hooks session r
        else if r.node.active = false ∨ session ≠ r.node.session ∨ p.length < 9 then r
        else
          let seq := p.getD 8 0
          if type = EDGE_TYPE_SR_RESULT_ACK then onResultAck seq p.length r
          else if type ≠ EDGE_TYPE_SR_COMMAND ∨ p.length < 10 then r
          else onCommand hooks now seq (p.getD 9 0) (p.drop 10) r

/-! ## Ticks -/

/-- The loop of `edge_sr_node_tick`: unacknowledged results are sent again, three times each. -/
def tickLoop (hooks : EdgeSrHooks τ σ) (now : τ) : List Slot → NodeRun τ σ → NodeRun τ σ
  | [], r => r
  | i :: rest, r =>
      let e := r.node.entries i
      if e.state = .executed ∧ e.retries < EDGE_MAX_RETRY ∧
          Clock.elapsed now e.lastSentAt ≥ EDGE_ACK_TIMEOUT_MS then
        let node := r.node.setEntry i { e with retries := e.retries + 1, lastSentAt := now }
        tickLoop hooks now rest (emitResult hooks i { r with node := node })
      else tickLoop hooks now rest r

def edgeSrNodeTick (hooks : EdgeSrHooks τ σ) (node : EdgeSrNode τ) (user : σ) : NodeRun τ σ :=
  let (now, r) := NodeRun.nowMs hooks ⟨node, user, []⟩
  let r := expire now r
  if r.node.active = false then r
  else tickLoop hooks now (List.finRange EDGE_SR_RESULT_CAPACITY) r

end Deadlines

/-! ## Slot lemmas -/

@[simp] theorem setEntry_session (n : EdgeSrNode τ) (i : Slot) (e : EdgeSrEntry τ) :
    (n.setEntry i e).session = n.session := rfl

@[simp] theorem setEntry_base (n : EdgeSrNode τ) (i : Slot) (e : EdgeSrEntry τ) :
    (n.setEntry i e).base = n.base := rfl

@[simp] theorem setEntry_active (n : EdgeSrNode τ) (i : Slot) (e : EdgeSrEntry τ) :
    (n.setEntry i e).active = n.active := rfl

theorem setEntry_entries (n : EdgeSrNode τ) (i j : Slot) (e : EdgeSrEntry τ) :
    (n.setEntry i e).entries j = if j = i then e else n.entries j := by
  simp [EdgeSrNode.setEntry, Function.update_apply]

theorem findEntry_eq_none {n : EdgeSrNode τ} {seq : UInt8} :
    findEntry n seq = none ↔
      ∀ i, (n.entries i).state ≠ .free → (n.entries i).seq ≠ seq := by
  simp [findEntry, List.find?_eq_none]

theorem findEntry_eq_some {n : EdgeSrNode τ} {seq : UInt8} {i : Slot}
    (h : findEntry n seq = some i) :
    (n.entries i).state ≠ .free ∧ (n.entries i).seq = seq := by
  simpa using List.find?_some h

theorem findEntry_isSome {n : EdgeSrNode τ} {i : Slot} (h : (n.entries i).state ≠ .free) :
    ∃ j, findEntry n (n.entries i).seq = some j := by
  cases hf : findEntry n (n.entries i).seq with
  | none => exact absurd rfl (findEntry_eq_none.mp hf i h)
  | some j => exact ⟨j, rfl⟩

theorem freeEntry_eq_some {n : EdgeSrNode τ} {i : Slot} (h : freeEntry n = some i) :
    (n.entries i).state = .free := by
  simpa using List.find?_some h

theorem freeEntry_eq_none {n : EdgeSrNode τ} :
    freeEntry n = none ↔ ∀ i, (n.entries i).state ≠ .free := by
  simp [freeEntry, List.find?_eq_none]

end EdgeGateway
