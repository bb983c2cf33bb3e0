import EdgeGateway.Protocol.FrameCodec

set_option autoImplicit false

/-! # The serial link's output

The output queue of `NodeLink` and the loop that drains it. A frame waits with the identity its
callbacks need; the callbacks belong to the owner of the link and may queue further frames. What
the kernel does with each write is an input. Everything that happens at the descriptor is recorded.
-/

namespace EdgeGateway

/-! ## Data -/

/-- The outcome of one non-blocking `write`. -/
inductive WriteResult
  | accepted (n : Nat)
  | interrupted
  | wouldBlock
  | failed
  deriving DecidableEq

/-- `NodeLink::PendingWrite`; `tag` is what its two callbacks were made from. -/
structure PendingWrite (κ : Type) where
  frame : List UInt8
  offset : Nat
  tag : κ

/-- What happens at the descriptor; `armed` is an `epoll_ctl` with or without `EPOLLOUT`. -/
inductive LinkEvent (κ : Type)
  | queued (frame : List UInt8) (tag : κ)
  | wrote (bytes : List UInt8)
  | interrupted
  | blocked
  | failed
  | completed (tag : κ) (sent : Bool)
  | armed (out : Bool)

structure NodeLink (κ : Type) where
  output : List (PendingWrite κ) := []
  trace : List (LinkEvent κ) := []

/-- A link and the rest of what its owner holds. -/
structure Linked (κ σ : Type) where
  link : NodeLink κ
  owner : σ

/-- `can_send` and `on_complete` of every frame. -/
structure LinkHooks (κ σ : Type) where
  canSend : κ → σ → Bool × σ
  onComplete : κ → Bool → Linked κ σ → Linked κ σ

/-- How `flushOutput` ends; `unfinished` when it is looked at before it returns. -/
inductive FlushEnd
  | drained
  | blocked
  | failed
  | unfinished
  deriving DecidableEq

variable {κ σ : Type}

/-! ## Operations -/

namespace NodeLink

def record (link : NodeLink κ) (e : LinkEvent κ) : NodeLink κ :=
  { link with trace := link.trace ++ [e] }

def send (type : UInt8) (payload : List UInt8) (tag : κ) (link : NodeLink κ) :
    Option (NodeLink κ) :=
  let frame := buildFrame type payload
  if frame = [] then none
  else
    let link := link.record (.queued frame tag)
    some { link with output := link.output ++ [⟨frame, 0, tag⟩] }

def hasPendingOutput (link : NodeLink κ) : Bool := link.output.isEmpty = false

/-- A payload that fits in a frame is queued as one pending write. -/
theorem send_eq_some {link link' : NodeLink κ} {type : UInt8} {payload : List UInt8} {tag : κ}
    (h : link.send type payload tag = some link') :
    buildFrame type payload ≠ [] ∧
      link'.output = link.output ++ [⟨buildFrame type payload, 0, tag⟩] ∧
      link'.trace = link.trace ++ [.queued (buildFrame type payload) tag] := by
  unfold send at h
  dsimp only at h
  split_ifs at h with hne
  obtain rfl := Option.some.inj h
  exact ⟨hne, rfl, rfl⟩

end NodeLink

def Linked.record (s : Linked κ σ) (e : LinkEvent κ) : Linked κ σ :=
  { s with link := s.link.record e }

/-- The front frame leaves the queue before its callback runs. -/
def completeFront (hooks : LinkHooks κ σ) (sent : Bool) (s : Linked κ σ) : Linked κ σ :=
  match s.link.output with
  | [] => s
  | pending :: rest =>
      let s := { s with link := { s.link with output := rest } }
      hooks.onComplete pending.tag sent (s.record (.completed pending.tag sent))

/-- The queue is taken off before the first callback runs. -/
def discardOutput (hooks : LinkHooks κ σ) (s : Linked κ σ) : Linked κ σ :=
  let discarded := s.link.output
  let s := { s with link := { s.link with output := [] } }
  discarded.foldl
    (fun s pending => hooks.onComplete pending.tag false (s.record (.completed pending.tag false))) s

/-- One `write` of the front frame, and what the loop does with its result. -/
def writeFront (hooks : LinkHooks κ σ) (turn : WriteResult) (s : Linked κ σ) :
    Linked κ σ × Option FlushEnd :=
  match s.link.output with
  | [] => (s, some .drained)
  | pending :: rest =>
      match turn with
      | .accepted n =>
          let n := min n (pending.frame.length - pending.offset)
          if n = 0 then (discardOutput hooks (s.record .failed), some .failed)
          else
            let bytes := (pending.frame.drop pending.offset).take n
            let pending := { pending with offset := pending.offset + n }
            let s := { s with link := { s.link with output := pending :: rest } }
            let s := s.record (.wrote bytes)
            if pending.offset = pending.frame.length then (completeFront hooks true s, none)
            else (s, none)
      | .interrupted => (s.record .interrupted, none)
      | .wouldBlock => (s.record .blocked, some .blocked)
      | .failed => (discardOutput hooks (s.record .failed), some .failed)

/-- One turn of the loop of `flushOutput`; a frame that is cancelled needs no write. -/
def flushTurn (hooks : LinkHooks κ σ) (turn : WriteResult) (s : Linked κ σ) :
    Linked κ σ × Option FlushEnd :=
  match s.link.output with
  | [] => (s, some .drained)
  | pending :: _ =>
      if pending.offset = 0 then
        let allowed := hooks.canSend pending.tag s.owner
        let s := { s with owner := allowed.2 }
        if allowed.1 = false then (completeFront hooks false s, none)
        else writeFront hooks turn s
      else writeFront hooks turn s

/-- `turns` has an entry for each turn of the loop. -/
def flushOutput (hooks : LinkHooks κ σ) : List WriteResult → Linked κ σ → Linked κ σ × FlushEnd
  | [], s => (s, if s.link.hasPendingOutput then .unfinished else .drained)
  | turn :: turns, s =>
      match flushTurn hooks turn s with
      | (s, none) => flushOutput hooks turns s
      | (s, some e) => (s, e)

/-! ## What the owner can rely on -/

section Owner

variable {hooks : LinkHooks κ σ} {J : σ → Prop}

theorem completeFront_owner
    (hcomplete : ∀ tag sent s, J s.owner → J (hooks.onComplete tag sent s).owner) (sent : Bool)
    {s : Linked κ σ} (h : J s.owner) : J (completeFront hooks sent s).owner := by
  unfold completeFront
  cases s.link.output with
  | nil => exact h
  | cons pending rest => exact hcomplete _ _ _ h

theorem discardOutput_owner
    (hcomplete : ∀ tag sent s, J s.owner → J (hooks.onComplete tag sent s).owner)
    {s : Linked κ σ} (h : J s.owner) : J (discardOutput hooks s).owner := by
  unfold discardOutput
  refine List.foldlRecOn (motive := fun s : Linked κ σ => J s.owner) s.link.output _ h ?_
  intro s hs pending _
  exact hcomplete _ _ _ hs

theorem writeFront_owner
    (hcomplete : ∀ tag sent s, J s.owner → J (hooks.onComplete tag sent s).owner)
    (turn : WriteResult) {s : Linked κ σ} (h : J s.owner) :
    J (writeFront hooks turn s).1.owner := by
  unfold writeFront
  cases s.link.output with
  | nil => exact h
  | cons pending rest =>
      cases turn with
      | accepted n =>
          dsimp only
          split_ifs
          · exact discardOutput_owner hcomplete h
          · exact completeFront_owner hcomplete true h
          · exact h
      | interrupted => exact h
      | wouldBlock => exact h
      | failed => exact discardOutput_owner hcomplete h

theorem flushTurn_owner (hcan : ∀ tag o, J o → J (hooks.canSend tag o).2)
    (hcomplete : ∀ tag sent s, J s.owner → J (hooks.onComplete tag sent s).owner)
    (turn : WriteResult) {s : Linked κ σ} (h : J s.owner) :
    J (flushTurn hooks turn s).1.owner := by
  unfold flushTurn
  cases s.link.output with
  | nil => exact h
  | cons pending rest =>
      dsimp only
      split_ifs
      · exact completeFront_owner hcomplete false (hcan _ _ h)
      · exact writeFront_owner hcomplete turn (hcan _ _ h)
      · exact writeFront_owner hcomplete turn h

/-- **The rule of the output loop.** What the two callbacks keep of the owner's state, draining the
queue keeps, whatever the writes do. -/
theorem flushOutput_owner (hcan : ∀ tag o, J o → J (hooks.canSend tag o).2)
    (hcomplete : ∀ tag sent s, J s.owner → J (hooks.onComplete tag sent s).owner)
    (turns : List WriteResult) {s : Linked κ σ} (h : J s.owner) :
    J (flushOutput hooks turns s).1.owner := by
  induction turns generalizing s with
  | nil => exact h
  | cons turn turns ih =>
      have hturn := flushTurn_owner hcan hcomplete turn h
      unfold flushOutput
      generalize flushTurn hooks turn s = r at hturn
      match r with
      | (s', none) => exact ih hturn
      | (s', some e) => exact hturn

end Owner

/-- A frame of legal size is always queued. -/
theorem NodeLink.send_isSome (type : UInt8) {payload : List UInt8} (tag : κ) (link : NodeLink κ)
    (h : payload.length ≤ EDGE_PAYLOAD_MAX) : (link.send type payload tag).isSome = true := by
  have hframe : buildFrame type payload ≠ [] := by
    rw [buildFrame_eq_bytes ⟨type, payload⟩ h]
    exact Frame.bytes_ne_nil (f := ⟨type, payload⟩) h
  rw [NodeLink.send, if_neg hframe]
  rfl

end EdgeGateway
