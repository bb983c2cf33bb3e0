import EdgeGateway.Link.NodeLink
import Mathlib.Data.List.Forall2
import Mathlib.Logic.Relation

set_option autoImplicit false

/-! # The byte stream of the serial port

What the port takes is read off the record of the link: the bytes between two completions belong
to the frame that is then in front. Whatever the writes do, and whatever the callbacks queue, these
are whole frames in the order they were queued, up to frames at which a write failed for good.
-/

namespace EdgeGateway

variable {κ σ : Type}

/-! ## Reading the record -/

/-- What became of a frame that left the queue: the bytes the port took, what its callback was
told, and whether a write failed for good while it was in front. -/
structure Delivery (κ : Type) where
  bytes : List UInt8
  tag : κ
  sent : Bool
  failed : Bool

/-- The frames that were queued and those that left, with what happened since the last one left. -/
structure PortRecord (κ : Type) where
  frames : List (List UInt8 × κ) := []
  deliveries : List (Delivery κ) := []
  current : List UInt8 := []
  failed : Bool := false

def PortRecord.next (r : PortRecord κ) : LinkEvent κ → PortRecord κ
  | .queued frame tag => { r with frames := r.frames ++ [(frame, tag)] }
  | .wrote bytes => { r with current := r.current ++ bytes }
  | .failed => { r with failed := true }
  | .completed tag sent =>
      { r with
        deliveries := r.deliveries ++ [⟨r.current, tag, sent, r.failed⟩]
        current := []
        failed := false }
  | .interrupted => r
  | .blocked => r
  | .armed _ => r

def portRecord (trace : List (LinkEvent κ)) : PortRecord κ := trace.foldl PortRecord.next {}

/-- The bytes a write took. -/
def LinkEvent.bytes : LinkEvent κ → List UInt8
  | .wrote bytes => bytes
  | _ => []

/-- All bytes the port took, in order. -/
def accepted (trace : List (LinkEvent κ)) : List UInt8 := trace.flatMap LinkEvent.bytes

@[simp] theorem portRecord_append (trace : List (LinkEvent κ)) (e : LinkEvent κ) :
    portRecord (trace ++ [e]) = (portRecord trace).next e := by
  simp [portRecord]

/-- Every byte belongs to the frame that was in front. -/
theorem accepted_eq (trace : List (LinkEvent κ)) :
    accepted trace =
      ((portRecord trace).deliveries.map Delivery.bytes).flatten ++ (portRecord trace).current := by
  induction trace using List.reverseRecOn with
  | nil => rfl
  | append_singleton trace e ih =>
      have happend : accepted (trace ++ [e]) = accepted trace ++ e.bytes := by simp [accepted]
      rw [happend, ih, portRecord_append]
      cases e <;> simp [PortRecord.next, LinkEvent.bytes]

/-! ## Callbacks -/

/-- What a callback may do: queue a frame, change what the owner holds, register the channel. -/
inductive Reacts : Linked κ σ → Linked κ σ → Prop
  | queued (s : Linked κ σ) (type : UInt8) (payload : List UInt8) (tag : κ) (link : NodeLink κ)
      (hsend : s.link.send type payload tag = some link) : Reacts s { s with link := link }
  | owner (s : Linked κ σ) (owner : σ) : Reacts s { s with owner := owner }
  | armed (s : Linked κ σ) (out : Bool) : Reacts s (s.record (.armed out))

/-- The contract of `on_complete`: neither `flushOutput` nor `reopen` is entered again. -/
def LinkHooks.Obeys (hooks : LinkHooks κ σ) : Prop :=
  ∀ tag sent s, Relation.ReflTransGen Reacts s (hooks.onComplete tag sent s)

/-! ## What a link does -/

def Linked.setOutput (s : Linked κ σ) (output : List (PendingWrite κ)) : Linked κ σ :=
  { s with link := { s.link with output := output } }

/-- The moves of a link; the frames of `doomed` were taken off the queue by `discardOutput` and wait
for their callbacks. -/
inductive LinkMove : List (PendingWrite κ) × Linked κ σ → List (PendingWrite κ) × Linked κ σ → Prop
  | reacts (doomed : List (PendingWrite κ)) {s s' : Linked κ σ} (h : Reacts s s') :
      LinkMove (doomed, s) (doomed, s')
  | noted (s : Linked κ σ) (e : LinkEvent κ) (h : e = .interrupted ∨ e = .blocked) :
      LinkMove ([], s) ([], s.record e)
  | wrote (s : Linked κ σ) (p : PendingWrite κ) (rest : List (PendingWrite κ)) (n : Nat)
      (houtput : s.link.output = p :: rest) (hlt : p.offset + n < p.frame.length) :
      LinkMove ([], s) ([], (s.setOutput ({ p with offset := p.offset + n } :: rest)).record
        (.wrote ((p.frame.drop p.offset).take n)))
  | finished (s : Linked κ σ) (p : PendingWrite κ) (rest : List (PendingWrite κ)) (n : Nat)
      (houtput : s.link.output = p :: rest) (hall : p.offset + n = p.frame.length) :
      LinkMove ([], s) ([], ((s.setOutput rest).record
        (.wrote ((p.frame.drop p.offset).take n))).record (.completed p.tag true))
  | cancelled (s : Linked κ σ) (p : PendingWrite κ) (rest : List (PendingWrite κ))
      (houtput : s.link.output = p :: rest) (hoffset : p.offset = 0) :
      LinkMove ([], s) ([], (s.setOutput rest).record (.completed p.tag false))
  | failed (s : Linked κ σ) :
      LinkMove ([], s) (s.link.output, (s.setOutput []).record .failed)
  | dropped (p : PendingWrite κ) (rest : List (PendingWrite κ)) (s : Linked κ σ) :
      LinkMove (p :: rest, s) (rest, s.record (.completed p.tag false))

abbrev LinkMoves : List (PendingWrite κ) × Linked κ σ → List (PendingWrite κ) × Linked κ σ → Prop :=
  Relation.ReflTransGen LinkMove

section Moves

variable {hooks : LinkHooks κ σ} {s s' : Linked κ σ}

theorem moves_reaction (doomed : List (PendingWrite κ)) (h : Relation.ReflTransGen Reacts s s') :
    LinkMoves (doomed, s) (doomed, s') := by
  induction h with
  | refl => exact .refl
  | tail _ hstep ih => exact ih.tail (.reacts doomed hstep)

/-- The loop of `discardOutput`. -/
theorem moves_discard (hobeys : hooks.Obeys) (doomed : List (PendingWrite κ)) (s : Linked κ σ) :
    LinkMoves (doomed, s) ([], doomed.foldl (fun s pending =>
      hooks.onComplete pending.tag false (s.record (.completed pending.tag false))) s) := by
  induction doomed generalizing s with
  | nil => exact .refl
  | cons p rest ih =>
      have hdropped : LinkMoves (p :: rest, s) (rest, s.record (.completed p.tag false)) :=
        .single (.dropped p rest s)
      exact (hdropped.trans (moves_reaction rest (hobeys p.tag false _))).trans (ih _)

theorem moves_discardOutput (hobeys : hooks.Obeys) (s : Linked κ σ) :
    LinkMoves ([], s) ([], discardOutput hooks (s.record .failed)) :=
  .head (.failed s) (moves_discard hobeys s.link.output _)

theorem moves_writeFront (hobeys : hooks.Obeys) (turn : WriteResult) (s : Linked κ σ) :
    LinkMoves ([], s) ([], (writeFront hooks turn s).1) := by
  unfold writeFront
  cases houtput : s.link.output with
  | nil => exact .refl
  | cons p rest =>
      cases turn with
      | accepted n =>
          dsimp only
          split_ifs with hzero hall
          · exact moves_discardOutput hobeys s
          · -- the last byte of the frame
            refine .head (.finished s p rest _ houtput hall) ?_
            exact moves_reaction [] (hobeys p.tag true _)
          · exact .single (.wrote s p rest _ houtput (by omega))
      | interrupted => exact .single (.noted s .interrupted (.inl rfl))
      | wouldBlock => exact .single (.noted s .blocked (.inr rfl))
      | failed => exact moves_discardOutput hobeys s

theorem moves_flushTurn (hobeys : hooks.Obeys) (turn : WriteResult) (s : Linked κ σ) :
    LinkMoves ([], s) ([], (flushTurn hooks turn s).1) := by
  unfold flushTurn
  cases houtput : s.link.output with
  | nil => exact .refl
  | cons p rest =>
      dsimp only
      split_ifs with hzero hcancel
      · -- the predicate is asked before the first byte only
        refine .head (.reacts [] (.owner s (hooks.canSend p.tag s.owner).2)) ?_
        unfold completeFront
        rw [houtput]
        refine .head (.cancelled _ p rest houtput hzero) ?_
        exact moves_reaction [] (hobeys p.tag false _)
      · exact .head (.reacts [] (.owner s _)) (moves_writeFront hobeys turn _)
      · exact moves_writeFront hobeys turn s

theorem moves_flushOutput (hobeys : hooks.Obeys) (turns : List WriteResult) (s : Linked κ σ) :
    LinkMoves ([], s) ([], (flushOutput hooks turns s).1) := by
  induction turns generalizing s with
  | nil => exact .refl
  | cons turn turns ih =>
      have hturn := moves_flushTurn hobeys turn s
      unfold flushOutput
      generalize flushTurn hooks turn s = r at hturn
      obtain ⟨s', ending⟩ := r
      cases ending with
      | none => exact hturn.trans (ih s')
      | some e => exact hturn

end Moves

/-! ## The link between calls -/

/-- The calls of a link, and what its owner does between them. -/
inductive LinkStep (hooks : LinkHooks κ σ) : Linked κ σ → Linked κ σ → Prop
  | reacts {s s' : Linked κ σ} (h : Reacts s s') : LinkStep hooks s s'
  | flush (s : Linked κ σ) (turns : List WriteResult) :
      LinkStep hooks s (flushOutput hooks turns s).1

/-- The runs of a link, in which a call of `flushOutput` may be looked at before it returns. -/
abbrev LinkRun (hooks : LinkHooks κ σ) : Linked κ σ → Linked κ σ → Prop :=
  Relation.ReflTransGen (LinkStep hooks)

/-- A link on a new port. -/
def Linked.opened (owner : σ) : Linked κ σ := ⟨{}, owner⟩

theorem moves_run {hooks : LinkHooks κ σ} (hobeys : hooks.Obeys) {s s' : Linked κ σ}
    (h : LinkRun hooks s s') : LinkMoves ([], s) ([], s') := by
  induction h with
  | refl => exact .refl
  | tail _ hstep ih =>
      cases hstep with
      | reacts hreacts => exact ih.tail (.reacts [] hreacts)
      | flush turns => exact ih.trans (moves_flushOutput hobeys turns _)

/-! ## Invariant -/

def PendingWrite.entry (p : PendingWrite κ) : List UInt8 × κ := (p.frame, p.tag)

/-- A frame and what became of it. -/
structure Delivered (f : List UInt8 × κ) (d : Delivery κ) : Prop where
  tag : d.tag = f.2
  bytes : d.bytes <+: f.1
  sent : d.sent = true ↔ d.bytes = f.1
  started : d.bytes ≠ [] → d.sent = false → d.failed = true

/-- Of the frames that wait, the port took the prefix of the first one. -/
def Waits : List (PendingWrite κ) → List UInt8 → Prop
  | [], current => current = []
  | p :: rest, current =>
      current = p.frame.take p.offset ∧ p.offset < p.frame.length ∧ ∀ q ∈ rest, q.offset = 0

/-- What the record says while the frames of `waiting` have not been completed. -/
structure StreamInv (r : PortRecord κ) (waiting : List (PendingWrite κ)) : Prop where
  delivered : ∃ left, r.frames = left ++ waiting.map PendingWrite.entry ∧
    List.Forall₂ Delivered left r.deliveries
  encoded : ∀ f ∈ r.frames, f.1 ≠ [] ∧ ∃ type payload, f.1 = buildFrame type payload
  waits : Waits waiting r.current

theorem streamInv_opened : StreamInv (κ := κ) {} [] where
  delivered := ⟨[], rfl, .nil⟩
  encoded := fun _ h => by cases h
  waits := rfl

section Events

variable {r : PortRecord κ} {p : PendingWrite κ} {waiting rest : List (PendingWrite κ)}

theorem StreamInv.frame_ne_nil (h : StreamInv r waiting) (hp : p ∈ waiting) : p.frame ≠ [] := by
  obtain ⟨left, hframes, -⟩ := h.delivered
  refine (h.encoded p.entry ?_).1
  rw [hframes]
  exact List.mem_append_right left (List.mem_map_of_mem hp)

/-- The front frame is completed: what follows has not been started. -/
theorem StreamInv.completed (h : StreamInv r (p :: rest)) {current : List UInt8} {sent : Bool}
    (hdelivered : Delivered p.entry ⟨current, p.tag, sent, r.failed⟩)
    (hrest : ∀ q ∈ rest, q.offset = 0) :
    StreamInv ({ r with current := current }.next (.completed p.tag sent)) rest where
  delivered := by
    obtain ⟨left, hframes, hleft⟩ := h.delivered
    refine ⟨left ++ [p.entry], ?_, List.rel_append hleft (.cons hdelivered .nil)⟩
    rw [List.append_assoc]
    exact hframes
  encoded := h.encoded
  waits := by
    cases rest with
    | nil => rfl
    | cons q rest =>
        have hfront : q.offset = 0 := hrest q List.mem_cons_self
        have hne := h.frame_ne_nil (List.mem_cons_of_mem p List.mem_cons_self)
        refine ⟨?_, ?_, fun q' hq' => hrest q' (List.mem_cons_of_mem q hq')⟩
        · rw [hfront, List.take_zero]
          rfl
        · rw [hfront]
          exact List.length_pos_iff.mpr hne

/-- A frame that was not started is cancelled; one that was is dropped after a failed write. -/
theorem StreamInv.dropped (h : StreamInv r (p :: rest))
    (hstarted : p.offset ≠ 0 → r.failed = true) :
    StreamInv (r.next (.completed p.tag false)) rest := by
  obtain ⟨hcurrent, hlt, hrest⟩ := h.waits
  refine h.completed ⟨rfl, ?_, ?_, ?_⟩ hrest
  · exact hcurrent ▸ List.take_prefix p.offset p.frame
  · -- the port took less than the frame
    refine iff_of_false Bool.false_ne_true fun hall => ?_
    have hlength := congrArg List.length (hcurrent.symm.trans hall)
    change (p.frame.take p.offset).length = p.frame.length at hlength
    rw [List.length_take] at hlength
    omega
  · intro hne _
    refine hstarted fun hzero => hne ?_
    rw [hcurrent, hzero, List.take_zero]

/-- The rest of the front frame is taken. -/
theorem StreamInv.finished (h : StreamInv r (p :: rest)) {n : Nat}
    (hall : p.offset + n = p.frame.length) :
    StreamInv ((r.next (.wrote ((p.frame.drop p.offset).take n))).next (.completed p.tag true))
      rest := by
  obtain ⟨hcurrent, hlt, hrest⟩ := h.waits
  have hframe : r.current ++ (p.frame.drop p.offset).take n = p.frame := by
    rw [hcurrent, ← List.take_add, hall, List.take_length]
  refine h.completed ⟨rfl, ?_, ?_, ?_⟩ hrest
  · exact ⟨[], (List.append_nil _).trans hframe⟩
  · exact iff_of_true rfl hframe
  · intro _ hsent
    cases hsent

/-- A short write. -/
theorem StreamInv.wrote (h : StreamInv r (p :: rest)) {n : Nat}
    (hlt : p.offset + n < p.frame.length) :
    StreamInv (r.next (.wrote ((p.frame.drop p.offset).take n)))
      ({ p with offset := p.offset + n } :: rest) where
  delivered := h.delivered
  encoded := h.encoded
  waits := by
    obtain ⟨hcurrent, -, hrest⟩ := h.waits
    refine ⟨?_, hlt, hrest⟩
    show r.current ++ (p.frame.drop p.offset).take n = p.frame.take (p.offset + n)
    rw [hcurrent, List.take_add]

/-- A frame is queued behind the others. -/
theorem StreamInv.queued (h : StreamInv r waiting) {frame : List UInt8} (tag : κ)
    (hne : frame ≠ []) (hframe : ∃ type payload, frame = buildFrame type payload) :
    StreamInv (r.next (.queued frame tag)) (waiting ++ [⟨frame, 0, tag⟩]) where
  delivered := by
    obtain ⟨left, hframes, hleft⟩ := h.delivered
    refine ⟨left, ?_, hleft⟩
    show r.frames ++ [(frame, tag)] = _
    rw [hframes, List.map_append, List.append_assoc]
    rfl
  encoded := by
    intro f hf
    rcases List.mem_append.mp hf with hf | hf
    · exact h.encoded f hf
    · obtain rfl := List.mem_singleton.mp hf
      exact ⟨hne, hframe⟩
  waits := by
    have hwaits := h.waits
    cases waiting with
    | nil => exact ⟨hwaits, List.length_pos_iff.mpr hne, fun _ hq => by cases hq⟩
    | cons p rest =>
        obtain ⟨hcurrent, hlt, hrest⟩ := hwaits
        refine ⟨hcurrent, hlt, fun q hq => ?_⟩
        rcases List.mem_append.mp hq with hq | hq
        · exact hrest q hq
        · rw [List.mem_singleton.mp hq]

end Events

/-! ## Moves -/

/-- The record agrees with the queue while the frames of `doomed` wait for their callbacks; of
these only the first can have been started. -/
structure Linked.Streams (doomed : List (PendingWrite κ)) (s : Linked κ σ) : Prop where
  stream : StreamInv (portRecord s.link.trace) (doomed ++ s.link.output)
  failed : ∀ p ∈ doomed.head?, p.offset ≠ 0 → (portRecord s.link.trace).failed = true

variable {s s' : Linked κ σ} {doomed doomed' : List (PendingWrite κ)}

theorem streams_opened (owner : σ) : (Linked.opened (κ := κ) owner).Streams [] where
  stream := streamInv_opened
  failed := fun _ h => by cases h

theorem streams_reacts (h : Reacts s s') (hs : s.Streams doomed) : s'.Streams doomed := by
  cases h with
  | queued type payload tag link hsend =>
      obtain ⟨hne, houtput, htrace⟩ := NodeLink.send_eq_some hsend
      have hqueued := hs.stream.queued tag hne ⟨type, payload, rfl⟩
      rw [List.append_assoc, ← portRecord_append, ← htrace, ← houtput] at hqueued
      refine ⟨hqueued, fun p hp hoffset => ?_⟩
      show (portRecord link.trace).failed = true
      rw [htrace, portRecord_append]
      exact hs.failed p hp hoffset
  | owner => exact ⟨hs.stream, hs.failed⟩
  | armed out =>
      have hrecord : portRecord (s.record (.armed out)).link.trace = portRecord s.link.trace :=
        portRecord_append s.link.trace _
      exact ⟨hrecord ▸ hs.stream, hrecord ▸ hs.failed⟩

theorem streams_move (h : LinkMove (doomed, s) (doomed', s')) (hs : s.Streams doomed) :
    s'.Streams doomed' := by
  have hrecord : ∀ (u : Linked κ σ) (e : LinkEvent κ), portRecord (u.record e).link.trace =
      (portRecord u.link.trace).next e := fun u e => portRecord_append u.link.trace e
  have hdone : ∀ {u : Linked κ σ}, StreamInv (portRecord u.link.trace) u.link.output →
      u.Streams [] := fun h => ⟨h, fun _ hp => by cases hp⟩
  cases h with
  | reacts _ h => exact streams_reacts h hs
  | noted _ e he =>
      apply hdone
      rw [hrecord]
      rcases he with rfl | rfl
      · exact hs.stream
      · exact hs.stream
  | wrote _ p rest n houtput hlt =>
      apply hdone
      rw [hrecord]
      have hfront : StreamInv (portRecord s.link.trace) (p :: rest) := houtput ▸ hs.stream
      exact hfront.wrote hlt
  | finished _ p rest n houtput hall =>
      apply hdone
      rw [hrecord, hrecord]
      have hfront : StreamInv (portRecord s.link.trace) (p :: rest) := houtput ▸ hs.stream
      exact hfront.finished hall
  | cancelled _ p rest houtput hoffset =>
      apply hdone
      rw [hrecord]
      have hfront : StreamInv (portRecord s.link.trace) (p :: rest) := houtput ▸ hs.stream
      exact hfront.dropped fun h => absurd hoffset h
  | failed =>
      refine ⟨?_, fun _ _ _ => by rw [hrecord]; rfl⟩
      rw [hrecord]
      show StreamInv _ (s.link.output ++ [])
      rw [List.append_nil]
      exact ⟨hs.stream.delivered, hs.stream.encoded, hs.stream.waits⟩
  | dropped p rest =>
      constructor
      · rw [hrecord]
        exact hs.stream.dropped (hs.failed p rfl)
      · intro q hq hoffset
        have hrest := hs.stream.waits.2.2 q (List.mem_append_left _ (List.mem_of_mem_head? hq))
        exact absurd hrest hoffset

theorem streams_moves {x y : List (PendingWrite κ) × Linked κ σ} (h : LinkMoves x y)
    (hx : x.2.Streams x.1) : y.2.Streams y.1 := by
  induction h with
  | refl => exact hx
  | tail _ hstep ih => exact streams_move hstep ih

/-! ## The stream -/

/-- **Whole frames in the order they were queued.** In every run the bytes taken are those of the
frames that left, in order, and a prefix of the front frame. Every frame that left was completed
once, in order, and successfully if and only if all its bytes were taken before; one that was
started is not cancelled: if it was not finished, a write failed for good while it was in front. -/
theorem serial_output_stream {hooks : LinkHooks κ σ} (hobeys : hooks.Obeys) {owner : σ}
    {s : Linked κ σ} (hrun : LinkRun hooks (.opened owner) s) :
    let r := portRecord s.link.trace
    accepted s.link.trace = (r.deliveries.map Delivery.bytes).flatten ++ r.current ∧
      (∀ f ∈ r.frames, f.1 ≠ [] ∧ ∃ type payload, f.1 = buildFrame type payload) ∧
      (∃ left, r.frames = left ++ s.link.output.map PendingWrite.entry ∧
        List.Forall₂ Delivered left r.deliveries) ∧
      Waits s.link.output r.current := by
  have hs : s.Streams [] := streams_moves (moves_run hobeys hrun) (streams_opened owner)
  exact ⟨accepted_eq _, hs.stream.encoded, hs.stream.delivered, hs.stream.waits⟩

/-- A frame that was not sent is queued again under the next number, twice at most. -/
def resending : LinkHooks Nat Unit where
  canSend tag owner := (tag < 2, owner)
  onComplete tag sent s :=
    if sent then s
    else
      match s.link.send EDGE_TYPE_SR_OPEN [] (tag + 1) with
      | none => s
      | some link => { s with link := link }

theorem resending_obeys : resending.Obeys := by
  intro tag sent s
  show Relation.ReflTransGen Reacts s (if sent = true then s else _)
  split_ifs
  · exact .refl
  · cases hsend : s.link.send EDGE_TYPE_SR_OPEN [] (tag + 1) with
    | none => exact .refl
    | some link => exact .single (.queued s _ _ _ link hsend)

theorem serial_output_stream_resent :
    let frame := buildFrame EDGE_TYPE_SR_OPEN []
    let queued : Linked Nat Unit :=
      ⟨⟨[⟨frame, 0, 0⟩], [.queued frame 0]⟩, ()⟩
    let s := (flushOutput resending [.accepted 2, .failed] queued).1
    LinkRun resending (.opened ()) s ∧ s.link.output.map PendingWrite.tag = [1] ∧
      accepted s.link.trace =
        ((portRecord s.link.trace).deliveries.map Delivery.bytes).flatten ++
          (portRecord s.link.trace).current := by
  intro frame queued s
  have hqueued : LinkStep resending (.opened ()) queued :=
    .reacts (.queued _ EDGE_TYPE_SR_OPEN [] 0 _ rfl)
  have hrun : LinkRun resending (.opened ()) s :=
    (Relation.ReflTransGen.single hqueued).tail (.flush queued [.accepted 2, .failed])
  exact ⟨hrun, by decide, (serial_output_stream resending_obeys hrun).1⟩

/-! ## Without failures -/

/-- No write has failed for good. -/
theorem portRecord_whole {trace : List (LinkEvent κ)} (h : .failed ∉ trace) :
    (portRecord trace).failed = false ∧ ∀ d ∈ (portRecord trace).deliveries, d.failed = false := by
  induction trace using List.reverseRecOn with
  | nil => exact ⟨rfl, fun _ hd => by cases hd⟩
  | append_singleton trace e ih =>
      rw [List.mem_append, not_or] at h
      obtain ⟨hfailed, hdeliveries⟩ := ih h.1
      rw [portRecord_append]
      cases e with
      | failed => exact absurd (List.mem_singleton.mpr rfl) h.2
      | completed tag sent =>
          refine ⟨rfl, fun d hd => ?_⟩
          rcases List.mem_append.mp hd with hd | hd
          · exact hdeliveries d hd
          · rw [List.mem_singleton.mp hd]
            exact hfailed
      | _ => exact ⟨hfailed, hdeliveries⟩

theorem mem_frames {trace : List (LinkEvent κ)} {f : List UInt8 × κ} :
    f ∈ (portRecord trace).frames ↔ .queued f.1 f.2 ∈ trace := by
  induction trace using List.reverseRecOn with
  | nil => simp [portRecord]
  | append_singleton trace e ih =>
      rw [portRecord_append, List.mem_append, ← ih]
      cases e <;> simp [PortRecord.next, Prod.ext_iff]

/-- Frames that left without a failure: each was taken as a whole or not at all. -/
theorem deliveries_whole {left : List (List UInt8 × κ)} {deliveries : List (Delivery κ)}
    (h : List.Forall₂ Delivered left deliveries) (hwhole : ∀ d ∈ deliveries, d.failed = false) :
    ∃ kept : List (List UInt8 × κ), kept.Sublist left ∧
      (deliveries.map Delivery.bytes).flatten = (kept.map Prod.fst).flatten := by
  induction h with
  | nil => exact ⟨[], .slnil, rfl⟩
  | @cons f d left deliveries hd _ ih =>
      obtain ⟨kept, hsub, hbytes⟩ := ih fun d' hd' => hwhole d' (List.mem_cons_of_mem d hd')
      cases hsent : d.sent with
      | true =>
          refine ⟨f :: kept, hsub.cons_cons f, ?_⟩
          rw [List.map_cons, List.flatten_cons, hd.sent.mp hsent, hbytes]
          rfl
      | false =>
          -- one that was started and not sent would have met a failure
          have hnone : d.bytes = [] := by
            by_contra hne
            have hfailed := hd.started hne hsent
            rw [hwhole d List.mem_cons_self] at hfailed
            cases hfailed
          refine ⟨kept, hsub.cons f, ?_⟩
          rw [List.map_cons, List.flatten_cons, hnone, hbytes]
          rfl

/-- **Where no write fails for good the port takes whole frames**, and a part of the one in
front. -/
theorem accepted_whole {s : Linked κ σ} (hs : s.Streams []) (hwhole : .failed ∉ s.link.trace) :
    ∃ kept : List (List UInt8 × κ), (∀ f ∈ kept, f ∈ (portRecord s.link.trace).frames) ∧
      accepted s.link.trace <+: (kept.map Prod.fst).flatten := by
  obtain ⟨left, hframes, hleft⟩ := hs.stream.delivered
  obtain ⟨-, hdeliveries⟩ := portRecord_whole hwhole
  obtain ⟨kept, hsub, hbytes⟩ := deliveries_whole hleft hdeliveries
  have hkept : ∀ f ∈ kept, f ∈ (portRecord s.link.trace).frames := fun f hf => by
    rw [hframes]
    exact List.mem_append_left _ (hsub.subset hf)
  have hwaits := hs.stream.waits
  rw [List.nil_append] at hwaits hframes
  rw [accepted_eq, hbytes]
  cases houtput : s.link.output with
  | nil =>
      rw [houtput] at hwaits
      refine ⟨kept, hkept, ?_⟩
      rw [show (portRecord s.link.trace).current = [] from hwaits, List.append_nil]
  | cons p rest =>
      rw [houtput] at hwaits
      refine ⟨kept ++ [p.entry], fun f hf => ?_, ?_⟩
      · rcases List.mem_append.mp hf with hf | hf
        · exact hkept f hf
        · rw [hframes, List.mem_singleton.mp hf, houtput]
          simp
      · rw [List.map_append, List.flatten_append, hwaits.1]
        refine (List.prefix_append_right_inj _).mpr ?_
        show p.frame.take p.offset <+: p.frame ++ []
        rw [List.append_nil]
        exact List.take_prefix _ _

end EdgeGateway
