import EdgeGateway.Protocol.FrameStream
import EdgeGateway.Basic.Steps

set_option autoImplicit false

/-! # The serial link's input

The receiving half of `NodeLink`: the loop that drains the descriptor, and `reopen`. What each read
returns is an input. The descriptor is edge-triggered: it reports new bytes and the registration of
a port where bytes wait, once each. No frame has bytes of two ports, and nothing is left unread
while no report is due.
-/

namespace EdgeGateway

/-! ## Data -/

/-- The outcome of one non-blocking `read`; `failed` is an error other than `EINTR` and `EAGAIN`. -/
inductive ReadResult
  | data (bytes : List UInt8)
  | interrupted
  | wouldBlock
  | eof
  | failed
  deriving DecidableEq

/-- How `drainAndParse` ends; `unfinished` when it is looked at before it returns. -/
inductive DrainEnd
  | drained
  | eof
  | failed
  | unfinished
  deriving DecidableEq

/-- The size of the buffer. -/
def kReadBuffer : Nat := 256

/-! ## Operations -/

/-- `turns` has an entry for each turn of the loop. -/
def drainAndParse : List ReadResult → EdgeParser → EdgeParser × List Frame × DrainEnd
  | [], p => (p, [], .unfinished)
  | .data bytes :: turns, p =>
      let (p, fs) := edgeParserFeedBytes p bytes
      let (p, gs, ending) := drainAndParse turns p
      (p, fs ++ gs, ending)
  | .interrupted :: turns, p => drainAndParse turns p
  | .wouldBlock :: _, p => (p, [], .drained)
  | .eof :: _, p => (p, [], .eof)
  | .failed :: _, p => (p, [], .failed)

/-- The bytes that the turns read. -/
def readBytes : List ReadResult → List UInt8
  | .data bytes :: turns => bytes ++ readBytes turns
  | .interrupted :: turns => readBytes turns
  | _ => []

def drainEnd : List ReadResult → DrainEnd
  | .data _ :: turns => drainEnd turns
  | .interrupted :: turns => drainEnd turns
  | .wouldBlock :: _ => .drained
  | .eof :: _ => .eof
  | .failed :: _ => .failed
  | [] => .unfinished

/-- How the bytes come in pieces does not matter. -/
theorem drainAndParse_eq (turns : List ReadResult) : ∀ p : EdgeParser,
    drainAndParse turns p = ((edgeParserFeedBytes p (readBytes turns)).1,
      (edgeParserFeedBytes p (readBytes turns)).2, drainEnd turns) := by
  induction turns with
  | nil => exact fun _ => rfl
  | cons turn turns ih =>
      intro p
      cases turn with
      | data bytes =>
          simp only [drainAndParse, readBytes, drainEnd, ih]
          rw [edgeParserFeedBytes_append]
      | interrupted => exact ih p
      | wouldBlock => rfl
      | eof => rfl
      | failed => rfl

/-- What a descriptor with these unread bytes can answer, and what is unread then. -/
inductive PortReads : List UInt8 → List ReadResult → List UInt8 → Prop
  | data {bytes rest left : List UInt8} {turns : List ReadResult} (hne : bytes ≠ [])
      (hsize : bytes.length ≤ kReadBuffer) (h : PortReads rest turns left) :
      PortReads (bytes ++ rest) (.data bytes :: turns) left
  | interrupted {unread left : List UInt8} {turns : List ReadResult}
      (h : PortReads unread turns left) : PortReads unread (.interrupted :: turns) left
  | wouldBlock : PortReads [] [.wouldBlock] []
  | eof (unread : List UInt8) : PortReads unread [.eof] unread
  | failed (unread : List UInt8) : PortReads unread [.failed] unread

theorem PortReads.read {unread left : List UInt8} {turns : List ReadResult}
    (h : PortReads unread turns left) :
    unread = readBytes turns ++ left ∧ (drainEnd turns = .drained → left = []) ∧
      drainEnd turns ≠ .unfinished := by
  induction h with
  | @data bytes rest left turns _ _ _ ih =>
      obtain ⟨hread, hend⟩ := ih
      refine ⟨?_, hend⟩
      rw [hread, ← List.append_assoc]
      rfl
  | interrupted _ ih => exact ih
  | wouldBlock => exact ⟨rfl, fun _ => rfl, by decide⟩
  | eof unread => exact ⟨rfl, fun h => (by cases h), by decide⟩
  | failed unread => exact ⟨rfl, fun h => (by cases h), by decide⟩

/-- Bytes that fit into the buffer can be read at once. -/
theorem PortReads.once {bytes : List UInt8} (hne : bytes ≠ []) (hsize : bytes.length ≤ kReadBuffer) :
    PortReads bytes [.data bytes, .wouldBlock] [] := by
  have hdata : PortReads (bytes ++ []) [.data bytes, .wouldBlock] [] := .data hne hsize .wouldBlock
  rwa [List.append_nil] at hdata

/-! ## The link with its ports -/

/-- `unread` waits at the current port, and a report of it is due when `reported` says so; `stalled`
says that the last drain gave up. The last three fields record what was read: from the ports before,
from the current port, and the frames that were handed on. -/
structure SerialInput where
  parser : EdgeParser
  unread : List UInt8 := []
  reported : Bool := false
  stalled : Bool := false
  past : List (List UInt8) := []
  read : List UInt8 := []
  heard : List Frame := []

namespace SerialInput

def init (memory : EdgeParser) (waiting : List UInt8) : SerialInput where
  parser := edgeParserInit memory true
  unread := waiting
  reported := waiting.isEmpty = false

/-- New bytes are reported. -/
def arrive (s : SerialInput) (bytes : List UInt8) : SerialInput :=
  if bytes = [] then s
  else { s with unread := s.unread ++ bytes, reported := true }

def drain (s : SerialInput) (turns : List ReadResult) (left : List UInt8) : SerialInput :=
  let (parser, frames, ending) := drainAndParse turns s.parser
  { s with
    parser := parser
    unread := left
    reported := false
    stalled := ending ≠ .drained
    read := s.read ++ readBytes turns
    heard := s.heard ++ frames }

/-- The new port is there: `resetStream`, and the port is registered. -/
def reopen (s : SerialInput) (waiting : List UInt8) : SerialInput :=
  { s with
    parser := edgeParserReset s.parser
    unread := waiting
    reported := waiting.isEmpty = false
    stalled := false
    past := s.past ++ [s.read]
    read := [] }

/-- The new port could not be opened: the old one is registered again. -/
def reopenFails (s : SerialInput) : SerialInput :=
  { s with reported := s.unread.isEmpty = false }

inductive Step : SerialInput → SerialInput → Prop
  | arrive (s : SerialInput) (bytes : List UInt8) : Step s (s.arrive bytes)
  | drain (s : SerialInput) {turns : List ReadResult} {left : List UInt8}
      (hreported : s.reported = true) (h : PortReads s.unread turns left) :
      Step s (s.drain turns left)
  | reopen (s : SerialInput) (waiting : List UInt8) : Step s (s.reopen waiting)
  | reopenFails (s : SerialInput) : Step s s.reopenFails

abbrev Run : SerialInput → SerialInput → Prop := Relation.ReflTransGen Step

/-! ## Invariant -/

/-- The parser against what was read from the current port, and the reports against what is
unread. -/
structure Inv (s : SerialInput) : Prop where
  onFrame : s.parser.onFrame = true
  current : ∃ before, s.heard = s.past.flatMap (framesIn 0) ++ before ∧
    ∃ fresh, Reading fresh [] ∧ fresh.onFrame = true ∧
      edgeParserFeedBytes fresh s.read = (s.parser, before)
  counted : s.parser.stats.framesOk = s.heard.length.toUInt32
  due : s.unread ≠ [] → s.reported = true ∨ s.stalled = true

variable {s s' : SerialInput}

theorem init_inv (memory : EdgeParser) (waiting : List UInt8) : (init memory waiting).Inv where
  onFrame := rfl
  current := ⟨[], rfl, edgeParserInit memory true, reading_init memory true, rfl, rfl⟩
  counted := rfl
  due := fun hne => .inl (by simpa [init] using hne)

theorem framesOk_feedBytes (bytes : List UInt8) : ∀ {p : EdgeParser}, p.onFrame = true →
    (edgeParserFeedBytes p bytes).1.stats.framesOk =
      p.stats.framesOk + (edgeParserFeedBytes p bytes).2.length.toUInt32 := by
  induction bytes with
  | nil => exact fun _ => by simp [edgeParserFeedBytes]
  | cons b rest ih =>
      intro p hon
      have hrest := ih ((onFrame_feed p b).trans hon)
      simp only [edgeParserFeedBytes]
      rw [hrest, framesOk_feed hon, List.length_append, UInt32.add_assoc]
      simp

theorem Inv.step (hs : s.Inv) (h : Step s s') : s'.Inv := by
  obtain ⟨before, hheard, fresh, hfresh, hon, hfeed⟩ := hs.current
  cases h with
  | arrive bytes =>
      unfold arrive
      split_ifs
      · exact hs
      · exact ⟨hs.onFrame, ⟨before, hheard, fresh, hfresh, hon, hfeed⟩, hs.counted,
          fun _ => .inl rfl⟩
  | @drain turns left hreported hreads =>
      obtain ⟨hunread, hleft, -⟩ := hreads.read
      have heq := drainAndParse_eq turns s.parser
      unfold drain
      rw [heq]
      dsimp only
      refine ⟨(onFrame_feedBytes s.parser _).trans hs.onFrame, ?_, ?_, ?_⟩
      · refine ⟨before ++ (edgeParserFeedBytes s.parser (readBytes turns)).2, ?_, fresh, hfresh,
          hon, ?_⟩
        · show s.heard ++ _ = _
          rw [hheard, List.append_assoc]
        · rw [edgeParserFeedBytes_append, hfeed]
      · show (edgeParserFeedBytes s.parser (readBytes turns)).1.stats.framesOk =
          (s.heard ++ _).length.toUInt32
        rw [framesOk_feedBytes _ hs.onFrame, hs.counted, List.length_append]
        simp
      · intro hne
        exact .inr (decide_eq_true fun hdrained => hne (hleft hdrained))
  | reopen waiting =>
      refine ⟨hs.onFrame, ⟨[], ?_, edgeParserReset s.parser, rfl, hs.onFrame, rfl⟩, hs.counted, ?_⟩
      · -- what the old port had begun is dropped with the parser's progress
        have hframes := (feed_scan hfresh hon s.read).1
        rw [hfeed] at hframes
        have hbefore : before = framesIn 0 s.read := hframes
        show s.heard = (s.past ++ [s.read]).flatMap (framesIn 0) ++ []
        rw [hheard, hbefore]
        simp
      · exact fun hne => .inl (by simpa [reopen] using hne)
  | reopenFails =>
      refine ⟨hs.onFrame, ⟨before, hheard, fresh, hfresh, hon, hfeed⟩, hs.counted, ?_⟩
      exact fun hne => .inl (by simpa [reopenFails] using hne)

theorem inv_run {memory : EdgeParser} {waiting : List UInt8} (h : Run (init memory waiting) s) :
    s.Inv := by
  induction h with
  | refl => exact init_inv memory waiting
  | tail _ hstep ih => exact ih.step hstep

end SerialInput

end EdgeGateway
