import EdgeGateway.Protocol.FrameSound

set_option autoImplicit false

/-! # Where the parser writes and what it counts

The fields `len`, `received` and `payload` keep what abandoned frames left in them; each state
says which of them may be relied on (`WatchedParser.Ok`). A ghost beside the parser remembers the
writes to `payload` since the last TYPE byte, so that a delivered payload can be compared with
them. Resets may come between any two bytes, and the callback may be missing.
-/

namespace EdgeGateway

/-! ## Runs with resets -/

/-- What reaches the parser; a buffer is its bytes one after the other. -/
inductive ParserEvent
  | byte (b : UInt8)
  | reset

/-- The write to `payload` that the call of `edge_parser_feed` makes, if any. -/
def payloadWrites (p : EdgeParser) (b : UInt8) : List (Nat × UInt8) :=
  if p.state = .readPayload then [(p.received.toNat, b)] else []

/-- The parser, with the indices and bytes written to `payload` since the last TYPE byte. -/
structure WatchedParser where
  parser : EdgeParser
  written : List (Nat × UInt8)

namespace WatchedParser

def feed (w : WatchedParser) (b : UInt8) : WatchedParser where
  parser := (edgeParserFeed w.parser b).1
  written := if w.parser.state = .waitType then [] else w.written ++ payloadWrites w.parser b

def step (w : WatchedParser) : ParserEvent → WatchedParser
  | .byte b => w.feed b
  | .reset => { w with parser := edgeParserReset w.parser }

def run (w : WatchedParser) (events : List ParserEvent) : WatchedParser := events.foldl step w

/-- `edge_parser_feed_buf` is covered: it feeds its bytes. -/
theorem run_bytes (w : WatchedParser) (bytes : List UInt8) :
    (w.run (bytes.map .byte)).parser = (edgeParserFeedBytes w.parser bytes).1 := by
  induction bytes generalizing w with
  | nil => rfl
  | cons b rest ih => exact ih (w.feed b)

end WatchedParser

/-- The ghost misses no write: `payload` changes by `payloadWrites` and nothing else. -/
theorem payload_feed (p : EdgeParser) (b : UInt8) :
    (edgeParserFeed p b).1.payload
      = (payloadWrites p b).foldl (fun a write => a.setIfInBounds write.1 write.2) p.payload := by
  unfold payloadWrites
  cases hst : p.state with
  | waitHdr0 => simp only [edgeParserFeed, hst]; split <;> rfl
  | waitHdr1 => simp only [edgeParserFeed, hst]; split <;> [rfl; (split <;> rfl)]
  | waitLen => simp only [edgeParserFeed, hst]; split <;> rfl
  | waitType => simp only [edgeParserFeed, hst]; rfl
  | readPayload => rw [feed_readPayload hst]; rfl
  | waitCrcLo => simp only [edgeParserFeed, hst]; rfl
  | waitCrcHi =>
      simp only [edgeParserFeed, hst, edgeParserDeliver, apply_ite Prod.fst,
        apply_ite EdgeParser.payload]
      exact ite_self _
  | deliver => simp only [edgeParserFeed, hst]; rfl

/-! ## What each state may rely on -/

/-- The bytes counted by `received` were written since the TYPE byte, from index `0` on. -/
structure WatchedParser.Filled (w : WatchedParser) : Prop where
  len_ok : LenOk w.parser.len
  indices : w.written.map Prod.fst = List.range w.parser.received.toNat
  bytes : w.written.map Prod.snd = w.parser.payload.toList.take w.parser.received.toNat

def WatchedParser.Ok (w : WatchedParser) : Prop :=
  match w.parser.state with
  | .waitHdr0 | .waitHdr1 | .waitLen => True
  | .waitType => LenOk w.parser.len
  | .readPayload => w.Filled ∧ w.parser.received.toNat < w.parser.len.toNat - 1
  | .waitCrcLo | .waitCrcHi => w.Filled ∧ w.parser.received.toNat = w.parser.len.toNat - 1
  | .deliver => False

theorem toNat_pred {len : UInt8} (h : LenOk len) : (len - 1).toNat = len.toNat - 1 := by
  rw [UInt8.toNat_sub_of_le _ _ (by rw [UInt8.le_iff_toNat_le]; exact h.1)]
  rfl

/-- One payload byte: it lands behind the others. -/
theorem WatchedParser.Filled.push {w : WatchedParser} (h : w.Filled)
    (hlt : w.parser.received.toNat < w.parser.len.toNat - 1) (b : UInt8) (st : EdgeState) :
    Filled ⟨w.parser.push b st, w.written ++ [(w.parser.received.toNat, b)]⟩ ∧
      (w.parser.received + 1).toNat = w.parser.received.toNat + 1 := by
  obtain ⟨hlen, hindices, hbytes⟩ := h
  have hle := hlen.2
  have hnext : (w.parser.received + 1).toNat = w.parser.received.toNat + 1 := by
    rw [UInt8.toNat_add]
    show (w.parser.received.toNat + 1) % 256 = _
    omega
  have hbuf : w.parser.received.toNat < w.parser.payload.toList.length := by
    rw [Vector.length_toList]
    show _ < 63
    omega
  refine ⟨⟨hlen, ?_, ?_⟩, hnext⟩
  · show (w.written ++ [(w.parser.received.toNat, b)]).map Prod.fst
      = List.range (w.parser.received + 1).toNat
    rw [hnext, List.map_append, hindices, List.range_succ]
    rfl
  · show (w.written ++ [(w.parser.received.toNat, b)]).map Prod.snd
      = (w.parser.payload.setIfInBounds w.parser.received.toNat b).toList.take
          (w.parser.received + 1).toNat
    rw [hnext, Vector.toList_setIfInBounds, take_set_succ _ _ _ hbuf, List.map_append, hbytes]
    rfl

/-- The TYPE byte opens a new payload; an empty one is already complete. -/
theorem WatchedParser.ok_type {w : WatchedParser} (hst : w.parser.state = .waitType)
    (hlen : LenOk w.parser.len) (b : UInt8) : (w.feed b).Ok := by
  have hwritten : (w.feed b).written = [] := by rw [feed, if_pos hst]
  have hparser : (w.feed b).parser =
      { w.parser with
        type := b
        crc := edgeCrc16Update w.parser.crc b
        received := 0
        state := if w.parser.len = EDGE_LEN_MIN then .waitCrcLo else .readPayload } := by
    simp only [feed, edgeParserFeed, hst]
  have hfilled : (w.feed b).Filled := by
    refine ⟨?_, ?_, ?_⟩
    · rw [hparser]
      exact hlen
    · rw [hwritten, hparser]
      rfl
    · rw [hwritten, hparser]
      rfl
  have hpos := hlen.1
  by_cases hmin : w.parser.len = EDGE_LEN_MIN
  · have hstate : (w.feed b).parser.state = .waitCrcLo := by rw [hparser]; exact if_pos hmin
    rw [Ok, hstate]
    refine ⟨hfilled, ?_⟩
    rw [hparser]
    show 0 = w.parser.len.toNat - 1
    rw [hmin]
    rfl
  · have hstate : (w.feed b).parser.state = .readPayload := by rw [hparser]; exact if_neg hmin
    have hne : w.parser.len.toNat ≠ 1 := fun h => hmin (UInt8.toNat_inj.mp h)
    rw [Ok, hstate]
    refine ⟨hfilled, ?_⟩
    rw [hparser]
    show 0 < w.parser.len.toNat - 1
    omega

theorem WatchedParser.ok_payload {w : WatchedParser} (hst : w.parser.state = .readPayload)
    (h : w.Filled) (hlt : w.parser.received.toNat < w.parser.len.toNat - 1) (b : UInt8) :
    (w.feed b).Ok := by
  have hfeed : w.feed b = ⟨w.parser.push b
      (if w.parser.received + 1 ≥ w.parser.len - 1 then .waitCrcLo else .readPayload),
      w.written ++ [(w.parser.received.toNat, b)]⟩ := by
    have hne : w.parser.state ≠ .waitType := by
      rw [hst]
      decide
    rw [feed, if_neg hne, feed_readPayload hst, payloadWrites, if_pos hst]
  obtain ⟨hfilled, hnext⟩ := h.push hlt b
    (if w.parser.received + 1 ≥ w.parser.len - 1 then .waitCrcLo else .readPayload)
  rw [hfeed, Ok]
  have hlast : w.parser.received + 1 ≥ w.parser.len - 1
      ↔ w.parser.received.toNat + 1 = w.parser.len.toNat - 1 := by
    rw [ge_iff_le, UInt8.le_iff_toNat_le, toNat_pred h.len_ok, hnext]
    omega
  by_cases hfull : w.parser.received + 1 ≥ w.parser.len - 1
  · rw [if_pos hfull] at hfilled ⊢
    refine ⟨hfilled, ?_⟩
    show (w.parser.received + 1).toNat = w.parser.len.toNat - 1
    rw [hnext]
    exact hlast.mp hfull
  · rw [if_neg hfull] at hfilled ⊢
    refine ⟨hfilled, ?_⟩
    have hmore := mt hlast.mpr hfull
    show (w.parser.received + 1).toNat < w.parser.len.toNat - 1
    omega

/-- **One byte** in any state leads to a state that may rely on its fields. -/
theorem WatchedParser.ok_feed {w : WatchedParser} (h : w.Ok) (b : UInt8) : (w.feed b).Ok := by
  unfold Ok at h
  cases hst : w.parser.state with
  | waitHdr0 =>
      have hstate : (w.feed b).parser.state = .waitHdr1 ∨ (w.feed b).parser.state = .waitHdr0 := by
        simp only [feed, edgeParserFeed, hst]
        split <;> simp [hst]
      rcases hstate with hstate | hstate <;> rw [Ok, hstate] <;> trivial
  | waitHdr1 =>
      have hstate : (w.feed b).parser.state = .waitLen ∨ (w.feed b).parser.state = .waitHdr1 ∨
          (w.feed b).parser.state = .waitHdr0 := by
        simp only [feed, edgeParserFeed, hst]
        split <;> [simp; (split <;> simp [hst])]
      rcases hstate with hstate | hstate | hstate <;> rw [Ok, hstate] <;> trivial
  | waitLen =>
      by_cases hrange : b < EDGE_LEN_MIN ∨ EDGE_LEN_MAX < b
      · have hstate : (w.feed b).parser.state = .waitHdr0 := by
          simp only [feed, edgeParserFeed, hst, if_pos hrange]
          rfl
        rw [Ok, hstate]
        trivial
      · have hparser : (w.feed b).parser.state = .waitType ∧ (w.feed b).parser.len = b := by
          simp [feed, edgeParserFeed, hst, hrange]
        rw [Ok, hparser.1]
        show LenOk (w.feed b).parser.len
        rw [hparser.2, LenOk]
        rw [not_or, UInt8.lt_iff_toNat_lt, UInt8.lt_iff_toNat_lt] at hrange
        exact ⟨Nat.not_lt.mp hrange.1, Nat.not_lt.mp hrange.2⟩
  | waitType =>
      rw [hst] at h
      exact ok_type hst h b
  | readPayload =>
      rw [hst] at h
      exact ok_payload hst h.1 h.2 b
  | waitCrcLo =>
      rw [hst] at h
      obtain ⟨⟨hlen, hindices, hbytes⟩, hfull⟩ := h
      have hfeed : w.feed b
          = ⟨{ w.parser with crcLo := b, state := .waitCrcHi }, w.written⟩ := by
        simp [feed, edgeParserFeed, hst, payloadWrites]
      rw [hfeed]
      exact ⟨⟨hlen, hindices, hbytes⟩, hfull⟩
  | waitCrcHi =>
      have hstate : (w.feed b).parser.state = .waitHdr0 := by
        simp only [feed, edgeParserFeed, hst, edgeParserDeliver, apply_ite Prod.fst,
          apply_ite EdgeParser.state]
        exact ite_self _
      rw [Ok, hstate]
      trivial
  | deliver => simp only [hst] at h

/-! ## The counters -/

/-- Every resynchronisation was counted with its cause. -/
def EdgeParserStats.Accounted (stats : EdgeParserStats) : Prop :=
  stats.resync = stats.lenErr + stats.crcErr

theorem accounted_feed {p : EdgeParser} (hst : p.state ≠ .deliver) (h : p.stats.Accounted)
    (b : UInt8) : (edgeParserFeed p b).1.stats.Accounted := by
  unfold EdgeParserStats.Accounted at h ⊢
  cases hp : p.state with
  | waitHdr0 => simp only [edgeParserFeed, hp]; split <;> exact h
  | waitHdr1 => simp only [edgeParserFeed, hp]; split <;> [exact h; (split <;> exact h)]
  | waitLen =>
      simp only [edgeParserFeed, hp]
      split
      · calc p.stats.resync + 1
            = p.stats.lenErr + p.stats.crcErr + 1 := by rw [h]
          _ = p.stats.lenErr + 1 + p.stats.crcErr := by
            rw [UInt32.add_assoc, UInt32.add_comm p.stats.crcErr, ← UInt32.add_assoc]
      · exact h
  | waitType => simp only [edgeParserFeed, hp]; exact h
  | readPayload => rw [feed_readPayload hp]; exact h
  | waitCrcLo => simp only [edgeParserFeed, hp]; exact h
  | waitCrcHi =>
      simp only [edgeParserFeed, hp, edgeParserDeliver]
      split
      · exact h
      · calc p.stats.resync + 1
            = p.stats.lenErr + p.stats.crcErr + 1 := by rw [h]
          _ = p.stats.lenErr + (p.stats.crcErr + 1) := UInt32.add_assoc _ _ _
  | deliver => exact absurd hp hst

/-! ## Runs -/

theorem WatchedParser.Ok.not_deliver {w : WatchedParser} (h : w.Ok) :
    w.parser.state ≠ .deliver := by
  intro hst
  rw [Ok, hst] at h
  exact h

structure WatchedParser.Inv (w : WatchedParser) : Prop where
  ok : w.Ok
  accounted : w.parser.stats.Accounted

theorem WatchedParser.Inv.step {w : WatchedParser} (h : w.Inv) (event : ParserEvent) :
    (w.step event).Inv := by
  cases event with
  | byte b => exact ⟨ok_feed h.ok b, accounted_feed h.ok.not_deliver h.accounted b⟩
  | reset => exact ⟨trivial, h.accounted⟩

theorem WatchedParser.Inv.run {w : WatchedParser} (h : w.Inv) (events : List ParserEvent) :
    (w.run events).Inv := by
  induction events generalizing w with
  | nil => exact h
  | cons event rest ih => exact ih (h.step event)

/-- A delivered payload is what was written since the TYPE byte. -/
theorem WatchedParser.Filled.delivered {w : WatchedParser} (h : w.Filled)
    (hst : w.parser.state = .waitCrcHi)
    (hfull : w.parser.received.toNat = w.parser.len.toNat - 1) {b : UInt8} {f : Frame}
    (hf : f ∈ (edgeParserFeed w.parser b).2) :
    f.payload = w.written.map Prod.snd ∧ f.payload.length = w.parser.len.toNat - 1 := by
  have hframe : f = w.parser.frame := by
    simp only [edgeParserFeed, hst, edgeParserDeliver] at hf
    split at hf
    · cases hon : w.parser.onFrame with
      | false => simp [hon] at hf
      | true =>
          rw [hon, if_pos rfl, List.mem_singleton] at hf
          exact hf
    · cases hf
  have hpayload : f.payload = w.written.map Prod.snd := by
    rw [hframe, h.bytes, hfull, ← toNat_pred h.len_ok]
    rfl
  refine ⟨hpayload, ?_⟩
  rw [hpayload, List.length_map, ← List.length_map Prod.fst, h.indices, List.length_range, hfull]

/-- What holds between two calls, of the call that comes next, and of a reset. -/
structure WatchedParser.Safe (w : WatchedParser) : Prop where
  write_index : ∀ b, ∀ write ∈ payloadWrites w.parser b, write.1 < EDGE_PAYLOAD_MAX
  reading : w.parser.state = .readPayload →
    2 ≤ w.parser.len.toNat ∧ w.parser.len.toNat ≤ 64 ∧
      w.parser.received.toNat < w.parser.len.toNat - 1
  complete : w.parser.state = .waitCrcLo ∨ w.parser.state = .waitCrcHi →
    w.parser.received.toNat = w.parser.len.toNat - 1
  /-- A callback gets `payload_len = len - 1` bytes, each written since the TYPE byte. -/
  delivered : ∀ b, ∀ f ∈ (edgeParserFeed w.parser b).2,
    f.payload.length = w.parser.len.toNat - 1 ∧ f.payload.length = (w.parser.len - 1).toNat ∧
      f.payload.length ≤ EDGE_PAYLOAD_MAX ∧
      w.written = (List.range f.payload.length).zip f.payload
  not_deliver : w.parser.state ≠ .deliver
  resync : w.parser.stats.resync.toNat
    = (w.parser.stats.lenErr.toNat + w.parser.stats.crcErr.toNat) % 2 ^ 32
  reset : (edgeParserReset w.parser).stats = w.parser.stats

theorem WatchedParser.Inv.safe {w : WatchedParser} (h : w.Inv) : w.Safe := by
  obtain ⟨hok, hstats⟩ := h
  have hnot := hok.not_deliver
  refine ⟨?_, ?_, ?_, ?_, hnot, ?_, rfl⟩
  · intro b write hwrite
    unfold payloadWrites at hwrite
    split at hwrite
    next hst =>
      rw [Ok, hst] at hok
      have hle := hok.1.len_ok.2
      have hlt := hok.2
      rw [List.mem_singleton.mp hwrite]
      show w.parser.received.toNat < 63
      omega
    · cases hwrite
  · intro hst
    rw [Ok, hst] at hok
    have hle := hok.1.len_ok.2
    have hlt := hok.2
    exact ⟨by omega, hle, hlt⟩
  · rintro (hst | hst) <;> rw [Ok, hst] at hok <;> exact hok.2
  · intro b f hf
    have hst : w.parser.state = .waitCrcHi := by
      cases hp : w.parser.state with
      | waitCrcHi => rfl
      | waitHdr0 => simp only [edgeParserFeed, hp] at hf; split at hf <;> cases hf
      | waitHdr1 =>
          simp only [edgeParserFeed, hp] at hf
          split at hf <;> [cases hf; (split at hf <;> cases hf)]
      | waitLen => simp only [edgeParserFeed, hp] at hf; split at hf <;> cases hf
      | readPayload => rw [feed_readPayload hp] at hf; cases hf
      | deliver => exact absurd hp hnot
      | _ => simp only [edgeParserFeed, hp] at hf; cases hf
    rw [Ok, hst] at hok
    obtain ⟨hfilled, hfull⟩ := hok
    obtain ⟨hpayload, hlength⟩ := hfilled.delivered hst hfull hf
    have hle := hfilled.len_ok.2
    refine ⟨hlength, by rw [hlength, toNat_pred hfilled.len_ok], ?_, ?_⟩
    · show f.payload.length ≤ 63
      omega
    · rw [hlength, ← hfull]
      exact List.zip_of_prod hfilled.indices hpayload.symm
  · have hsum : w.parser.stats.resync = w.parser.stats.lenErr + w.parser.stats.crcErr := hstats
    rw [hsum, UInt32.toNat_add]

/-- **The parser stays inside its buffer and accounts for every resynchronisation**: on memory with
any content, for every stream and with resets anywhere in it. -/
theorem parser_bounds (memory : EdgeParser) (onFrame : Bool) (events : List ParserEvent) :
    (WatchedParser.run ⟨edgeParserInit memory onFrame, []⟩ events).Safe := by
  have hinit : WatchedParser.Inv ⟨edgeParserInit memory onFrame, []⟩ := ⟨trivial, rfl⟩
  exact (hinit.run events).safe

end EdgeGateway
