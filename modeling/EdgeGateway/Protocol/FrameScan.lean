import EdgeGateway.Protocol.FrameCodec

set_option autoImplicit false

/-! # Scanning a byte string for frames

What the parser makes of a byte string can be said without its states: look for the next header,
read LEN, and take the whole span the header claims for one frame, whatever it holds; the checksum
only decides whether the span counts as a frame. `framesIn` lists the frames found in this way,
`lacking` says how many bytes the last span still lacks at the end. The parser finds exactly these
frames and is inside a frame exactly when bytes are lacking (`feed_scan`).
-/

namespace EdgeGateway

instance (len : UInt8) : Decidable (LenOk len) := inferInstanceAs (Decidable (_ ∧ _))

/-- The encodings of `frames`, one behind the other. -/
def wire (frames : List Frame) : List UInt8 := frames.flatMap Frame.bytes

@[simp] theorem wire_nil : wire [] = [] := rfl

@[simp] theorem wire_cons (f : Frame) (frames : List Frame) :
    wire (f :: frames) = f.bytes ++ wire frames := rfl

theorem wire_append (frames gs : List Frame) : wire (frames ++ gs) = wire frames ++ wire gs :=
  List.flatMap_append

/-- The payload fits into one frame. -/
def Fits (f : Frame) : Prop := f.payload.length ≤ EDGE_PAYLOAD_MAX

/-! ## The scan -/

/-- How many bytes go with the first one: a header claims a frame of the length in LEN, or itself
and LEN alone when that is out of range. -/
def headSpan : List UInt8 → Nat
  | a :: b :: rest =>
      if a = EDGE_HDR0 ∧ b = EDGE_HDR1 then
        match rest with
        | [] => 3
        | len :: _ => if LenOk len then len.toNat + 5 else 3
      else 1
  | _ => 1

/-- The frame that starts with the first byte, when it is complete and its checksum is right. -/
def frameAt : List UInt8 → Option Frame
  | a :: b :: len :: type :: rest =>
      let body := rest.take (len.toNat - 1)
      if (a = EDGE_HDR0 ∧ b = EDGE_HDR1) ∧ LenOk len ∧
          crcBytes (edgeCrc16 (len :: type :: body)) <+: rest.drop (len.toNat - 1) then
        some ⟨type, body⟩
      else none
  | _ => none

/-- The frames found behind the first `skip` bytes. -/
def framesIn : Nat → List UInt8 → List Frame
  | _, [] => []
  | skip + 1, _ :: rest => framesIn skip rest
  | 0, byte :: rest =>
      (frameAt (byte :: rest)).toList ++ framesIn (headSpan (byte :: rest) - 1) rest

/-- How many bytes the last span lacks. -/
def lacking : Nat → List UInt8 → Nat
  | skip, [] => skip
  | skip + 1, _ :: rest => lacking skip rest
  | 0, byte :: rest => lacking (headSpan (byte :: rest) - 1) rest

theorem headSpan_pos (bytes : List UInt8) : 1 ≤ headSpan bytes := by
  unfold headSpan
  split
  · split
    · split
      · omega
      · split <;> omega
    · omega
  · omega

theorem framesIn_skip (skip : Nat) (bytes : List UInt8) :
    framesIn skip bytes = framesIn 0 (bytes.drop skip) := by
  induction bytes generalizing skip with
  | nil => cases skip <;> simp [framesIn]
  | cons byte rest ih =>
      cases skip with
      | zero => rfl
      | succ skip => exact ih skip

theorem lacking_skip {skip : Nat} {bytes : List UInt8} (h : skip ≤ bytes.length) :
    lacking skip bytes = lacking 0 (bytes.drop skip) := by
  induction bytes generalizing skip with
  | nil =>
      rw [Nat.le_zero.mp h]
      rfl
  | cons byte rest ih =>
      cases skip with
      | zero => rfl
      | succ skip => exact ih (by simpa using h)

theorem lacking_short {skip : Nat} {bytes : List UInt8} (h : bytes.length ≤ skip) :
    lacking skip bytes = skip - bytes.length := by
  induction bytes generalizing skip with
  | nil => rfl
  | cons byte rest ih =>
      cases skip with
      | zero => simp at h
      | succ skip =>
          rw [lacking, ih (by simpa using h), List.length_cons]
          omega

/-- The first span is taken as a whole. -/
theorem framesIn_span {bytes : List UInt8} (h : bytes ≠ []) :
    framesIn 0 bytes = (frameAt bytes).toList ++ framesIn 0 (bytes.drop (headSpan bytes)) := by
  obtain ⟨byte, rest, rfl⟩ := List.exists_cons_of_ne_nil h
  obtain ⟨n, hn⟩ := Nat.exists_eq_add_of_le' (headSpan_pos (byte :: rest))
  rw [framesIn, framesIn_skip, hn]
  rfl

theorem lacking_span {bytes : List UInt8} (h : headSpan bytes ≤ bytes.length) :
    lacking 0 bytes = lacking 0 (bytes.drop (headSpan bytes)) := by
  have hpos := headSpan_pos bytes
  cases bytes with
  | nil =>
      rw [List.length_nil] at h
      omega
  | cons byte rest =>
      obtain ⟨n, hn⟩ := Nat.exists_eq_add_of_le' hpos
      rw [lacking, hn, Nat.add_sub_cancel, lacking_skip (by rw [hn] at h; simpa using h)]
      rfl

theorem lacking_open {bytes : List UInt8} (hne : bytes ≠ [])
    (h : bytes.length ≤ headSpan bytes) : lacking 0 bytes = headSpan bytes - bytes.length := by
  obtain ⟨byte, rest, rfl⟩ := List.exists_cons_of_ne_nil hne
  rw [lacking, lacking_short (by rw [List.length_cons] at h; omega), List.length_cons]
  omega

/-! ## One span -/

theorem headSpan_noise {a : UInt8} (h : a ≠ EDGE_HDR0) (rest : List UInt8) :
    headSpan (a :: rest) = 1 := by
  cases rest with
  | nil => rfl
  | cons b rest => exact if_neg fun hab => h hab.1

theorem headSpan_noHdr1 {b : UInt8} (h : b ≠ EDGE_HDR1) (a : UInt8) (rest : List UInt8) :
    headSpan (a :: b :: rest) = 1 :=
  if_neg fun hab => h hab.2

theorem headSpan_badLen {len : UInt8} (h : ¬ LenOk len) (rest : List UInt8) :
    headSpan (EDGE_HDR0 :: EDGE_HDR1 :: len :: rest) = 3 := by
  simp [headSpan, h]

theorem headSpan_lenOk {len : UInt8} (h : LenOk len) (rest : List UInt8) :
    headSpan (EDGE_HDR0 :: EDGE_HDR1 :: len :: rest) = len.toNat + 5 := by
  simp [headSpan, h]

/-- A frame starts with a header and a LEN in range. -/
theorem frameAt_eq_none {bytes : List UInt8}
    (h : ∀ len rest, bytes ≠ EDGE_HDR0 :: EDGE_HDR1 :: len :: rest ∨ ¬ LenOk len) :
    frameAt bytes = none := by
  unfold frameAt
  split
  · rename_i a b len type rest
    refine if_neg ?_
    rintro ⟨⟨rfl, rfl⟩, hlen, -⟩
    rcases h len (type :: rest) with hne | hbad
    · exact hne rfl
    · exact hbad hlen
  · rfl

/-- A complete span is a frame exactly when its checksum is right. -/
theorem frameAt_full {len : UInt8} {body : List UInt8} (hlen : LenOk len)
    (hfull : body.length = len.toNat - 1) (type lo hi : UInt8) (rest : List UInt8) :
    frameAt (frameHead len type ++ body ++ [lo, hi] ++ rest)
      = if (hi.toUInt16 <<< 8) ||| lo.toUInt16 = edgeCrc16 (len :: type :: body) then
          some ⟨type, body⟩
        else none := by
  have htake : (body ++ ([lo, hi] ++ rest)).take (len.toNat - 1) = body := by
    rw [← hfull, List.take_left']
    rfl
  have hdrop : (body ++ ([lo, hi] ++ rest)).drop (len.toNat - 1) = [lo, hi] ++ rest := by
    rw [← hfull, List.drop_left']
    rfl
  have hcrc : crcBytes (edgeCrc16 (len :: type :: body)) <+: [lo, hi] ++ rest ↔
      (hi.toUInt16 <<< 8) ||| lo.toUInt16 = edgeCrc16 (len :: type :: body) := by
    constructor
    · intro h
      obtain ⟨tail, htail⟩ := h
      simp only [crcBytes, List.cons_append, List.nil_append, List.cons.injEq] at htail
      rw [← htail.1, ← htail.2.1]
      exact crc_bytes_join _
    · intro h
      rw [crcBytes_of_join h]
      exact List.prefix_append _ _
  simp only [frameHead, List.cons_append, List.nil_append, List.append_assoc] at htake hdrop hcrc ⊢
  simp only [frameAt, htake, hdrop, hcrc, hlen, true_and, and_self]

/-- A frame that is found stands there with its whole encoding. -/
theorem frameAt_eq_some {bytes : List UInt8} {f : Frame} (h : frameAt bytes = some f) :
    Fits f ∧ f.bytes <+: bytes := by
  unfold frameAt at h
  split at h
  · rename_i a b len type rest
    simp only [Option.ite_none_right_eq_some, Option.some.injEq] at h
    obtain ⟨⟨⟨rfl, rfl⟩, hlen, tail, htail⟩, rfl⟩ := h
    have hpos := hlen.1
    have hmax := hlen.2
    -- the checksum bytes stand behind a payload of the full length
    have hbody : (rest.take (len.toNat - 1)).length = len.toNat - 1 := by
      have hcount := congrArg List.length htail
      simp only [crcBytes, List.length_append, List.length_cons, List.length_drop] at hcount
      rw [List.length_take]
      omega
    have hfits : Fits ⟨type, rest.take (len.toNat - 1)⟩ := by
      unfold Fits EDGE_PAYLOAD_MAX
      show (rest.take (len.toNat - 1)).length ≤ 63
      omega
    have hadd : 1 + (rest.take (len.toNat - 1)).length.toUInt8 = len := by
      apply UInt8.toNat_inj.mp
      rw [toNat_one_add hfits, hbody]
      omega
    refine ⟨hfits, tail, ?_⟩
    rw [Frame.bytes_eq hfits]
    simp only [hadd, frameHead, List.cons_append, List.nil_append, List.append_assoc, htail,
      List.take_append_drop]
  · exact absurd h (by simp)

theorem Frame.length_bytes {f : Frame} (h : Fits f) : f.bytes.length = f.payload.length + 6 := by
  rw [Frame.bytes_eq h]
  simp [frameHead, crcBytes]

theorem Frame.lenOk {f : Frame} (h : Fits f) : LenOk (1 + f.payload.length.toUInt8) := by
  unfold LenOk
  rw [toNat_one_add h]
  unfold Fits EDGE_PAYLOAD_MAX at h
  omega

theorem frameAt_bytes {f : Frame} (h : Fits f) (rest : List UInt8) :
    frameAt (f.bytes ++ rest) = some f := by
  have hbody : f.payload.length = (1 + f.payload.length.toUInt8).toNat - 1 := by
    rw [toNat_one_add h]
    rfl
  rw [Frame.bytes_eq h, crcBytes, frameAt_full (Frame.lenOk h) hbody, if_pos (crc_bytes_join _)]

theorem headSpan_bytes {f : Frame} (h : Fits f) (rest : List UInt8) :
    headSpan (f.bytes ++ rest) = f.bytes.length := by
  rw [Frame.length_bytes h, Frame.bytes_eq h]
  show headSpan (EDGE_HDR0 :: EDGE_HDR1 :: _ :: _) = _
  rw [headSpan_lenOk (Frame.lenOk h), toNat_one_add h]

/-- An intact frame is found, and the scan goes on behind it. -/
theorem framesIn_bytes {f : Frame} (h : Fits f) (rest : List UInt8) :
    framesIn 0 (f.bytes ++ rest) = f :: framesIn 0 rest := by
  have hne : f.bytes ++ rest ≠ [] := by simp [Frame.bytes_ne_nil h]
  rw [framesIn_span hne, frameAt_bytes h, headSpan_bytes h, List.drop_left]
  rfl

theorem framesIn_wire {frames : List Frame} (h : ∀ f ∈ frames, Fits f) :
    framesIn 0 (wire frames) = frames := by
  induction frames with
  | nil => rfl
  | cons f frames ih =>
      rw [wire_cons, framesIn_bytes (h f (by simp)), ih (fun g hg => h g (by simp [hg]))]

/-- Every frame found stands in the bytes, with its header, LEN and checksum. -/
theorem framesIn_stands {bytes : List UInt8} {f : Frame} {skip : Nat}
    (h : f ∈ framesIn skip bytes) : Fits f ∧ f.bytes <:+: bytes := by
  induction bytes generalizing skip with
  | nil => cases skip <;> simp [framesIn] at h
  | cons byte rest ih =>
      cases skip with
      | zero =>
          rcases List.mem_append.mp h with hhead | htail
          · have hsome : frameAt (byte :: rest) = some f := Option.mem_toList.mp hhead
            exact ⟨(frameAt_eq_some hsome).1, (frameAt_eq_some hsome).2.isInfix⟩
          · exact ⟨(ih htail).1, List.IsInfix.trans (ih htail).2 (List.suffix_cons _ _).isInfix⟩
      | succ skip =>
          exact ⟨(ih h).1, List.IsInfix.trans (ih h).2 (List.suffix_cons _ _).isInfix⟩

/-! ## The parser scans -/

/-- A byte that starts no frame is dropped. -/
theorem scan_noise {a : UInt8} {rest : List UInt8} (h : headSpan (a :: rest) = 1) :
    framesIn 0 (a :: rest) = framesIn 0 rest ∧ lacking 0 (a :: rest) = lacking 0 rest := by
  have hnone : frameAt (a :: rest) = none := by
    refine frameAt_eq_none fun len tail => ?_
    by_contra hcon
    simp only [not_or, not_not, ne_eq] at hcon
    rw [hcon.1, headSpan_lenOk hcon.2] at h
    omega
  constructor
  · rw [framesIn_span (by simp), hnone, h]
    rfl
  · rw [lacking_span (by rw [h]; simp), h]
    rfl

/-- A span that ends with the byte `b` is behind the scan. -/
theorem scan_closed {cur rest : List UInt8} {b : UInt8}
    (h : headSpan (cur ++ b :: rest) = cur.length + 1) :
    framesIn 0 (cur ++ b :: rest) = (frameAt (cur ++ b :: rest)).toList ++ framesIn 0 rest ∧
      lacking 0 (cur ++ b :: rest) = lacking 0 rest := by
  have hdrop : (cur ++ b :: rest).drop (cur.length + 1) = rest := by
    rw [List.drop_append]
    simp
  constructor
  · rw [framesIn_span (by simp), h, hdrop]
  · rw [lacking_span (by rw [h]; simp), h, hdrop]

/-- A LEN out of range is dropped with its header. -/
theorem scan_badLen {len : UInt8} (h : ¬ LenOk len) (rest : List UInt8) :
    framesIn 0 (EDGE_HDR0 :: EDGE_HDR1 :: len :: rest) = framesIn 0 rest ∧
      lacking 0 (EDGE_HDR0 :: EDGE_HDR1 :: len :: rest) = lacking 0 rest := by
  have hnone : frameAt (EDGE_HDR0 :: EDGE_HDR1 :: len :: rest) = none := by
    refine frameAt_eq_none fun len' tail => ?_
    by_cases heq : EDGE_HDR0 :: EDGE_HDR1 :: len :: rest = EDGE_HDR0 :: EDGE_HDR1 :: len' :: tail
    · right
      simp only [List.cons.injEq, true_and] at heq
      rw [← heq.1]
      exact h
    · exact Or.inl heq
  have hspan : headSpan ([EDGE_HDR0, EDGE_HDR1] ++ len :: rest)
      = [EDGE_HDR0, EDGE_HDR1].length + 1 := headSpan_badLen h rest
  obtain ⟨hf, hl⟩ := scan_closed hspan
  refine ⟨hf.trans ?_, hl⟩
  show (frameAt (EDGE_HDR0 :: EDGE_HDR1 :: len :: rest)).toList ++ _ = _
  rw [hnone]
  rfl

/-- A span that is not complete yet. -/
theorem scan_open {cur : List UInt8} (hne : cur ≠ []) (h : cur.length < headSpan cur) :
    framesIn 0 cur = [] ∧ lacking 0 cur = headSpan cur - cur.length := by
  have hnone : frameAt cur = none := by
    cases hf : frameAt cur with
    | none => rfl
    | some f =>
        obtain ⟨hfits, tail, rfl⟩ := frameAt_eq_some hf
        rw [headSpan_bytes hfits, List.length_append] at h
        omega
  refine ⟨?_, lacking_open hne h.le⟩
  rw [framesIn_span hne, hnone, List.drop_of_length_le h.le]
  rfl

/-- The last byte of a complete span. -/
theorem scan_full {len : UInt8} {body : List UInt8} (hlen : LenOk len)
    (hfull : body.length = len.toNat - 1) (type lo b : UInt8) (rest : List UInt8) :
    framesIn 0 (frameHead len type ++ body ++ [lo] ++ b :: rest)
        = (if (b.toUInt16 <<< 8) ||| lo.toUInt16 = edgeCrc16 (len :: type :: body) then
            [⟨type, body⟩] else []) ++ framesIn 0 rest ∧
      lacking 0 (frameHead len type ++ body ++ [lo] ++ b :: rest) = lacking 0 rest := by
  have hpos := hlen.1
  have hspan : headSpan (frameHead len type ++ body ++ [lo] ++ b :: rest)
      = (frameHead len type ++ body ++ [lo]).length + 1 := by
    show headSpan (EDGE_HDR0 :: EDGE_HDR1 :: len :: _) = _
    rw [headSpan_lenOk hlen]
    simp only [frameHead, List.length_append, List.length_cons, List.length_nil]
    omega
  have hat : frameAt (frameHead len type ++ body ++ [lo] ++ b :: rest) = _ :=
    (congrArg frameAt (by simp)).trans (frameAt_full hlen hfull type lo b rest)
  obtain ⟨hframes, hlack⟩ := scan_closed hspan
  refine ⟨?_, hlack⟩
  rw [hframes, hat]
  split <;> rfl

/-- One byte of the scan. -/
theorem FeedCase.scan {cur cur' : List UInt8} {b : UInt8} {fs : List Frame}
    (h : FeedCase cur b cur' fs) (rest : List UInt8) :
    framesIn 0 (cur ++ b :: rest) = fs ++ framesIn 0 (cur' ++ rest) ∧
      lacking 0 (cur ++ b :: rest) = lacking 0 (cur' ++ rest) := by
  have hne : EDGE_HDR0 ≠ EDGE_HDR1 := by decide
  cases h with
  | noise hcur hb =>
      rw [hcur]
      exact scan_noise (headSpan_noise hb rest)
  | again hcur hb =>
      rw [hcur, hb]
      exact scan_noise (headSpan_noHdr1 hne _ rest)
  | noHeader hcur hb0 hb1 =>
      -- the first header byte goes, then the byte itself
      obtain ⟨hf, hl⟩ := scan_noise (headSpan_noHdr1 hb1 EDGE_HDR0 rest)
      obtain ⟨hf', hl'⟩ := scan_noise (headSpan_noise hb0 rest)
      rw [hcur]
      exact ⟨hf.trans hf', hl.trans hl'⟩
  | badLen hcur hb =>
      rw [hcur]
      exact scan_badLen hb rest
  | grows => simp [List.append_assoc]
  | badCrc len type lo body hcur hlen hfull hbad =>
      have hscan := scan_full hlen hfull type lo b rest
      rw [if_neg hbad, ← hcur] at hscan
      exact hscan
  | frame len type lo body hcur hlen hfull hok =>
      have hscan := scan_full hlen hfull type lo b rest
      rw [if_pos hok, ← hcur] at hscan
      exact hscan

/-- A span that has not got its last byte is open. -/
theorem span_open {len type : UInt8} {tail : List UInt8} (hlen : LenOk len)
    (htail : tail.length ≤ len.toNat) :
    2 ≤ (frameHead len type ++ tail).length ∧
      (frameHead len type ++ tail).length < headSpan (frameHead len type ++ tail) := by
  have hspan : headSpan (frameHead len type ++ tail) = len.toNat + 5 :=
    headSpan_lenOk hlen (type :: tail)
  rw [hspan]
  simp only [frameHead, List.length_append, List.length_cons, List.length_nil]
  omega

/-- The parser searches for a header, or its span is open. -/
theorem Reading.span {p : EdgeParser} {cur : List UInt8} (h : Reading p cur) :
    ((p.state = .waitHdr0 ∨ p.state = .waitHdr1) ∧ (cur = [] ∨ cur = [EDGE_HDR0])) ∨
      (¬ (p.state = .waitHdr0 ∨ p.state = .waitHdr1) ∧ 2 ≤ cur.length ∧
        cur.length < headSpan cur) := by
  unfold Reading at h
  cases hst : p.state with
  | waitHdr0 => simp_all
  | waitHdr1 => simp_all
  | waitLen =>
      simp only [hst] at h
      rw [h.1]
      exact Or.inr ⟨by simp, by simp, by decide⟩
  | waitType =>
      simp only [hst] at h
      rw [h.1, headSpan_lenOk h.2.1]
      exact Or.inr ⟨by simp, by simp, by simp⟩
  | readPayload =>
      simp only [hst] at h
      obtain ⟨body, rfl, hrec, hlt⟩ := h
      exact Or.inr ⟨by simp, span_open hrec.len_ok (by omega)⟩
  | waitCrcLo =>
      simp only [hst] at h
      obtain ⟨body, rfl, hrec, hfull⟩ := h
      exact Or.inr ⟨by simp, span_open hrec.len_ok (by omega)⟩
  | waitCrcHi =>
      simp only [hst] at h
      obtain ⟨body, rfl, hrec, hfull⟩ := h
      have hpos := hrec.len_ok.1
      rw [List.append_assoc]
      refine Or.inr ⟨by simp, span_open hrec.len_ok ?_⟩
      rw [List.length_append, List.length_singleton]
      omega
  | deliver => simp only [hst] at h

/-- **The parser finds what the scan finds**, and it is inside a frame exactly when the scan says
that bytes are lacking. -/
theorem feed_scan {p : EdgeParser} {cur : List UInt8} (h : Reading p cur)
    (hon : p.onFrame = true) (bytes : List UInt8) :
    (edgeParserFeedBytes p bytes).2 = framesIn 0 (cur ++ bytes) ∧
      (((edgeParserFeedBytes p bytes).1.state = .waitHdr0 ∨
        (edgeParserFeedBytes p bytes).1.state = .waitHdr1) ↔ lacking 0 (cur ++ bytes) = 0) := by
  induction bytes generalizing p cur with
  | nil =>
      rw [List.append_nil]
      show [] = framesIn 0 cur ∧ ((p.state = .waitHdr0 ∨ p.state = .waitHdr1) ↔ lacking 0 cur = 0)
      rcases h.span with ⟨hhunt, rfl | rfl⟩ | ⟨hopen, htwo, hspan⟩
      · exact ⟨rfl, by simpa [lacking] using hhunt⟩
      · exact ⟨by decide, iff_of_true hhunt (by decide)⟩
      · obtain ⟨hf, hl⟩ := scan_open (List.ne_nil_of_length_pos (by omega)) hspan
        refine ⟨hf.symm, ?_⟩
        rw [hl]
        exact iff_of_false hopen (by omega)
  | cons b rest ih =>
      obtain ⟨cur', hread, hcase⟩ := feed_cases h hon b
      obtain ⟨hf, hl⟩ := hcase.scan rest
      obtain ⟨hrest, hstate⟩ := ih hread ((onFrame_feed p b).trans hon)
      rw [hf, hl]
      exact ⟨congrArg ((edgeParserFeed p b).2 ++ ·) hrest, hstate⟩

end EdgeGateway
