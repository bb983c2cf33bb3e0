import EdgeGateway.Protocol.FrameScan

set_option autoImplicit false

/-! # Resynchronisation

After noise the parser may be inside a span that a false header has claimed. The frames that follow
are delivered when no span is open where they start (`deliversAt_iff`); a span swallows at most 66
bytes, and behind it frames without an inner header are found again (`resync_within_66`).
-/

namespace EdgeGateway

/-! ## One frame behind any bytes -/

/-- The last byte of `f`, fed behind `before`, hands `f` to `on_frame`. -/
def DeliversAt (p : EdgeParser) (before : List UInt8) (f : Frame) : Prop :=
  (edgeParserFeedBytes p (before ++ f.bytes)).2
    = (edgeParserFeedBytes p (before ++ f.bytes.dropLast)).2 ++ [f]

/-- Nothing is found in a part of a span. -/
theorem framesIn_take {len : UInt8} (hlen : LenOk len) (rest : List UInt8) {n : Nat}
    (hn : n < len.toNat + 5) :
    framesIn 0 ((EDGE_HDR0 :: EDGE_HDR1 :: len :: rest).take n) = [] := by
  by_cases hthree : n < 3
  · have hcases : n = 0 ∨ n = 1 ∨ n = 2 := by omega
    rcases hcases with rfl | rfl | rfl
    · rfl
    · show framesIn 0 [EDGE_HDR0] = []
      decide
    · show framesIn 0 [EDGE_HDR0, EDGE_HDR1] = []
      decide
  · obtain ⟨m, rfl⟩ := Nat.exists_eq_add_of_le' (Nat.not_lt.mp hthree)
    show framesIn 0 (EDGE_HDR0 :: EDGE_HDR1 :: len :: rest.take m) = []
    refine (scan_open (by simp) ?_).1
    rw [headSpan_lenOk hlen]
    simp only [List.length_cons, List.length_take]
    omega

theorem FeedCase.length_le {cur cur' : List UInt8} {b : UInt8} {fs : List Frame}
    (h : FeedCase cur b cur' fs) : cur'.length ≤ cur.length + 1 := by
  cases h with
  | again hcur _ => simp [hcur]
  | _ => simp

/-- An open span goes on or ends. -/
theorem FeedCase.of_open {cur cur' : List UInt8} {b : UInt8} {fs : List Frame}
    (h : FeedCase cur b cur' fs) (hopen : 2 ≤ cur.length) : cur' = cur ++ [b] ∨ cur' = [] := by
  cases h with
  | again hcur _ =>
      rw [hcur] at hopen
      exact absurd hopen (by simp)
  | grows => exact Or.inl rfl
  | _ => exact Or.inr rfl

/-- The bytes of the current span grow by at most one with each byte. -/
theorem reading_run {p : EdgeParser} {cur : List UInt8} (h : Reading p cur)
    (hon : p.onFrame = true) (bytes : List UInt8) :
    ∃ cur', Reading (edgeParserFeedBytes p bytes).1 cur' ∧
      cur'.length ≤ cur.length + bytes.length := by
  induction bytes generalizing p cur with
  | nil => exact ⟨cur, h, by simp⟩
  | cons b rest ih =>
      obtain ⟨mid, hread, hcase⟩ := feed_cases h hon b
      obtain ⟨cur', hread', hle⟩ := ih hread ((onFrame_feed p b).trans hon)
      have hmid := hcase.length_le
      refine ⟨cur', hread', ?_⟩
      rw [List.length_cons]
      omega

/-- An open span goes on to the end, or the parser has started afresh behind it. -/
theorem open_run {p : EdgeParser} {cur : List UInt8} (h : Reading p cur) (hon : p.onFrame = true)
    (hopen : 2 ≤ cur.length) (bytes : List UInt8) :
    ∃ cur', Reading (edgeParserFeedBytes p bytes).1 cur' ∧
      (cur' = cur ++ bytes ∨ cur'.length < bytes.length) := by
  induction bytes generalizing p cur with
  | nil => exact ⟨cur, h, Or.inl (List.append_nil _).symm⟩
  | cons b rest ih =>
      obtain ⟨mid, hread, hcase⟩ := feed_cases h hon b
      have hon' := (onFrame_feed p b).trans hon
      rcases hcase.of_open hopen with rfl | rfl
      · obtain ⟨cur', hread', hend⟩ := ih hread hon' (by simp; omega)
        refine ⟨cur', hread', ?_⟩
        rcases hend with heq | hlt
        · left
          rw [heq, List.append_assoc]
          rfl
        · right
          rw [List.length_cons]
          omega
      · obtain ⟨cur', hread', hle⟩ := reading_run hread hon' rest
        refine ⟨cur', hread', Or.inr ?_⟩
        simp only [List.length_cons, List.length_nil] at hle ⊢
        omega

/-- The frame that a byte delivers is the span it completes. -/
theorem FeedCase.of_frame {cur cur' : List UInt8} {b : UInt8} {f : Frame}
    (h : FeedCase cur b cur' [f]) : cur.length + 1 = f.payload.length + 6 := by
  cases h with
  | frame len type lo body hcur hlen hfull _ =>
      rw [hcur]
      simp only [frameHead, List.length_append, List.length_cons, List.length_nil]
      omega

theorem frame_prefix {f : Frame} (h : Fits f) {n : Nat} (hn : n < f.bytes.length) :
    framesIn 0 (f.bytes.take n) = [] := by
  rw [Frame.length_bytes h] at hn
  rw [Frame.bytes_eq h]
  refine framesIn_take (Frame.lenOk h) _ ?_
  rw [toNat_one_add h]
  exact hn

/-- What the parser delivers behind `before` when it is searching there. -/
theorem delivered_of_closed {p : EdgeParser} {before : List UInt8} {cur : List UInt8}
    (h : Reading p cur) (hon : p.onFrame = true) (hclosed : lacking 0 (cur ++ before) = 0)
    (bytes : List UInt8) (hhead : bytes.head? = some EDGE_HDR0 ∨ bytes = []) :
    (edgeParserFeedBytes p (before ++ bytes)).2
      = (edgeParserFeedBytes p before).2 ++ framesIn 0 bytes := by
  obtain ⟨cur', hread, -⟩ := reading_run h hon before
  have hon' := (onFrame_feedBytes p before).trans hon
  have hhunt := (feed_scan h hon before).2.mpr hclosed
  have hnoise : framesIn 0 (cur' ++ bytes) = framesIn 0 bytes := by
    rcases hread.span with ⟨-, rfl | rfl⟩ | ⟨hopen, -⟩
    · rfl
    · -- a header byte read before the next header
      refine (scan_noise ?_).1
      rcases hhead with hhead | rfl
      · obtain ⟨rest, rfl⟩ := List.head?_eq_some_iff.mp hhead
        exact headSpan_noHdr1 (by decide) _ rest
      · rfl
    · exact absurd hhunt hopen
  rw [edgeParserFeedBytes_append, (feed_scan hread hon' bytes).1, hnoise]

theorem Frame.head_bytes {f : Frame} (h : Fits f) (n : Nat) :
    (f.bytes.take (n + 1)).head? = some EDGE_HDR0 := by
  rw [Frame.bytes_eq h]
  rfl

/-- **One frame behind any bytes** is delivered exactly when no span is open in front of it. -/
theorem deliversAt_iff {p : EdgeParser} {cur before : List UInt8} {f : Frame} (h : Reading p cur)
    (hon : p.onFrame = true) (hf : Fits f) :
    DeliversAt p before f ↔ lacking 0 (cur ++ before) = 0 := by
  have hlen := Frame.length_bytes hf
  have hdrop : f.bytes.dropLast = f.bytes.take (f.payload.length + 5) := by
    rw [List.dropLast_eq_take, hlen]
    rfl
  constructor
  · intro hdel
    by_contra hlack
    -- the span that is open behind `before` is not the one that ends with `f`
    have hon1 := (onFrame_feedBytes p before).trans hon
    obtain ⟨mid, hmid, -⟩ := reading_run h hon before
    have hopen : 2 ≤ mid.length := by
      rcases hmid.span with ⟨hhunt, -⟩ | ⟨-, htwo, -⟩
      · exact absurd ((feed_scan h hon before).2.mp hhunt) hlack
      · exact htwo
    obtain ⟨cur', hread, hend⟩ := open_run hmid hon1 hopen f.bytes.dropLast
    have hne : f.bytes ≠ [] := Frame.bytes_ne_nil hf
    have hon2 := (onFrame_feedBytes _ f.bytes.dropLast).trans hon1
    obtain ⟨last, -, hcase⟩ := feed_cases hread hon2 (f.bytes.getLast hne)
    have hone : (edgeParserFeed (edgeParserFeedBytes (edgeParserFeedBytes p before).1
        f.bytes.dropLast).1 (f.bytes.getLast hne)).2 = [f] := by
      rw [DeliversAt] at hdel
      nth_rewrite 1 [← List.dropLast_append_getLast hne] at hdel
      rw [← List.append_assoc, edgeParserFeedBytes_append _ (before ++ f.bytes.dropLast)] at hdel
      have hlast := List.append_cancel_left hdel
      rw [edgeParserFeedBytes_append p before] at hlast
      simpa [edgeParserFeedBytes] using hlast
    rw [hone] at hcase
    have hcount := hcase.of_frame
    have hdl : f.bytes.dropLast.length = f.payload.length + 5 := by
      rw [List.length_dropLast, hlen]
      rfl
    rcases hend with rfl | hlt
    · rw [List.length_append] at hcount
      omega
    · omega
  · intro hclosed
    have hall := delivered_of_closed h hon hclosed f.bytes
      (Or.inl (by rw [Frame.bytes_eq hf]; rfl))
    have hpart := delivered_of_closed h hon hclosed f.bytes.dropLast
      (Or.inl (by rw [hdrop]; exact Frame.head_bytes hf _))
    have hnone : framesIn 0 f.bytes.dropLast = [] := by
      rw [hdrop]
      exact frame_prefix hf (by omega)
    have hfound : framesIn 0 f.bytes = [f] := by
      have := framesIn_bytes hf []
      rwa [List.append_nil] at this
    rw [DeliversAt, hall, hpart, hnone, hfound, List.append_nil]

theorem Searching.wire {p : EdgeParser} (h : Searching p) {frames : List Frame}
    (hfit : ∀ f ∈ frames, Fits f) : Searching (edgeParserFeedBytes p (wire frames)).1 := by
  induction frames generalizing p with
  | nil => exact h
  | cons f frames ih =>
      obtain ⟨q, hq, hst, hon, -⟩ := feed_frame h f (hfit f (by simp))
      rw [wire_cons, edgeParserFeedBytes_append, hq]
      exact ih ⟨hon, Or.inl hst⟩ fun g hg => hfit g (by simp [hg])

/-- Whole frames open no span. -/
theorem lacking_wire {p : EdgeParser} {cur before : List UInt8} (h : Reading p cur)
    (hon : p.onFrame = true) (hclosed : lacking 0 (cur ++ before) = 0) {frames : List Frame}
    (hfit : ∀ f ∈ frames, Fits f) : lacking 0 (cur ++ (before ++ wire frames)) = 0 := by
  have hsearch : Searching (edgeParserFeedBytes p before).1 :=
    ⟨(onFrame_feedBytes p before).trans hon, (feed_scan h hon before).2.mpr hclosed⟩
  refine (feed_scan h hon (before ++ wire frames)).2.mp ?_
  rw [edgeParserFeedBytes_append]
  exact (hsearch.wire hfit).2

/-- **Frames behind noise.** Feed a fresh parser any bytes `g` and then a sequence of frames. The
frames from the second one on are delivered, each by its own last byte, exactly when no span that a
header in `g` or in the first frame has claimed is still open where the second frame starts; then
they are all that is delivered from there on. -/
theorem frames_behind_noise (p : EdgeParser) (g : List UInt8) (frames : List Frame)
    (hfit : ∀ f ∈ frames, f.payload.length ≤ EDGE_PAYLOAD_MAX) :
    let q := edgeParserInit p true
    let start := g ++ wire (frames.take 1)
    ((∀ before f after, frames.tail = before ++ f :: after →
        DeliversAt q (start ++ wire before) f) ↔ frames.tail = [] ∨ lacking 0 start = 0) ∧
      (lacking 0 start = 0 → (edgeParserFeedBytes q (g ++ wire frames)).2
        = (edgeParserFeedBytes q start).2 ++ frames.tail) := by
  intro q start
  have hread : Reading q [] := reading_init p true
  have htail : ∀ f ∈ frames.tail, Fits f := fun f hf => hfit f (List.mem_of_mem_tail hf)
  refine ⟨⟨fun hall => ?_, fun hor before f after htl => ?_⟩, fun hclosed => ?_⟩
  · cases htl : frames.tail with
    | nil => exact Or.inl rfl
    | cons f after =>
        right
        have hdel := hall [] f after htl
        rw [wire_nil, List.append_nil] at hdel
        exact (deliversAt_iff hread rfl (htail f (by simp [htl]))).mp hdel
  · rcases hor with hnil | hclosed
    · rw [hnil] at htl
      exact absurd htl (by simp)
    · refine (deliversAt_iff hread rfl (htail f (by simp [htl]))).mpr ?_
      exact lacking_wire hread rfl hclosed fun g hg => htail g (by simp [htl, hg])
  · have hsplit : g ++ wire frames = start ++ wire frames.tail := by
      show _ = g ++ wire (frames.take 1) ++ wire frames.tail
      rw [List.append_assoc, ← wire_append, ← List.drop_one, List.take_append_drop]
    have hhead : (wire frames.tail).head? = some EDGE_HDR0 ∨ wire frames.tail = [] := by
      cases htl : frames.tail with
      | nil => exact Or.inr rfl
      | cons f after =>
          left
          rw [wire_cons, Frame.bytes_eq (htail f (by simp [htl]))]
          rfl
    have hdel := delivered_of_closed hread rfl hclosed _ hhead
    rw [framesIn_wire htail] at hdel
    rw [hsplit]
    exact hdel

/-- A heartbeat: TYPE alone. -/
def heartbeat : Frame := ⟨0x01, []⟩

/-- A noise byte in front of three heartbeats. -/
theorem frames_behind_noise_byte :
    (edgeParserFeedBytes (edgeParserInit blankParser true)
        ([0x12] ++ wire [heartbeat, heartbeat, heartbeat])).2
      = (edgeParserFeedBytes (edgeParserInit blankParser true)
          ([0x12] ++ wire [heartbeat])).2 ++ [heartbeat, heartbeat] := by
  exact (frames_behind_noise blankParser [0x12] [heartbeat, heartbeat, heartbeat]
    (by decide)).2 (by decide +kernel)

/-- A false header with LEN 64 swallows both of the two heartbeats that follow it. -/
theorem frames_behind_noise_swallowed :
    ¬ ∀ (p : EdgeParser) (g : List UInt8) (frames : List Frame),
      (∀ f ∈ frames, f.payload.length ≤ EDGE_PAYLOAD_MAX) →
      frames.tail.Sublist (edgeParserFeedBytes (edgeParserInit p true) (g ++ wire frames)).2 := by
  intro h
  have hsub := h blankParser [0xAA, 0x55, 64] [heartbeat, heartbeat] (by decide)
  have hnone : (edgeParserFeedBytes (edgeParserInit blankParser true)
      ([0xAA, 0x55, 64] ++ wire [heartbeat, heartbeat])).2 = [] := by decide +kernel
  rw [hnone] at hsub
  exact absurd (List.eq_nil_of_sublist_nil hsub) (by simp)

/-! ## Frames without an inner header -/

/-- The byte pair `AA 55` occurs in the frame at its start only. -/
def HeaderOnce (f : Frame) : Prop :=
  ∀ i < f.bytes.length, f.bytes[i]? = some EDGE_HDR0 → f.bytes[i + 1]? = some EDGE_HDR1 → i = 0

/-- No header starts in the bytes. -/
def NoHeader (bytes : List UInt8) : Prop :=
  ∀ i, bytes[i]? = some EDGE_HDR0 → bytes[i + 1]? ≠ some EDGE_HDR1

theorem NoHeader.tail {a : UInt8} {bytes : List UInt8} (h : NoHeader (a :: bytes)) :
    NoHeader bytes := fun i => h (i + 1)

theorem NoHeader.take {bytes : List UInt8} (h : NoHeader bytes) (n : Nat) :
    NoHeader (bytes.take n) := by
  intro i hi hnext
  rw [List.getElem?_take] at hi hnext
  split at hi
  · split at hnext
    · exact h i hi hnext
    · exact absurd hnext (by simp)
  · exact absurd hi (by simp)

theorem HeaderOnce.noHeader {f : Frame} (h : HeaderOnce f) {n : Nat} (hn : 0 < n) :
    NoHeader (f.bytes.drop n) := by
  intro i hi hnext
  rw [List.getElem?_drop] at hi hnext
  have hlt : n + i < f.bytes.length := by
    by_contra hge
    rw [List.getElem?_eq_none (by omega)] at hi
    exact absurd hi (by simp)
  have := h (n + i) hlt hi hnext
  omega

/-- Bytes without a header are passed over, whatever frames follow. -/
theorem framesIn_noHeader {bytes rest : List UInt8} (h : NoHeader bytes)
    (hrest : rest.head? ≠ some EDGE_HDR1) : framesIn 0 (bytes ++ rest) = framesIn 0 rest := by
  induction bytes with
  | nil => rfl
  | cons a bytes ih =>
      refine ((scan_noise ?_).1).trans (ih h.tail)
      by_cases ha : a = EDGE_HDR0
      · -- the byte behind it does not complete a header
        subst ha
        cases bytes with
        | nil =>
            cases rest with
            | nil => rfl
            | cons b rest => exact headSpan_noHdr1 (fun hb => hrest (by simp [hb])) _ _
        | cons b bytes =>
            refine headSpan_noHdr1 (fun hb => ?_) _ _
            exact h 0 rfl (by simp [hb])
      · exact headSpan_noise ha _

/-- The frames found take no more room than the bytes offer. -/
theorem length_wire_framesIn (bytes : List UInt8) :
    ∀ skip, (wire (framesIn skip bytes)).length ≤ bytes.length - skip := by
  induction bytes with
  | nil => intro skip; cases skip <;> simp [framesIn]
  | cons byte rest ih =>
      intro skip
      cases skip with
      | succ skip =>
          have := ih skip
          rw [List.length_cons, framesIn]
          omega
      | zero =>
          have hrest := ih (headSpan (byte :: rest) - 1)
          rw [framesIn, wire_append, List.length_append, List.length_cons]
          cases hf : frameAt (byte :: rest) with
          | none =>
              simp only [Option.toList_none, wire_nil, List.length_nil]
              omega
          | some f =>
              obtain ⟨hfits, tail, htail⟩ := frameAt_eq_some hf
              have hspan := headSpan_bytes hfits tail
              have hcount := congrArg List.length htail
              rw [htail] at hspan
              have hpos := Frame.length_bytes hfits
              simp only [Option.toList_some, wire_cons, wire_nil, List.append_nil,
                List.length_append, List.length_cons] at hcount ⊢
              omega

theorem head_wire {frames : List Frame} (hfit : ∀ f ∈ frames, Fits f) (n : Nat) :
    ((wire frames).take n).head? ≠ some EDGE_HDR1 := by
  have hne : EDGE_HDR0 ≠ EDGE_HDR1 := by decide
  cases n with
  | zero => simp
  | succ n =>
      cases frames with
      | nil => simp
      | cons f frames =>
          rw [wire_cons, Frame.bytes_eq (hfit f (by simp))]
          simpa [frameHead] using hne

/-- Where `k` bytes of a sequence of frames end: the frame they end in is lost, the rest of it
holds no header, and the frames behind it are kept. -/
theorem wire_drop {frames : List Frame} (hfit : ∀ f ∈ frames, Fits f)
    (hfree : ∀ f ∈ frames, HeaderOnce f) (k : Nat) :
    ∃ lost kept tail, frames = lost ++ kept ∧ (wire frames).drop k = tail ++ wire kept ∧
      NoHeader tail ∧ (kept = [] ∨ (wire lost).length = k + tail.length) ∧
      ∀ before f after, lost = before ++ f :: after → (wire before).length < k := by
  induction frames generalizing k with
  | nil => exact ⟨[], [], [], rfl, by simp, fun i hi => by simp at hi, Or.inl rfl, by simp⟩
  | cons f frames ih =>
      have hlen := Frame.length_bytes (hfit f (by simp))
      by_cases hk : k < f.bytes.length
      · by_cases hzero : k = 0
        · subst hzero
          exact ⟨[], f :: frames, [], rfl, rfl, fun i hi => by simp at hi, Or.inr rfl, by simp⟩
        · refine ⟨[f], frames, f.bytes.drop k, rfl, ?_, ?_, Or.inr ?_, ?_⟩
          · rw [wire_cons, List.drop_append_of_le_length hk.le]
          · exact (hfree f (by simp)).noHeader (Nat.pos_of_ne_zero hzero)
          · simp only [wire_cons, wire_nil, List.append_nil, List.length_drop]
            omega
          · intro before g after heq
            cases before with
            | nil => simpa using Nat.pos_of_ne_zero hzero
            | cons _ before => simp at heq
      · obtain ⟨lost, kept, tail, hsplit, hdrop, hno, hcount, hpos⟩ :=
          ih (fun g hg => hfit g (by simp [hg])) (fun g hg => hfree g (by simp [hg]))
            (k - f.bytes.length)
        refine ⟨f :: lost, kept, tail, by rw [hsplit]; rfl, ?_, hno, ?_, ?_⟩
        · rw [wire_cons, List.drop_append, List.drop_of_length_le (by omega), List.nil_append,
            hdrop]
        · rcases hcount with hnil | hcount
          · exact Or.inl hnil
          · right
            rw [wire_cons, List.length_append, hcount]
            omega
        · intro before g after heq
          cases before with
          | nil =>
              rw [wire_nil, List.length_nil]
              omega
          | cons _ before =>
              obtain ⟨rfl, htl⟩ := List.cons.inj heq
              have := hpos before g after htl
              rw [wire_cons, List.length_append]
              omega

/-- The bytes a header claims behind LEN. -/
theorem span_bytes {len : UInt8} (hlen : LenOk len) {rest : List UInt8}
    (h : rest.length = len.toNat + 2) :
    ∃ type body lo hi, rest = type :: body ++ [lo, hi] ∧ body.length = len.toNat - 1 := by
  have hpos := hlen.1
  obtain ⟨type, rest, rfl⟩ := List.exists_cons_of_ne_nil
    (List.ne_nil_of_length_pos (l := rest) (by omega))
  rw [List.length_cons] at h
  have htwo : (rest.drop (len.toNat - 1)).length = 2 := by
    rw [List.length_drop]
    omega
  obtain ⟨lo, hi, hcrc⟩ := List.length_eq_two.mp htwo
  refine ⟨type, rest.take (len.toNat - 1), lo, hi, ?_, ?_⟩
  · rw [List.cons_append, ← hcrc, List.take_append_drop]
  · rw [List.length_take]
    omega

/-- Whether a complete span is a frame does not depend on what follows it. -/
theorem frameAt_append {len : UInt8} (hlen : LenOk len) {rest : List UInt8}
    (h : rest.length = len.toNat + 2) (more : List UInt8) :
    frameAt (EDGE_HDR0 :: EDGE_HDR1 :: len :: rest ++ more)
      = frameAt (EDGE_HDR0 :: EDGE_HDR1 :: len :: rest) := by
  obtain ⟨type, body, lo, hi, rfl, hbody⟩ := span_bytes hlen h
  have hmore := frameAt_full hlen hbody type lo hi more
  have hnone := frameAt_full hlen hbody type lo hi []
  rw [List.append_nil] at hnone
  simp only [frameHead, List.cons_append, List.nil_append, List.append_assoc] at hmore hnone ⊢
  rw [hmore, hnone]

/-- An open span is a header, or a header with a LEN in range and less than it claims. -/
theorem open_shape {cur : List UInt8} (htwo : 2 ≤ cur.length) (hspan : cur.length < headSpan cur) :
    cur = [EDGE_HDR0, EDGE_HDR1] ∨ ∃ len rest, cur = EDGE_HDR0 :: EDGE_HDR1 :: len :: rest ∧
      LenOk len ∧ rest.length < len.toNat + 2 := by
  obtain ⟨a, cur, rfl⟩ := List.exists_cons_of_ne_nil
    (List.ne_nil_of_length_pos (l := cur) (by omega))
  obtain ⟨b, cur, rfl⟩ := List.exists_cons_of_ne_nil
    (List.ne_nil_of_length_pos (l := cur) (by simp at htwo; omega))
  by_cases ha : a = EDGE_HDR0
  · by_cases hb : b = EDGE_HDR1
    · subst ha hb
      cases cur with
      | nil => exact Or.inl rfl
      | cons len rest =>
          right
          by_cases hlen : LenOk len
          · rw [headSpan_lenOk hlen] at hspan
            exact ⟨len, rest, rfl, hlen, by simp at hspan; omega⟩
          · rw [headSpan_badLen hlen] at hspan
            simp only [List.length_cons] at hspan
            omega
    · rw [headSpan_noHdr1 hb] at hspan
      simp at hspan
  · rw [headSpan_noise ha] at hspan
    simp at hspan

/-- What any parser state claims of the frames that follow: at most 66 bytes, from which stale
frames may come. -/
theorem claimed_span {p : EdgeParser} {cur : List UInt8} (h : Reading p cur) {w : List UInt8}
    (hhead : w.head? = some EDGE_HDR0) (hlong : 66 ≤ w.length) :
    ∃ k stale, k ≤ 66 ∧ ∀ n, 66 ≤ n →
      framesIn 0 (cur ++ w.take n) = stale ++ framesIn 0 ((w.take n).drop k) := by
  have hne : EDGE_HDR0 ≠ EDGE_HDR1 := by decide
  have hbad : ¬ LenOk EDGE_HDR0 := by decide
  obtain ⟨w', rfl⟩ := List.head?_eq_some_iff.mp hhead
  have hcons : ∀ n, 66 ≤ n → (EDGE_HDR0 :: w').take n = EDGE_HDR0 :: w'.take (n - 1) := by
    intro n hn
    obtain ⟨m, rfl⟩ := Nat.exists_eq_add_of_le' (show 1 ≤ n by omega)
    rfl
  rcases h.span with ⟨-, rfl | rfl⟩ | ⟨-, htwo, hspan⟩
  · exact ⟨0, [], by omega, fun n _ => rfl⟩
  · refine ⟨0, [], by omega, fun n hn => ?_⟩
    rw [hcons n hn]
    exact (scan_noise (headSpan_noHdr1 hne _ _)).1
  · rcases open_shape htwo hspan with rfl | ⟨len, rest, rfl, hlen, hshort⟩
    · -- the header byte of the next frame is taken for LEN
      refine ⟨1, [], by omega, fun n hn => ?_⟩
      rw [hcons n hn]
      exact (scan_badLen hbad (w'.take (n - 1))).1
    · have hmax := hlen.2
      let k := len.toNat + 2 - rest.length
      have hk : k ≤ 66 := by show len.toNat + 2 - rest.length ≤ 66; omega
      let full := EDGE_HDR0 :: EDGE_HDR1 :: len :: (rest ++ (EDGE_HDR0 :: w').take k)
      refine ⟨k, (frameAt full).toList, hk, fun n hn => ?_⟩
      have hfull : (rest ++ (EDGE_HDR0 :: w').take k).length = len.toNat + 2 := by
        rw [List.length_append, List.length_take, Nat.min_eq_left (by omega)]
        show rest.length + (len.toNat + 2 - rest.length) = _
        omega
      have hsplit : EDGE_HDR0 :: EDGE_HDR1 :: len :: rest ++ (EDGE_HDR0 :: w').take n
          = full ++ ((EDGE_HDR0 :: w').take n).drop k := by
        have htake : (EDGE_HDR0 :: w').take k = ((EDGE_HDR0 :: w').take n).take k := by
          rw [List.take_take, Nat.min_eq_left (by omega)]
        simp only [full, htake, List.cons_append, List.append_assoc, List.take_append_drop]
      have hdrop : full.length = len.toNat + 5 := by
        simp only [full, List.length_cons, hfull]
      have hhd : headSpan (full ++ ((EDGE_HDR0 :: w').take n).drop k) = full.length := by
        rw [hdrop]
        exact headSpan_lenOk hlen _
      have hat : frameAt (full ++ ((EDGE_HDR0 :: w').take n).drop k) = frameAt full :=
        frameAt_append hlen hfull _
      rw [hsplit, framesIn_span (by simp [full]), hat, hhd, List.drop_left]

/-- The frames found in the first bytes of a sequence, cut off anywhere, end before the cut. -/
theorem framesIn_cut {tail : List UInt8} {kept : List Frame} (hno : NoHeader tail)
    (hfit : ∀ f ∈ kept, Fits f) (m : Nat) :
    framesIn 0 ((tail ++ wire kept).take m) = [] ∨
      tail.length + (wire (framesIn 0 ((tail ++ wire kept).take m))).length ≤ m := by
  by_cases hm : m ≤ tail.length
  · left
    have hnil : ([] : List UInt8).head? ≠ some EDGE_HDR1 := by simp
    have hfound := framesIn_noHeader (hno.take m) hnil
    rw [List.append_nil] at hfound
    rw [List.take_append_of_le_length hm, hfound]
    rfl
  · right
    have htake : (tail ++ wire kept).take m = tail ++ (wire kept).take (m - tail.length) := by
      rw [List.take_append, List.take_of_length_le (by omega)]
    have hroom := length_wire_framesIn ((wire kept).take (m - tail.length)) 0
    rw [htake, framesIn_noHeader hno (head_wire hfit _)]
    rw [List.length_take] at hroom
    omega

/-- The lost frames start within the `k` claimed bytes, the ones found at the first 66 bytes end
there. -/
theorem start_lt {k : Nat} {lost kept found : List Frame} {tail : List UInt8} (hk : k ≤ 66)
    (hcount : kept = [] ∨ (wire lost).length = k + tail.length)
    (hpos : ∀ before f after, lost = before ++ f :: after → (wire before).length < k)
    (hcut : found = [] ∨ tail.length + (wire found).length ≤ 66 - k) (hpre : found <+: kept)
    (hfit : ∀ f ∈ kept, Fits f) (before : List Frame) (f : Frame) (after : List Frame)
    (heq : lost ++ found = before ++ f :: after) : (wire before).length < 66 := by
  have hfound : ∀ mid, found = mid ++ f :: after → (wire (lost ++ mid)).length < 66 := by
    intro mid hmid
    have hne : found ≠ [] := by rw [hmid]; simp
    have hkept : kept ≠ [] := fun hnil => hne (List.prefix_nil.mp (hnil ▸ hpre))
    have hstart := hcount.resolve_left hkept
    have hroom := hcut.resolve_left hne
    have hlen := Frame.length_bytes (hfit f (hpre.subset (by rw [hmid]; simp)))
    rw [hmid, wire_append, wire_cons, List.length_append, List.length_append] at hroom
    rw [wire_append, List.length_append, hstart]
    omega
  rcases List.append_eq_append_iff.mp heq with ⟨mid, hbefore, hmid⟩ | ⟨mid, hlost, hmid⟩
  · rw [hbefore]
    exact hfound mid hmid
  · cases mid with
    | nil =>
        rw [List.append_nil] at hlost
        rw [← hlost, ← List.append_nil lost]
        exact hfound [] hmid.symm
    | cons g mid =>
        obtain ⟨rfl, -⟩ := List.cons.inj hmid
        have := hpos before f mid hlost
        omega

/-- **Resynchronisation within 66 bytes.** Whatever a parser has read before, feed it frames that
hold no second header. What it delivers at the bytes from offset 66 on is a tail of the sequence,
each frame once and in order, and every frame that starts there or later belongs to it. -/
theorem resync_within_66 (p : EdgeParser) (calls : List FeedCall) (frames : List Frame)
    (hfit : ∀ f ∈ frames, f.payload.length ≤ EDGE_PAYLOAD_MAX)
    (hfree : ∀ f ∈ frames, HeaderOnce f) :
    let q := (runFeedCalls (edgeParserInit p true) calls).1
    let stream := wire frames
    ∃ early late, frames = early ++ late ∧
      (edgeParserFeedBytes (edgeParserFeedBytes q (stream.take 66)).1 (stream.drop 66)).2 = late ∧
      ∀ before f after, early = before ++ f :: after → (wire before).length < 66 := by
  intro q stream
  obtain ⟨cur, hread, -⟩ := reading_run (reading_init p true) rfl
    (calls.flatMap FeedCall.bytes)
  rw [← runFeedCalls_eq] at hread
  have hon : q.onFrame = true := by
    show (runFeedCalls (edgeParserInit p true) calls).1.onFrame = true
    rw [runFeedCalls_eq]
    exact onFrame_feedBytes _ _
  by_cases hlong : 66 ≤ stream.length
  · have hhead : stream.head? = some EDGE_HDR0 := by
      cases frames with
      | nil => exact absurd hlong (by simp [stream])
      | cons f frames =>
          show (wire (f :: frames)).head? = _
          rw [wire_cons, Frame.bytes_eq (hfit f (by simp))]
          rfl
    obtain ⟨k, stale, hk, hclaim⟩ := claimed_span hread hhead hlong
    obtain ⟨lost, kept, tail, hsplit, hdrop, hno, hcount, hpos⟩ := wire_drop hfit hfree k
    have hkept : ∀ f ∈ kept, Fits f := fun f hf => hfit f (by simp [hsplit, hf])
    -- what comes out at all, and what of it comes out at the first 66 bytes
    let found := framesIn 0 ((tail ++ wire kept).take (66 - k))
    have hall : (edgeParserFeedBytes q stream).2 = stale ++ kept := by
      have hnext : (wire kept).head? ≠ some EDGE_HDR1 := by
        simpa using head_wire hkept (wire kept).length
      have h := hclaim stream.length hlong
      rw [List.take_length, hdrop, framesIn_noHeader hno hnext, framesIn_wire hkept] at h
      rw [(feed_scan hread hon stream).1, h]
    have hfirst : (edgeParserFeedBytes q (stream.take 66)).2 = stale ++ found := by
      rw [(feed_scan hread hon _).1, hclaim 66 (Nat.le_refl _), List.drop_take, hdrop]
    have hlate : kept = found ++
        (edgeParserFeedBytes (edgeParserFeedBytes q (stream.take 66)).1 (stream.drop 66)).2 := by
      have h := congrArg Prod.snd (edgeParserFeedBytes_append q (stream.take 66) (stream.drop 66))
      rw [List.take_append_drop, hall, hfirst, List.append_assoc] at h
      exact List.append_cancel_left h
    refine ⟨lost ++ found, _, ?_, rfl, ?_⟩
    · rw [List.append_assoc, ← hlate, hsplit]
    · exact start_lt hk hcount hpos (framesIn_cut hno hkept _) ⟨_, hlate.symm⟩ hkept
  · refine ⟨frames, [], (List.append_nil _).symm, ?_, ?_⟩
    · rw [List.drop_of_length_le (by omega)]
      rfl
    · intro before f after heq
      have hcount : stream.length = (wire before).length + (wire (f :: after)).length := by
        show (wire frames).length = _
        rw [heq, wire_append, List.length_append]
      omega

/-- A header with LEN 64 claims the next 66 bytes: eleven of twelve heartbeats are lost. -/
theorem resync_within_66_heartbeats :
    ∃ early late, List.replicate 12 heartbeat = early ++ late ∧
      (edgeParserFeedBytes (edgeParserFeedBytes
          (runFeedCalls (edgeParserInit blankParser true) [.feedBuf (some [0xAA, 0x55, 64])]).1
          ((wire (List.replicate 12 heartbeat)).take 66)).1
        ((wire (List.replicate 12 heartbeat)).drop 66)).2 = late ∧
      ∀ before f after, early = before ++ f :: after → (wire before).length < 66 := by
  have hone : ∀ f ∈ List.replicate 12 heartbeat, f = heartbeat :=
    fun f hf => List.eq_of_mem_replicate hf
  exact resync_within_66 blankParser [.feedBuf (some [0xAA, 0x55, 64])] (List.replicate 12 heartbeat)
    (fun f hf => by rw [hone f hf]; decide)
    (fun f hf => by rw [hone f hf, HeaderOnce]; decide +kernel)

end EdgeGateway
