import EdgeGateway.App.GatewayCore
import EdgeGateway.Cloud.CommandTranslator
import EdgeGateway.Link.TrackerRun

set_option autoImplicit false

/-! # The path of a command and of its result

A message is translated, executed by the simulated node, checked by the sender and formatted by the
core. Four parts of the program look at the type of a command on this way, and here they agree:
whatever is translated can be sent, is executed, passes the check and is published as its result.
-/

namespace EdgeGateway

/-! ## The simulated node -/

/-- What `NodeSim::execute` reads and changes: `tick_`, and the period in `opt_`. -/
structure NodeSim where
  tick : UInt32
  periodS : Int

namespace NodeSim

def lux (self : NodeSim) : UInt16 := (100 + self.tick * 7 % 900).toUInt16

def tempX10 (self : NodeSim) : UInt16 := (230 + self.tick % 50).toUInt16

def humiX10 (self : NodeSim) : UInt16 := (500 + self.tick % 200).toUInt16

end NodeSim

def edgePeriodSValid (period : Nat) : Bool := period ≥ EDGE_PERIOD_MIN_S

/-- `NodeSim::execute`; the sequence number is printed only. -/
def NodeSim.execute (_seq type : UInt8) (args : List UInt8) (self : NodeSim) :
    List UInt8 × NodeSim :=
  if type = EDGE_TYPE_QUERY_LIGHT then
    if args.length ≠ 0 then ([EDGE_RC_BAD_PARAM], self)
    else (EDGE_RC_OK :: edgeU16BeWrite self.lux, self)
  else if type = EDGE_TYPE_QUERY_TH then
    if args.length ≠ 0 then ([EDGE_RC_BAD_PARAM], self)
    else (EDGE_RC_OK :: (edgeU16BeWrite self.tempX10 ++ edgeU16BeWrite self.humiX10), self)
  else if type = EDGE_TYPE_SET_PERIOD then
    if args.length = 2 ∧ edgePeriodSValid (edgeU16BeRead args) = true then
      ([EDGE_RC_OK], { self with periodS := edgeU16BeRead args })
    else ([EDGE_RC_BAD_PARAM], self)
  else ([EDGE_RC_UNSUPPORTED], self)

/-! ## Numbers as text -/

/-- `formatValue` of a number of tenths: `%.1f`, without a zero behind the point and without a
point at the end. -/
def formatTenths (tenths : Nat) : String :=
  let s := (toString (tenths / 10) ++ "." ++ toString (tenths % 10)).toList
  let kept := s.rdropWhile (· = '0')
  String.ofList (if kept.getLast? = some '.' then kept.dropLast else kept)

/-- The functions that the core takes from `CommandTranslator` and `Number.h`; the text of an error
has one character for each byte. -/
def coreText : CoreText where
  translate topic payload :=
    (translateCommand topic payload).mapError fun error =>
      String.ofList (error.map fun b => Char.ofNat b.toNat)
  formatValue raw scale := formatTenths (raw * 10 / scale)

/-- `text` is a decimal number with the value `v`: digits, and behind a point, if there is one, more
digits. -/
def DecimalText (text : String) (v : ℚ) : Prop :=
  ∃ whole frac : List Char, whole ≠ [] ∧ (∀ c ∈ whole ++ frac, c.isDigit = true) ∧
    text.toList = whole ++ (if frac = [] then [] else '.' :: frac) ∧
    v = Nat.ofDigitChars 10 whole 0 + (Nat.ofDigitChars 10 frac 0 : ℚ) / 10 ^ frac.length

example : (formatTenths 235, formatTenths 600, formatTenths 0) = ("23.5", "60", "0") := by decide

theorem isDigit_toDigits {n : Nat} {c : Char} (hc : c ∈ Nat.toDigits 10 n) : c.isDigit = true :=
  Nat.isDigit_of_mem_toDigits (b := 10) (by decide) (by decide) hc

theorem decimalText_nat (n : Nat) : DecimalText (toString n) n := by
  refine ⟨Nat.toDigits 10 n, [], Nat.toDigits_ne_nil, ?_, ?_, ?_⟩
  · intro c hc
    rw [List.append_nil] at hc
    exact isDigit_toDigits hc
  · simp
  · simp [Nat.ofDigitChars_ten_toDigits]

/-- **The text has the value of the tenths.** -/
theorem decimalText_formatTenths (tenths : Nat) :
    DecimalText (formatTenths tenths) ((tenths : ℚ) / 10) := by
  have hlt : tenths % 10 < 10 := Nat.mod_lt _ (by decide)
  have hsum : (tenths : ℚ) = ((tenths / 10 : Nat) : ℚ) * 10 + ((tenths % 10 : Nat) : ℚ) := by
    exact_mod_cast (Nat.div_add_mod' tenths 10).symm
  -- the text of `%.1f`
  have htext : (toString (tenths / 10) ++ "." ++ toString (tenths % 10)).toList
      = Nat.toDigits 10 (tenths / 10) ++ ['.'] ++ [(tenths % 10).digitChar] := by
    simp [Nat.toDigits_of_lt_base hlt]
  by_cases hzero : tenths % 10 = 0
  · -- the zero and the point are erased
    have hformat : formatTenths tenths = String.ofList (Nat.toDigits 10 (tenths / 10)) := by
      have hchar : (tenths % 10).digitChar = '0' := by rw [hzero]; rfl
      simp only [formatTenths, htext, hchar]
      rw [List.rdropWhile_concat_pos _ _ _ (by decide),
        List.rdropWhile_concat_neg _ _ _ (by decide)]
      simp
    refine ⟨Nat.toDigits 10 (tenths / 10), [], Nat.toDigits_ne_nil, ?_, ?_, ?_⟩
    · intro c hc
      rw [List.append_nil] at hc
      exact isDigit_toDigits hc
    · simp [hformat]
    · simp [Nat.ofDigitChars_ten_toDigits, hsum, hzero]
  · -- nothing is erased
    have hchar : (tenths % 10).digitChar ≠ '0' := fun h => hzero (Nat.digitChar_eq_zero.mp h)
    have hdot : (tenths % 10).digitChar ≠ '.' := by
      intro h
      have hvalue := Nat.toNat_digitChar_sub_48_of_lt_ten hlt
      rw [h] at hvalue
      exact hzero hvalue.symm
    have hformat : formatTenths tenths = String.ofList
        (Nat.toDigits 10 (tenths / 10) ++ ['.'] ++ [(tenths % 10).digitChar]) := by
      simp only [formatTenths, htext]
      rw [List.rdropWhile_concat_neg _ _ _ (by simpa using hchar)]
      simp [hdot]
    refine ⟨Nat.toDigits 10 (tenths / 10), Nat.toDigits 10 (tenths % 10), Nat.toDigits_ne_nil,
      ?_, ?_, ?_⟩
    · intro c hc
      rcases List.mem_append.mp hc with hc | hc
      · exact isDigit_toDigits hc
      · exact isDigit_toDigits hc
    · simp [hformat, Nat.toDigits_of_lt_base hlt]
    · rw [Nat.ofDigitChars_ten_toDigits, Nat.ofDigitChars_ten_toDigits, hsum,
        Nat.toDigits_of_lt_base hlt, List.length_singleton]
      ring

/-! ## From the message to its answer -/

theorem edgeU16BeRead_write (v : UInt16) (rest : List UInt8) :
    edgeU16BeRead (edgeU16BeWrite v ++ rest) = v.toNat := by
  have hlt := v.toNat_lt
  have hwrite := edgeU16BeWrite_ofNat (n := v.toNat) (by omega)
  rw [UInt16.ofNat_toNat] at hwrite
  rw [hwrite]
  simp only [edgeU16BeRead, List.cons_append, List.getD_cons_zero, List.getD_cons_succ,
    UInt8.toNat_ofNat']
  omega

/-- The commands that messages are translated to. -/
theorem translateCommand_ok {topic payload : List UInt8} {cmd : DownCmd}
    (h : translateCommand topic payload = .ok cmd) :
    cmd = ⟨EDGE_TYPE_QUERY_LIGHT, []⟩ ∨ cmd = ⟨EDGE_TYPE_QUERY_TH, []⟩ ∨
      ∃ blanks n, SignedDigits blanks (trimBlanks payload) n ∧ 1 ≤ n ∧ n ≤ 65535 ∧
        cmd = ⟨EDGE_TYPE_SET_PERIOD, edgeU16BeWrite (UInt16.ofNat n.toNat)⟩ := by
  by_cases hperiod : topic.rtakeWhile (· ≠ 47) = bytes "set_period"
  · obtain ⟨v, hv, hlo, hhi, hcmd⟩ := (translateCommand_set_period hperiod).mp h
    obtain ⟨blanks, n, hdigits, rfl⟩ := (parseStrictInt_eq payload v).mp hv
    have hn := saturated_bounds.mp ⟨hlo, hhi⟩
    rw [saturated_eq hn.1 hn.2] at hcmd
    exact .inr (.inr ⟨blanks, n, hdigits, hn.1, hn.2, hcmd⟩)
  · simp only [translateCommand, hperiod, if_false] at h
    split_ifs at h with hlight hth
    · exact .inl (Except.ok.inj h).symm
    · exact .inr (.inl (Except.ok.inj h).symm)

/-- What a message has led to when the node has executed its command: the result is `rc` OK, it
passes the check of the sender, and the core publishes it. -/
structure Executed (payload : List UInt8) (type : UInt8) (node : NodeSim) (session : UInt64)
    (seq : UInt8) (executed : List UInt8 × NodeSim) (message : String × String) : Prop where
  rc : executed.1.head? = some EDGE_RC_OK
  valid : CommandTracker.resultValid type
    (resultPayload session seq type (storedResult executed.1)) = true
  message :
    type = EDGE_TYPE_SET_PERIOD ∧
      (∃ blanks n, SignedDigits blanks (trimBlanks payload) n ∧ executed.2.periodS = n) ∧
      message = ("gateway/ack/" ++ toString seq.toNat, "ok") ∨
    type = EDGE_TYPE_QUERY_LIGHT ∧ executed.1 = EDGE_RC_OK :: edgeU16BeWrite node.lux ∧
      (∃ lux, DecimalText lux node.lux.toNat ∧
        message = ("gateway/resp/" ++ toString seq.toNat, "ok," ++ lux)) ∨
    type = EDGE_TYPE_QUERY_TH ∧
      executed.1 = EDGE_RC_OK :: (edgeU16BeWrite node.tempX10 ++ edgeU16BeWrite node.humiX10) ∧
      ∃ temp humi, DecimalText temp ((node.tempX10.toNat : ℚ) / 10) ∧
        DecimalText humi ((node.humiX10.toNat : ℚ) / 10) ∧
        message = ("gateway/resp/" ++ toString seq.toNat, "ok," ++ temp ++ "," ++ humi)

@[simp] theorem edgeU16BeWrite_length (v : UInt16) : (edgeU16BeWrite v).length = 2 := rfl

theorem storedResult_eq (result : List UInt8) (hne : result ≠ [])
    (hle : result.length ≤ EDGE_SR_RESULT_MAX) : storedResult result = result := by
  have hlen : result.length ≠ 0 := fun h => hne (List.length_eq_zero_iff.mp h)
  rw [storedResult, if_neg (by omega)]

/-- A result `OK` passes the check by its length. -/
theorem resultValid_ok (type : UInt8) (session : UInt64) (seq : UInt8) (data : List UInt8) :
    CommandTracker.resultValid type (resultPayload session seq type (EDGE_RC_OK :: data)) = true ↔
      type = EDGE_TYPE_QUERY_LIGHT ∧ data.length = 2 ∨ type = EDGE_TYPE_QUERY_TH ∧ data.length = 4 ∨
        type = EDGE_TYPE_SET_PERIOD ∧ data.length = 0 := by
  have hlen : (resultPayload session seq type (EDGE_RC_OK :: data)).length = data.length + 11 := by
    simp [resultPayload]
    omega
  have hrc : (resultPayload session seq type (EDGE_RC_OK :: data)).getD 10 0 = EDGE_RC_OK :=
    getD_edgeU64BeWrite_append session _ 2 0
  have hshort : ¬ (data.length + 11 < 11 ∨ EDGE_RC_OK > EDGE_RC_BUSY) := by
    rintro (h | h)
    · omega
    · exact absurd h (by decide)
  rw [CommandTracker.resultValid, hlen, hrc, if_neg hshort, if_neg (not_not.mpr rfl)]
  split_ifs with hlight hth hperiod
  · subst hlight
    simp [show EDGE_TYPE_QUERY_LIGHT ≠ EDGE_TYPE_QUERY_TH by decide,
      show EDGE_TYPE_QUERY_LIGHT ≠ EDGE_TYPE_SET_PERIOD by decide]
  · subst hth
    simp [show EDGE_TYPE_QUERY_TH ≠ EDGE_TYPE_SET_PERIOD by decide, hlight]
  · subst hperiod
    simp [hlight, hth]
  · simp [hlight, hth, hperiod]

theorem formatValue_scale (tenths : Nat) :
    coreText.formatValue tenths EDGE_TEMP_SCALE = formatTenths tenths := by
  simp [coreText, EDGE_TEMP_SCALE]

/-- A command of the translator is answered. -/
theorem answers_translated {topic payload : List UInt8} {cmd : DownCmd}
    (h : translateCommand topic payload = .ok cmd) (node : NodeSim) (session : UInt64)
    (seq : UInt8) :
    Executed payload cmd.type node session seq (node.execute seq cmd.type cmd.arg)
      (finishedMessage coreText ⟨seq, cmd.type,
        (resultPayload session seq cmd.type
          (storedResult (node.execute seq cmd.type cmd.arg).1)).drop 10, ""⟩) := by
  rw [drop_resultPayload]
  rcases translateCommand_ok h with rfl | rfl | ⟨blanks, n, hdigits, hlo, hhi, rfl⟩
  · have hexec : node.execute seq EDGE_TYPE_QUERY_LIGHT [] =
        (EDGE_RC_OK :: edgeU16BeWrite node.lux, node) := rfl
    have hstored := storedResult_eq (EDGE_RC_OK :: edgeU16BeWrite node.lux) (by simp)
      (by simp [EDGE_SR_RESULT_MAX])
    rw [hexec, hstored]
    refine ⟨rfl, ?_, .inr (.inl ⟨rfl, rfl, _, decimalText_nat _, ?_⟩)⟩
    · rw [hstored, resultValid_ok]
      exact .inl ⟨rfl, rfl⟩
    · have hread := edgeU16BeRead_write node.lux []
      rw [List.append_nil] at hread
      rw [← hread]
      rfl
  · have hexec : node.execute seq EDGE_TYPE_QUERY_TH [] =
        (EDGE_RC_OK :: (edgeU16BeWrite node.tempX10 ++ edgeU16BeWrite node.humiX10), node) := rfl
    have hstored := storedResult_eq
      (EDGE_RC_OK :: (edgeU16BeWrite node.tempX10 ++ edgeU16BeWrite node.humiX10))
      (by simp) (by simp [EDGE_SR_RESULT_MAX])
    rw [hexec, hstored]
    refine ⟨rfl, ?_, .inr (.inr ⟨rfl, rfl, _, _, decimalText_formatTenths _,
      decimalText_formatTenths _, ?_⟩)⟩
    · rw [hstored, resultValid_ok]
      exact .inr (.inl ⟨rfl, rfl⟩)
    · have htemp := edgeU16BeRead_write node.tempX10 (edgeU16BeWrite node.humiX10)
      have hhumi := edgeU16BeRead_write node.humiX10 []
      rw [List.append_nil] at hhumi
      rw [← formatValue_scale node.tempX10.toNat, ← formatValue_scale node.humiX10.toNat, ← htemp,
        ← hhumi]
      rfl
  · have hread := edgeU16BeRead_write (UInt16.ofNat n.toNat) []
    have hto : (UInt16.ofNat n.toNat).toNat = n.toNat := Nat.mod_eq_of_lt (by omega)
    rw [List.append_nil, hto] at hread
    have hvalid : edgePeriodSValid (edgeU16BeRead (edgeU16BeWrite (UInt16.ofNat n.toNat)))
        = true := by
      rw [hread, edgePeriodSValid, decide_eq_true_eq, EDGE_PERIOD_MIN_S]
      omega
    have hexec : node.execute seq EDGE_TYPE_SET_PERIOD (edgeU16BeWrite (UInt16.ofNat n.toNat)) =
        ([EDGE_RC_OK], { node with periodS := n }) := by
      have hn : ((n.toNat : Nat) : Int) = n := by omega
      have hlight : EDGE_TYPE_SET_PERIOD ≠ EDGE_TYPE_QUERY_LIGHT := by decide
      have hth : EDGE_TYPE_SET_PERIOD ≠ EDGE_TYPE_QUERY_TH := by decide
      rw [NodeSim.execute, if_neg hlight, if_neg hth, if_pos rfl, if_pos ⟨rfl, hvalid⟩, hread, hn]
    have hstored : storedResult [EDGE_RC_OK] = [EDGE_RC_OK] := rfl
    rw [hexec, hstored]
    refine ⟨rfl, ?_, .inl ⟨rfl, ⟨blanks, n, hdigits, rfl⟩, rfl⟩⟩
    rw [hstored, resultValid_ok]
    exact .inr (.inr ⟨rfl, rfl⟩)

/-! ## From a result to its publication -/

namespace CommandTracker

/-- The type that the tracker expects in a result is that of the entry. -/
def Typed (t : CommandTracker) : Prop :=
  ∀ seq e, t.entries.find? seq = some e → e.type = t.types seq

/-- The type of an entry stays. -/
theorem typed_entryStep {call : TrackerCall} {t : CommandTracker} {seq : UInt8} {e : Entry}
    (ht : Typed t) (h : EntryStep t call seq e)
    (hcall : ∀ type args now, call ≠ .submit type args now) : e.type = t.types seq := by
  cases h with
  | created type args now hsubmit => exact absurd hsubmit (hcall type args now)
  | kept e hentry => exact ht seq e hentry
  | received e hentry => exact ht seq e hentry
  | written send now e _ _ _ _ hentry => exact ht seq e hentry
  | retried now e _ hentry => exact ht seq e hentry

theorem typed_step {call : TrackerCall} {t t' : CommandTracker} {es : List TrackerEvent}
    (hw : WindowInv t) (ht : Typed t) (hstep : TrackerStep t call es t') : Typed t' := by
  intro seq e' h
  have hsame := typed_entryStep ht (entry_step hw hstep h).2
  cases hstep with
  | begun => cases h
  | exhausted _ _ _ _ _ _ hempty =>
      rw [hempty] at h
      cases h
  | submitted type args now hcan =>
      obtain ⟨-, hlt, -⟩ := canSubmit_spec hcan
      change (t.entries.emplace _ _).find? seq = some e' at h
      rw [KeyMap.find?_emplace (hw.next_new hlt)] at h
      show e'.type = Function.update t.types (UInt8.ofNat t.next) type seq
      rw [Function.update_apply]
      split_ifs at h ⊢
      · rw [← Option.some.inj h]
        rfl
      · exact ht seq e' h
  | dataWritten => exact hsame (by simp)
  | receipt => exact hsame (by simp)
  | result => exact hsame (by simp)
  | retried => exact hsame (by simp)
  | _ => exact ht seq e' h

theorem typed_run (calls : List TrackerCall) : Typed (runTracker new calls).1 :=
  run_preserves (fun _ _ _ _ hw ht hstep => typed_step hw ht hstep) calls trackerInv_new.window
    fun _ _ h => by cases h

theorem onOpenAck_finished (t : CommandTracker) (p : List UInt8) (now : TimePoint) :
    (t.onOpenAck p now).2.finished = [] := by
  unfold onOpenAck
  dsimp only
  split_ifs <;> rfl

theorem rollover_finished (t : CommandTracker) (now : TimePoint) (actions : TrackerActions) :
    (t.rollover now actions).2.finished = actions.finished := by
  unfold rollover
  split_ifs
  · exact begin_finished _ _ _ _
  · rfl

/-- A completion carries the result that was checked, and the type it was checked for. -/
theorem onFrame_finished {t : CommandTracker} (ht : Typed t) {type : UInt8} {p : List UInt8}
    {now : TimePoint} {completion : CommandCompletion}
    (h : completion ∈ (t.onFrame type p now).2.finished) :
    resultValid completion.type p = true ∧ completion.result = p.drop 10 ∧
      completion.error = "" := by
  unfold onFrame at h
  dsimp only at h
  split_ifs at h
  · cases h
  · rw [onOpenAck_finished] at h
    cases h
  · cases h
  · cases h
  · cases h
  · cases h
  · -- only the result of a command that was sent completes it
    unfold onResult at h
    split_ifs at h with hbad
    · cases h
    · cases h
    · push Not at hbad
      cases hentry : t.entries.find? (p.getD 8 0) with
      | none =>
          rw [hentry] at h
          cases h
      | some e =>
          rw [hentry] at h
          dsimp only at h
          split_ifs at h
          · cases h
          · rw [rollover_finished] at h
            obtain rfl := List.mem_singleton.mp h
            refine ⟨?_, rfl, rfl⟩
            show resultValid e.type p = true
            rw [ht _ e hentry, ← hbad.2.1]
            simpa using hbad.2.2

end CommandTracker

/-- Publications that differ in the first character differ. -/
theorem text_ne {s s' : String} {c c' : Char} (hs : s.toList.head? = some c)
    (hs' : s'.toList.head? = some c') (hne : c ≠ c') : s ≠ s' := by
  rintro rfl
  exact hne (Option.some.inj (hs.symm.trans hs'))

theorem head_append (s s' : String) {c : Char} (hs : s.toList.head? = some c) :
    (s ++ s').toList.head? = some c := by
  rw [String.toList_append, List.head?_append, hs]
  rfl

/-- A result with another `rc` than OK is published as an error. -/
theorem finishedMessage_error {completion : CommandCompletion} {rc : UInt8} {data : List UInt8}
    (hresult : completion.result = rc :: data) (hrc : rc ≠ EDGE_RC_OK)
    (herror : completion.error = "") :
    finishedMessage coreText completion =
      ("gateway/ack/" ++ toString completion.seq.toNat, "err," ++ toString rc.toNat) := by
  simp [finishedMessage, hresult, herror, hrc]

/-- A successful result is published as such. -/
theorem finishedMessage_ok {completion : CommandCompletion} {data : List UInt8}
    (hresult : completion.result = EDGE_RC_OK :: data) (herror : completion.error = "")
    (hdata : completion.type = EDGE_TYPE_QUERY_LIGHT ∧ data.length = 2 ∨
      completion.type = EDGE_TYPE_QUERY_TH ∧ data.length = 4 ∨
      completion.type = EDGE_TYPE_SET_PERIOD ∧ data.length = 0) :
    (finishedMessage coreText completion).2.toList.head? = some 'o' := by
  have hok : "ok,".toList.head? = some 'o' := rfl
  rcases hdata with ⟨htype, hlen⟩ | ⟨htype, hlen⟩ | ⟨htype, hlen⟩
  · have hmessage : (finishedMessage coreText completion).2 =
        "ok," ++ toString (edgeU16BeRead data) := by
      simp [finishedMessage, hresult, herror, htype, hlen, EDGE_TYPE_QUERY_LIGHT,
        EDGE_TYPE_QUERY_TH]
    rw [hmessage]
    exact head_append _ _ hok
  · have hmessage : (finishedMessage coreText completion).2 =
        "ok," ++ coreText.formatValue (edgeU16BeRead data) EDGE_TEMP_SCALE ++ "," ++
          coreText.formatValue (edgeU16BeRead (data.drop 2)) EDGE_HUMI_SCALE := by
      simp [finishedMessage, hresult, herror, htype, hlen]
    rw [hmessage, String.append_assoc, String.append_assoc]
    exact head_append _ _ hok
  · have hmessage : (finishedMessage coreText completion).2 = "ok" := by
      simp [finishedMessage, hresult, herror, htype, hlen, EDGE_TYPE_SET_PERIOD]
    rw [hmessage]
    rfl

/-- A result that has passed the check is published as an error exactly when its `rc` is one, and
never as invalid. -/
theorem finishedMessage_valid {p : List UInt8} {completion : CommandCompletion}
    (hvalid : CommandTracker.resultValid completion.type p = true)
    (hresult : completion.result = p.drop 10) (herror : completion.error = "") :
    (finishedMessage coreText completion).2 ≠ "invalid_result" ∧
      (finishedMessage coreText completion =
          ("gateway/ack/" ++ toString completion.seq.toNat,
            "err," ++ toString (p.getD 10 0).toNat) ↔
        1 ≤ (p.getD 10 0).toNat ∧ (p.getD 10 0).toNat ≤ 3) := by
  have herr : "err,".toList.head? = some 'e' := rfl
  have hinvalid : "invalid_result".toList.head? = some 'i' := rfl
  unfold CommandTracker.resultValid at hvalid
  by_cases hbad : p.length < 11 ∨ p.getD 10 0 > EDGE_RC_BUSY
  · rw [if_pos hbad] at hvalid
    cases hvalid
  rw [if_neg hbad] at hvalid
  push Not at hbad
  -- the result is not empty, and begins with the `rc` that was checked
  have hcons : completion.result = p.getD 10 0 :: p.drop 11 := by
    rw [hresult, List.drop_eq_getElem_cons (by omega), List.getD_eq_getElem _ _ (by omega)]
  have hbusy : (p.getD 10 0).toNat ≤ EDGE_RC_BUSY.toNat := 
    UInt8.le_iff_toNat_le.mp (UInt8.not_lt.mp hbad.2)
  by_cases hrc : p.getD 10 0 = EDGE_RC_OK
  · rw [hrc] at hcons
    have hdata : completion.type = EDGE_TYPE_QUERY_LIGHT ∧ (p.drop 11).length = 2 ∨
        completion.type = EDGE_TYPE_QUERY_TH ∧ (p.drop 11).length = 4 ∨
        completion.type = EDGE_TYPE_SET_PERIOD ∧ (p.drop 11).length = 0 := by
      rw [if_neg (not_not.mpr hrc)] at hvalid
      rw [List.length_drop]
      split_ifs at hvalid with hlight hth hperiod
      · exact .inl ⟨hlight, by simp_all⟩
      · exact .inr (.inl ⟨hth, by simp_all⟩)
      · exact .inr (.inr ⟨hperiod, by simp_all⟩)
    have hhead := finishedMessage_ok hcons herror hdata
    constructor
    · exact text_ne hhead hinvalid (by decide)
    · constructor
      · intro h
        rw [h] at hhead
        exact absurd (hhead.symm.trans (head_append _ _ herr)) (by decide)
      · rw [hrc]
        intro h
        exact absurd h.1 (by decide)
  · have hpos : 1 ≤ (p.getD 10 0).toNat := by
      rw [Nat.one_le_iff_ne_zero]
      exact fun h => hrc (UInt8.toNat_inj.mp h)
    have hmessage : finishedMessage coreText completion =
        ("gateway/ack/" ++ toString completion.seq.toNat,
          "err," ++ toString (p.getD 10 0).toNat) :=
      finishedMessage_error hcons hrc herror
    constructor
    · rw [hmessage]
      exact text_ne (head_append _ _ herr) hinvalid (by decide)
    · exact iff_of_true hmessage ⟨hpos, hbusy⟩

open CommandTracker in
/-- **Translator, node, sender and core agree.** Every message that is translated gives a command
that the sender takes whenever it takes one at all, and that the node answers; and every completion
that comes from a result is published as an error exactly when its `rc` is one, and never as
invalid. -/
theorem command_path :
    (∀ topic payload cmd, translateCommand topic payload = .ok cmd →
      ∀ (t : CommandTracker) (now : TimePoint) (node : NodeSim) (session : UInt64) (seq : UInt8),
        ((t.submit cmd.type cmd.arg now).2 = none ↔ t.canSubmit = false) ∧
        Executed payload cmd.type node session seq (node.execute seq cmd.type cmd.arg)
          (finishedMessage coreText ⟨seq, cmd.type,
            (resultPayload session seq cmd.type
              (storedResult (node.execute seq cmd.type cmd.arg).1)).drop 10, ""⟩)) ∧
    ∀ calls p now completion,
      completion ∈ ((runTracker new calls).1.onFrame EDGE_TYPE_SR_RESULT p now).2.finished →
      (finishedMessage coreText completion).2 ≠ "invalid_result" ∧
        (finishedMessage coreText completion =
            ("gateway/ack/" ++ toString completion.seq.toNat,
              "err," ++ toString (p.getD 10 0).toNat) ↔
          1 ≤ (p.getD 10 0).toNat ∧ (p.getD 10 0).toNat ≤ 3) := by
  constructor
  · intro topic payload cmd h t now node session seq
    refine ⟨?_, answers_translated h node session seq⟩
    have hargs : ¬ cmd.arg.length > EDGE_SR_ARGS_MAX := by
      rcases translateCommand_ok h with rfl | rfl | ⟨blanks, n, -, -, -, rfl⟩
      · decide
      · decide
      · simp [EDGE_SR_ARGS_MAX]
    unfold submit
    by_cases hcan : t.canSubmit = false
    · simp [hcan]
    · rw [if_neg (not_or.mpr ⟨hcan, hargs⟩)]
      simp [hcan]
  · intro calls p now completion h
    obtain ⟨hvalid, hresult, herror⟩ := onFrame_finished (typed_run calls) h
    exact finishedMessage_valid hvalid hresult herror

theorem command_path_period :
    (finishedMessage coreText ⟨1, EDGE_TYPE_SET_PERIOD, [EDGE_RC_OK], ""⟩ =
        ("gateway/ack/" ++ toString 1, "ok")) ∧
      ∃ blanks n, SignedDigits blanks (trimBlanks (bytes " 12\n")) n ∧
        (NodeSim.execute 1 EDGE_TYPE_SET_PERIOD [0, 12] ⟨3, 2⟩).2.periodS = n := by
  have h := (command_path.1 (bytes "gateway/cmd/set_period") (bytes " 12\n")
    ⟨EDGE_TYPE_SET_PERIOD, [0, 12]⟩ (by decide) CommandTracker.new 0 ⟨3, 2⟩ 7 1).2.message
  rcases h with ⟨-, hperiod, hmessage⟩ | ⟨htype, -⟩ | ⟨htype, -⟩
  · exact ⟨hmessage, hperiod⟩
  · exact absurd htype (by decide)
  · exact absurd htype (by decide)

end EdgeGateway
