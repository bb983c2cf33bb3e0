import EdgeGateway.App.HttpCore

set_option autoImplicit false

/-! # Query strings

`decodeUrl` undoes every percent-encoding of a text without NUL, in upper or lower case, with `+`
or `%20` for a space and with literal characters wherever the format allows them
(`decodeUrl_encodes`). So the parameters of an encoded query are its last values
(`parseParams_encodes`). The loop of `handleHttp` over the target is a loop over positions; it ends
after at most as many rounds as the target has bytes (`paramLoop_eq`).
-/

namespace EdgeGateway

/-! ## Percent-encoding -/

/-- `c` is the hexadecimal digit of value `n`, in either case. -/
def HexOf (n : Nat) (c : UInt8) : Prop :=
  (bytes "0123456789abcdef")[n]? = some c ∨ (bytes "0123456789ABCDEF")[n]? = some c

instance (n : Nat) (c : UInt8) : Decidable (HexOf n c) := inferInstanceAs (Decidable (_ ∨ _))

theorem hexDigit?_eq_some {n : Nat} {c : UInt8} : hexDigit? c = some n ↔ HexOf n c := by
  constructor
  · have hall : ∀ m < 256, ∀ n ∈ hexDigit? (UInt8.ofNat m), HexOf n (UInt8.ofNat m) := by
      decide +kernel
    intro h
    have := hall c.toNat c.toNat_lt n
    rw [UInt8.ofNat_toNat] at this
    exact this h
  · have hlower : ∀ n < 16, ∀ c ∈ (bytes "0123456789abcdef")[n]?, hexDigit? c = some n := by
      decide +kernel
    have hupper : ∀ n < 16, ∀ c ∈ (bytes "0123456789ABCDEF")[n]?, hexDigit? c = some n := by
      decide +kernel
    intro h
    rcases h with h | h
    · obtain ⟨hn, -⟩ := List.getElem?_eq_some_iff.mp h
      exact hlower n hn c h
    · obtain ⟨hn, -⟩ := List.getElem?_eq_some_iff.mp h
      exact hupper n hn c h

/-- `code` is an encoding of `text`; `=` may stand for itself in a value. -/
inductive Encodes (value : Bool) : List UInt8 → List UInt8 → Prop
  | nil : Encodes value [] []
  | escape (c hi lo : UInt8) (h l : Nat) (text code : List UInt8) (hhi : HexOf h hi)
      (hlo : HexOf l lo) (hc : c.toNat = h * 16 + l) (hrest : Encodes value text code) :
      Encodes value (c :: text) (37 :: hi :: lo :: code)
  | plus (text code : List UInt8) (hrest : Encodes value text code) :
      Encodes value (32 :: text) (43 :: code)
  | literal (c : UInt8) (text code : List UInt8) (hspecial : c ≠ 37 ∧ c ≠ 43 ∧ c ≠ 38)
      (heq : c = 61 → value = true) (hrest : Encodes value text code) :
      Encodes value (c :: text) (c :: code)

theorem decodeUrl_literal {c : UInt8} (hpercent : c ≠ 37) (hplus : c ≠ 43) (rest : List UInt8) :
    decodeUrl (c :: rest) = decoded c (decodeUrl rest) := by
  rw [decodeUrl.eq_def]
  split
  · rename_i heq
    exact absurd heq (by simp)
  · rename_i heq
    exact absurd (List.cons.inj heq).1 hpercent
  · rename_i heq
    exact absurd (List.cons.inj heq).1 hpercent
  · rename_i heq
    exact absurd (List.cons.inj heq).1 hplus
  · rename_i heq
    obtain ⟨rfl, rfl⟩ := List.cons.inj heq
    rfl

theorem decoded_some {c : UInt8} (h : c ≠ 0) (text : List UInt8) :
    decoded c (some text) = some (c :: text) :=
  if_neg h

/-- **Decoding undoes encoding.** -/
theorem decodeUrl_encodes {value : Bool} {text code : List UInt8} (h : Encodes value text code)
    (hnul : 0 ∉ text) : decodeUrl code = some text := by
  induction h with
  | nil => rfl
  | escape c hi lo h l text code hhi hlo hc _ ih =>
      rw [List.mem_cons, not_or] at hnul
      have hchar : UInt8.ofNat (h * 16 + l) = c := by rw [← hc, UInt8.ofNat_toNat]
      simp only [decodeUrl, hexDigit?_eq_some.mpr hhi, hexDigit?_eq_some.mpr hlo, hchar,
        ih hnul.2]
      exact decoded_some (Ne.symm hnul.1) text
  | plus text code _ ih =>
      rw [List.mem_cons, not_or] at hnul
      simp only [decodeUrl, ih hnul.2]
      exact decoded_some (by decide) text
  | literal c text code hspecial _ _ ih =>
      rw [List.mem_cons, not_or] at hnul
      rw [decodeUrl_literal hspecial.1 hspecial.2.1, ih hnul.2]
      exact decoded_some (Ne.symm hnul.1) text

/-- An encoding holds no `&`, and no `=` outside values. -/
theorem Encodes.separators {value : Bool} {text code : List UInt8} (h : Encodes value text code) :
    38 ∉ code ∧ (value = false → 61 ∉ code) := by
  have hhex : ∀ c ∈ bytes "0123456789abcdef" ++ bytes "0123456789ABCDEF", c ≠ 38 ∧ c ≠ 61 := by
    decide +kernel
  have hdigit : ∀ {n c}, HexOf n c → c ≠ 38 ∧ c ≠ 61 := by
    intro n c hc
    refine hhex c (List.mem_append.mpr ?_)
    rcases hc with hc | hc
    · exact Or.inl (List.mem_of_getElem? hc)
    · exact Or.inr (List.mem_of_getElem? hc)
  induction h with
  | nil => simp
  | escape c hi lo h l text code hhi hlo _ _ ih =>
      have h1 := hdigit hhi
      have h2 := hdigit hlo
      simp only [List.mem_cons, not_or]
      exact ⟨⟨by decide, h1.1.symm, h2.1.symm, ih.1⟩,
        fun hv => ⟨by decide, h1.2.symm, h2.2.symm, ih.2 hv⟩⟩
  | plus text code _ ih =>
      simp only [List.mem_cons, not_or]
      exact ⟨⟨by decide, ih.1⟩, fun hv => ⟨by decide, ih.2 hv⟩⟩
  | literal c text code hspecial heq _ ih =>
      simp only [List.mem_cons, not_or]
      refine ⟨⟨hspecial.2.2.symm, ih.1⟩, fun hv => ⟨fun h61 => ?_, ih.2 hv⟩⟩
      rw [heq h61.symm] at hv
      exact absurd hv (by simp)

/-! ## Parameters -/

/-- The value given last, empty when there is none. -/
def lastValue (key : List UInt8) (pairs : List (List UInt8 × List UInt8)) : List UInt8 :=
  ((pairs.filter fun pair => pair.1 = key).getLast?.map Prod.snd).getD []

/-- `parts` are encodings of `pairs`, with parts between them that say nothing. -/
inductive EncodesParts : List (List UInt8 × List UInt8) → List (List UInt8) → Prop
  | nil : EncodesParts [] []
  | pair (key value keyCode valueCode : List UInt8) (pairs : List (List UInt8 × List UInt8))
      (parts : List (List UInt8)) (hkeyNul : 0 ∉ key) (hvalueNul : 0 ∉ value)
      (hkey : Encodes false key keyCode) (hvalue : Encodes true value valueCode)
      (hrest : EncodesParts pairs parts) :
      EncodesParts ((key, value) :: pairs) ((keyCode ++ 61 :: valueCode) :: parts)
  | noise (part : List UInt8) (pairs : List (List UInt8 × List UInt8)) (parts : List (List UInt8))
      (heq : 61 ∉ part) (hamp : 38 ∉ part) (hrest : EncodesParts pairs parts) :
      EncodesParts pairs (part :: parts)

/-- The parts as one query string. -/
def joinParts (parts : List (List UInt8)) : List UInt8 := [38].intercalate parts

theorem takeWhile_before {c : UInt8} {front : List UInt8} (h : c ∉ front) (back : List UInt8) :
    (front ++ c :: back).takeWhile (· ≠ c) = front := by
  rw [List.takeWhile_append_of_pos (fun x hx => by
    simpa using fun heq : x = c => h (heq ▸ hx)), List.takeWhile_cons_of_neg (by simp),
    List.append_nil]

theorem dropWhile_before {c : UInt8} {front : List UInt8} (h : c ∉ front) (back : List UInt8) :
    (front ++ c :: back).dropWhile (· ≠ c) = c :: back := by
  rw [List.dropWhile_append_of_pos (fun x hx => by
    simpa using fun heq : x = c => h (heq ▸ hx)), List.dropWhile_cons_of_neg (by simp)]

theorem addParam_encodes {key value keyCode valueCode : List UInt8} (hkeyNul : 0 ∉ key)
    (hvalueNul : 0 ∉ value) (hkey : Encodes false key keyCode)
    (hvalue : Encodes true value valueCode) (params : Params) :
    addParam params (keyCode ++ 61 :: valueCode) = some (Function.update params key value) := by
  have heq := hkey.separators.2 rfl
  rw [addParam, if_pos (by simp), takeWhile_before heq, dropWhile_before heq, List.tail_cons,
    decodeUrl_encodes hkey hkeyNul, decodeUrl_encodes hvalue hvalueNul]
  rfl

theorem foldlM_encodes {pairs : List (List UInt8 × List UInt8)} {parts : List (List UInt8)}
    (h : EncodesParts pairs parts) (params : Params) :
    parts.foldlM addParam params
      = some (pairs.foldl (fun params pair => Function.update params pair.1 pair.2) params) := by
  induction h generalizing params with
  | nil => rfl
  | pair key value keyCode valueCode pairs parts hkeyNul hvalueNul hkey hvalue _ ih =>
      rw [List.foldlM_cons, addParam_encodes hkeyNul hvalueNul hkey hvalue]
      exact ih _
  | noise part pairs parts heq _ _ ih =>
      rw [List.foldlM_cons, addParam, if_neg heq]
      exact ih params

theorem foldl_lastValue (pairs : List (List UInt8 × List UInt8)) (key : List UInt8) :
    pairs.foldl (fun params pair => Function.update params pair.1 pair.2) (fun _ => []) key
      = lastValue key pairs := by
  induction pairs using List.reverseRecOn with
  | nil => rfl
  | append_singleton pairs pair ih =>
      rw [List.foldl_append, lastValue, List.filter_append]
      by_cases h : pair.1 = key
      · simp [h]
      · have hother : key ≠ pair.1 := Ne.symm h
        simp only [List.foldl_cons, List.foldl_nil, Function.update_of_ne hother, ih]
        simp [lastValue, h]

theorem EncodesParts.no_amp {pairs : List (List UInt8 × List UInt8)} {parts : List (List UInt8)}
    (h : EncodesParts pairs parts) : ∀ part ∈ parts, 38 ∉ part := by
  induction h with
  | nil => simp
  | pair key value keyCode valueCode pairs parts _ _ hkey hvalue _ ih =>
      refine List.forall_mem_cons.mpr ⟨?_, ih⟩
      simp only [List.mem_append, List.mem_cons, not_or]
      exact ⟨hkey.separators.1, by decide, hvalue.separators.1⟩
  | noise part pairs parts _ hamp _ ih => exact List.forall_mem_cons.mpr ⟨hamp, ih⟩

/-- **The parameters of an encoded query** are the last values given. -/
theorem parseParams_encodes {pairs : List (List UInt8 × List UInt8)} {parts : List (List UInt8)}
    (h : EncodesParts pairs parts) :
    parseParams (joinParts parts) = some fun key => lastValue key pairs := by
  have hparams : parts.foldlM addParam (fun _ => []) = some fun key => lastValue key pairs := by
    rw [foldlM_encodes h]
    congr 1
    funext key
    exact foldl_lastValue pairs key
  by_cases hnil : parts = []
  · -- the empty query has one part, which says nothing
    subst hnil
    exact hparams
  · rw [parseParams, joinParts, List.splitOn_intercalate 38 h.no_amp hnil]
    exact hparams

example : (parseParams (bytes "dev=a%4b+&x&&n=5&n==%3D")).map
    (fun params => (params (bytes "dev"), params (bytes "n"))) = some (bytes "aK ", bytes "==") := by
  decide +kernel

/-! ## Bad escapes -/

/-- What follows a `%` makes a character other than NUL of it. -/
def GoodEscape (rest : List UInt8) : Prop :=
  ∃ hi lo tail h l, rest = hi :: lo :: tail ∧ HexOf h hi ∧ HexOf l lo ∧ h * 16 + l ≠ 0

/-- The text holds an escape that is malformed or stands for NUL. -/
def BadEscape (text : List UInt8) : Prop :=
  ∃ front rest, text = front ++ 37 :: rest ∧ ¬ GoodEscape rest

theorem GoodEscape.append {rest : List UInt8} (h : GoodEscape rest) (back : List UInt8) :
    GoodEscape (rest ++ back) := by
  obtain ⟨hi, lo, tail, h, l, rfl, hall⟩ := h
  exact ⟨hi, lo, tail ++ back, h, l, rfl, hall⟩

theorem HexOf.ne_percent {n : Nat} {c : UInt8} (h : HexOf n c) : c ≠ 37 := by
  rintro rfl
  have hnone : hexDigit? 37 = none := by decide
  rw [hexDigit?_eq_some.mpr h] at hnone
  exact absurd hnone (by simp)

theorem decoded_eq_some {c : UInt8} {rest : Option (List UInt8)} {out : List UInt8}
    (h : decoded c rest = some out) : c ≠ 0 ∧ ∃ text, rest = some text := by
  unfold decoded at h
  by_cases hc : c = 0
  · rw [if_pos hc] at h
    exact absurd h (by simp)
  · rw [if_neg hc, Option.map_eq_some_iff] at h
    obtain ⟨text, htext, -⟩ := h
    exact ⟨hc, text, htext⟩

/-- In a text that is decoded every `%` starts an escape: digits are no `%`. -/
theorem decodeUrl_good {text out : List UInt8} (h : decodeUrl text = some out) :
    ∀ front rest, text = front ++ 37 :: rest → GoodEscape rest := by
  induction text using decodeUrl.induct generalizing out with
  | case1 =>
      intro front rest heq
      exact absurd heq (by simp)
  | case2 hi lo tail n m hlo hhi ih =>
      simp only [decodeUrl, hhi, hlo] at h
      obtain ⟨hc, text, htext⟩ := decoded_eq_some h
      have hhi' := hexDigit?_eq_some.mp hhi
      have hlo' := hexDigit?_eq_some.mp hlo
      have hne : n * 16 + m ≠ 0 := fun hz => hc (by rw [hz]; rfl)
      intro front rest heq
      rcases front with _ | ⟨a, _ | ⟨b, _ | ⟨c, front⟩⟩⟩
      · obtain ⟨-, rfl⟩ := List.cons.inj heq
        exact ⟨hi, lo, tail, n, m, rfl, hhi', hlo', hne⟩
      · simp only [List.cons_append, List.nil_append, List.cons.injEq] at heq
        exact absurd heq.2.1 hhi'.ne_percent
      · simp only [List.cons_append, List.nil_append, List.cons.injEq] at heq
        exact absurd heq.2.2.1 hlo'.ne_percent
      · simp only [List.cons_append, List.cons.injEq] at heq
        exact ih htext front rest heq.2.2.2
  | case3 hi lo tail hbad =>
      rw [decodeUrl] at h
      split at h
      · rename_i n m hhi hlo
        exact (hbad n m hhi hlo).elim
      · exact absurd h (by simp)
  | case4 tail hshort =>
      have hnone : decodeUrl (37 :: tail) = none := by
        rcases tail with _ | ⟨a, _ | ⟨b, tail⟩⟩
        · rfl
        · rfl
        · exact (hshort a b tail rfl).elim
      rw [hnone] at h
      exact absurd h (by simp)
  | case5 tail ih =>
      simp only [decodeUrl] at h
      obtain ⟨-, text, htext⟩ := decoded_eq_some h
      intro front rest heq
      cases front with
      | nil => exact absurd (List.cons.inj heq).1 (by decide)
      | cons a front => exact ih htext front rest (List.cons.inj heq).2
  | case6 c tail _ hpercent hplus ih =>
      rw [decodeUrl_literal hpercent hplus] at h
      obtain ⟨-, text, htext⟩ := decoded_eq_some h
      intro front rest heq
      cases front with
      | nil => exact (hpercent (List.cons.inj heq).1).elim
      | cons a front => exact ih htext front rest (List.cons.inj heq).2

theorem decodeUrl_bad {text : List UInt8} (h : BadEscape text) : decodeUrl text = none := by
  obtain ⟨front, rest, heq, hbad⟩ := h
  cases hout : decodeUrl text with
  | none => rfl
  | some out => exact absurd (decodeUrl_good hout front rest heq) hbad

/-- A bad escape in `key=value` is one in the key or one in the value: `=` is no digit. -/
theorem BadEscape.split {key value : List UInt8} (h : BadEscape (key ++ 61 :: value)) :
    BadEscape key ∨ BadEscape value := by
  obtain ⟨front, rest, heq, hbad⟩ := h
  rcases List.append_eq_append_iff.mp heq with ⟨mid, hfront, hmid⟩ | ⟨mid, hkey, hmid⟩
  · cases mid with
    | nil => exact absurd (List.cons.inj hmid).1 (by decide)
    | cons a mid => exact Or.inr ⟨mid, rest, (List.cons.inj hmid).2, hbad⟩
  · cases mid with
    | nil => exact absurd (List.cons.inj hmid).1 (by decide)
    | cons a mid =>
        obtain ⟨rfl, hrest⟩ := List.cons.inj hmid
        refine Or.inl ⟨front, mid, hkey, fun hgood => hbad ?_⟩
        rw [hrest]
        exact hgood.append _

theorem addParam_bad {part : List UInt8} (heq : 61 ∈ part) (hbad : BadEscape part)
    (params : Params) : addParam params part = none := by
  obtain ⟨key, value, rfl, hkey⟩ := List.eq_append_cons_of_mem heq
  rw [addParam, if_pos heq, takeWhile_before hkey, dropWhile_before hkey, List.tail_cons]
  rcases hbad.split with hbad | hbad
  · rw [decodeUrl_bad hbad]
    rfl
  · rw [decodeUrl_bad hbad]
    cases decodeUrl key <;> rfl

/-- One bad escape in a `key=value` part spoils the query. -/
theorem parseParams_bad {query : List UInt8}
    (h : ∃ part ∈ query.splitOn 38, 61 ∈ part ∧ BadEscape part) : parseParams query = none := by
  have hfold : ∀ (parts : List (List UInt8)) (params : Params),
      (∃ part ∈ parts, 61 ∈ part ∧ BadEscape part) → parts.foldlM addParam params = none := by
    intro parts
    induction parts with
    | nil =>
        intro params hex
        obtain ⟨part, hmem, -⟩ := hex
        exact absurd hmem (by simp)
    | cons part parts ih =>
        intro params hex
        obtain ⟨bad, hmem, heq, hbad⟩ := hex
        rw [List.foldlM_cons]
        rcases List.mem_cons.mp hmem with rfl | hmem
        · rw [addParam_bad heq hbad]
          rfl
        · cases addParam params part with
          | none => rfl
          | some params => exact ih params ⟨bad, hmem, heq, hbad⟩
  exact hfold _ _ h

/-! ## The loop over the target -/

/-- `std::string::find` of a character from a position on. -/
def findFrom (text : List UInt8) (c : UInt8) (pos : Nat) : Option Nat :=
  if c ∈ text.drop pos then some (pos + ((text.drop pos).takeWhile (· ≠ c)).length) else none

/-- The loop of `handleHttp` over the positions of the target, for at most `fuel` rounds: the
parameters, or `some none` where it replies 400. -/
def paramLoop (target : List UInt8) : Nat → Nat → Params → Option (Option Params)
  | 0, _, _ => none
  | fuel + 1, pos, params =>
      if pos < target.length then
        let last := (findFrom target 38 pos).getD target.length
        let part := (target.drop pos).take (last - pos)
        match addParam params part with
        | none => some none
        | some params => paramLoop target fuel (last + 1) params
      else some (some params)

theorem findFrom_before {text front back : List UInt8} {c : UInt8} {pos : Nat}
    (h : text.drop pos = front ++ c :: back) (hfront : c ∉ front) :
    findFrom text c pos = some (pos + front.length) := by
  rw [findFrom, h, if_pos (by simp), takeWhile_before hfront]

/-- **The loop ends**, and it reads the parts one by one. -/
theorem paramLoop_eq (target : List UInt8) (fuel pos : Nat) (params : Params)
    (hpos : pos ≤ target.length) (hfuel : target.length - pos < fuel) :
    paramLoop target fuel pos params
      = some (((target.drop pos).splitOn 38).foldlM addParam params) := by
  induction fuel generalizing pos params with
  | zero => omega
  | succ fuel ih =>
      by_cases hlt : pos < target.length
      · have hcount : (target.drop pos).length = target.length - pos := List.length_drop
        rw [paramLoop, if_pos hlt]
        by_cases hamp : 38 ∈ target.drop pos
        · obtain ⟨front, back, hsplit, hfront⟩ := List.eq_append_cons_of_mem hamp
          have hback : target.drop (pos + front.length + 1) = back := by
            rw [Nat.add_assoc, ← List.drop_drop, hsplit, List.drop_append]
            simp
          have hpart : (target.drop pos).take (pos + front.length - pos) = front := by
            rw [hsplit, Nat.add_sub_cancel_left, List.take_left']
            rfl
          rw [hsplit, List.length_append, List.length_cons] at hcount
          simp only [findFrom_before hsplit hfront, Option.getD_some, hpart]
          rw [hsplit, List.splitOn_append_cons_self_of_not_mem hfront, List.foldlM_cons]
          cases addParam params front with
          | none => rfl
          | some params =>
              have hrest := ih (pos + front.length + 1) params (by omega) (by omega)
              rw [hback] at hrest
              exact hrest
        · have hnone : findFrom target 38 pos = none := if_neg hamp
          have hpart : (target.drop pos).take (target.length - pos) = target.drop pos :=
            List.take_of_length_le hcount.le
          simp only [hnone, Option.getD_none, hpart]
          rw [List.splitOn_eq_singleton hamp, List.foldlM_cons]
          cases addParam params (target.drop pos) with
          | none => rfl
          | some params =>
              -- one more round finds the end
              obtain ⟨n, rfl⟩ := Nat.exists_eq_add_of_le' (show 1 ≤ fuel by omega)
              show paramLoop target (n + 1) (target.length + 1) params = _
              rw [paramLoop, if_neg (by omega)]
              rfl
      · have hdrop : target.drop pos = [] := List.drop_of_length_le (by omega)
        rw [paramLoop, if_neg hlt, hdrop]
        rfl

/-! ## Requests for data -/

/-- A GET of `/api/data?<query>`. -/
def dataRequest (query : List UInt8) : HttpRequest := ⟨bytes "GET", bytes "/api/data" ++ 63 :: query⟩

/-- What `handleHttp` makes of it before it looks at the limit on queries. -/
theorem routeHttp_data (asset : WebAsset) (config : HttpRuntimeConfig) (query : List UInt8) :
    routeHttp asset config (dataRequest query)
      = match parseParams query with
        | none => .error invalidQueryEncoding
        | some params =>
            if params (bytes "dev") = [] then .error missingDevParam
            else .ok (params (bytes "dev"), clampReportN (params (bytes "n")) config.reportN) := by
  have hpath : (63 : UInt8) ∉ bytes "/api/data" := by decide
  have hstatic : staticHttpResponse asset (bytes "/api/data") = none := by
    rw [staticHttpResponse, if_neg (by decide), if_neg (by decide), if_neg (by decide)]
  cases hparams : parseParams query with
  | none =>
    simp only [routeHttp, dataRequest, takeWhile_before hpath, dropWhile_before hpath, hstatic,
      List.tail_cons, ne_eq, not_true_eq_false, false_and, if_false, hparams]
  | some params =>
    simp only [routeHttp, dataRequest, takeWhile_before hpath, dropWhile_before hpath, hstatic,
      List.tail_cons, ne_eq, not_true_eq_false, false_and, if_false, hparams]

namespace GatewayCore

variable {δ ν : Type}

/-- One more query may run, and the query executor takes it. -/
def SlotFree (s : GatewayCore δ ν) : Prop :=
  s.queries < kMaxQueries ∧ s.query.closed = false ∧ s.query.tasks.length < kMaxQueries

/-- **Query strings.** With a slot free and a database at hand, a GET of `/api/data` with an
encoded query runs the query for the last `dev` and the clamped last `n`, and it is answered with
400 when there is no `dev` or an empty one. A malformed or NUL-producing escape in a `key=value`
part is answered with 400 and no query. The loop over the target ends. -/
theorem query_string_decoded (asset : WebAsset) (outside : Outside δ) (id : Nat)
    (s : GatewayCore δ ν) :
    (∀ (db : δ) (pairs : List (List UInt8 × List UInt8)) (parts : List (List UInt8)),
      EncodesParts pairs parts → s.SlotFree → outside.database = some db →
      let dev := lastValue (bytes "dev") pairs
      let task : QueryTask δ :=
        ⟨id, db, dev, clampReportN (lastValue (bytes "n") pairs) outside.config.reportN⟩
      let r := s.handleHttp asset outside id (dataRequest (joinParts parts))
      (dev = [] → r = s.reply id missingDevParam) ∧
        (dev ≠ [] → r = { s with queries := s.queries + 1, work := .query task } ∧
          (r.postQuery task).query.tasks = s.query.tasks ++ [task] ∧
          (r.postQuery task).replies = s.replies)) ∧
      (∀ query : List UInt8, (∃ part ∈ query.splitOn 38, 61 ∈ part ∧ BadEscape part) →
        s.handleHttp asset outside id (dataRequest query) = s.reply id invalidQueryEncoding) ∧
      (missingDevParam.status = 400 ∧ invalidQueryEncoding.status = 400) ∧
      ∀ path query : List UInt8, 63 ∉ path →
        let target := path ++ 63 :: query
        paramLoop target (target.length + 1) (path.length + 1) (fun _ => [])
          = some (parseParams query) := by
  refine ⟨fun db pairs parts henc hslot hdb => ?_, fun query hbad => ?_, ⟨rfl, rfl⟩,
    fun path query hpath => ?_⟩
  · intro dev task r
    have hroute := routeHttp_data asset outside.config (joinParts parts)
    rw [parseParams_encodes henc] at hroute
    constructor
    · intro hdev
      have hdev' : lastValue (bytes "dev") pairs = [] := hdev
      show s.handleHttp asset outside id (dataRequest (joinParts parts)) = _
      simp only [handleHttp, hroute, hdev', if_true]
    · intro hdev
      have hdev' : ¬ lastValue (bytes "dev") pairs = [] := hdev
      have hr : r = { s with queries := s.queries + 1, work := .query task } := by
        show s.handleHttp asset outside id (dataRequest (joinParts parts)) = _
        have hlimit : ¬ s.queries ≥ kMaxQueries := by
          have := hslot.1
          omega
        simp only [handleHttp, hroute, hdev', if_false, hlimit, hdb]
        rfl
      have hpost : s.query.post task false
          = some { s.query with tasks := s.query.tasks ++ [task] } := by
        rw [TaskExecutor.post, if_neg]
        have hroom := hslot.2.2
        simp only [hslot.2.1, Bool.false_eq_true, if_false, false_or, Nat.add_zero]
        omega
      refine ⟨hr, ?_, ?_⟩ <;>
        simp only [hr, postQuery, hpost]
  · have hroute := routeHttp_data asset outside.config query
    rw [parseParams_bad hbad] at hroute
    simp only [handleHttp, hroute]
  · intro target
    have hdrop : target.drop (path.length + 1) = query := by
      show (path ++ 63 :: query).drop (path.length + 1) = query
      rw [List.drop_append]
      simp
    have hcount : target.length = path.length + (query.length + 1) := by
      show (path ++ 63 :: query).length = _
      rw [List.length_append, List.length_cons]
    rw [paramLoop_eq target _ _ _ (by omega) (by omega), hdrop]
    rfl

end GatewayCore

end EdgeGateway
