import EdgeGateway.App.GatewayApp
import EdgeGateway.Basic.Numerals

set_option autoImplicit false

/-! # Translation of downlink messages

`translateCommand` takes the last level of the topic for the command and checks the payload of
`set_period`. Both ends of the payload lose spaces, tabs, CR and LF; what is left must be a number
to its end for `strtol`, which itself skips white space in front of a number.
-/

namespace EdgeGateway

/-! ## Numbers -/

def parseStrictInt (raw : List UInt8) : Option Int :=
  let s := trimBlanks raw
  if s = [] then none
  else
    let (v, taken) := strtol s
    if taken ≠ s.length then none else some v

/-! ## Commands -/

def EDGE_PERIOD_MIN_S : Nat := 1

def EDGE_PERIOD_MAX_S : Nat := 65535

def edgeU16BeWrite (v : UInt16) : List UInt8 := [(v >>> 8).toUInt8, (v &&& 0xFF).toUInt8]

/-- The result is a command, or the reason of the refusal. -/
def translateCommand (topic payload : List UInt8) : Except (List UInt8) DownCmd :=
  let name := topic.rtakeWhile (· ≠ 47)
  if name = bytes "query_light" then .ok ⟨EDGE_TYPE_QUERY_LIGHT, []⟩
  else if name = bytes "query_th" then .ok ⟨EDGE_TYPE_QUERY_TH, []⟩
  else if name = bytes "set_period" then
    match parseStrictInt payload with
    | none => .error (bytes "set_period 参数不是合法整数: '" ++ payload ++ bytes "'")
    | some period =>
        if period < EDGE_PERIOD_MIN_S ∨ period > EDGE_PERIOD_MAX_S then
          .error (bytes "set_period 超范围: " ++ payload ++ bytes " (允许 " ++
            toDecimal EDGE_PERIOD_MIN_S ++ bytes ".." ++ toDecimal EDGE_PERIOD_MAX_S ++
            bytes " 秒)")
        else .ok ⟨EDGE_TYPE_SET_PERIOD, edgeU16BeWrite (UInt16.ofNat period.toNat)⟩
  else .error (bytes "未知命令: '" ++ name ++ bytes "'")

/-- Every refusal says why. -/
theorem translateCommand_error {topic payload error : List UInt8}
    (h : translateCommand topic payload = .error error) : error ≠ [] := by
  have hbytes : ∀ (front : List UInt8) (back : List UInt8), front ≠ [] → front ++ back ≠ [] :=
    fun front back hne => by simp [hne]
  simp only [translateCommand] at h
  split_ifs at h with h1 h2 h3
  · split at h
    · rw [← Except.error.inj h, List.append_assoc]
      exact hbytes _ _ (by decide)
    · split_ifs at h
      rw [← Except.error.inj h]
      simp only [List.append_assoc]
      exact hbytes _ _ (by decide)
  · rw [← Except.error.inj h, List.append_assoc]
    exact hbytes _ _ (by decide)

/-! ## `set_period` -/

theorem saturated_bounds {n : Int} :
    1 ≤ saturated n ∧ saturated n ≤ 65535 ↔ 1 ≤ n ∧ n ≤ 65535 := by
  simp only [saturated, LONG_MAX]
  omega

theorem saturated_eq {n : Int} (hlo : 1 ≤ n) (hhi : n ≤ 65535) : saturated n = n := by
  simp only [saturated, LONG_MAX]
  omega

/-- White space that is left there is a VT or an FF. -/
theorem signedDigits_head {blanks payload : List UInt8} {n : Int}
    (h : SignedDigits blanks (trimBlanks payload) n) : ∀ c ∈ blanks.head?, c = 11 ∨ c = 12 := by
  intro c hc
  obtain ⟨hspace, sign, digits, hs, -⟩ := h
  cases blanks with
  | nil => simp at hc
  | cons c' blanks =>
    obtain rfl : c' = c := by simpa using hc
    have hblank : isBlank c' = false := trimBlanks_head (by rw [hs]; rfl)
    have hsp := hspace c' (by simp)
    simp only [isBlank, isSpace, decide_eq_true_eq, decide_eq_false_iff_not, ← UInt8.toNat_inj,
      UInt8.reduceToNat] at hblank hsp ⊢
    omega

theorem rtakeWhile_level {topic name : List UInt8} (hname : 47 ∉ name)
    (htopic : topic = name ∨ ∃ front, topic = front ++ 47 :: name) :
    topic.rtakeWhile (· ≠ 47) = name := by
  have hall : ∀ c ∈ name.reverse, decide (c ≠ 47) = true := by
    intro c hc
    have hc' : c ∈ name := by simpa using hc
    simpa using fun heq : c = 47 => hname (heq ▸ hc')
  rw [List.rtakeWhile, List.reverse_eq_iff]
  rcases htopic with rfl | ⟨front, rfl⟩
  · rw [List.takeWhile_eq_self_iff.mpr hall]
  · have hrev : (front ++ 47 :: name).reverse = name.reverse ++ 47 :: front.reverse := by simp
    rw [hrev]
    exact takeWhile_stop hall (by simp)

theorem edgeU16BeWrite_ofNat {n : Nat} (h : n ≤ 65535) :
    edgeU16BeWrite (UInt16.ofNat n) = [UInt8.ofNat (n / 256), UInt8.ofNat (n % 256)] := by
  have hto : (UInt16.ofNat n).toNat = n := Nat.mod_eq_of_lt (by omega)
  simp only [edgeU16BeWrite, List.cons.injEq, and_true, ← UInt8.toNat_inj]
  constructor
  · have hshift : (UInt16.ofNat n >>> 8).toNat = n / 256 := by
      simp [UInt16.toNat_shiftRight, hto, Nat.shiftRight_eq_div_pow]
    simp [hshift]
  · have hand : (UInt16.ofNat n &&& 0xFF).toNat = n % 256 := by
      simpa [hto] using Nat.and_two_pow_sub_one_eq_mod n 8
    rw [UInt16.toNat_toUInt8, hand]
    simp

/-- The integers that the payload may be. -/
theorem parseStrictInt_eq (raw : List UInt8) (v : Int) :
    parseStrictInt raw = some v ↔
      ∃ blanks n, SignedDigits blanks (trimBlanks raw) n ∧ v = saturated n := by
  by_cases hne : trimBlanks raw = []
  · constructor
    · intro h
      simp [parseStrictInt, hne] at h
    · rintro ⟨blanks, n, ⟨-, sign, digits, hs, -, hdig, -⟩, -⟩
      rw [hne] at hs
      simp [hdig] at hs
  · rw [← strtol_full hne v]
    simp only [parseStrictInt, hne, if_false]
    constructor
    · intro h
      split_ifs at h with htaken
      exact Prod.ext (Option.some.inj h) (not_not.mp htaken)
    · intro h
      rw [h]
      simp

theorem translateCommand_set_period {topic payload : List UInt8} {cmd : DownCmd}
    (hname : topic.rtakeWhile (· ≠ 47) = bytes "set_period") :
    translateCommand topic payload = .ok cmd ↔ ∃ v, parseStrictInt payload = some v ∧
      1 ≤ v ∧ v ≤ 65535 ∧
      cmd = ⟨EDGE_TYPE_SET_PERIOD, edgeU16BeWrite (UInt16.ofNat v.toNat)⟩ := by
  have hlight : bytes "set_period" ≠ bytes "query_light" := by decide
  have hth : bytes "set_period" ≠ bytes "query_th" := by decide
  simp only [translateCommand, hname, hlight, hth, if_false, if_true]
  cases hparse : parseStrictInt payload with
  | none => simp
  | some v =>
    dsimp only
    have hmin : (EDGE_PERIOD_MIN_S : Int) = 1 := rfl
    have hmax : (EDGE_PERIOD_MAX_S : Int) = 65535 := rfl
    by_cases hrange : v < EDGE_PERIOD_MIN_S ∨ v > EDGE_PERIOD_MAX_S
    · rw [if_pos hrange]
      constructor
      · intro h
        cases h
      · rintro ⟨v', hv, hlo, hhi, -⟩
        obtain rfl := Option.some.inj hv
        omega
    · rw [if_neg hrange]
      constructor
      · intro h
        exact ⟨v, rfl, by omega, by omega, (Except.ok.inj h).symm⟩
      · rintro ⟨v', hv, -, -, rfl⟩
        rw [Option.some.inj hv]

/-- On a topic whose last level is `set_period`, the payload is taken exactly when between its
blanks it is a number from 1 to 65535. In front of the number `strtol` also skips white space that
begins with a VT or an FF, which are no blanks. Every other payload is refused with a reason. -/
theorem set_period_grammar {topic : List UInt8}
    (htopic : topic = bytes "set_period" ∨ ∃ front, topic = front ++ 47 :: bytes "set_period")
    (payload : List UInt8) :
    (∀ cmd, translateCommand topic payload = .ok cmd ↔ ∃ blanks n,
      (∀ c ∈ blanks.head?, c = 11 ∨ c = 12) ∧ SignedDigits blanks (trimBlanks payload) n ∧
      1 ≤ n ∧ n ≤ 65535 ∧
      cmd = ⟨EDGE_TYPE_SET_PERIOD, [UInt8.ofNat (n.toNat / 256), UInt8.ofNat (n.toNat % 256)]⟩) ∧
    ∀ error, translateCommand topic payload = .error error → error ≠ [] := by
  refine ⟨fun cmd => ?_, fun error => translateCommand_error⟩
  have hname := rtakeWhile_level (by decide) htopic
  simp only [translateCommand_set_period hname, parseStrictInt_eq]
  constructor
  · rintro ⟨v, ⟨blanks, n, hdigits, rfl⟩, hlo, hhi, rfl⟩
    have hn := saturated_bounds.mp ⟨hlo, hhi⟩
    refine ⟨blanks, n, signedDigits_head hdigits, hdigits, hn.1, hn.2, ?_⟩
    rw [saturated_eq hn.1 hn.2, edgeU16BeWrite_ofNat (by omega)]
  · rintro ⟨blanks, n, -, hdigits, hlo, hhi, rfl⟩
    have hsat := saturated_eq hlo hhi
    refine ⟨n, ⟨blanks, n, hdigits, hsat.symm⟩, hlo, hhi, ?_⟩
    rw [edgeU16BeWrite_ofNat (by omega)]

theorem set_period_grammar_padded :
    ∃ blanks n, (∀ c ∈ blanks.head?, c = 11 ∨ c = 12) ∧
      SignedDigits blanks (trimBlanks (bytes " +0012\r\n")) n ∧ 1 ≤ n ∧ n ≤ 65535 ∧
      (⟨EDGE_TYPE_SET_PERIOD, [0, 12]⟩ : DownCmd) =
        ⟨EDGE_TYPE_SET_PERIOD, [UInt8.ofNat (n.toNat / 256), UInt8.ofNat (n.toNat % 256)]⟩ :=
  ((set_period_grammar
    (show _ ∨ ∃ front, bytes "gateway/cmd/set_period" = front ++ 47 :: bytes "set_period" from
      .inr ⟨bytes "gateway/cmd", by decide⟩) (bytes " +0012\r\n")).1 _).mp (by decide)

/-- A VT in front of the digit is no blank, and still the payload is taken. -/
theorem set_period_grammar_vt :
    ¬ ∀ topic payload, (∃ front, topic = front ++ 47 :: bytes "set_period") →
      ((∃ cmd, translateCommand topic payload = .ok cmd) ↔
        ∃ n, SignedDigits [] (trimBlanks payload) n ∧ 1 ≤ n ∧ n ≤ 65535) := by
  intro h
  obtain ⟨n, ⟨-, sign, digits, hs, hsign, -, hdigits, -⟩, -⟩ :=
    (h (bytes "gateway/cmd/set_period") [11, 53] ⟨bytes "gateway/cmd", by decide⟩).mp
      ⟨⟨EDGE_TYPE_SET_PERIOD, [0, 5]⟩, by decide⟩
  have hvt : (sign ++ digits).head? = some 11 := by
    rw [List.nil_append] at hs
    rw [← hs]
    decide
  rcases hsign with rfl | rfl | rfl
  · exact absurd (hdigits 11 (List.mem_of_mem_head? hvt)) (by decide)
  · simp at hvt
  · simp at hvt

end EdgeGateway
