import EdgeGateway.Basic.Numerals
import Mathlib.Data.Rat.Defs

set_option autoImplicit false

/-! # JSON texts as bytes

A recursive descent through the JSON grammar. A byte from `0x80` on is a character of a string like
any other, a control character is not. A string is read as the bytes it stands for, a number as
the rational it denotes; members keep their order. `parse` takes a text to its end or not at all.
-/

namespace EdgeGateway

inductive Json
  | null
  | bool (b : Bool)
  | num (q : ℚ)
  | str (s : List UInt8)
  | arr (elements : List Json)
  | obj (members : List (List UInt8 × Json))

namespace Json

/-! ## Strings -/

/-- A character of a string: a byte, or a code unit that was written with `\u`. -/
inductive StrChar
  | byte (b : UInt8)
  | unit (u : Nat)

/-- A high surrogate joins the low one behind it. -/
def StrChar.join : StrChar → List StrChar → List StrChar
  | .unit hi, .unit lo :: rest =>
      if 0xD800 ≤ hi ∧ hi < 0xDC00 ∧ 0xDC00 ≤ lo ∧ lo < 0xE000 then
        .unit (0x10000 + (hi - 0xD800) * 0x400 + (lo - 0xDC00)) :: rest
      else .unit hi :: .unit lo :: rest
  | c, rest => c :: rest

/-- UTF-8. -/
def StrChar.bytes : StrChar → List UInt8
  | .byte b => [b]
  | .unit u =>
      if u < 0x80 then [UInt8.ofNat u]
      else if u < 0x800 then [UInt8.ofNat (0xC0 + u / 64), UInt8.ofNat (0x80 + u % 64)]
      else if u < 0x10000 then
        [UInt8.ofNat (0xE0 + u / 4096), UInt8.ofNat (0x80 + u / 64 % 64),
          UInt8.ofNat (0x80 + u % 64)]
      else
        [UInt8.ofNat (0xF0 + u / 262144), UInt8.ofNat (0x80 + u / 4096 % 64),
          UInt8.ofNat (0x80 + u / 64 % 64), UInt8.ofNat (0x80 + u % 64)]

/-- The bytes that a string stands for. -/
def unescape (s : List StrChar) : List UInt8 := (s.foldr StrChar.join []).flatMap StrChar.bytes

def hexValue? (c : UInt8) : Option Nat :=
  if 48 ≤ c.toNat ∧ c.toNat ≤ 57 then some (c.toNat - 48)
  else if 97 ≤ c.toNat ∧ c.toNat ≤ 102 then some (c.toNat - 87)
  else if 65 ≤ c.toNat ∧ c.toNat ≤ 70 then some (c.toNat - 55)
  else none

/-- The code unit of `\u` and four hexadecimal digits. -/
def codeUnit? (a b c d : UInt8) : Option Nat :=
  match hexValue? a, hexValue? b, hexValue? c, hexValue? d with
  | some a, some b, some c, some d => some (4096 * a + 256 * b + 16 * c + d)
  | _, _, _, _ => none

/-- The byte that a backslash and `c` stand for. -/
def escaped? (c : UInt8) : Option UInt8 :=
  if c = 34 ∨ c = 92 ∨ c = 47 then some c
  else if c = 98 then some 8
  else if c = 102 then some 12
  else if c = 110 then some 10
  else if c = 114 then some 13
  else if c = 116 then some 9
  else none

/-- A string behind its opening quote, up to the closing one, and what follows. -/
def string : List UInt8 → Option (List StrChar × List UInt8)
  | [] => none
  | 34 :: rest => some ([], rest)
  | 92 :: 117 :: a :: b :: c :: d :: rest =>
      match codeUnit? a b c d, string rest with
      | some u, some (s, rest) => some (.unit u :: s, rest)
      | _, _ => none
  | 92 :: e :: rest =>
      match escaped? e, string rest with
      | some b, some (s, rest) => some (.byte b :: s, rest)
      | _, _ => none
  | c :: rest =>
      if c.toNat < 32 ∨ c = 92 then none
      else (string rest).map (Prod.map (.byte c :: ·) id)

/-! ## Numbers -/

/-- `[ "." 1*DIGIT ]`: the digits. -/
def fraction (s : List UInt8) : Option (List UInt8 × List UInt8) :=
  if s.head? = some 46 then
    let digits := s.tail.takeWhile isDigit
    if digits = [] then none else some (digits, s.tail.dropWhile isDigit)
  else some ([], s)

/-- `[ ("e" / "E") [ "+" / "-" ] 1*DIGIT ]`: the value. -/
def exponent (s : List UInt8) : Option (Int × List UInt8) :=
  if s.head? = some 101 ∨ s.head? = some 69 then
    let minus : Bool := s.tail.head? = some 45
    let s := if minus ∨ s.tail.head? = some 43 then s.tail.tail else s.tail
    let digits := s.takeWhile isDigit
    if digits = [] then none
    else some (if minus then -ofDecimal digits else ofDecimal digits, s.dropWhile isDigit)
  else some (0, s)

/-- A number and what follows. No other digit may follow a leading zero. -/
def number (s : List UInt8) : Option (ℚ × List UInt8) :=
  let minus : Bool := s.head? = some 45
  let s := if minus then s.tail else s
  let whole := s.takeWhile isDigit
  if whole = [] ∨ whole.head? = some 48 ∧ whole ≠ [48] then none
  else
    match fraction (s.dropWhile isDigit) with
    | none => none
    | some (digits, s) =>
        match exponent s with
        | none => none
        | some (e, s) =>
            let abs : ℚ := (ofDecimal whole + ofDecimal digits / 10 ^ digits.length) * 10 ^ e
            some (if minus then -abs else abs, s)

example : number (bytes "-12.5e1,") = some (-125, bytes ",") ∧ number (bytes "01") = none ∧
    number (bytes "1.") = none := by decide +kernel

/-- The text of a number. -/
def IsNumber (s : List UInt8) : Prop := ∃ q, number s = some (q, [])

/-- The number that a text denotes. -/
def numberValue (s : List UInt8) : ℚ := ((number s).map Prod.fst).getD 0

/-! ## Values -/

def isWs (c : UInt8) : Bool := c = 32 ∨ c = 9 ∨ c = 10 ∨ c = 13

def skipWs (s : List UInt8) : List UInt8 := s.dropWhile isWs

def literal (s : List UInt8) : Option (Json × List UInt8) :=
  if bytes "null" <+: s then some (.null, s.drop 4)
  else if bytes "true" <+: s then some (.bool true, s.drop 4)
  else if bytes "false" <+: s then some (.bool false, s.drop 5)
  else none

mutual

/-- A value and what follows. -/
def value : Nat → List UInt8 → Option (Json × List UInt8)
  | 0, _ => none
  | fuel + 1, s =>
      match skipWs s with
      | [] => none
      | c :: rest =>
          if c = 34 then (string rest).map (Prod.map (fun t => .str (unescape t)) id)
          else if c = 91 then
            if (skipWs rest).head? = some 93 then some (.arr [], (skipWs rest).tail)
            else (elements fuel rest).map (Prod.map .arr id)
          else if c = 123 then
            if (skipWs rest).head? = some 125 then some (.obj [], (skipWs rest).tail)
            else (members fuel rest).map (Prod.map .obj id)
          else (literal (c :: rest)).or ((number (c :: rest)).map (Prod.map .num id))

/-- The elements of an array, at least one, with the closing bracket. -/
def elements : Nat → List UInt8 → Option (List Json × List UInt8)
  | 0, _ => none
  | fuel + 1, s =>
      match value fuel s with
      | none => none
      | some (e, s) =>
          match skipWs s with
          | [] => none
          | c :: rest =>
              if c = 44 then (elements fuel rest).map (Prod.map (e :: ·) id)
              else if c = 93 then some ([e], rest)
              else none

/-- The members of an object, at least one, with the closing brace. -/
def members : Nat → List UInt8 → Option (List (List UInt8 × Json) × List UInt8)
  | 0, _ => none
  | fuel + 1, s =>
      match skipWs s with
      | [] => none
      | quote :: s =>
          match string s with
          | none => none
          | some (name, s) =>
              if quote = 34 ∧ (skipWs s).head? = some 58 then
                match value fuel (skipWs s).tail with
                | none => none
                | some (v, s) =>
                    match skipWs s with
                    | [] => none
                    | c :: rest =>
                        if c = 44 then
                          (members fuel rest).map (Prod.map ((unescape name, v) :: ·) id)
                        else if c = 125 then some ([(unescape name, v)], rest)
                        else none
              else none

end

/-- A whole text; two rounds of fuel for each of its bytes are enough. -/
def parse (s : List UInt8) : Option Json :=
  match value (2 * s.length + 2) s with
  | none => none
  | some (j, rest) => if skipWs rest = [] then some j else none

/-! ## Reading numbers up to their ends -/

/-- A character that a number may have. -/
def isNumberChar (c : UInt8) : Bool :=
  isDigit c ∨ c = 43 ∨ c = 45 ∨ c = 46 ∨ c = 69 ∨ c = 101

/-- What may stand behind a value. -/
def Stops (rest : List UInt8) : Prop := ∀ c ∈ rest.head?, isNumberChar c = false

theorem Stops.isDigit {rest : List UInt8} (h : Stops rest) :
    ∀ c ∈ rest.head?, EdgeGateway.isDigit c = false := by
  intro c hc
  have hstop := h c hc
  simp only [isNumberChar, decide_eq_false_iff_not, not_or, Bool.not_eq_true] at hstop
  exact hstop.1

theorem Stops.head?_ne {rest : List UInt8} (h : Stops rest) {c : UInt8}
    (hc : isNumberChar c = true) : rest.head? ≠ some c := by
  intro hhead
  have hstop := h c hhead
  simp [hc] at hstop

theorem takeWhile_append_stop {p : UInt8 → Bool} (s : List UInt8) {rest : List UInt8}
    (h : ∀ c ∈ rest.head?, p c = false) : (s ++ rest).takeWhile p = s.takeWhile p := by
  induction s with
  | nil => exact takeWhile_stop (by simp) h
  | cons c s ih =>
      by_cases hc : p c = true
      · simp [hc, ih]
      · simp [hc]

theorem dropWhile_append_stop {p : UInt8 → Bool} (s : List UInt8) {rest : List UInt8}
    (h : ∀ c ∈ rest.head?, p c = false) :
    (s ++ rest).dropWhile p = s.dropWhile p ++ rest := by
  induction s with
  | nil => exact dropWhile_stop (by simp) h
  | cons c s ih =>
      by_cases hc : p c = true
      · simp [hc, ih]
      · simp [hc]

/-- The head of `s ++ rest` is a number's character `c` only if `s` begins with it. -/
theorem head?_append_stop {s rest : List UInt8} (h : Stops rest) {c : UInt8}
    (hc : isNumberChar c = true) : (s ++ rest).head? = some c ↔ s.head? = some c := by
  cases s with
  | nil => simpa using h.head?_ne hc
  | cons a s => simp

theorem tail_append_of_head? {s rest : List UInt8} {c : UInt8} (h : s.head? = some c) :
    (s ++ rest).tail = s.tail ++ rest := by
  cases s with
  | nil => simp at h
  | cons a s => simp

theorem fraction_append {s digits t rest : List UInt8} (hrest : Stops rest)
    (h : fraction s = some (digits, t)) : fraction (s ++ rest) = some (digits, t ++ rest) := by
  have hpoint := head?_append_stop (s := s) hrest (c := 46) (by decide)
  by_cases hhead : s.head? = some 46
  · simp only [fraction, if_pos hhead, if_pos (hpoint.2 hhead), tail_append_of_head? hhead,
      takeWhile_append_stop _ hrest.isDigit, dropWhile_append_stop _ hrest.isDigit] at h ⊢
    by_cases hnone : s.tail.takeWhile EdgeGateway.isDigit = []
    · simp [hnone] at h
    · simp only [if_neg hnone, Option.some.injEq, Prod.mk.injEq] at h ⊢
      exact ⟨h.1, by rw [h.2]⟩
  · simp only [fraction, if_neg hhead, if_neg (mt hpoint.1 hhead), Option.some.injEq,
      Prod.mk.injEq] at h ⊢
    exact ⟨h.1, by rw [h.2]⟩

theorem exponent_append {s t rest : List UInt8} {e : Int} (hrest : Stops rest)
    (h : exponent s = some (e, t)) : exponent (s ++ rest) = some (e, t ++ rest) := by
  have hsmall := head?_append_stop (s := s) hrest (c := 101) (by decide)
  have hlarge := head?_append_stop (s := s) hrest (c := 69) (by decide)
  by_cases hhead : s.head? = some 101 ∨ s.head? = some 69
  · have htail : (s ++ rest).tail = s.tail ++ rest := by
      obtain hhead | hhead := hhead
      · exact tail_append_of_head? hhead
      · exact tail_append_of_head? hhead
    have hplus := head?_append_stop (s := s.tail) hrest (c := 43) (by decide)
    have hminus := head?_append_stop (s := s.tail) hrest (c := 45) (by decide)
    -- The sign, if any, is dropped from `s` alone.
    have hsigned : (if s.tail.head? = some 45 ∨ s.tail.head? = some 43 then
          (s.tail ++ rest).tail else s.tail ++ rest) =
        (if s.tail.head? = some 45 ∨ s.tail.head? = some 43 then s.tail.tail else s.tail) ++
          rest := by
      by_cases hsign : s.tail.head? = some 45 ∨ s.tail.head? = some 43
      · rw [if_pos hsign, if_pos hsign]
        obtain hsign | hsign := hsign
        · exact tail_append_of_head? hsign
        · exact tail_append_of_head? hsign
      · rw [if_neg hsign, if_neg hsign]
    simp only [exponent, hsmall, hlarge, if_pos hhead, htail, hplus, hminus, decide_eq_true_eq,
      hsigned, takeWhile_append_stop _ hrest.isDigit,
      dropWhile_append_stop _ hrest.isDigit] at h ⊢
    generalize (if s.tail.head? = some 45 ∨ s.tail.head? = some 43 then s.tail.tail
      else s.tail) = u at h ⊢
    by_cases hnone : u.takeWhile EdgeGateway.isDigit = []
    · simp [hnone] at h
    · simp only [if_neg hnone, Option.some.injEq, Prod.mk.injEq] at h ⊢
      exact ⟨h.1, by rw [h.2]⟩
  · simp only [exponent, hsmall, hlarge, if_neg hhead, Option.some.injEq, Prod.mk.injEq] at h ⊢
    exact ⟨h.1, by rw [h.2]⟩

theorem number_append {s t rest : List UInt8} {q : ℚ} (hrest : Stops rest)
    (h : number s = some (q, t)) : number (s ++ rest) = some (q, t ++ rest) := by
  have hminus := head?_append_stop (s := s) hrest (c := 45) (by decide)
  have hunsigned : (if s.head? = some 45 then (s ++ rest).tail else s ++ rest) =
      (if s.head? = some 45 then s.tail else s) ++ rest := by
    by_cases hsign : s.head? = some 45
    · rw [if_pos hsign, if_pos hsign, tail_append_of_head? hsign]
    · rw [if_neg hsign, if_neg hsign]
  simp only [number, hminus, decide_eq_true_eq, hunsigned, takeWhile_append_stop _ hrest.isDigit,
    dropWhile_append_stop _ hrest.isDigit] at h ⊢
  generalize (if s.head? = some 45 then s.tail else s) = u at h ⊢
  by_cases hwhole : u.takeWhile EdgeGateway.isDigit = [] ∨
      (u.takeWhile EdgeGateway.isDigit).head? = some 48 ∧
        u.takeWhile EdgeGateway.isDigit ≠ [48]
  · rw [if_pos hwhole] at h
    simp at h
  · rw [if_neg hwhole] at h ⊢
    split at h
    · simp at h
    · rename_i digits v hfraction
      rw [fraction_append hrest hfraction]
      split at h
      · simp at h
      · rename_i e w hexponent
        simp only [exponent_append hrest hexponent]
        simp only [Option.some.injEq, Prod.mk.injEq] at h ⊢
        exact ⟨h.1, by rw [h.2]⟩

/-- `s` is `t` behind characters of a number. -/
def NumberPrefix (s t : List UInt8) : Prop :=
  ∃ front, s = front ++ t ∧ ∀ c ∈ front, isNumberChar c = true

theorem NumberPrefix.refl (s : List UInt8) : NumberPrefix s s := ⟨[], rfl, by simp⟩

theorem NumberPrefix.trans {s t u : List UInt8} (hst : NumberPrefix s t)
    (htu : NumberPrefix t u) : NumberPrefix s u := by
  obtain ⟨front, rfl, hfront⟩ := hst
  obtain ⟨back, rfl, hback⟩ := htu
  refine ⟨front ++ back, by simp, ?_⟩
  intro c hc
  rcases List.mem_append.1 hc with hc | hc
  · exact hfront c hc
  · exact hback c hc

theorem numberPrefix_tail {s : List UInt8} {c : UInt8} (h : s.head? = some c)
    (hc : isNumberChar c = true) : NumberPrefix s s.tail := by
  cases s with
  | nil => simp at h
  | cons a s =>
      simp only [List.head?_cons, Option.some.injEq] at h
      exact ⟨[a], rfl, by simpa [h] using hc⟩

theorem numberPrefix_dropWhile (s : List UInt8) :
    NumberPrefix s (s.dropWhile EdgeGateway.isDigit) := by
  refine ⟨s.takeWhile EdgeGateway.isDigit, List.takeWhile_append_dropWhile.symm, ?_⟩
  intro c hc
  simp [isNumberChar, List.mem_takeWhile_imp hc]

theorem fraction_chars {s digits t : List UInt8} (h : fraction s = some (digits, t)) :
    NumberPrefix s t := by
  by_cases hhead : s.head? = some 46
  · simp only [fraction, if_pos hhead] at h
    by_cases hnone : s.tail.takeWhile EdgeGateway.isDigit = []
    · simp [hnone] at h
    · simp only [if_neg hnone, Option.some.injEq, Prod.mk.injEq] at h
      rw [← h.2]
      exact (numberPrefix_tail hhead (by decide)).trans (numberPrefix_dropWhile _)
  · simp only [fraction, if_neg hhead, Option.some.injEq, Prod.mk.injEq] at h
    exact h.2 ▸ .refl s

theorem exponent_chars {s t : List UInt8} {e : Int} (h : exponent s = some (e, t)) :
    NumberPrefix s t := by
  by_cases hhead : s.head? = some 101 ∨ s.head? = some 69
  · have hletter : NumberPrefix s s.tail := by
      obtain hhead | hhead := hhead
      · exact numberPrefix_tail hhead (by decide)
      · exact numberPrefix_tail hhead (by decide)
    have hsign : NumberPrefix s.tail (if s.tail.head? = some 45 ∨ s.tail.head? = some 43 then
        s.tail.tail else s.tail) := by
      by_cases hsign : s.tail.head? = some 45 ∨ s.tail.head? = some 43
      · rw [if_pos hsign]
        obtain hsign | hsign := hsign
        · exact numberPrefix_tail hsign (by decide)
        · exact numberPrefix_tail hsign (by decide)
      · rw [if_neg hsign]
        exact .refl _
    simp only [exponent, if_pos hhead, decide_eq_true_eq] at h
    generalize (if s.tail.head? = some 45 ∨ s.tail.head? = some 43 then s.tail.tail
      else s.tail) = u at h hsign
    by_cases hnone : u.takeWhile EdgeGateway.isDigit = []
    · simp [hnone] at h
    · simp only [if_neg hnone, Option.some.injEq, Prod.mk.injEq] at h
      rw [← h.2]
      exact (hletter.trans hsign).trans (numberPrefix_dropWhile u)
  · simp only [exponent, if_neg hhead, Option.some.injEq, Prod.mk.injEq] at h
    exact h.2 ▸ .refl s

theorem number_chars {s t : List UInt8} {q : ℚ} (h : number s = some (q, t)) :
    NumberPrefix s t := by
  have hsign : NumberPrefix s (if s.head? = some 45 then s.tail else s) := by
    by_cases hsign : s.head? = some 45
    · rw [if_pos hsign]
      exact numberPrefix_tail hsign (by decide)
    · rw [if_neg hsign]
      exact .refl s
  simp only [number, decide_eq_true_eq] at h
  generalize (if s.head? = some 45 then s.tail else s) = u at h hsign
  by_cases hwhole : u.takeWhile EdgeGateway.isDigit = [] ∨
      (u.takeWhile EdgeGateway.isDigit).head? = some 48 ∧
        u.takeWhile EdgeGateway.isDigit ≠ [48]
  · rw [if_pos hwhole] at h
    simp at h
  · rw [if_neg hwhole] at h
    split at h
    · simp at h
    · rename_i digits v hfraction
      split at h
      · simp at h
      · rename_i e w hexponent
        simp only [Option.some.injEq, Prod.mk.injEq] at h
        rw [← h.2]
        exact ((hsign.trans (numberPrefix_dropWhile u)).trans
          (fraction_chars hfraction)).trans (exponent_chars hexponent)

/-- A number is its characters, and there is one. -/
theorem IsNumber.chars {s : List UInt8} (h : IsNumber s) :
    s ≠ [] ∧ ∀ c ∈ s, isNumberChar c = true := by
  obtain ⟨q, h⟩ := h
  constructor
  · rintro rfl
    exact absurd h (by simp [number])
  · obtain ⟨front, hs, hfront⟩ := number_chars h
    intro c hc
    exact hfront c (by simpa [hs] using hc)

theorem IsNumber.number_eq {s : List UInt8} (h : IsNumber s) :
    number s = some (numberValue s, []) := by
  obtain ⟨q, h⟩ := h
  simp [numberValue, h]

/-! ## Texts of values

`Denotes s j` says that `s` is read as `j` wherever a value may end behind it, and one rule for each
kind of value builds such texts from smaller ones. -/

/-- `s` is the text of `j`. -/
def Denotes (s : List UInt8) (j : Json) : Prop :=
  ∀ rest fuel, Stops rest → s.length < fuel → value fuel (s ++ rest) = some (j, rest)

/-- `s`, between quotes, is the text of the string `b`. -/
def QuotedAs (s b : List UInt8) : Prop :=
  ∀ rest, ∃ chars, string (s ++ 34 :: rest) = some (chars, rest) ∧ unescape chars = b

/-- `s` is the text of the member of an object with this name and this value. -/
def MemberText (s : List UInt8) (m : List UInt8 × Json) : Prop :=
  ∃ name text, s = 34 :: (name ++ 34 :: 58 :: text) ∧ QuotedAs name m.1 ∧ Denotes text m.2

theorem Denotes.parse {s : List UInt8} {j : Json} (h : Denotes s j) : parse s = some j := by
  have hvalue := h [] (2 * s.length + 2) (by simp [Stops]) (by omega)
  rw [List.append_nil] at hvalue
  simp [Json.parse, hvalue, skipWs]

theorem denotes_string {s b : List UInt8} (h : QuotedAs s b) :
    Denotes (34 :: (s ++ [34])) (.str b) := by
  intro rest fuel _ hfuel
  obtain ⟨fuel, rfl⟩ := Nat.exists_eq_add_of_lt hfuel
  obtain ⟨chars, hstring, hb⟩ := h rest
  have htext : 34 :: (s ++ [34]) ++ rest = 34 :: (s ++ 34 :: rest) := by simp
  rw [htext]
  simp [value, skipWs, isWs, hstring, hb]

/-- What none of the other values begins with. -/
theorem isNumberChar_dispatch {c : UInt8} (h : isNumberChar c = true) :
    isWs c = false ∧ c ≠ 34 ∧ c ≠ 91 ∧ c ≠ 123 ∧ c ≠ 110 ∧ c ≠ 116 ∧ c ≠ 102 := by
  simp only [isNumberChar, isWs, isDigit, decide_eq_true_eq, decide_eq_false_iff_not,
    ← UInt8.toNat_inj, ne_eq] at h ⊢
  simp only [UInt8.reduceToNat] at h ⊢
  omega

/-- The three literals begin with `n`, `t` and `f`. -/
theorem literal_eq_none {c : UInt8} (s : List UInt8) (hn : c ≠ 110) (ht : c ≠ 116)
    (hf : c ≠ 102) : literal (c :: s) = none := by
  have hnull : bytes "null" = [110, 117, 108, 108] := by decide
  have htrue : bytes "true" = [116, 114, 117, 101] := by decide
  have hfalse : bytes "false" = [102, 97, 108, 115, 101] := by decide
  simp [literal, hnull, htrue, hfalse, hn.symm, ht.symm, hf.symm]

theorem denotes_number {s : List UInt8} (h : IsNumber s) : Denotes s (.num (numberValue s)) := by
  intro rest fuel hrest hfuel
  obtain ⟨hne, hchars⟩ := h.chars
  have hnumber := number_append hrest h.number_eq
  obtain ⟨fuel, rfl⟩ := Nat.exists_eq_add_of_lt hfuel
  cases s with
  | nil => exact absurd rfl hne
  | cons c s =>
      obtain ⟨hws, hquote, hbracket, hbrace, hn, ht, hf⟩ :=
        isNumberChar_dispatch (hchars c (by simp))
      have hliteral := literal_eq_none (s ++ rest) hn ht hf
      simp only [List.cons_append, List.nil_append] at hnumber
      simp [value, skipWs, hws, hquote, hbracket, hbrace, hliteral, hnumber]

/-- A value never begins with a closing bracket. -/
theorem value_head?_ne {fuel : Nat} {s : List UInt8} {r : Json × List UInt8}
    (h : value fuel s = some r) : (skipWs s).head? ≠ some 93 := by
  intro hhead
  cases fuel with
  | zero => simp [value] at h
  | succ fuel =>
      cases hs : skipWs s with
      | nil => simp [hs] at hhead
      | cons c rest =>
          obtain rfl : c = 93 := by simpa [hs] using hhead
          have hliteral := literal_eq_none (c := 93) rest (by decide) (by decide) (by decide)
          simp [value, hs, hliteral, number, isDigit] at h

theorem elements_head?_ne {fuel : Nat} {s : List UInt8} {r : List Json × List UInt8}
    (h : elements fuel s = some r) : (skipWs s).head? ≠ some 93 := by
  cases fuel with
  | zero => simp [elements] at h
  | succ fuel =>
      cases hvalue : value fuel s with
      | none => simp [elements, hvalue] at h
      | some first => exact value_head?_ne hvalue

theorem stops_cons {c : UInt8} (rest : List UInt8) (hc : isNumberChar c = false) :
    Stops (c :: rest) := by
  simp [Stops, hc]

/-- The elements of an array and its closing bracket. -/
theorem elements_intercalate {texts : List (List UInt8)} {js : List Json}
    (h : List.Forall₂ Denotes texts js) (hne : texts ≠ []) (rest : List UInt8) :
    ∀ fuel, ([44].intercalate texts).length + 1 < fuel →
      elements fuel ([44].intercalate texts ++ 93 :: rest) = some (js, rest) := by
  induction h with
  | nil => exact absurd rfl hne
  | @cons t j ts js hj hjs ih =>
      intro fuel hfuel
      cases fuel with
      | zero => omega
      | succ fuel =>
          cases ts with
          | nil =>
              cases hjs
              have hvalue := hj (93 :: rest) fuel (stops_cons rest (by decide))
                (by simpa using hfuel)
              simp [elements, hvalue, skipWs, isWs]
          | cons t' ts =>
              rw [List.intercalate_cons_cons] at hfuel ⊢
              simp only [List.length_append, List.length_cons, List.length_nil] at hfuel
              have hvalue := hj (44 :: ([44].intercalate (t' :: ts) ++ 93 :: rest)) fuel
                (stops_cons _ (by decide)) (by omega)
              have helements := ih (by simp) fuel (by omega)
              simp [elements, hvalue, skipWs, isWs, helements]

theorem denotes_array {texts : List (List UInt8)} {js : List Json}
    (h : List.Forall₂ Denotes texts js) :
    Denotes (91 :: ([44].intercalate texts ++ [93])) (.arr js) := by
  intro rest fuel hrest hfuel
  obtain ⟨fuel, rfl⟩ := Nat.exists_eq_add_of_lt hfuel
  have htext : 91 :: ([44].intercalate texts ++ [93]) ++ rest =
      91 :: ([44].intercalate texts ++ 93 :: rest) := by simp
  rw [htext]
  cases h with
  | nil => simp [value, skipWs, isWs]
  | @cons t j ts js hj hjs =>
      have helements := elements_intercalate (.cons hj hjs) (by simp) rest
        (([44].intercalate (t :: ts)).length + 2 + fuel) (by omega)
      have hfuel : (91 :: ([44].intercalate (t :: ts) ++ [93])).length + fuel =
          ([44].intercalate (t :: ts)).length + 2 + fuel := by simp
      have hopen : skipWs (91 :: ([44].intercalate (t :: ts) ++ 93 :: rest)) =
          91 :: ([44].intercalate (t :: ts) ++ 93 :: rest) := by simp [skipWs, isWs]
      rw [hfuel]
      simp [value, hopen, elements_head?_ne helements, helements]

/-- The members of an object and its closing brace. -/
theorem members_intercalate {texts : List (List UInt8)} {ms : List (List UInt8 × Json)}
    (h : List.Forall₂ MemberText texts ms) (hne : texts ≠ []) (rest : List UInt8) :
    ∀ fuel, ([44].intercalate texts).length + 1 < fuel →
      members fuel ([44].intercalate texts ++ 125 :: rest) = some (ms, rest) := by
  induction h with
  | nil => exact absurd rfl hne
  | @cons t m ts ms hm hms ih =>
      intro fuel hfuel
      obtain ⟨name, text, rfl, hname, htext⟩ := hm
      cases fuel with
      | zero => omega
      | succ fuel =>
          cases ts with
          | nil =>
              cases hms
              simp only [List.intercalate_singleton, List.length_cons, List.length_append] at hfuel
              obtain ⟨chars, hstring, hm⟩ := hname (58 :: (text ++ 125 :: rest))
              have hvalue := htext (125 :: rest) fuel (stops_cons rest (by decide)) (by omega)
              simp [members, hstring, hm, hvalue, skipWs, isWs]
          | cons t' ts =>
              rw [List.intercalate_cons_cons] at hfuel ⊢
              simp only [List.length_append, List.length_cons, List.length_nil] at hfuel
              obtain ⟨chars, hstring, hm⟩ :=
                hname (58 :: (text ++ 44 :: ([44].intercalate (t' :: ts) ++ 125 :: rest)))
              have hvalue := htext (44 :: ([44].intercalate (t' :: ts) ++ 125 :: rest)) fuel
                (stops_cons _ (by decide)) (by omega)
              have hmembers := ih (by simp) fuel (by omega)
              simp [members, hstring, hm, hvalue, skipWs, isWs, hmembers]

theorem denotes_object {texts : List (List UInt8)} {ms : List (List UInt8 × Json)}
    (h : List.Forall₂ MemberText texts ms) :
    Denotes (123 :: ([44].intercalate texts ++ [125])) (.obj ms) := by
  intro rest fuel hrest hfuel
  obtain ⟨fuel, rfl⟩ := Nat.exists_eq_add_of_lt hfuel
  have htext : 123 :: ([44].intercalate texts ++ [125]) ++ rest =
      123 :: ([44].intercalate texts ++ 125 :: rest) := by simp
  rw [htext]
  cases h with
  | nil => simp [value, skipWs, isWs]
  | @cons t m ts ms hm hms =>
      have hmembers := members_intercalate (.cons hm hms) (by simp) rest
        (([44].intercalate (t :: ts)).length + 2 + fuel) (by omega)
      have hfuel : (123 :: ([44].intercalate (t :: ts) ++ [125])).length + fuel =
          ([44].intercalate (t :: ts)).length + 2 + fuel := by simp
      have hopen : skipWs (123 :: ([44].intercalate (t :: ts) ++ 125 :: rest)) =
          123 :: ([44].intercalate (t :: ts) ++ 125 :: rest) := by simp [skipWs, isWs]
      -- The first member's quote is what tells the object from an empty one.
      have hquote : (skipWs ([44].intercalate (t :: ts) ++ 125 :: rest)).head? = some 34 := by
        obtain ⟨name, text, rfl, -, -⟩ := hm
        cases ts with
        | nil => simp [skipWs, isWs]
        | cons t' ts => simp [skipWs, isWs]
      rw [hfuel]
      simp [value, hopen, hquote, hmembers]

end Json

end EdgeGateway
