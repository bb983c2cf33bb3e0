import EdgeGateway.App.HttpQuery
import EdgeGateway.Basic.Json

set_option autoImplicit false

/-! # Query results are JSON

Whatever bytes a device has as its name, the body of a query's response is read back as the rows,
one object of three members for each, and has no control character. How a value is written is left
open, as long as it is a number.
-/

namespace EdgeGateway

open Json

/-! ## Escaped strings -/

/-- The character of a string that `escapeChar` writes for a byte. -/
def escapedAs (c : UInt8) : StrChar := if c.toNat < 32 then .unit c.toNat else .byte c

theorem codeUnit_escapeChar {n : Nat} (h : n < 32) :
    codeUnit? 48 48 ((bytes "0123456789abcdef").getD (n / 16) 0)
      ((bytes "0123456789abcdef").getD (n % 16) 0) = some n := by
  have hall : ∀ n : Fin 32,
      codeUnit? 48 48 ((bytes "0123456789abcdef").getD (n.val / 16) 0)
        ((bytes "0123456789abcdef").getD (n.val % 16) 0) = some n.val := by
    decide +kernel
  exact hall ⟨n, h⟩

theorem string_escapeChar (c : UInt8) (s : List UInt8) :
    string (escapeChar c ++ s) = (string s).map fun t => (escapedAs c :: t.1, t.2) := by
  by_cases hspecial : c = 34 ∨ c = 92
  · -- A quote and a backslash stand for themselves behind a backslash.
    obtain rfl | rfl := hspecial
    · cases hs : string s <;> simp [escapeChar, string, escaped?, escapedAs, hs]
    · cases hs : string s <;> simp [escapeChar, string, escaped?, escapedAs, hs]
  · by_cases hcontrol : c.toNat < 32
    · have hunit := codeUnit_escapeChar hcontrol
      have hcode : bytes "\\u00" = [92, 117, 48, 48] := by decide
      cases hs : string s <;>
        simp only [escapeChar, if_neg hspecial, if_pos hcontrol, hcode, List.cons_append,
          List.nil_append, string, hunit, hs, escapedAs, Option.map_none, Option.map_some]
    · push Not at hspecial
      have hquote : ¬ (c = 34) := hspecial.1
      have hbackslash : ¬ (c = 92) := hspecial.2
      rw [escapeChar, if_neg (by simp [hquote, hbackslash]), if_neg hcontrol]
      cases hs : string s <;> simp [string, hbackslash, hcontrol, escapedAs, hs, Prod.map]

theorem string_escapeJson (b rest : List UInt8) :
    string (escapeJson b ++ 34 :: rest) = some (b.map escapedAs, rest) := by
  induction b with
  | nil => simp [escapeJson, string]
  | cons c b ih =>
      have hcons : escapeJson (c :: b) ++ 34 :: rest =
          escapeChar c ++ (escapeJson b ++ 34 :: rest) := by
        simp [escapeJson]
      rw [hcons, string_escapeChar, ih]
      simp

/-- None of the units that are written is a surrogate. -/
theorem join_escapedAs (b : List UInt8) :
    (b.map escapedAs).foldr StrChar.join [] = b.map escapedAs := by
  induction b with
  | nil => rfl
  | cons c b ih =>
      rw [List.map_cons, List.foldr_cons, ih]
      by_cases hc : c.toNat < 32
      · cases b with
        | nil => simp [escapedAs, hc, StrChar.join]
        | cons d b =>
            by_cases hd : d.toNat < 32
            · have hlow : ¬ (0xD800 ≤ c.toNat) := by omega
              simp [escapedAs, hc, hd, StrChar.join, hlow]
            · simp [escapedAs, hc, hd, StrChar.join]
      · simp [escapedAs, hc, StrChar.join]

theorem bytes_escapedAs (c : UInt8) : (escapedAs c).bytes = [c] := by
  by_cases hc : c.toNat < 32
  · have hsmall : c.toNat < 0x80 := by omega
    simp [escapedAs, hc, StrChar.bytes, hsmall]
  · simp [escapedAs, hc, StrChar.bytes]

theorem unescape_escapedAs (b : List UInt8) : unescape (b.map escapedAs) = b := by
  rw [unescape, join_escapedAs]
  induction b with
  | nil => rfl
  | cons c b ih => rw [List.map_cons, List.flatMap_cons, bytes_escapedAs, ih]; rfl

/-- Escaping is undone by reading. -/
theorem quotedAs_escapeJson (b : List UInt8) : QuotedAs (escapeJson b) b := fun rest =>
  ⟨b.map escapedAs, string_escapeJson b rest, unescape_escapedAs b⟩

theorem escapeChar_printable {c d : UInt8} (h : d ∈ escapeChar c) : 32 ≤ d.toNat := by
  have hall : ∀ c : Fin 256, ∀ d ∈ escapeChar (UInt8.ofNat c.val), 32 ≤ d.toNat := by
    decide +kernel
  exact hall ⟨c.toNat, c.toNat_lt⟩ d (by simpa using h)

/-! ## Decimal integers -/

/-- Only zero is written with a leading zero. -/
theorem decimal_head? (n : Nat) (h : (decimal n).head? = some 48) : decimal n = [48] := by
  induction n using Nat.strongRecOn with
  | ind n ih =>
      by_cases hn : n < 10
      · have hall : ∀ n : Fin 10, (decimal n.val).head? = some 48 → decimal n.val = [48] := by
          decide +kernel
        exact hall ⟨n, hn⟩ h
      · have happend : decimal n = decimal (n / 10) ++ [UInt8.ofNat (n % 10).digitChar.toNat] := by
          rw [decimal, Nat.toDigits_of_base_le (by decide) (by omega), List.map_append]
          rfl
        have hzero : decimal (n / 10) = [48] := by
          refine ih (n / 10) (by omega) ?_
          rwa [happend, List.head?_append_of_ne_nil _ (decimal_ne_nil _)] at h
        -- The digits in front would be those of zero, and `n` have one digit.
        have : n / 10 = 0 :=
          calc n / 10
              = ofDecimal (decimal (n / 10)) := (ofDecimal_decimal _).symm
            _ = ofDecimal [48] := by rw [hzero]
            _ = 0 := by decide
        omega

theorem digits_decimal (n : Nat) :
    (decimal n).takeWhile isDigit = decimal n ∧ (decimal n).dropWhile isDigit = [] ∧
      (decimal n).head? ≠ some 45 := by
  have hdigits : ∀ d ∈ decimal n, isDigit d = true := fun d hd => isDigit_decimal hd
  refine ⟨by simpa using hdigits, by simpa using hdigits, ?_⟩
  intro hhead
  exact absurd (hdigits 45 (List.mem_of_mem_head? hhead)) (by decide)

/-- `std::to_string` of an integer is a number, and stands for the integer. -/
theorem number_toDecimal (i : Int) : number (toDecimal i) = some ((i : ℚ), []) := by
  obtain ⟨htake, hdrop, hsign⟩ := digits_decimal i.natAbs
  have hzero : ¬ (decimal i.natAbs = [] ∨
      (decimal i.natAbs).head? = some 48 ∧ decimal i.natAbs ≠ [48]) := by
    rintro (hnil | ⟨hhead, hne⟩)
    · exact decimal_ne_nil i.natAbs hnil
    · exact hne (decimal_head? i.natAbs hhead)
  have hnone : (ofDecimal [] : ℚ) = 0 := by simp [ofDecimal]
  by_cases hneg : i < 0
  · have hminus : toDecimal i = 45 :: decimal i.natAbs := by
      have hdash : bytes "-" = [45] := by decide
      rw [toDecimal, if_pos hneg, hdash, List.cons_append, List.nil_append]
    have habs : |(i : ℚ)| = -i := abs_of_neg (by exact_mod_cast hneg)
    simp [hminus, number, htake, hdrop, if_neg hzero, fraction, exponent, ofDecimal_decimal, hnone,
      habs]
  · have hplus : toDecimal i = decimal i.natAbs := if_neg hneg
    have habs : |(i : ℚ)| = i := abs_of_nonneg (by exact_mod_cast not_lt.1 hneg)
    simp [hplus, number, hsign, htake, hdrop, if_neg hzero, fraction, exponent, ofDecimal_decimal,
      hnone, habs]

theorem numberValue_toDecimal (i : Int) : numberValue (toDecimal i) = (i : ℚ) := by
  rw [numberValue, number_toDecimal]
  rfl

/-! ## Rows -/

variable {ν : Type}

/-- What a row is read back as. -/
def rowValue (formatValue : ν → List UInt8) (row : DataRow ν) : Json :=
  .obj [(bytes "device_id", .str row.deviceId),
    (bytes "value", .num (numberValue (formatValue row.value))), (bytes "ts", .num row.ts)]

/-- A name without a quote, a backslash or a control character is written as it is. -/
theorem quotedAs_plain {name : List UInt8} (h : escapeJson name = name) : QuotedAs name name := by
  have hquoted := quotedAs_escapeJson name
  rwa [h] at hquoted

theorem rowToJson_eq (formatValue : ν → List UInt8) (row : DataRow ν) :
    rowToJson formatValue row =
      123 :: ([44].intercalate
        [34 :: (bytes "device_id" ++ 34 :: 58 :: (34 :: (escapeJson row.deviceId ++ [34]))),
          34 :: (bytes "value" ++ 34 :: 58 :: formatValue row.value),
          34 :: (bytes "ts" ++ 34 :: 58 :: toDecimal row.ts)] ++ [125]) := by
  have hid : bytes "\x7b\"device_id\":\"" = 123 :: 34 :: (bytes "device_id" ++ [34, 58, 34]) := by
    decide
  have hvalue : bytes "\",\"value\":" = 34 :: 44 :: 34 :: (bytes "value" ++ [34, 58]) := by decide
  have hts : bytes ",\"ts\":" = 44 :: 34 :: (bytes "ts" ++ [34, 58]) := by decide
  have hend : bytes "\x7d" = [125] := by decide
  rw [rowToJson, hid, hvalue, hts, hend]
  simp [List.intercalate_cons_cons]

theorem denotes_rowToJson {formatValue : ν → List UInt8} {row : DataRow ν}
    (hformat : IsNumber (formatValue row.value)) :
    Denotes (rowToJson formatValue row) (rowValue formatValue row) := by
  rw [rowToJson_eq]
  apply denotes_object
  refine .cons ?_ (.cons ?_ (.cons ?_ .nil))
  · exact ⟨_, _, rfl, quotedAs_plain (by decide),
      denotes_string (quotedAs_escapeJson row.deviceId)⟩
  · exact ⟨_, _, rfl, quotedAs_plain (by decide), denotes_number hformat⟩
  · refine ⟨_, _, rfl, quotedAs_plain (by decide), ?_⟩
    have hts := denotes_number ⟨_, number_toDecimal row.ts⟩
    rwa [numberValue_toDecimal] at hts

/-- The comma in front of a row depends on the length of the body; it is there in front of every
row but the first. -/
theorem foldl_rows (formatValue : ν → List UInt8) (rows : List (DataRow ν)) :
    ∀ body : List UInt8, 1 < body.length →
      rows.foldl (fun body row =>
          (if body.length > 1 then body ++ bytes "," else body) ++ rowToJson formatValue row) body =
        body ++ rows.flatMap fun row => 44 :: rowToJson formatValue row := by
  have hcomma : bytes "," = [44] := by decide
  induction rows with
  | nil => intro body _; simp
  | cons row rows ih =>
      intro body hbody
      rw [List.foldl_cons, if_pos hbody, ih _ (by simp only [List.length_append]; omega)]
      simp [hcomma]

theorem intercalate_eq_flatMap {α β : Type} (f : α → List β) (sep : List β) (x : α) (xs : List α) :
    sep.intercalate ((x :: xs).map f) = f x ++ xs.flatMap fun x => sep ++ f x := by
  induction xs generalizing x with
  | nil => simp
  | cons y ys ih =>
      rw [List.map_cons, List.map_cons, List.intercalate_cons_cons, ← List.map_cons, ih]
      simp

theorem rowsToJson_eq (formatValue : ν → List UInt8) (rows : List (DataRow ν)) :
    rowsToJson formatValue rows =
      91 :: ([44].intercalate (rows.map (rowToJson formatValue)) ++ [93]) := by
  have hopen : bytes "[" = [91] := by decide
  have hclose : bytes "]" = [93] := by decide
  rw [rowsToJson, hopen, hclose]
  cases rows with
  | nil => rfl
  | cons row rows =>
      have hlength : 1 < ([91] ++ rowToJson formatValue row).length := by
        simp [rowToJson_eq]
      rw [List.foldl_cons, if_neg (by decide), foldl_rows _ _ _ hlength, intercalate_eq_flatMap]
      simp

theorem denotes_rowsToJson {formatValue : ν → List UInt8} {rows : List (DataRow ν)}
    (hformat : ∀ row ∈ rows, IsNumber (formatValue row.value)) :
    Denotes (rowsToJson formatValue rows) (.arr (rows.map (rowValue formatValue))) := by
  rw [rowsToJson_eq]
  apply denotes_array
  induction rows with
  | nil => exact .nil
  | cons row rows ih =>
      refine .cons (denotes_rowToJson (hformat row List.mem_cons_self)) (ih ?_)
      intro row' hrow'
      exact hformat row' (List.mem_cons_of_mem _ hrow')

/-! ## Printable characters -/

theorem isNumberChar_printable {c : UInt8} (h : isNumberChar c = true) : 32 ≤ c.toNat := by
  simp only [isNumberChar, isDigit, decide_eq_true_eq, ← UInt8.toNat_inj] at h
  simp only [UInt8.reduceToNat] at h
  omega

theorem number_printable {s : List UInt8} (h : IsNumber s) : ∀ c ∈ s, 32 ≤ c.toNat :=
  fun c hc => isNumberChar_printable (h.chars.2 c hc)

theorem rowToJson_printable {formatValue : ν → List UInt8} {row : DataRow ν}
    (hformat : IsNumber (formatValue row.value)) :
    ∀ c ∈ rowToJson formatValue row, 32 ≤ c.toNat := by
  have hid : ∀ c ∈ bytes "\x7b\"device_id\":\"", 32 ≤ c.toNat := by decide +kernel
  have hvalue : ∀ c ∈ bytes "\",\"value\":", 32 ≤ c.toNat := by decide +kernel
  have hts : ∀ c ∈ bytes ",\"ts\":", 32 ≤ c.toNat := by decide +kernel
  have hend : ∀ c ∈ bytes "\x7d", 32 ≤ c.toNat := by decide +kernel
  have hescaped : ∀ c ∈ escapeJson row.deviceId, 32 ≤ c.toNat := by
    intro c hc
    obtain ⟨b, -, hb⟩ := List.mem_flatMap.1 hc
    exact escapeChar_printable hb
  have hnumber : ∀ c ∈ toDecimal row.ts, 32 ≤ c.toNat :=
    number_printable ⟨_, number_toDecimal row.ts⟩
  intro c hc
  simp only [rowToJson, List.mem_append] at hc
  rcases hc with (((((hc | hc) | hc) | hc) | hc) | hc) | hc
  · exact hid c hc
  · exact hescaped c hc
  · exact hvalue c hc
  · exact number_printable hformat c hc
  · exact hts c hc
  · exact hnumber c hc
  · exact hend c hc

theorem rowsToJson_printable {formatValue : ν → List UInt8} {rows : List (DataRow ν)}
    (hformat : ∀ row ∈ rows, IsNumber (formatValue row.value)) :
    ∀ c ∈ rowsToJson formatValue rows, 32 ≤ c.toNat := by
  have hintercalate : ∀ c ∈ [44].intercalate (rows.map (rowToJson formatValue)), 32 ≤ c.toNat := by
    cases rows with
    | nil => simp
    | cons row rows =>
        intro c hc
        rw [intercalate_eq_flatMap, List.mem_append, List.mem_flatMap] at hc
        rcases hc with hc | ⟨row', hrow', hc⟩
        · exact rowToJson_printable (hformat row List.mem_cons_self) c hc
        · rcases List.mem_append.1 hc with hc | hc
          · exact List.mem_singleton.1 hc ▸ by decide
          · exact rowToJson_printable (hformat row' (List.mem_cons_of_mem _ hrow')) c hc
  intro c hc
  rw [rowsToJson_eq, List.mem_cons, List.mem_append, List.mem_singleton] at hc
  rcases hc with rfl | hc | rfl
  · decide
  · exact hintercalate c hc
  · decide

/-- The body of a query's response is an array with one object for each row, in order, with the
row's name, value and time; no raw control character is in it. -/
theorem rowsToJson_roundtrip {formatValue : ν → List UInt8} {rows : List (DataRow ν)}
    (hformat : ∀ row ∈ rows, IsNumber (formatValue row.value)) :
    parse (rowsToJson formatValue rows) = some (.arr (rows.map fun row =>
      .obj [(bytes "device_id", .str row.deviceId),
        (bytes "value", .num (numberValue (formatValue row.value))),
        (bytes "ts", .num row.ts)])) ∧
    ∀ c ∈ rowsToJson formatValue rows, 32 ≤ c.toNat := by
  constructor
  · exact (denotes_rowsToJson hformat).parse
  · exact rowsToJson_printable hformat

/-- A name that would end its string, or break the line, if it were not escaped. -/
theorem rowsToJson_roundtrip_demo :
    parse (rowsToJson toDecimal
      [⟨bytes "a\",\"x\":1,\n" ++ [255], -7, 1700000000⟩, ⟨[], 0, -1⟩]) =
      some (.arr ([⟨bytes "a\",\"x\":1,\n" ++ [255], -7, 1700000000⟩, ⟨[], 0, -1⟩].map
        fun row : DataRow Int => .obj [(bytes "device_id", .str row.deviceId),
          (bytes "value", .num (numberValue (toDecimal row.value))),
          (bytes "ts", .num row.ts)])) ∧
    ∀ c ∈ rowsToJson toDecimal
      [⟨bytes "a\",\"x\":1,\n" ++ [255], -7, 1700000000⟩, ⟨[], 0, -1⟩], 32 ≤ c.toNat :=
  rowsToJson_roundtrip fun row _ => ⟨_, number_toDecimal row.value⟩

end EdgeGateway
