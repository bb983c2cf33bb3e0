import EdgeGateway.Basic.Bytes
import Mathlib.Data.List.DropRight
import Mathlib.Tactic

set_option autoImplicit false

/-! # Numbers and blanks in byte strings

`std::strtol` reads white space, a sign and digits; `strtol_full` says which texts it takes to their
end. `trimBlanks` takes spaces, tabs, CR and LF off both ends, and leaves alone what is `Trimmed`.
-/

namespace EdgeGateway

/-! ## `strtol` -/

/-- `LONG_MAX` of the gateway's platforms. -/
def LONG_MAX : Int := 9223372036854775807

/-- `std::strtol` with base 10: the value, and how many characters it has taken. -/
def strtol (s : List UInt8) : Int × Nat :=
  let blanks := s.takeWhile isSpace
  let signed := s.dropWhile isSpace
  let minus : Bool := signed.head? = some 45
  let sign := if minus ∨ signed.head? = some 43 then signed.take 1 else []
  let digits := (signed.drop sign.length).takeWhile isDigit
  if digits = [] then (0, 0)
  else
    let value : Int := if minus then -ofDecimal digits else ofDecimal digits
    (max (-LONG_MAX - 1) (min LONG_MAX value), blanks.length + sign.length + digits.length)

example : (strtol (bytes " +12x"), strtol (bytes "- 7"), strtol (bytes "-99999999999999999999")) =
    ((12, 4), (0, 0), (-9223372036854775808, 21)) := by decide

/-! ## The numbers that `strtol` takes whole -/

/-- `s` is the white space `blanks`, a sign, if any, and digits, with the value `n`. -/
def SignedDigits (blanks s : List UInt8) (n : Int) : Prop :=
  (∀ c ∈ blanks, isSpace c = true) ∧
    ∃ sign digits, s = blanks ++ (sign ++ digits) ∧ (sign = [] ∨ sign = [43] ∨ sign = [45]) ∧
      digits ≠ [] ∧ (∀ d ∈ digits, isDigit d = true) ∧
      n = if sign = [45] then -(ofDecimal digits : Int) else ofDecimal digits

/-- The value that fits into a `long`. -/
def saturated (n : Int) : Int := max (-LONG_MAX - 1) (min LONG_MAX n)

theorem isSpace_of_isDigit {c : UInt8} (h : isDigit c = true) : isSpace c = false := by
  simp only [isDigit, isSpace, decide_eq_true_eq, decide_eq_false_iff_not] at h ⊢
  omega

theorem isDigit_ne_sign {c : UInt8} (h : isDigit c = true) : c ≠ 43 ∧ c ≠ 45 := by
  constructor
  · rintro rfl
    exact absurd h (by decide)
  · rintro rfl
    exact absurd h (by decide)

theorem takeWhile_stop {α : Type} {p : α → Bool} {front back : List α}
    (hfront : ∀ c ∈ front, p c = true) (hback : ∀ c ∈ back.head?, p c = false) :
    (front ++ back).takeWhile p = front := by
  rw [List.takeWhile_append_of_pos hfront]
  cases back with
  | nil => simp
  | cons c back => simp [hback c (by simp)]

theorem dropWhile_stop {α : Type} {p : α → Bool} {front back : List α}
    (hfront : ∀ c ∈ front, p c = true) (hback : ∀ c ∈ back.head?, p c = false) :
    (front ++ back).dropWhile p = back := by
  rw [List.dropWhile_append_of_pos hfront]
  cases back with
  | nil => simp
  | cons c back => simp [hback c (by simp)]

/-- What `strtol` makes of a text in which white space, sign and digits are known. -/
theorem strtol_parts {blanks sign digits rest : List UInt8}
    (hblanks : ∀ c ∈ blanks, isSpace c = true)
    (hsign : sign = [] ∨ sign = [43] ∨ sign = [45]) (hne : digits ≠ [])
    (hdigits : ∀ d ∈ digits, isDigit d = true)
    (hrest : ∀ c ∈ rest.head?, isDigit c = false) :
    strtol (blanks ++ (sign ++ (digits ++ rest)))
      = (saturated (if sign = [45] then -(ofDecimal digits : Int) else ofDecimal digits),
          blanks.length + sign.length + digits.length) := by
  obtain ⟨d, digits, rfl⟩ := List.exists_cons_of_ne_nil hne
  have hd := hdigits d (by simp)
  have hhead : ∀ c ∈ (sign ++ (d :: digits ++ rest)).head?, isSpace c = false := by
    rcases hsign with rfl | rfl | rfl
    · simpa using isSpace_of_isDigit hd
    · simp [isSpace]
    · simp [isSpace]
  have htake := takeWhile_stop hdigits hrest
  simp only [strtol, takeWhile_stop hblanks hhead, dropWhile_stop hblanks hhead]
  rcases hsign with rfl | rfl | rfl
  · have hd' := isDigit_ne_sign hd
    simp only [List.cons_append] at htake
    simp [hd'.1, hd'.2, htake, saturated]
  · simp only [List.cons_append] at htake
    simp [htake, saturated]
  · simp only [List.cons_append] at htake
    simp [htake, saturated]

/-- The sign in front of a number, if there is one. -/
theorem sign_split (signed : List UInt8) :
    ∃ sign back, signed = sign ++ back ∧ (sign = [] ∨ sign = [43] ∨ sign = [45]) ∧
      sign = if signed.head? = some 45 ∨ signed.head? = some 43 then signed.take 1 else [] := by
  by_cases hsign : signed.head? = some 45 ∨ signed.head? = some 43
  · cases signed with
    | nil => simp at hsign
    | cons c back =>
      refine ⟨[c], back, rfl, ?_, ?_⟩
      · rcases hsign with h | h <;> simp [Option.some.inj h]
      · rw [if_pos hsign]
        rfl
  · exact ⟨[], signed, rfl, .inl rfl, by rw [if_neg hsign]⟩

/-- `strtol` takes the whole text exactly when it is a number to its end. -/
theorem strtol_full {s : List UInt8} (hne : s ≠ []) (v : Int) :
    strtol s = (v, s.length) ↔ ∃ blanks n, SignedDigits blanks s n ∧ v = saturated n := by
  constructor
  · intro h
    obtain ⟨sign, back, hsigned, hcases, hsign⟩ := sign_split (s.dropWhile isSpace)
    -- the text falls into white space, sign, digits and a rest
    have hs : s = s.takeWhile isSpace ++ (sign ++ (back.takeWhile isDigit ++
        back.dropWhile isDigit)) := by
      rw [List.takeWhile_append_dropWhile, ← hsigned, List.takeWhile_append_dropWhile]
    have hblanks : ∀ c ∈ s.takeWhile isSpace, isSpace c = true :=
      fun c hc => List.mem_takeWhile_imp hc
    have hdigits : ∀ d ∈ back.takeWhile isDigit, isDigit d = true :=
      fun d hd => List.mem_takeWhile_imp hd
    by_cases hdig : back.takeWhile isDigit = []
    · -- without digits nothing is taken
      have hzero : strtol s = (0, 0) := by
        have hdrop : (s.dropWhile isSpace).drop sign.length = back := by simp [hsigned]
        simp only [strtol, decide_eq_true_eq, ← hsign, hdrop, hdig, if_true]
      rw [hzero, Prod.mk.injEq] at h
      exact absurd (List.length_eq_zero_iff.mp h.2.symm) hne
    · have hstop : ∀ c ∈ (back.dropWhile isDigit).head?, isDigit c = false := by
        intro c hc
        simpa [Option.mem_def.mp hc] using List.head?_dropWhile_not isDigit back
      have hparts := strtol_parts hblanks hcases hdig hdigits hstop
      rw [← hs, h, Prod.mk.injEq] at hparts
      -- everything is taken, so the rest is empty
      have hrest : back.dropWhile isDigit = [] := by
        have hlen := congrArg List.length hs
        simp only [List.length_append] at hlen
        exact List.length_eq_zero_iff.mp (by omega)
      refine ⟨_, _, ⟨hblanks, sign, _, ?_, hcases, hdig, hdigits, rfl⟩, hparts.1⟩
      rw [hrest, List.append_nil] at hs
      exact hs
  · rintro ⟨blanks, n, ⟨hblanks, sign, digits, rfl, hsign, hdig, hdigits, rfl⟩, rfl⟩
    have hend : ∀ c ∈ [].head?, isDigit c = false := by simp
    simpa [Nat.add_assoc] using strtol_parts hblanks hsign hdig hdigits hend

/-- On a number to its end `std::stoi` throws exactly when the number is no `int`. -/
theorem stoi_signedDigits {blanks s : List UInt8} {n : Int} (h : SignedDigits blanks s n) :
    stoi s = if n < -2147483648 ∨ n > 2147483647 then none else some n := by
  obtain ⟨hblanks, sign, digits, rfl, hsign, hne, hdigits, rfl⟩ := h
  obtain ⟨d, digits, rfl⟩ := List.exists_cons_of_ne_nil hne
  have hd := hdigits d (by simp)
  have hhead : ∀ c ∈ (sign ++ d :: digits).head?, isSpace c = false := by
    rcases hsign with rfl | rfl | rfl
    · simpa using isSpace_of_isDigit hd
    · simp [isSpace]
    · simp [isSpace]
  have htake : (d :: digits).takeWhile isDigit = d :: digits :=
    List.takeWhile_eq_self_iff.mpr hdigits
  simp only [stoi, dropWhile_stop hblanks hhead]
  rcases hsign with rfl | rfl | rfl
  · have hd' := isDigit_ne_sign hd
    simp [hd'.1, hd'.2, htake]
  · simp [htake]
  · simp [htake]

/-! ## Writing numbers -/

theorem decimal_ne_nil (n : Nat) : decimal n ≠ [] := by
  rw [decimal, Ne, List.map_eq_nil_iff]
  exact Nat.toDigits_ne_nil

/-- A digit as a byte. -/
theorem digit_byte {c : Char} (h : c.isDigit = true) :
    (UInt8.ofNat c.toNat).toNat = c.toNat ∧ 48 ≤ c.toNat ∧ c.toNat ≤ 57 := by
  simp only [Char.isDigit, Bool.and_eq_true, decide_eq_true_eq, ge_iff_le,
    UInt32.le_iff_toNat_le] at h
  have hlo : 48 ≤ c.toNat := h.1
  have hhi : c.toNat ≤ 57 := h.2
  exact ⟨UInt8.toNat_ofNat_of_lt' (by show c.toNat < 256; omega), hlo, hhi⟩

theorem isDigit_decimal {n : Nat} {d : UInt8} (h : d ∈ decimal n) : isDigit d = true := by
  obtain ⟨c, hc, rfl⟩ := List.mem_map.mp h
  obtain ⟨hbyte, hlo, hhi⟩ :=
    digit_byte (Nat.isDigit_of_mem_toDigits (b := 10) (by decide) (by decide) hc)
  rw [isDigit, decide_eq_true_eq, hbyte]
  exact ⟨hlo, hhi⟩

/-- `std::to_string` is undone by reading the digits. -/
theorem ofDecimal_decimal (n : Nat) : ofDecimal (decimal n) = n := by
  have hfold : ∀ (cs : List Char) (acc : Nat), (∀ c ∈ cs, c.isDigit = true) →
      (cs.map fun c => UInt8.ofNat c.toNat).foldl (fun n d => 10 * n + (d.toNat - 48)) acc
        = Nat.ofDigitChars 10 cs acc := by
    intro cs
    induction cs with
    | nil => intro acc _; rfl
    | cons c cs ih =>
        intro acc hcs
        have hbyte := (digit_byte (hcs c List.mem_cons_self)).1
        rw [List.map_cons, List.foldl_cons, hbyte,
          ih _ fun d hd => hcs d (List.mem_cons_of_mem _ hd)]
        rfl
  calc ofDecimal (decimal n)
      = Nat.ofDigitChars 10 (Nat.toDigits 10 n) 0 :=
        hfold _ 0 fun c hc => Nat.isDigit_of_mem_toDigits (b := 10) (by decide) (by decide) hc
    _ = n := Nat.ofDigitChars_ten_toDigits

theorem signedDigits_toDecimal (i : Int) : SignedDigits [] (toDecimal i) i := by
  have hdigits : ∀ d ∈ decimal i.natAbs, isDigit d = true := fun d hd => isDigit_decimal hd
  refine ⟨by simp, ?_⟩
  unfold toDecimal
  by_cases hneg : i < 0
  · refine ⟨[45], decimal i.natAbs, if_pos hneg, .inr (.inr rfl), decimal_ne_nil _, hdigits, ?_⟩
    rw [if_pos rfl, ofDecimal_decimal]
    omega
  · refine ⟨[], decimal i.natAbs, if_neg hneg, .inl rfl, decimal_ne_nil _, hdigits, ?_⟩
    rw [if_neg (by decide), ofDecimal_decimal]
    omega

/-! ## Blanks -/

/-- The characters that both ends of a message may carry. -/
def isBlank (c : UInt8) : Bool := c = 32 ∨ c = 9 ∨ c = 13 ∨ c = 10

def trimBlanks (raw : List UInt8) : List UInt8 := (raw.dropWhile isBlank).rdropWhile isBlank

/-- Neither end is a blank. -/
def Trimmed (s : List UInt8) : Prop :=
  (∀ c ∈ s.head?, isBlank c = false) ∧ ∀ c ∈ s.getLast?, isBlank c = false

/-- No blank is left at the front. -/
theorem trimBlanks_head {raw : List UInt8} {c : UInt8} (h : (trimBlanks raw).head? = some c) :
    isBlank c = false := by
  have hpre : trimBlanks raw <+: raw.dropWhile isBlank := List.rdropWhile_prefix _ _
  have hhead : (raw.dropWhile isBlank).head? = some c := by
    rw [← List.singleton_prefix_iff_head?_eq_some] at h ⊢
    exact h.trans hpre
  simpa [hhead] using List.head?_dropWhile_not isBlank raw

theorem rdropWhile_cons {p : UInt8 → Bool} {c : UInt8} (hc : p c = false)
    (front back : List UInt8) :
    (front ++ c :: back).rdropWhile p = front ++ c :: back.rdropWhile p := by
  have hrev : (front ++ c :: back).reverse = back.reverse ++ c :: front.reverse := by simp
  rw [List.rdropWhile, List.rdropWhile, hrev, List.dropWhile_append]
  by_cases h : (List.dropWhile p back.reverse).isEmpty
  · rw [if_pos h, List.isEmpty_iff.mp h, List.dropWhile_cons, hc]
    simp
  · rw [if_neg h]
    simp

theorem dropWhile_cons_stop {p : UInt8 → Bool} {c : UInt8} (hc : p c = false)
    (front back : List UInt8) :
    (front ++ c :: back).dropWhile p = front.dropWhile p ++ c :: back := by
  rw [List.dropWhile_append]
  by_cases h : (List.dropWhile p front).isEmpty
  · rw [if_pos h, List.isEmpty_iff.mp h, List.dropWhile_cons, hc]
    simp
  · rw [if_neg h]

/-- Trimming works on the two sides of a character it does not take. -/
theorem trimBlanks_cons {c : UInt8} (hc : isBlank c = false) (front back : List UInt8) :
    trimBlanks (front ++ c :: back) = front.dropWhile isBlank ++ c :: back.rdropWhile isBlank := by
  rw [trimBlanks, dropWhile_cons_stop hc, rdropWhile_cons hc]

theorem trimBlanks_of_blank {s : List UInt8} (h : ∀ c ∈ s, isBlank c = true) :
    trimBlanks s = [] := by
  rw [trimBlanks, List.dropWhile_eq_nil_iff.mpr h]
  rfl

/-- Trimming takes what stands around a trimmed text, and no more. -/
theorem trimBlanks_pad {front s back : List UInt8} (h : Trimmed s)
    (hfront : ∀ c ∈ front, isBlank c = true) (hback : ∀ c ∈ back, isBlank c = true) :
    trimBlanks (front ++ (s ++ back)) = s := by
  rw [trimBlanks, List.dropWhile_append_of_pos hfront]
  by_cases hs : s = []
  · subst hs
    rw [List.nil_append, List.dropWhile_eq_nil_iff.mpr hback]
    rfl
  · have hstart : (s ++ back).dropWhile isBlank = s ++ back := by
      obtain ⟨c, tail, rfl⟩ := List.exists_cons_of_ne_nil hs
      rw [List.cons_append, List.dropWhile_cons, h.1 c rfl]
      rfl
    obtain ⟨init, c, rfl⟩ := (List.eq_nil_or_concat' s).resolve_left hs
    have hc : isBlank c = false := h.2 c (by simp)
    rw [hstart, List.append_assoc, List.singleton_append, rdropWhile_cons hc,
      List.rdropWhile_eq_nil_iff.mpr hback]

/-- Blanks at one end taken first make no difference. -/
theorem trimBlanks_dropWhile (s : List UInt8) :
    trimBlanks (s.dropWhile isBlank) = trimBlanks s := by
  rw [trimBlanks, List.dropWhile_idempotent, trimBlanks]

theorem trimBlanks_rdropWhile (s : List UInt8) :
    trimBlanks (s.rdropWhile isBlank) = trimBlanks s := by
  by_cases h : ∀ c ∈ s, isBlank c = true
  · rw [List.rdropWhile_eq_nil_iff.mpr h, trimBlanks_of_blank h]
    rfl
  · -- some character stays, and separates the two ends
    simp only [not_forall, Bool.not_eq_true] at h
    obtain ⟨c, hc, hblank⟩ := h
    obtain ⟨front, back, rfl⟩ := List.append_of_mem hc
    rw [rdropWhile_cons hblank, trimBlanks_cons hblank, trimBlanks_cons hblank,
      List.rdropWhile_idempotent]

end EdgeGateway
