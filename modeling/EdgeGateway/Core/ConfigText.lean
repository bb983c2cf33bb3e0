import EdgeGateway.Core.Config

set_option autoImplicit false

/-! # Configuration files as text

The lines a configuration file is made of, by shape (`ConfigLine`), and what each of them means:
an assignment to a known key, or nothing. A file of such lines parses to what the last assignment
of each key says (`parseFile_lines`), so a configuration that is written down, in any order and
with anything else between its lines, is read back.
-/

namespace EdgeGateway

/-! ## Keys and their values -/

inductive ConfigKey
  | int (k : IntKey)
  | str (k : StrKey)
  deriving DecidableEq

namespace ConfigKey

def name : ConfigKey → List UInt8
  | .int k => k.name
  | .str k => k.name

@[reducible] def Value : ConfigKey → Type
  | .int _ => Int
  | .str _ => List UInt8

/-- The value that a text gives to the key. -/
def read (key : ConfigKey) (val : List UInt8) : Option key.Value :=
  match key with
  | .int k => (toInt val k.name).toOption
  | .str _ => some val

end ConfigKey

namespace Config

def get (c : Config) (key : ConfigKey) : key.Value :=
  match key with
  | .int k => c.getInt k
  | .str k => c.getStr k

def set (c : Config) (key : ConfigKey) (v : key.Value) : Config :=
  match key with
  | .int k => c.setInt v k
  | .str k => c.setStr v k

theorem get_set_self (c : Config) (key : ConfigKey) (v : key.Value) :
    (c.set key v).get key = v := by
  cases key with
  | int k => cases k <;> rfl
  | str k => cases k <;> rfl

theorem get_set_other (c : Config) {key key' : ConfigKey} (h : key' ≠ key) (v : key.Value) :
    (c.set key v).get key' = c.get key' := by
  cases key with
  | int k =>
      cases key' with
      | int k' => cases k <;> cases k' <;> first | rfl | exact absurd rfl h
      | str k' => cases k <;> cases k' <;> rfl
  | str k =>
      cases key' with
      | int k' => cases k <;> cases k' <;> rfl
      | str k' => cases k <;> cases k' <;> first | rfl | exact absurd rfl h

/-- A configuration is its ten values. -/
theorem ext_get {c d : Config} (h : ∀ key, c.get key = d.get key) : c = d := by
  obtain ⟨c1, c2, c3, c4, c5, c6, c7, c8, c9, c10⟩ := c
  obtain ⟨d1, d2, d3, d4, d5, d6, d7, d8, d9, d10⟩ := d
  obtain rfl : c1 = d1 := h (.int .logLevel)
  obtain rfl : c2 = d2 := h (.int .idleTimeout)
  obtain rfl : c3 = d3 := h (.int .reportN)
  obtain rfl : c4 = d4 := h (.str .serialPath)
  obtain rfl : c5 = d5 := h (.int .serialBaud)
  obtain rfl : c6 = d6 := h (.str .mqttHost)
  obtain rfl : c7 = d7 := h (.str .dbPath)
  obtain rfl : c8 = d8 := h (.int .mqttKeepalive)
  obtain rfl : c9 = d9 := h (.int .mqttPort)
  obtain rfl : c10 = d10 := h (.int .httpPort)
  rfl

end Config

theorem assign_read (c : Config) {key : ConfigKey} {val : List UInt8} {v : key.Value}
    (h : key.read val = some v) : assign c key.name val = .ok (c.set key v) := by
  cases key with
  | int k =>
      have hval : toInt val k.name = .ok v := by
        simp only [ConfigKey.read] at h
        cases hint : toInt val k.name with
        | error e =>
            rw [hint] at h
            cases h
        | ok w =>
            rw [hint] at h
            exact congrArg Except.ok (Option.some.inj h)
      show assign c k.name val = _
      rw [assign_int, hval]
      rfl
  | str k =>
      obtain rfl := Option.some.inj h
      exact assign_str c k val

/-! ## Lines -/

/-- What may stand around the parts of an assignment. -/
structure Spacing where
  beforeKey : List UInt8
  afterKey : List UInt8
  beforeVal : List UInt8
  afterVal : List UInt8
  comment : Option (List UInt8)
  cr : Bool

/-- The shapes of a line. -/
inductive ConfigLine
  | blank (blanks : List UInt8)
  | comment (blanks text : List UInt8)
  | noEquals (text : List UInt8)
  | unknownKey (key rest : List UInt8)
  | assign (key : ConfigKey) (val : List UInt8) (spacing : Spacing)

def Spacing.tail (sp : Spacing) : List UInt8 :=
  (sp.comment.elim [] fun text => bytes "#" ++ text) ++ if sp.cr then bytes "\r" else []

namespace ConfigLine

def text : ConfigLine → List UInt8
  | .blank blanks => blanks
  | .comment blanks text => blanks ++ bytes "#" ++ text
  | .noEquals text => text
  | .unknownKey key rest => key ++ bytes "=" ++ rest
  | .assign key val sp =>
      sp.beforeKey ++ key.name ++ sp.afterKey ++ bytes "=" ++ sp.beforeVal ++ val ++ sp.afterVal ++
        sp.tail

/-- The assignment that the line is meant to be. -/
def assigned? : ConfigLine → Option (ConfigKey × List UInt8)
  | .assign key val _ => some (key, val)
  | _ => none

end ConfigLine

/-- Only spaces and tabs. -/
def Pad (s : List UInt8) : Prop := ∀ c ∈ s, c = 32 ∨ c = 9

structure Spacing.Shaped (sp : Spacing) : Prop where
  beforeKey : Pad sp.beforeKey
  afterKey : Pad sp.afterKey
  beforeVal : Pad sp.beforeVal
  afterVal : Pad sp.afterVal
  comment : ∀ text ∈ sp.comment, 10 ∉ text

def ConfigLine.Shaped : ConfigLine → Prop
  | .blank blanks => ∀ c ∈ blanks, c = 32 ∨ c = 9 ∨ c = 13
  | .comment blanks text => Pad blanks ∧ 10 ∉ text
  | .noEquals text => 61 ∉ text ∧ 10 ∉ text
  | .unknownKey key rest => 61 ∉ key ∧ 10 ∉ key ∧ 10 ∉ rest ∧ ∀ k : ConfigKey, trim key ≠ k.name
  | .assign _ _ sp => sp.Shaped

/-- A text that survives as a value: no comment sign, no newline, no blank at its ends. -/
def Plain (val : List UInt8) : Prop := 35 ∉ val ∧ 10 ∉ val ∧ Trimmed val

/-- A text that may be given to the key. -/
def WellFormed (key : ConfigKey) (val : List UInt8) : Prop := Plain val ∧ (key.read val).isSome

/-- The lines with a newline behind each; the last one may lack it. -/
def fileText (lines : List ConfigLine) (closed : Bool) : List UInt8 :=
  let text := lines.flatMap fun line => line.text ++ [10]
  if closed then text else text.dropLast

/-- All assignments, in order. -/
def assignments (lines : List ConfigLine) : List (ConfigKey × List UInt8) :=
  lines.filterMap ConfigLine.assigned?

/-- The text that the last assignment gives to the key. -/
def lastText (lines : List ConfigLine) (key : ConfigKey) : Option (List UInt8) :=
  ((assignments lines).reverse.find? fun a => a.1 = key).map Prod.snd

/-! ## Blanks around the parts -/

theorem Pad.blank {s : List UInt8} (h : Pad s) : ∀ c ∈ s, isBlank c = true := by
  intro c hc
  rcases h c hc with rfl | rfl <;> rfl

theorem Pad.not_mem {s : List UInt8} (h : Pad s) {c : UInt8} (h32 : c ≠ 32) (h9 : c ≠ 9) :
    c ∉ s :=
  fun hc => (h c hc).elim h32 h9

theorem name_plain (key : ConfigKey) :
    Plain key.name ∧ key.name ≠ [] ∧ 61 ∉ key.name := by
  unfold Plain Trimmed
  cases key with
  | int k => cases k <;> decide +kernel
  | str k => cases k <;> decide +kernel

/-- Key, value and comment come apart at the first `=` and the first `#` behind it. -/
theorem splitLine_eq {front back : List UInt8} (hfront : 61 ∉ front)
    (hhead : (front.dropWhile isBlank).head? ≠ some 35) :
    splitLine (front ++ 61 :: back)
      = some (trim front,
          if 35 ∈ trim back then trim ((trim back).takeWhile (· ≠ 35)) else trim back) := by
  have ht : trim (front ++ 61 :: back)
      = front.dropWhile isBlank ++ 61 :: back.rdropWhile isBlank := trimBlanks_cons rfl _ _
  have hmem : 61 ∉ front.dropWhile isBlank := fun h => hfront (List.dropWhile_subset _ h)
  have hkeep : ∀ c ∈ front.dropWhile isBlank, decide (c ≠ 61) = true := by
    intro c hc
    exact decide_eq_true fun h => hmem (h ▸ hc)
  have hstop : ∀ c ∈ (61 :: back.rdropWhile isBlank).head?, decide (c ≠ 61) = false := by
    intro c hc
    rw [← Option.some.inj hc]
    rfl
  have hne : ¬ (front.dropWhile isBlank ++ 61 :: back.rdropWhile isBlank = [] ∨
      (front.dropWhile isBlank ++ 61 :: back.rdropWhile isBlank).head? = some 35) := by
    rintro (h | h)
    · simp at h
    · cases hcase : front.dropWhile isBlank with
      | nil => simp [hcase] at h
      | cons c rest =>
          rw [hcase] at h hhead
          exact hhead h
  have heq : ¬ (61 ∉ front.dropWhile isBlank ++ 61 :: back.rdropWhile isBlank) := by simp
  have hkey : trim (front.dropWhile isBlank) = trim front := trimBlanks_dropWhile front
  have hval : trim (back.rdropWhile isBlank) = trim back := trimBlanks_rdropWhile back
  unfold splitLine
  dsimp only
  rw [ht, if_neg hne, if_neg heq, takeWhile_stop hkeep hstop, dropWhile_stop hkeep hstop,
    List.tail_cons, hkey, hval]

/-- A value is found between the blanks, with or without a comment behind it. -/
theorem value_found {val : List UInt8} (hval : Plain val) {sp : Spacing} (h : sp.Shaped) :
    let found := trim (sp.beforeVal ++ val ++ sp.afterVal ++ sp.tail)
    (if 35 ∈ found then trim (found.takeWhile (· ≠ 35)) else found) = val := by
  obtain ⟨hhash, -, htrim⟩ := hval
  have hcr : ∀ c ∈ (if sp.cr then bytes "\r" else []), isBlank c = true := by
    cases sp.cr <;> decide +kernel
  cases hcomment : sp.comment with
  | none =>
      have htail : sp.tail = if sp.cr then bytes "\r" else [] := by rw [Spacing.tail, hcomment]; rfl
      have hfound : trim (sp.beforeVal ++ val ++ sp.afterVal ++ sp.tail) = val := by
        rw [htail, List.append_assoc, List.append_assoc, trim]
        refine trimBlanks_pad htrim h.beforeVal.blank ?_
        exact List.forall_mem_append.mpr ⟨h.afterVal.blank, hcr⟩
      dsimp only
      rw [hfound, if_neg hhash]
  | some text =>
      have htail : sp.tail = 35 :: (text ++ if sp.cr then bytes "\r" else []) := by
        rw [Spacing.tail, hcomment]
        rfl
      have hfront : 35 ∉ (sp.beforeVal ++ val ++ sp.afterVal).dropWhile isBlank := by
        intro hmem
        have hmem := List.dropWhile_subset _ hmem
        simp only [List.mem_append, or_assoc] at hmem
        rcases hmem with hmem | hmem | hmem
        · exact h.beforeVal.not_mem (by decide) (by decide) hmem
        · exact hhash hmem
        · exact h.afterVal.not_mem (by decide) (by decide) hmem
      have hfound : trim (sp.beforeVal ++ val ++ sp.afterVal ++ sp.tail)
          = (sp.beforeVal ++ val ++ sp.afterVal).dropWhile isBlank
            ++ 35 :: (text ++ if sp.cr then bytes "\r" else []).rdropWhile isBlank := by
        rw [htail, trim, trimBlanks_cons rfl]
      have hkeep : ∀ c ∈ (sp.beforeVal ++ val ++ sp.afterVal).dropWhile isBlank,
          decide (c ≠ 35) = true := by
        intro c hc
        exact decide_eq_true fun heq => hfront (heq ▸ hc)
      dsimp only
      rw [hfound, if_pos (by simp), takeWhile_stop hkeep (by simp), trim, trimBlanks_dropWhile,
        List.append_assoc]
      exact trimBlanks_pad htrim h.beforeVal.blank h.afterVal.blank

/-! ## What each shape means -/

theorem splitLine_assign {key : ConfigKey} {val : List UInt8} (hval : Plain val) {sp : Spacing}
    (h : sp.Shaped) : splitLine (ConfigLine.assign key val sp).text = some (key.name, val) := by
  obtain ⟨⟨hhash, -, htrim⟩, hne, heq⟩ := name_plain key
  have htext : (ConfigLine.assign key val sp).text
      = (sp.beforeKey ++ (key.name ++ sp.afterKey))
        ++ 61 :: (sp.beforeVal ++ val ++ sp.afterVal ++ sp.tail) := by
    simp [ConfigLine.text, show bytes "=" = [61] by decide]
  have hfront : 61 ∉ sp.beforeKey ++ (key.name ++ sp.afterKey) := by
    simp only [List.mem_append, not_or]
    exact ⟨h.beforeKey.not_mem (by decide) (by decide), heq,
      h.afterKey.not_mem (by decide) (by decide)⟩
  have hhead : ((sp.beforeKey ++ (key.name ++ sp.afterKey)).dropWhile isBlank).head? ≠ some 35 := by
    rw [List.dropWhile_append_of_pos h.beforeKey.blank]
    obtain ⟨c, rest, hname⟩ := List.exists_cons_of_ne_nil hne
    rw [hname] at hhash htrim
    rw [hname, List.cons_append, List.dropWhile_cons, htrim.1 c rfl]
    intro hc
    exact hhash (Option.some.inj hc ▸ List.mem_cons_self)
  have hkey : trim (sp.beforeKey ++ (key.name ++ sp.afterKey)) = key.name :=
    trimBlanks_pad htrim h.beforeKey.blank h.afterKey.blank
  rw [htext, splitLine_eq hfront hhead, hkey]
  exact congrArg (fun v => some (key.name, v)) (value_found hval h)

/-- What is no assignment has no effect. -/
theorem applyLine_skipped (c : Config) {line : ConfigLine} (h : line.Shaped)
    (hnone : line.assigned? = none) : applyLine c line.text = .ok c := by
  cases line with
  | blank blanks =>
      have hblank : trim blanks = [] := by
        refine trimBlanks_of_blank fun c hc => ?_
        rcases h c hc with rfl | rfl | rfl <;> rfl
      simp [applyLine, splitLine, ConfigLine.text, hblank]
  | comment blanks text =>
      have htext : (ConfigLine.comment blanks text).text = blanks ++ 35 :: text := by
        simp [ConfigLine.text, show bytes "#" = [35] by decide]
      have htrim : trim (blanks ++ 35 :: text) = 35 :: text.rdropWhile isBlank := by
        rw [trim, trimBlanks_cons rfl, List.dropWhile_eq_nil_iff.mpr h.1.blank]
        rfl
      simp [applyLine, splitLine, htext, htrim]
  | noEquals text =>
      have hmem : 61 ∉ trim text := by
        intro hmem
        have hpre : trim text <+: text.dropWhile isBlank := List.rdropWhile_prefix _ _
        exact h.1 (List.dropWhile_subset _ (hpre.subset hmem))
      simp [applyLine, splitLine, ConfigLine.text, hmem]
  | unknownKey key rest =>
      obtain ⟨heq, -, -, hunknown⟩ := h
      have htext : (ConfigLine.unknownKey key rest).text = key ++ 61 :: rest := by
        simp [ConfigLine.text, show bytes "=" = [61] by decide]
      by_cases hhead : (key.dropWhile isBlank).head? = some 35
      · -- a comment
        have htrim : (trim (key ++ 61 :: rest)).head? = some 35 := by
          rw [trim, trimBlanks_cons rfl, List.head?_append, hhead]
          rfl
        simp [applyLine, splitLine, htext, htrim]
      · rw [applyLine, htext, splitLine_eq heq hhead]
        exact assign_unknown c (fun k => hunknown (.int k)) (fun k => hunknown (.str k)) _
  | assign key val sp => cases hnone

/-- The lines have the effect of their assignments. -/
theorem foldlM_lines {lines : List ConfigLine} (hlines : ∀ line ∈ lines, line.Shaped)
    (hvals : ∀ a ∈ assignments lines, WellFormed a.1 a.2) (c : Config) :
    (lines.map ConfigLine.text).foldlM applyLine c
      = (assignments lines).foldlM (fun c a => assign c a.1.name a.2) c := by
  induction lines generalizing c with
  | nil => rfl
  | cons line lines ih =>
      have ih := ih (fun l hl => hlines l (List.mem_cons_of_mem _ hl))
      have hline := hlines line List.mem_cons_self
      rw [List.map_cons, List.foldlM_cons]
      cases hassign : line.assigned? with
      | none =>
          have htail : assignments (line :: lines) = assignments lines := by
            rw [assignments, List.filterMap_cons_none hassign, assignments]
          rw [htail] at hvals ⊢
          rw [applyLine_skipped c hline hassign]
          exact ih hvals c
      | some a =>
          have htail : assignments (line :: lines) = a :: assignments lines := by
            rw [assignments, List.filterMap_cons_some hassign, assignments]
          rw [htail] at hvals ⊢
          have happly : applyLine c line.text = assign c a.1.name a.2 := by
            cases line with
            | assign key val sp =>
                obtain rfl := Option.some.inj hassign
                have hplain := (hvals (key, val) List.mem_cons_self).1
                rw [applyLine, splitLine_assign hplain hline]
            | _ => cases hassign
          rw [List.foldlM_cons, happly]
          cases assign c a.1.name a.2 with
          | error e => rfl
          | ok c' => exact ih (fun b hb => hvals b (List.mem_cons_of_mem _ hb)) c'

/-- **The last assignment of a key wins**, and a key without one keeps its value. -/
theorem foldlM_assign (as : List (ConfigKey × List UInt8)) (c : Config)
    (h : ∀ a ∈ as, WellFormed a.1 a.2) :
    ∃ c', as.foldlM (fun c a => assign c a.1.name a.2) c = .ok c' ∧
      ∀ key, ((as.reverse.find? fun a => a.1 = key).map Prod.snd).elim (c'.get key = c.get key)
        fun val => key.read val = some (c'.get key) := by
  induction as using List.reverseRecOn with
  | nil => exact ⟨c, rfl, fun _ => rfl⟩
  | append_singleton as a ih =>
      obtain ⟨c', hfold, hlast⟩ := ih fun b hb => h b (List.mem_append_left _ hb)
      obtain ⟨key, val⟩ := a
      obtain ⟨v, hv⟩ := Option.isSome_iff_exists.mp (h (key, val) (by simp)).2
      refine ⟨c'.set key v, ?_, fun key' => ?_⟩
      · rw [List.foldlM_append, hfold]
        show (assign c' key.name val >>= pure) = _
        rw [assign_read c' hv]
        rfl
      · rw [List.reverse_append, List.reverse_singleton, List.singleton_append, List.find?_cons]
        by_cases hkey : key = key'
        · subst hkey
          simp only [decide_true, Option.map_some, Option.elim_some]
          rw [Config.get_set_self]
          exact hv
        · rw [decide_eq_false hkey, Config.get_set_other c' (Ne.symm hkey)]
          exact hlast key'

/-! ## Lines of a file -/

theorem getLines_line {line : List UInt8} (h : 10 ∉ line) (rest : List UInt8) :
    getLines (line ++ 10 :: rest) = line :: getLines rest := by
  induction line with
  | nil => rfl
  | cons c line ih =>
      rw [List.mem_cons, not_or] at h
      rw [List.cons_append, getLines, if_neg (Ne.symm h.1), ih h.2]

theorem getLines_lines {lines : List (List UInt8)} (h : ∀ line ∈ lines, 10 ∉ line) :
    getLines (lines.flatMap fun line => line ++ [10]) = lines := by
  induction lines with
  | nil => rfl
  | cons line lines ih =>
      rw [List.flatMap_cons, List.append_assoc, List.singleton_append,
        getLines_line (h line List.mem_cons_self), ih fun l hl => h l (List.mem_cons_of_mem _ hl)]

/-- The last newline adds nothing, or an empty line. -/
theorem getLines_newline (text : List UInt8) :
    getLines (text ++ [10]) = getLines text ∨ getLines (text ++ [10]) = getLines text ++ [[]] := by
  induction text with
  | nil => exact .inr rfl
  | cons c text ih =>
      rw [List.cons_append, getLines, getLines]
      by_cases hc : c = 10
      · rw [if_pos hc, if_pos hc, List.cons_append]
        exact ih.imp (congrArg _) (congrArg _)
      · rw [if_neg hc, if_neg hc]
        cases hlines : getLines text with
        | nil =>
            -- only an empty text has no line
            rw [hlines] at ih
            rcases ih with ih | ih <;> rw [ih] <;> exact .inl rfl
        | cons line lines =>
            rw [hlines] at ih
            rcases ih with ih | ih <;> rw [ih]
            · exact .inl rfl
            · exact .inr rfl

/-- Whether the last line is closed makes no difference. -/
theorem foldlM_newline (text : List UInt8) (c : Config) :
    (getLines (text ++ [10])).foldlM applyLine c = (getLines text).foldlM applyLine c := by
  rcases getLines_newline text with h | h
  · rw [h]
  · rw [h, List.foldlM_append]
    cases (getLines text).foldlM applyLine c with
    | error e => rfl
    | ok c' => rfl

theorem ConfigLine.text_line {line : ConfigLine} (h : line.Shaped)
    (hval : ∀ a ∈ line.assigned?, WellFormed a.1 a.2) : 10 ∉ line.text := by
  cases line with
  | blank blanks =>
      intro hmem
      rcases h 10 hmem with h | h | h <;> exact absurd h (by decide)
  | comment blanks text =>
      simp only [ConfigLine.text, List.mem_append, not_or]
      exact ⟨⟨h.1.not_mem (by decide) (by decide), by decide⟩, h.2⟩
  | noEquals text => exact h.2
  | unknownKey key rest =>
      simp only [ConfigLine.text, List.mem_append, not_or]
      exact ⟨⟨h.2.1, by decide⟩, h.2.2.1⟩
  | assign key val sp =>
      have htail : 10 ∉ sp.tail := by
        have hcr : 10 ∉ (if sp.cr then bytes "\r" else []) := by cases sp.cr <;> decide
        rw [Spacing.tail, List.mem_append, not_or]
        refine ⟨?_, hcr⟩
        cases hcomment : sp.comment with
        | none => exact List.not_mem_nil
        | some text =>
            rw [Option.elim_some, List.mem_append, not_or]
            exact ⟨by decide, h.comment text hcomment⟩
      simp only [ConfigLine.text, List.mem_append, not_or]
      exact ⟨⟨⟨⟨⟨⟨⟨h.beforeKey.not_mem (by decide) (by decide), (name_plain key).1.2.1⟩,
        h.afterKey.not_mem (by decide) (by decide)⟩, by decide⟩,
        h.beforeVal.not_mem (by decide) (by decide)⟩, (hval (key, val) rfl).1.2.1⟩,
        h.afterVal.not_mem (by decide) (by decide)⟩, htail⟩

/-- **A file of shaped lines parses** to what the last assignments say. -/
theorem parseFile_lines (path : List UInt8) {lines : List ConfigLine}
    (hlines : ∀ line ∈ lines, line.Shaped)
    (hvals : ∀ a ∈ assignments lines, WellFormed a.1 a.2) (closed : Bool) :
    ∃ c, parseFile path (some (fileText lines closed)) = .ok c ∧
      ∀ key, (lastText lines key).elim (c.get key = ({} : Config).get key)
        fun val => key.read val = some (c.get key) := by
  obtain ⟨c, hfold, hlast⟩ := foldlM_assign (assignments lines) {} hvals
  refine ⟨c, ?_, hlast⟩
  have htexts : ∀ text ∈ lines.map ConfigLine.text, 10 ∉ text := by
    intro text htext
    obtain ⟨line, hline, rfl⟩ := List.mem_map.mp htext
    refine line.text_line (hlines line hline) fun a ha => ?_
    exact hvals a (List.mem_filterMap.mpr ⟨line, hline, ha⟩)
  have hclosed : getLines (fileText lines true) = lines.map ConfigLine.text := by
    rw [← getLines_lines htexts, List.flatMap_map]
    rfl
  have hparse : (getLines (fileText lines true)).foldlM applyLine {} = .ok c := by
    rw [hclosed, foldlM_lines hlines hvals, hfold]
  cases closed with
  | true => exact hparse
  | false =>
      show (getLines (fileText lines true).dropLast).foldlM applyLine {} = .ok c
      rcases List.eq_nil_or_concat' lines with rfl | ⟨init, line, rfl⟩
      · exact hparse
      · have hend : fileText (init ++ [line]) true
            = (fileText (init ++ [line]) true).dropLast ++ [10] := by
          simp [fileText, List.flatMap_append, ← List.append_assoc]
        rw [hend, foldlM_newline] at hparse
        exact hparse

/-! ## Writing a configuration down -/

/-- The value of `c` under the key, as text: a sign and digits, or the string itself. -/
def Config.Shows (c : Config) (key : ConfigKey) (val : List UInt8) : Prop :=
  match key with
  | .int k => SignedDigits [] val (c.getInt k)
  | .str k => val = c.getStr k

/-- A configuration that has a text. -/
structure Config.Writable (c : Config) : Prop where
  int : ∀ k, -2147483648 ≤ c.getInt k ∧ c.getInt k ≤ 2147483647
  str : ∀ k, c.getStr k ≠ [] ∧ Plain (c.getStr k)

theorem signedDigits_plain {val : List UInt8} {n : Int} (h : SignedDigits [] val n) :
    Plain val := by
  obtain ⟨-, sign, digits, rfl, hsign, hne, hdigits, -⟩ := h
  -- the characters of a number are `+`, `-` and digits
  have hchars : ∀ c ∈ sign ++ digits, c = 43 ∨ c = 45 ∨ isDigit c = true := by
    intro c hc
    rcases List.mem_append.mp hc with hc | hc
    · rcases hsign with rfl | rfl | rfl <;> simp_all
    · exact .inr (.inr (hdigits c hc))
  have hblank : ∀ c ∈ sign ++ digits, isBlank c = false := by
    intro c hc
    rcases hchars c hc with rfl | rfl | hd
    · rfl
    · rfl
    · have hspace := isSpace_of_isDigit hd
      simp only [isSpace, isBlank, decide_eq_false_iff_not, ← UInt8.toNat_inj,
        UInt8.reduceToNat] at hspace ⊢
      omega
  have hnot : ∀ c : UInt8, c ≠ 43 → c ≠ 45 → isDigit c = false → c ∉ sign ++ digits := by
    intro c h43 h45 hd hc
    rcases hchars c hc with h | h | h
    · exact h43 h
    · exact h45 h
    · rw [hd] at h
      cases h
  refine ⟨hnot 35 (by decide) (by decide) (by decide), hnot 10 (by decide) (by decide) (by decide),
    fun c hc => ?_, fun c hc => ?_⟩
  · exact hblank c (List.mem_of_mem_head? hc)
  · exact hblank c (List.mem_of_mem_getLast? hc)

theorem Config.Writable.shown {c : Config} (h : c.Writable) {key : ConfigKey} {val : List UInt8}
    (hval : c.Shows key val) : Plain val ∧ key.read val = some (c.get key) := by
  cases key with
  | int k =>
      have hread : toInt val k.name = .ok (c.getInt k) := toInt_eq_ok.mpr ⟨⟨[], hval⟩, h.int k⟩
      refine ⟨signedDigits_plain hval, ?_⟩
      rw [ConfigKey.read, hread]
      rfl
  | str k =>
      obtain rfl : val = c.getStr k := hval
      exact ⟨(h.str k).2, rfl⟩

/-- **What is written down is read back.** In a file of shaped lines whose values are well formed
or those of `c`, the last assignment of each key decides about it, whatever else the file holds; and
if these last assignments show the values of `c`, the file parses to `c`. -/
theorem config_text_roundtrip (path : List UInt8) {c : Config} (hc : c.Writable)
    {lines : List ConfigLine} (hlines : ∀ line ∈ lines, line.Shaped)
    (hvals : ∀ a ∈ assignments lines, WellFormed a.1 a.2 ∨ c.Shows a.1 a.2) (closed : Bool) :
    ((∀ key, ∃ val, lastText lines key = some val ∧ c.Shows key val) →
      parseFile path (some (fileText lines closed)) = .ok c) ∧
    ∃ parsed, parseFile path (some (fileText lines closed)) = .ok parsed ∧
      ∀ key val, lastText lines key = some val → key.read val = some (parsed.get key) := by
  have hformed : ∀ a ∈ assignments lines, WellFormed a.1 a.2 := by
    intro a ha
    rcases hvals a ha with h | h
    · exact h
    · obtain ⟨hplain, hread⟩ := hc.shown h
      exact ⟨hplain, by rw [hread]; rfl⟩
  obtain ⟨parsed, hparse, hlast⟩ := parseFile_lines path hlines hformed closed
  have hread : ∀ key val, lastText lines key = some val →
      key.read val = some (parsed.get key) := by
    intro key val hval
    have h := hlast key
    rw [hval] at h
    exact h
  refine ⟨fun hshown => ?_, parsed, hparse, hread⟩
  rw [hparse]
  refine congrArg Except.ok (Config.ext_get fun key => ?_)
  obtain ⟨val, hval, hshows⟩ := hshown key
  exact Option.some.inj ((hread key val hval).symm.trans (hc.shown hshows).2)

/-- A value with an `=`, a comment and a CR, an earlier assignment, and lines that say nothing. -/
def demoLines : List ConfigLine :=
  let plain : Spacing := ⟨[], bytes " ", bytes " ", [], none, false⟩
  [.comment (bytes " ") (bytes " gateway = 1"), .blank (bytes "\t\r"),
    .noEquals (bytes "http_port 80"),
    .unknownKey (bytes "color ") (bytes "red"), .assign (.str .mqttHost) (bytes "old") plain,
    .assign (.int .logLevel) (bytes "+2") plain, .assign (.int .idleTimeout) (bytes "5") plain,
    .assign (.int .reportN) (bytes "10") plain,
    .assign (.str .serialPath) (bytes "/tmp/ttyV0") plain,
    .assign (.int .serialBaud) (bytes "115200") plain,
    .assign (.str .mqttHost) (bytes "a=b")
      ⟨bytes " ", bytes "\t", [], bytes " ", some (bytes " the broker # 1"), true⟩,
    .assign (.str .dbPath) (bytes "/tmp/gateway.db") plain,
    .assign (.int .mqttKeepalive) (bytes "60") plain, .assign (.int .mqttPort) (bytes "1883") plain,
    .assign (.int .httpPort) (bytes "8888") plain]

theorem config_text_roundtrip_demo :
    parseFile (bytes "gw.conf") (some (fileText demoLines false))
      = .ok { logLevel := 2, mqttHost := bytes "a=b" } := by
  have hc : Config.Writable { logLevel := 2, mqttHost := bytes "a=b" } := by
    refine ⟨fun k => ?_, fun k => ?_⟩
    · cases k <;> decide
    · unfold Plain Trimmed
      cases k <;> decide +kernel
  have hunknown : ∀ k : ConfigKey, trim (bytes "color ") ≠ k.name := by
    intro k
    cases k with
    | int k => cases k <;> decide
    | str k => cases k <;> decide
  have hplain : Spacing.Shaped ⟨[], bytes " ", bytes " ", [], none, false⟩ := by
    refine ⟨?_, ?_, ?_, ?_, by simp⟩ <;> unfold Pad <;> decide +kernel
  have hodd : Spacing.Shaped
      ⟨bytes " ", bytes "\t", [], bytes " ", some (bytes " the broker # 1"), true⟩ := by
    refine ⟨?_, ?_, ?_, ?_, ?_⟩
    any_goals unfold Pad; decide +kernel
    · intro text htext
      rw [← Option.some.inj htext]
      decide
  have hlines : ∀ line ∈ demoLines, line.Shaped := by
    unfold demoLines
    simp only [List.forall_mem_cons, ConfigLine.Shaped, Pad, hplain, hodd]
    refine ⟨⟨by decide +kernel, by decide⟩, by decide +kernel, ⟨by decide, by decide⟩,
      ⟨by decide, by decide, by decide, hunknown⟩, trivial, trivial, trivial, trivial, trivial,
      trivial,
      trivial, trivial, trivial, trivial, trivial, by simp⟩
  have hvals : ∀ a ∈ assignments demoLines,
      WellFormed a.1 a.2 ∨ Config.Shows { logLevel := 2, mqttHost := bytes "a=b" } a.1 a.2 := by
    have hall : ∀ a ∈ assignments demoLines, WellFormed a.1 a.2 := by
      unfold WellFormed Plain Trimmed
      decide +kernel
    exact fun a ha => .inl (hall a ha)
  have hint : ∀ {n : Int} {val : List UInt8}, toDecimal n = val → SignedDigits [] val n :=
    fun h => h ▸ signedDigits_toDecimal _
  refine (config_text_roundtrip (bytes "gw.conf") hc hlines hvals false).1 fun key => ?_
  cases key with
  | int k =>
      cases k with
      | logLevel =>
          exact ⟨bytes "+2", by decide, by simp, [43], [50], by decide, by decide, by decide,
            by decide +kernel, by decide⟩
      | idleTimeout => exact ⟨bytes "5", by decide, hint (by decide)⟩
      | reportN => exact ⟨bytes "10", by decide, hint (by decide)⟩
      | mqttKeepalive => exact ⟨bytes "60", by decide, hint (by decide)⟩
      | serialBaud => exact ⟨bytes "115200", by decide, hint (by decide)⟩
      | mqttPort => exact ⟨bytes "1883", by decide, hint (by decide)⟩
      | httpPort => exact ⟨bytes "8888", by decide, hint (by decide)⟩
  | str k =>
      cases k with
      | serialPath => exact ⟨_, by decide, rfl⟩
      | mqttHost => exact ⟨_, by decide, rfl⟩
      | dbPath => exact ⟨_, by decide, rfl⟩

end EdgeGateway
