import ProtoSchema.Literal.Integer

/-!
# Lexemes

Each function here looks at the front of a text and returns the lexeme of its class that stands
there, if one does. A lexeme is a non-empty prefix of the text; the lemma beside each function says
so.
-/

namespace ProtoSchema.Lexeme

/-- What every lexeme is: a prefix of the text it was found in, and not empty. -/
def Opens (lexeme text : List Char) : Prop := lexeme <+: text ∧ lexeme ≠ []

/-- Dropping a lexeme makes a text shorter. -/
theorem Opens.length_drop_lt {lexeme text : List Char} (h : Opens lexeme text) :
    (text.drop lexeme.length).length < text.length := by
  have hle := h.1.length_le
  have hpos := List.length_pos_iff.mpr h.2
  rw [List.length_drop]
  omega

/-- A lexeme may be read behind a common first character. -/
theorem prefix_cons {c : Char} {l cs : List Char} (h : l <+: cs) : c :: l <+: c :: cs :=
  List.cons_prefix_cons.mpr ⟨rfl, h⟩

/-! ## Names and numerals -/

/-- Characters that open a name. -/
def isNameStart (c : Char) : Bool := c.isAlpha ∨ c = '_'

/-- Characters that continue a name. -/
def isNamePart (c : Char) : Bool := c.isAlphanum ∨ c = '_'

/-- A letter or underscore, then letters, digits and underscores. -/
def name? : List Char → Option (List Char)
  | c :: cs => if isNameStart c then some (c :: cs.takeWhile isNamePart) else none
  | [] => none

theorem name?_opens {cs l : List Char} (h : name? cs = some l) : Opens l cs := by
  unfold name? at h
  split at h
  · split at h
    · cases h
      exact ⟨prefix_cons (List.takeWhile_prefix _), by simp⟩
    · cases h
  · cases h

/-- A decimal integer without leading zero, a zero followed by octal digits, or `0x` followed by
hexadecimal digits. -/
def int? : List Char → Option (List Char)
  | '0' :: x :: cs =>
    let digits := cs.takeWhile (Numeral.isDigit 16)
    if (x = 'x' ∨ x = 'X') ∧ digits ≠ [] then some ('0' :: x :: digits)
    else some ('0' :: (x :: cs).takeWhile (Numeral.isDigit 8))
  | c :: cs => if c.isDigit then some (c :: cs.takeWhile Char.isDigit) else none
  | [] => none

theorem int?_opens {cs l : List Char} (h : int? cs = some l) : Opens l cs := by
  unfold int? at h
  split at h
  · simp only at h
    split at h
    · cases h
      exact ⟨prefix_cons (prefix_cons (List.takeWhile_prefix _)), by simp⟩
    · cases h
      exact ⟨prefix_cons (List.takeWhile_prefix _), by simp⟩
  · split at h
    · cases h
      exact ⟨prefix_cons (List.takeWhile_prefix _), by simp⟩
    · cases h
  · cases h

/-- The digits of an exponent with its sign. -/
def signedDigits? : List Char → Option (List Char)
  | s :: cs =>
    if s = '+' ∨ s = '-' then
      let digits := cs.takeWhile Char.isDigit
      if digits = [] then none else some (s :: digits)
    else
      let digits := (s :: cs).takeWhile Char.isDigit
      if digits = [] then none else some digits
  | [] => none

theorem isPrefix_of_signedDigits? {cs l : List Char} (h : signedDigits? cs = some l) :
    l <+: cs := by
  unfold signedDigits? at h
  split at h
  · split at h
    · simp only at h
      split at h
      · cases h
      · cases h
        exact prefix_cons (List.takeWhile_prefix _)
    · simp only at h
      split at h
      · cases h
      · cases h
        exact List.takeWhile_prefix _
  · cases h

/-- An exponent: the letter `e`, then digits that may have a sign. -/
def exponent? : List Char → Option (List Char)
  | e :: cs => if e = 'e' ∨ e = 'E' then (signedDigits? cs).map (e :: ·) else none
  | [] => none

theorem isPrefix_of_exponent? {cs l : List Char} (h : exponent? cs = some l) : l <+: cs := by
  unfold exponent? at h
  split at h
  · split at h
    · obtain ⟨d, hd, rfl⟩ := Option.map_eq_some_iff.mp h
      exact prefix_cons (isPrefix_of_signedDigits? hd)
    · cases h
  · cases h

/-- What follows the digits before the point of a number: a point, digits and possibly an
exponent, or an exponent alone. Without digits in front, the point needs digits behind it. -/
def fraction? (digitsBefore : Bool) : List Char → Option (List Char)
  | '.' :: cs =>
    let digits := cs.takeWhile Char.isDigit
    if digitsBefore ∨ digits ≠ [] then
      some ('.' :: (digits ++ (exponent? (cs.drop digits.length)).getD []))
    else none
  | cs => if digitsBefore then exponent? cs else none

/-- A prefix may be extended by a prefix of what it leaves. -/
theorem prefix_append_drop {l m cs : List Char} (h : l <+: cs) (hm : m <+: cs.drop l.length) :
    l ++ m <+: cs := by
  obtain ⟨r, rfl⟩ := h
  rw [List.drop_left] at hm
  exact (List.prefix_append_right_inj l).mpr hm

theorem isPrefix_getD_exponent? (cs : List Char) : (exponent? cs).getD [] <+: cs := by
  cases h : exponent? cs with
  | none => exact List.nil_prefix
  | some l => exact isPrefix_of_exponent? h

theorem isPrefix_of_fraction? {b : Bool} {cs l : List Char} (h : fraction? b cs = some l) :
    l <+: cs := by
  unfold fraction? at h
  split at h
  · simp only at h
    split at h
    · cases h
      exact prefix_cons (prefix_append_drop (List.takeWhile_prefix _) (isPrefix_getD_exponent? _))
    · cases h
  · split at h
    · exact isPrefix_of_exponent? h
    · cases h

/-- A number with a point or an exponent. -/
def float? (cs : List Char) : Option (List Char) :=
  let digits := cs.takeWhile Char.isDigit
  match fraction? (digits ≠ []) (cs.drop digits.length) with
  | some [] => none
  | some (c :: rest) => some (digits ++ c :: rest)
  | none => none

theorem float?_opens {cs l : List Char} (h : float? cs = some l) : Opens l cs := by
  unfold float? at h
  simp only at h
  split at h
  · cases h
  · rename_i hf
    cases h
    exact ⟨prefix_append_drop (List.takeWhile_prefix _) (isPrefix_of_fraction? hf), by simp⟩
  · cases h

/-! ## Strings, comments and blanks -/

/-- The rest of a string literal, with its closing delimiter. A backslash protects the character
behind it, and a literal never reaches past the end of its line. -/
def stringRest? (delimiter : Char) : List Char → Option (List Char)
  | [] => none
  | '\\' :: c :: cs =>
    if c = '\n' then none else (stringRest? delimiter cs).map fun l => '\\' :: c :: l
  | c :: cs =>
    if c = delimiter then some [c]
    else if c = '\n' ∨ c = '\\' then none
    else (stringRest? delimiter cs).map (c :: ·)

theorem isPrefix_of_stringRest? {delimiter : Char} {cs l : List Char}
    (h : stringRest? delimiter cs = some l) : l <+: cs := by
  fun_induction stringRest? delimiter cs generalizing l with
  | case1 => cases h
  | case2 => cases h
  | case3 cs c hc ih =>
    obtain ⟨m, hm, rfl⟩ := Option.map_eq_some_iff.mp h
    exact prefix_cons (prefix_cons (ih hm))
  | case4 => cases h; simp
  | case5 => cases h
  | case6 c cs _ _ _ ih =>
    obtain ⟨m, hm, rfl⟩ := Option.map_eq_some_iff.mp h
    exact prefix_cons (ih hm)

/-- A string literal between double or single quotes. -/
def string? : List Char → Option (List Char)
  | c :: cs => if c = '"' ∨ c = '\'' then (stringRest? c cs).map (c :: ·) else none
  | [] => none

theorem string?_opens {cs l : List Char} (h : string? cs = some l) : Opens l cs := by
  unfold string? at h
  split at h
  · split at h
    · obtain ⟨m, hm, rfl⟩ := Option.map_eq_some_iff.mp h
      exact ⟨prefix_cons (isPrefix_of_stringRest? hm), by simp⟩
    · cases h
  · cases h

/-- The rest of a block comment, up to and with the first closing mark. -/
def blockRest? : List Char → Option (List Char)
  | [] => none
  | '*' :: '/' :: _ => some ['*', '/']
  | c :: cs => (blockRest? cs).map (c :: ·)

theorem isPrefix_of_blockRest? {cs l : List Char} (h : blockRest? cs = some l) : l <+: cs := by
  fun_induction blockRest? cs generalizing l with
  | case1 => cases h
  | case2 => cases h; simp
  | case3 c cs _ ih =>
    obtain ⟨m, hm, rfl⟩ := Option.map_eq_some_iff.mp h
    exact prefix_cons (ih hm)

/-- The blanks that may stand between lexemes. -/
def isBlank (c : Char) : Bool := c = ' ' ∨ c = '\t' ∨ c = '\x0c' ∨ c = '\r' ∨ c = '\n'

/-- What may stand between tokens: a run of blanks, a comment to the end of the line, or a comment
up to its closing mark. -/
def blank? : List Char → Option (List Char)
  | '/' :: '/' :: cs => some ('/' :: '/' :: cs.takeWhile (· ≠ '\n'))
  | '/' :: '*' :: cs => (blockRest? cs).map fun l => '/' :: '*' :: l
  | c :: cs => if isBlank c then some (c :: cs.takeWhile isBlank) else none
  | [] => none

theorem blank?_opens {cs l : List Char} (h : blank? cs = some l) : Opens l cs := by
  unfold blank? at h
  split at h
  · cases h
    exact ⟨prefix_cons (prefix_cons (List.takeWhile_prefix _)), by simp⟩
  · obtain ⟨m, hm, rfl⟩ := Option.map_eq_some_iff.mp h
    exact ⟨prefix_cons (prefix_cons (isPrefix_of_blockRest? hm)), by simp⟩
  · split at h
    · cases h
      exact ⟨prefix_cons (List.takeWhile_prefix _), by simp⟩
    · cases h
  · cases h

end ProtoSchema.Lexeme
