import ProtoSchema.Grammar.Assembly
import ProtoSchema.Proofs.Token.Language
import ProtoSchema.Proofs.Token.Whole

/-!
# Literals have values

The lexeme of an integer has no sign, so its value is a natural number. Every integer lexeme is a
numeral (`exists_parseInt`), and a string lexeme never ends in the middle of an escape
(`unescape_ne_unfinished`): in front of its closing delimiter every backslash protects a character,
and an escape takes digits only.
-/

namespace ProtoSchema

namespace Lexeme

/-- Every character of every word of a language lies between two others. -/
def Within (first last : Char) (L : Language Char) : Prop := ∀ l ∈ L, ∀ c ∈ l, first ≤ c ∧ c ≤ last

namespace Within

variable {first last : Char} {L M : Language Char}

theorem add (hL : Within first last L) (hM : Within first last M) : Within first last (L + M) :=
  fun l hl => hl.elim (hL l) (hM l)

theorem mul (hL : Within first last L) (hM : Within first last M) : Within first last (L * M) := by
  intro l hl c hc
  obtain ⟨x, hx, y, hy, rfl⟩ := Language.mem_mul.mp hl
  rcases List.mem_append.mp hc with hc | hc
  · exact hL x hx c hc
  · exact hM y hy c hc

open scoped Computability in
theorem kstar (hL : Within first last L) : Within first last L∗ := by
  intro l hl c hc
  obtain ⟨words, rfl, hwords⟩ := Language.mem_kstar.mp hl
  obtain ⟨w, hw, hc⟩ := List.mem_flatten.mp hc
  exact hL w (hwords w hw) c hc

theorem between {a b : Char} (h : first ≤ a ∧ b ≤ last) : Within first last (between a b) := by
  rintro _ ⟨d, rfl, hd⟩ c hc
  obtain rfl := List.mem_singleton.mp hc
  exact ⟨Char.le_trans h.1 hd.1, Char.le_trans hd.2 h.2⟩

theorem word {w : List Char} (h : ∀ c ∈ w, first ≤ c ∧ c ≤ last) : Within first last (word w) := by
  rintro _ rfl
  exact h

theorem anyOf {cs : List Char} (h : ∀ c ∈ cs, first ≤ c ∧ c ≤ last) :
    Within first last (anyOf cs) := by
  rintro _ ⟨d, hd, rfl⟩ c hc
  obtain rfl := List.mem_singleton.mp hc
  exact h c hd

end Within

/-- Integers are written with digits and letters. -/
theorem within_integers : Within '0' 'z' integers := by
  have hzero : Within '0' 'z' (word ['0']) := .word (by simp)
  have hhex : Within '0' 'z' hexDigits :=
    .add (.add (.between (by decide)) (.between (by decide))) (.between (by decide))
  have hmarker : Within '0' 'z' (anyOf ['x', 'X']) := .anyOf (by simp)
  exact .add (.add (.mul (.mul hzero hmarker) (.mul hhex (.kstar hhex)))
    (.mul (.between (by decide)) (.kstar (.between (by decide)))))
    (.mul hzero (.kstar (.between (by decide))))

end Lexeme

namespace Numeral

/-- A numeral without a minus sign is not negative. -/
theorem nonneg_of_read? {base : Nat} {text : List Char} {i : Int}
    (hsign : ∀ c ∈ text, plain c ≠ '-') (h : read? base text = some i) : 0 ≤ i := by
  unfold read? at h
  simp only at h
  split at h
  · next rest hbody =>
    have hfirst := hbody ▸ List.mem_cons_self (a := '-') (l := rest)
    have hinner := (List.dropWhile_suffix isPlainBlank).subset (List.mem_reverse.mp hfirst)
    have hmem := (List.dropWhile_suffix isPlainBlank).subset (List.mem_reverse.mp hinner)
    obtain ⟨c, hc, hplain⟩ := List.mem_map.mp hmem
    exact absurd hplain (hsign c hc)
  · obtain ⟨n, -, rfl⟩ := Option.map_eq_some_iff.mp h
    exact Int.natCast_nonneg n
  · obtain ⟨n, -, rfl⟩ := Option.map_eq_some_iff.mp h
    exact Int.natCast_nonneg n

/-- Digits and letters stand for themselves. -/
theorem plain_ne_minus {c : Char} (h : '0' ≤ c ∧ c ≤ 'z') : plain c ≠ '-' := by
  have hlow : c.toNat < 0x7F := lt_of_le_of_lt (b := 122) h.2 (by decide)
  rw [plain, if_pos hlow]
  rintro rfl
  exact absurd h.1 (by decide)

end Numeral

/-- The value of a text of digits in a base. -/
def Numeral.parse (base : Nat) (text : List Char) : Except BadNumeral Int :=
  match Numeral.read? base text with
  | some i => .ok i
  | none => .error ⟨base, text⟩

/-- The value of an integer lexeme is a natural number. -/
theorem nonneg_of_parseInt {l : List Char} {i : Int} (hl : l ∈ Lexeme.integers)
    (h : parseInt l = .ok i) : 0 ≤ i := by
  have hsign : ∀ c ∈ l, Numeral.plain c ≠ '-' := fun c hc =>
    Numeral.plain_ne_minus (Lexeme.within_integers l hl c hc)
  have hread {base : Nat} {text : List Char} (hsuffix : text <:+ l)
      (h : Numeral.parse base text = .ok i) : 0 ≤ i := by
    unfold Numeral.parse at h
    split at h
    · next hvalue =>
      obtain rfl := Except.ok.inj h
      exact Numeral.nonneg_of_read? (fun c hc => hsign c (hsuffix.subset hc)) hvalue
    · cases h
  unfold parseInt at h
  simp only at h
  split at h
  · exact hread ((List.suffix_cons _ _).trans (List.suffix_cons _ _)) h
  · exact hread ((List.suffix_cons _ _).trans (List.suffix_cons _ _)) h
  · exact hread (List.suffix_cons _ _) h
  · exact hread List.suffix_rfl h

/-- The value of an integer token is a natural number. -/
theorem Token.exists_intValue_eq_ofNat {t : Token} {i : Int} (ht : t.lexeme ∈ Lexeme.integers)
    (h : t.intValue = .ok i) : ∃ n : Nat, i = n := by
  unfold intValue at h
  cases hvalue : parseInt t.lexeme with
  | error e =>
    rw [hvalue] at h
    cases h
  | ok j =>
    rw [hvalue] at h
    obtain rfl := Except.ok.inj h
    exact ⟨_, (Int.toNat_of_nonneg (nonneg_of_parseInt ht hvalue)).symm⟩

/-! ## Values -/

open scoped Computability

namespace Numeral

variable {base : Nat} {c : Char} {ds : List Char}

/-- Digits are decimal digits or letters. -/
theorem range_of_isDigit (h : isDigit base c = true) :
    ('0' ≤ c ∧ c ≤ '9') ∨ ('a' ≤ c ∧ c ≤ 'f') ∨ 'A' ≤ c ∧ c ≤ 'F' := by
  unfold isDigit digit? hexDigit? at h
  split at h
  · next hc => exact .inl hc
  · split at h
    · next hc => exact .inr (.inl hc)
    · split at h
      · next hc => exact .inr (.inr hc)
      · cases h

/-- Digits are nothing else that a numeral may contain. -/
theorem plain_of_isDigit (h : isDigit base c = true) :
    plain c = c ∧ isPlainBlank c = false ∧ c ≠ '-' ∧ c ≠ '+' ∧ c ≠ '_' := by
  have hrange := range_of_isDigit h
  have hbounds : 48 ≤ c.toNat ∧ c.toNat ≤ 102 := by
    rcases hrange with ⟨hfirst, hlast⟩ | ⟨hfirst, hlast⟩ | ⟨hfirst, hlast⟩
    · exact ⟨hfirst, Nat.le_trans (show c.toNat ≤ 57 from hlast) (by decide)⟩
    · exact ⟨Nat.le_trans (by decide) (show 97 ≤ c.toNat from hfirst), hlast⟩
    · exact ⟨Nat.le_trans (by decide) (show 65 ≤ c.toNat from hfirst),
        Nat.le_trans (show c.toNat ≤ 70 from hlast) (by decide)⟩
  refine ⟨?_, ?_, ?_, ?_, ?_⟩
  · rw [plain, if_pos (show c.toNat < 0x7F by omega)]
  · have hspace : c ≠ ' ' := by
      rintro rfl
      exact absurd hbounds.1 (by decide)
    have hhigh : ¬ c.toNat ≤ 0xD := by omega
    simp [isPlainBlank, hspace, hhigh]
  all_goals
    rintro rfl
    exact absurd hrange (by decide)

theorem joinGroups?_of_digits (hne : ds ≠ []) (hall : ∀ c ∈ ds, isDigit base c = true) :
    joinGroups? base ds = some ds := by
  induction ds with
  | nil => exact absurd rfl hne
  | cons c ds ih =>
    rw [List.forall_mem_cons] at hall
    cases ds with
    | nil => rw [joinGroups?, if_pos hall.1]
    | cons d ds =>
      have hd := (plain_of_isDigit (hall.2 d List.mem_cons_self)).2.2.2.2
      rw [joinGroups?, if_pos hall.1, ih (List.cons_ne_nil d ds) hall.2]
      · rfl
      · simp
      · exact fun _ heq => absurd (List.cons.inj heq).1 hd

/-- No digit is taken for the marker of its base. -/
theorem dropMarker_of_digits (hall : ∀ c ∈ ds, isDigit base c = true) : dropMarker base ds = ds := by
  unfold dropMarker
  split
  · next m rest =>
    have hm := hall m (by simp)
    have hmarker : ¬ ((base = 16 ∧ (m = 'x' ∨ m = 'X')) ∨ (base = 8 ∧ (m = 'o' ∨ m = 'O'))) := by
      have hrange := range_of_isDigit hm
      rintro (⟨-, rfl | rfl⟩ | ⟨-, rfl | rfl⟩) <;> exact absurd hrange (by decide)
    rw [if_neg hmarker]
  · rfl

theorem dropWhile_of_digits (hall : ∀ c ∈ ds, isDigit base c = true) :
    ds.dropWhile isPlainBlank = ds := by
  cases ds with
  | nil => rfl
  | cons c ds =>
    have hc := (plain_of_isDigit (hall c List.mem_cons_self)).2.1
    rw [List.dropWhile_cons_of_neg (by simp [hc])]

/-- Digits are a numeral. -/
theorem read?_of_digits (hne : ds ≠ []) (hall : ∀ c ∈ ds, isDigit base c = true) :
    read? base ds = some (value base ds : Int) := by
  have hplain : ds.map plain = ds := by
    rw [List.map_congr_left fun c hc => (plain_of_isDigit (hall c hc)).1, List.map_id']
  have hreverse : ∀ c ∈ ds.reverse, isDigit base c = true :=
    fun c hc => hall c (List.mem_reverse.mp hc)
  unfold read?
  simp only [hplain, dropWhile_of_digits hall, dropWhile_of_digits hreverse, List.reverse_reverse]
  split
  · exact absurd rfl (plain_of_isDigit (hall _ List.mem_cons_self)).2.2.1
  · exact absurd rfl (plain_of_isDigit (hall _ List.mem_cons_self)).2.2.2.1
  · rw [dropMarker_of_digits hall, joinGroups?_of_digits hne hall]
    rfl

theorem isDigit_of_decimal {c : Char} (h : c.isDigit = true) : isDigit 10 c = true := by
  simp only [Char.isDigit, Bool.and_eq_true, decide_eq_true_eq] at h
  have hle : c.toNat ≤ 57 := h.2
  exact Lexeme.isDigit_of_value (Lexeme.hexDigit?_of_decimal h.1 h.2)
    (show c.toNat - 48 < 10 by omega)

end Numeral

/-- Decimal digits without a leading zero are an integer. -/
theorem parseInt_of_digits {c : Char} {ds : List Char} (hzero : c ≠ '0')
    (hall : ∀ d ∈ c :: ds, d.isDigit = true) :
    parseInt (c :: ds) = .ok (Numeral.value 10 (c :: ds) : Int) := by
  have hread := Numeral.read?_of_digits (List.cons_ne_nil c ds)
    fun d hd => Numeral.isDigit_of_decimal (hall d hd)
  unfold parseInt
  split <;> simp_all

/-- Hexadecimal digits behind their marker are an integer. -/
theorem parseInt_of_hexDigits {x : Char} {ds : List Char} (hx : x = 'x' ∨ x = 'X') (hne : ds ≠ [])
    (hall : ∀ d ∈ ds, Numeral.isDigit 16 d = true) :
    parseInt ('0' :: x :: ds) = .ok (Numeral.value 16 ds : Int) := by
  have hread := Numeral.read?_of_digits hne hall
  rcases hx with rfl | rfl <;> simp only [parseInt, hread]

/-- Octal digits behind a zero are an integer. -/
theorem parseInt_of_octalDigits {ds : List Char} (hall : ∀ d ∈ ds, Numeral.isDigit 8 d = true) :
    parseInt ('0' :: ds) = .ok (Numeral.value 8 ds : Int) := by
  cases ds with
  | nil => decide
  | cons d ds =>
    have hread := Numeral.read?_of_digits (List.cons_ne_nil d ds) hall
    have hrange := Numeral.range_of_isDigit (hall d List.mem_cons_self)
    unfold parseInt
    split
    · next heq =>
      obtain rfl := (List.cons.inj (List.cons.inj heq).2).1
      exact absurd hrange (by decide)
    · next heq =>
      obtain rfl := (List.cons.inj (List.cons.inj heq).2).1
      exact absurd hrange (by decide)
    · next heq =>
      obtain ⟨rfl, rfl⟩ := List.cons.inj (List.cons.inj heq).2
      simp only [hread]
    · next hother => exact absurd rfl (hother d ds)

/-- Every integer lexeme has a value, which is a natural number. -/
theorem exists_parseInt {l : List Char} (h : l ∈ Lexeme.integers) :
    ∃ n : Nat, parseInt l = .ok (n : Int) := by
  rcases Lexeme.exists_of_mem_integers h with
    ⟨x, ds, rfl, hx, hne, hds⟩ | ⟨c, ds, rfl, hfirst, hlast, hds⟩ | ⟨ds, rfl, hds⟩
  · exact ⟨_, parseInt_of_hexDigits hx hne hds⟩
  · refine ⟨_, parseInt_of_digits ?_ (List.forall_mem_cons.mpr ⟨?_, hds⟩)⟩
    · rintro rfl
      exact absurd hfirst (by decide)
    · simp only [Char.isDigit, Bool.and_eq_true, decide_eq_true_eq]
      exact ⟨Char.le_trans (by decide) hfirst, hlast⟩
  · exact ⟨_, parseInt_of_octalDigits hds⟩

/-! ## Strings -/

namespace Lexeme

/-- What may stand between the delimiters of a string: no backslash without a character behind it. -/
inductive Protected : List Char → Prop
  | nil : Protected []
  | plain {c : Char} {cs : List Char} (hc : c ≠ '\\') (hcs : Protected cs) : Protected (c :: cs)
  | escaped {c : Char} {cs : List Char} (hcs : Protected cs) : Protected ('\\' :: c :: cs)

theorem protected_of_kstar {delimiter : Char} {body : List Char}
    (h : body ∈ (noneOf [delimiter, '\\', '\n'] + word ['\\'] * noneOf ['\n'])∗) :
    Protected body := by
  obtain ⟨words, rfl, hwords⟩ := Language.mem_kstar.mp h
  clear h
  induction words with
  | nil => exact .nil
  | cons w words ih =>
    rw [List.forall_mem_cons] at hwords
    have ih := ih hwords.2
    rcases hwords.1 with ⟨c, hc, rfl⟩ | hescape
    · simp only [List.mem_cons, List.not_mem_nil, or_false, not_or] at hc
      exact .plain hc.2.1 ih
    · obtain ⟨_, rfl, _, ⟨c, -, rfl⟩, rfl⟩ := Language.mem_mul.mp hescape
      exact .escaped ih

/-- Between its delimiters a string literal is protected. -/
theorem protected_of_mem_strings {l : List Char} (h : l ∈ strings) :
    Protected (l.drop 1).dropLast := by
  have hquoted {delimiter : Char} (h : l ∈ quoted delimiter) : Protected (l.drop 1).dropLast := by
    rw [quoted, mul_assoc] at h
    obtain ⟨_, rfl, _, hrest, rfl⟩ := Language.mem_mul.mp h
    obtain ⟨body, hbody, _, rfl, rfl⟩ := Language.mem_mul.mp hrest
    have hdrop : ([delimiter] ++ (body ++ [delimiter])).drop 1 = body ++ [delimiter] := rfl
    rw [hdrop, List.dropLast_concat]
    exact protected_of_kstar hbody
  exact h.elim hquoted hquoted

/-- Characters that are no backslashes may be dropped. -/
theorem Protected.drop {cs : List Char} (h : Protected cs) {n : Nat}
    (hn : ∀ c ∈ cs.take n, c ≠ '\\') : Protected (cs.drop n) := by
  induction n generalizing cs with
  | zero => exact h
  | succ n ih =>
    cases h with
    | nil => exact .nil
    | plain _ hcs => exact ih hcs fun c hc => hn c (List.mem_cons_of_mem _ hc)
    | escaped => exact absurd rfl (hn '\\' List.mem_cons_self)

end Lexeme

namespace Escape

theorem take_leadingDigits {base limit : Nat} {cs : List Char} :
    ∀ c ∈ cs.take (leadingDigits base limit cs).length, c ≠ '\\' := by
  intro c hc
  have hprefix : leadingDigits base limit cs <+: cs :=
    (List.takeWhile_prefix _).trans (List.take_prefix _ _)
  rw [List.prefix_iff_eq_take.mp hprefix, List.length_take,
    Nat.min_eq_left hprefix.length_le, ← List.prefix_iff_eq_take.mp hprefix] at hc
  have hdigit := List.mem_takeWhile_imp hc
  rintro rfl
  exact absurd (Numeral.range_of_isDigit hdigit) (by decide)

/-- An escape is never unfinished, and what belongs to it besides its letter are digits. -/
theorem read_spec (letter : Char) (rest : List Char) :
    read letter rest ≠ .error .unfinished ∧
      ∀ bytes used, read letter rest = .ok (bytes, used) → ∀ c ∈ rest.take used, c ≠ '\\' := by
  fun_cases read letter rest with
  | case1 =>
    refine ⟨nofun, fun bytes used h => ?_⟩
    obtain ⟨-, rfl⟩ := Prod.mk.inj (Except.ok.inj h)
    exact List.forall_mem_nil _
  | case2 => exact ⟨nofun, nofun⟩
  | case3 =>
    refine ⟨nofun, fun bytes used h => ?_⟩
    obtain ⟨-, rfl⟩ := Prod.mk.inj (Except.ok.inj h)
    exact take_leadingDigits
  | case4 =>
    refine ⟨nofun, fun bytes used h => ?_⟩
    obtain ⟨-, rfl⟩ := Prod.mk.inj (Except.ok.inj h)
    exact take_leadingDigits
  | case5 => exact ⟨nofun, nofun⟩
  | case6 => exact ⟨nofun, nofun⟩
  | case7 hsimple hhex hoctal hletter width digits hwidth =>
    refine ⟨nofun, fun bytes used h => ?_⟩
    obtain ⟨-, rfl⟩ := Prod.mk.inj (Except.ok.inj h)
    rw [← not_ne_iff.mp hwidth]
    exact take_leadingDigits
  | case8 => exact ⟨nofun, nofun⟩

end Escape

theorem unescapeBody_ne_unfinished {body : List Char} (h : Lexeme.Protected body) :
    unescapeBody body ≠ .error .unfinished := by
  have hmap {x : Except EscapeError (List UInt8)} (f : List UInt8 → List UInt8)
      (hx : x ≠ .error .unfinished) : x.map f ≠ .error .unfinished := by
    cases x with
    | ok => nofun
    | error e => exact fun heq => hx (congrArg _ (Except.error.inj heq))
  fun_induction unescapeBody body with
  | case1 => nofun
  | case2 =>
    cases h with
    | plain hc => exact absurd rfl hc
  | case3 letter rest e hread =>
    intro heq
    obtain rfl := Except.error.inj heq
    exact (Escape.read_spec letter rest).1 hread
  | case4 letter rest bytes used hread ih =>
    have hrest : Lexeme.Protected rest := by
      cases h with
      | plain hc => exact absurd rfl hc
      | escaped hcs => exact hcs
    exact hmap _ (ih (hrest.drop ((Escape.read_spec letter rest).2 bytes used hread)))
  | case5 c rest _ hplain ih =>
    cases h with
    | plain _ hcs => exact hmap _ (ih hcs)
    | escaped => exact (hplain _ _ rfl rfl).elim

/-- A string lexeme does not end in the middle of an escape. -/
theorem unescape_ne_unfinished {l : List Char} (h : l ∈ Lexeme.strings) :
    unescape l ≠ .error .unfinished :=
  unescapeBody_ne_unfinished (Lexeme.protected_of_mem_strings h)

end ProtoSchema
