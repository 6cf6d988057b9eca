import ProtoSchema.Text.Basic

/-!
# Characters and their bytes

The bytes of a character read as this character, whatever follows them (`Utf8.readChar_encodeChar`),
and no other bytes do (`Utf8.encodeChar_of_readChar`). So the bytes of characters read as these
characters, and the text that bytes read as has these bytes again.
-/

namespace ProtoSchema

namespace Utf8

/-! ## Lead bytes and further bytes -/

deriving instance DecidableEq for Lead

/-- What a byte asks for as the first of `follow + 1` bytes. -/
def leadOf? (n : Nat) : Option Lead :=
  if 0xC2 ≤ n ∧ n ≤ 0xDF then some ⟨1, 0x80, 0xBF, n - 0xC0⟩
  else if 0xE0 ≤ n ∧ n ≤ 0xEF then
    some ⟨2, if n = 0xE0 then 0xA0 else 0x80, if n = 0xED then 0x9F else 0xBF, n - 0xE0⟩
  else if 0xF0 ≤ n ∧ n ≤ 0xF4 then
    some ⟨3, if n = 0xF0 then 0x90 else 0x80, if n = 0xF4 then 0x8F else 0xBF, n - 0xF0⟩
  else none

/-- The lead bytes go by the number of bytes that they ask for. -/
theorem lead?_eq (b : UInt8) : lead? b = leadOf? b.toNat := by
  have hall : ∀ n : Fin 256, lead? (UInt8.ofNat n) = leadOf? n := by decide +kernel
  rw [← hall ⟨b.toNat, b.toNat_lt⟩, UInt8.ofNat_toNat]

/-- Where as many further bytes are acceptable as are asked for, the first of them is. -/
theorem exists_of_length_tails {n : Nat} {low high : UInt8} {bs : List UInt8}
    (h : (tails (n + 1) low high bs).length = n + 1) :
    ∃ t ts, bs = t :: ts ∧ (low.toNat ≤ t.toNat ∧ t.toNat ≤ high.toNat) ∧
      tails (n + 1) low high bs = t :: tails n 0x80 0xBF ts ∧
      (tails n 0x80 0xBF ts).length = n := by
  cases bs with
  | nil => simp [tails] at h
  | cons t ts =>
    rw [tails] at h ⊢
    split at h
    · next hbounds =>
      rw [if_pos hbounds]
      exact ⟨t, ts, rfl, hbounds, rfl, by simpa using h⟩
    · simp at h

theorem tails_cons {n : Nat} {low high t : UInt8} {ts : List UInt8}
    (h : low.toNat ≤ t.toNat ∧ t.toNat ≤ high.toNat) :
    tails (n + 1) low high (t :: ts) = t :: tails n 0x80 0xBF ts :=
  if_pos h

theorem tails_cons_tail {n : Nat} {t : UInt8} {ts : List UInt8}
    (h : 0x80 ≤ t.toNat ∧ t.toNat ≤ 0xBF) :
    tails (n + 1) 0x80 0xBF (t :: ts) = t :: tails n 0x80 0xBF ts :=
  tails_cons h

theorem tails_zero {low high : UInt8} {ts : List UInt8} : tails 0 low high ts = [] := by
  cases ts <;> rfl

/-! ## Characters -/

/-- The numbers of characters. -/
theorem toNat_cases (c : Char) :
    c.toNat < 0xD800 ∨ 0xDFFF < c.toNat ∧ c.toNat < 0x110000 := c.valid

theorem toNat_toUInt8 {n : Nat} (h : n < 0x100) : n.toUInt8.toNat = n :=
  UInt8.toNat_ofNat_of_lt' h

/-- A lead byte with as many further bytes as it asks for reads as their character. -/
theorem readChar_of_tails {b : UInt8} {lead : Lead} {ts rest : List UInt8}
    (hlead : leadOf? b.toNat = some lead)
    (hts : tails lead.follow lead.low lead.high (ts ++ rest) = ts)
    (hlength : ts.length = lead.follow) :
    readChar b (ts ++ rest) =
      .char (Char.ofNat (ts.foldl (fun n t => n * 0x40 + t.toNat % 0x40) lead.bits)) rest := by
  have hhigh : ¬ b < 0x80 := by
    intro hlow
    have hlow : b.toNat < 0x80 := hlow
    have hnone : leadOf? b.toNat = none := by
      rw [leadOf?, if_neg (by omega), if_neg (by omega), if_neg (by omega)]
    cases hnone.symm.trans hlead
  rw [readChar, if_neg hhigh, lead?_eq, hlead]
  simp only [hts]
  rw [if_pos hlength, ← hlength, List.drop_left]

section Widths

variable {n : Nat} {b t u v : UInt8} {rest : List UInt8}

theorem readChar_two (hn : 0x80 ≤ n ∧ n < 0x800) (hb : b.toNat = 0xC0 + n / 0x40)
    (ht : t.toNat = 0x80 + n % 0x40) : readChar b (t :: rest) = .char (Char.ofNat n) rest := by
  have hlead : leadOf? b.toNat = some ⟨1, 0x80, 0xBF, n / 0x40⟩ := by
    rw [hb, leadOf?, if_pos (by omega), Nat.add_sub_cancel_left]
  have htail : 0x80 ≤ t.toNat ∧ t.toNat ≤ 0xBF := by omega
  have htails := @tails_cons_tail 0 _ rest htail
  rw [tails_zero] at htails
  refine (@readChar_of_tails b _ [t] rest hlead htails rfl).trans ?_
  simp only [List.foldl_cons, List.foldl_nil, ht]
  congr 2
  omega

theorem readChar_three (hn : 0x800 ≤ n ∧ n < 0x10000) (hchar : n < 0xD800 ∨ 0xDFFF < n)
    (hb : b.toNat = 0xE0 + n / 0x1000) (ht : t.toNat = 0x80 + n / 0x40 % 0x40)
    (hu : u.toNat = 0x80 + n % 0x40) :
    readChar b (t :: u :: rest) = .char (Char.ofNat n) rest := by
  have hlead : leadOf? b.toNat = some ⟨2, if b.toNat = 0xE0 then 0xA0 else 0x80,
      if b.toNat = 0xED then 0x9F else 0xBF, n / 0x1000⟩ := by
    rw [leadOf?, if_neg (by omega), if_pos (by omega), show b.toNat - 0xE0 = n / 0x1000 by omega]
  have hfirst : (if b.toNat = 0xE0 then 0xA0 else 0x80 : UInt8).toNat ≤ t.toNat ∧
      t.toNat ≤ (if b.toNat = 0xED then 0x9F else 0xBF : UInt8).toNat := by
    constructor
    · split
      · exact show 0xA0 ≤ t.toNat by omega
      · exact show 0x80 ≤ t.toNat by omega
    · split
      · exact show t.toNat ≤ 0x9F by omega
      · exact show t.toNat ≤ 0xBF by omega
  have hsecond : 0x80 ≤ u.toNat ∧ u.toNat ≤ 0xBF := by omega
  have htails := @tails_cons 1 _ _ _ (u :: rest) hfirst
  rw [tails_cons_tail hsecond, tails_zero] at htails
  refine (@readChar_of_tails b _ [t, u] rest hlead htails rfl).trans ?_
  simp only [List.foldl_cons, List.foldl_nil, ht, hu]
  congr 2
  omega

theorem readChar_four (hn : 0x10000 ≤ n ∧ n < 0x110000)
    (hb : b.toNat = 0xF0 + n / 0x40000) (ht : t.toNat = 0x80 + n / 0x1000 % 0x40)
    (hu : u.toNat = 0x80 + n / 0x40 % 0x40) (hv : v.toNat = 0x80 + n % 0x40) :
    readChar b (t :: u :: v :: rest) = .char (Char.ofNat n) rest := by
  have hlead : leadOf? b.toNat = some ⟨3, if b.toNat = 0xF0 then 0x90 else 0x80,
      if b.toNat = 0xF4 then 0x8F else 0xBF, n / 0x40000⟩ := by
    rw [leadOf?, if_neg (by omega), if_neg (by omega), if_pos (by omega),
      show b.toNat - 0xF0 = n / 0x40000 by omega]
  have hfirst : (if b.toNat = 0xF0 then 0x90 else 0x80 : UInt8).toNat ≤ t.toNat ∧
      t.toNat ≤ (if b.toNat = 0xF4 then 0x8F else 0xBF : UInt8).toNat := by
    constructor
    · split
      · exact show 0x90 ≤ t.toNat by omega
      · exact show 0x80 ≤ t.toNat by omega
    · split
      · exact show t.toNat ≤ 0x8F by omega
      · exact show t.toNat ≤ 0xBF by omega
  have hsecond : 0x80 ≤ u.toNat ∧ u.toNat ≤ 0xBF := by omega
  have hthird : 0x80 ≤ v.toNat ∧ v.toNat ≤ 0xBF := by omega
  have htails := @tails_cons 2 _ _ _ (u :: v :: rest) hfirst
  rw [tails_cons_tail hsecond, tails_cons_tail hthird, tails_zero] at htails
  refine (@readChar_of_tails b _ [t, u, v] rest hlead htails rfl).trans ?_
  simp only [List.foldl_cons, List.foldl_nil, ht, hu, hv]
  congr 2
  omega

end Widths

/-- The bytes of a character read as this character. -/
theorem readChar_encodeChar (c : Char) (rest : List UInt8) :
    ∃ b bs, encodeChar c ++ rest = b :: bs ∧ readChar b bs = .char c rest := by
  have hc := toNat_cases c
  have hread := Char.ofNat_toNat c
  rw [encodeChar]
  generalize c.toNat = n at hc hread
  subst hread
  have hbyte {m : Nat} (h : m < 0x100) := toNat_toUInt8 h
  fun_cases encodeCodePoint n with
  | case1 h =>
    have hn : n.toUInt8.toNat = n := hbyte (by omega)
    have hlow : n.toUInt8 < 0x80 := by
      rw [UInt8.lt_iff_toNat_lt, hn]
      exact h
    refine ⟨_, _, rfl, ?_⟩
    rw [readChar, if_pos hlow, hn]
    rfl
  | case2 => exact ⟨_, _, rfl, readChar_two (by omega) (hbyte (by omega)) (hbyte (by omega))⟩
  | case3 =>
    exact ⟨_, _, rfl, readChar_three (by omega) (by omega) (hbyte (by omega)) (hbyte (by omega))
      (hbyte (by omega))⟩
  | case4 =>
    exact ⟨_, _, rfl, readChar_four (by omega) (hbyte (by omega)) (hbyte (by omega))
      (hbyte (by omega)) (hbyte (by omega))⟩

theorem toUInt8_of_toNat {b : UInt8} {n : Nat} (h : b.toNat = n) : n.toUInt8 = b := by
  rw [← h]
  exact UInt8.ofNat_toNat

theorem encodeChar_ofNat {n : Nat} (h : n < 0xD800 ∨ 0xDFFF < n ∧ n < 0x110000) :
    encodeChar (Char.ofNat n) = encodeCodePoint n := by
  rw [encodeChar, Char.ofNat, dif_pos h]
  rfl

section Widths

variable {b t u v : UInt8}

theorem encodeChar_two (hb : 0xC2 ≤ b.toNat ∧ b.toNat ≤ 0xDF)
    (ht : 0x80 ≤ t.toNat ∧ t.toNat ≤ 0xBF) :
    encodeChar (Char.ofNat ((b.toNat - 0xC0) * 0x40 + t.toNat % 0x40)) = [b, t] := by
  rw [encodeChar_ofNat (by omega), encodeCodePoint, if_neg (by omega), if_pos (by omega),
    @toUInt8_of_toNat b _ (by omega), @toUInt8_of_toNat t _ (by omega)]

theorem encodeChar_three (hb : 0xE0 ≤ b.toNat ∧ b.toNat ≤ 0xEF)
    (ht : 0x80 ≤ t.toNat ∧ t.toNat ≤ 0xBF)
    (hlow : b.toNat = 0xE0 → 0xA0 ≤ t.toNat) (hhigh : b.toNat = 0xED → t.toNat ≤ 0x9F)
    (hu : 0x80 ≤ u.toNat ∧ u.toNat ≤ 0xBF) :
    encodeChar (Char.ofNat
      (((b.toNat - 0xE0) * 0x40 + t.toNat % 0x40) * 0x40 + u.toNat % 0x40)) = [b, t, u] := by
  rw [encodeChar_ofNat (by omega), encodeCodePoint, if_neg (by omega), if_neg (by omega),
    if_pos (by omega), @toUInt8_of_toNat b _ (by omega), @toUInt8_of_toNat t _ (by omega),
    @toUInt8_of_toNat u _ (by omega)]

theorem encodeChar_four (hb : 0xF0 ≤ b.toNat ∧ b.toNat ≤ 0xF4)
    (ht : 0x80 ≤ t.toNat ∧ t.toNat ≤ 0xBF)
    (hlow : b.toNat = 0xF0 → 0x90 ≤ t.toNat) (hhigh : b.toNat = 0xF4 → t.toNat ≤ 0x8F)
    (hu : 0x80 ≤ u.toNat ∧ u.toNat ≤ 0xBF) (hv : 0x80 ≤ v.toNat ∧ v.toNat ≤ 0xBF) :
    encodeChar (Char.ofNat ((((b.toNat - 0xF0) * 0x40 + t.toNat % 0x40) * 0x40 + u.toNat % 0x40) *
      0x40 + v.toNat % 0x40)) = [b, t, u, v] := by
  rw [encodeChar_ofNat (by omega), encodeCodePoint, if_neg (by omega), if_neg (by omega),
    if_neg (by omega), @toUInt8_of_toNat b _ (by omega), @toUInt8_of_toNat t _ (by omega),
    @toUInt8_of_toNat u _ (by omega), @toUInt8_of_toNat v _ (by omega)]

/-- The bounds of the byte behind a lead byte, of which two lead bytes narrow one end. -/
theorem tail_bounds {n first last : Nat} {low high : UInt8}
    (hlow : (if n = first then low else 0x80).toNat ≤ t.toNat)
    (hhigh : t.toNat ≤ (if n = last then high else 0xBF).toNat)
    (hwide : 0x80 ≤ low.toNat ∧ high.toNat ≤ 0xBF) :
    (0x80 ≤ t.toNat ∧ t.toNat ≤ 0xBF) ∧ (n = first → low.toNat ≤ t.toNat) ∧
      (n = last → t.toNat ≤ high.toNat) := by
  have hplain : (0x80 : UInt8).toNat = 0x80 ∧ (0xBF : UInt8).toNat = 0xBF := ⟨rfl, rfl⟩
  split at hlow <;> split at hhigh <;> omega

end Widths

/-- Only the bytes of a character read as it. -/
theorem encodeChar_of_readChar {b : UInt8} {bs rest : List UInt8} {c : Char}
    (h : readChar b bs = .char c rest) : encodeChar c ++ rest = b :: bs := by
  rw [readChar, lead?_eq] at h
  split at h
  · next hb =>
    have hb : b.toNat < 0x80 := hb
    obtain ⟨rfl, rfl⟩ := Reading.char.inj h
    rw [encodeChar_ofNat (by omega), encodeCodePoint, if_pos hb, toUInt8_of_toNat rfl,
      List.singleton_append]
  · split at h
    · cases h
    · next lead hlead =>
      simp only at h
      split at h
      · next hlength =>
        obtain ⟨rfl, rfl⟩ := Reading.char.inj h
        clear h
        fun_cases leadOf? b.toNat with
        | case1 hb =>
          obtain rfl := Option.some.inj (hlead.symm.trans (if_pos hb))
          obtain ⟨t, ts, rfl, ht, htails, -⟩ := exists_of_length_tails hlength
          simp only [htails, tails_zero, List.foldl_cons, List.foldl_nil, encodeChar_two hb ht]
          rfl
        | case2 hb hb' =>
          obtain rfl := Option.some.inj (hlead.symm.trans ((if_neg hb).trans (if_pos hb')))
          obtain ⟨t, ts, rfl, ht, htails, hlength⟩ := exists_of_length_tails hlength
          obtain ⟨u, us, rfl, hu, htails', -⟩ := exists_of_length_tails hlength
          obtain ⟨ht, hlow, hhigh⟩ := tail_bounds ht.1 ht.2 (by decide)
          simp only [htails, htails', tails_zero, List.foldl_cons, List.foldl_nil,
            encodeChar_three hb' ht hlow hhigh hu]
          rfl
        | case3 hb hb' hb'' =>
          obtain rfl := Option.some.inj
            (hlead.symm.trans ((if_neg hb).trans ((if_neg hb').trans (if_pos hb''))))
          obtain ⟨t, ts, rfl, ht, htails, hlength⟩ := exists_of_length_tails hlength
          obtain ⟨u, us, rfl, hu, htails', hlength⟩ := exists_of_length_tails hlength
          obtain ⟨v, vs, rfl, hv, htails'', -⟩ := exists_of_length_tails hlength
          obtain ⟨ht, hlow, hhigh⟩ := tail_bounds ht.1 ht.2 (by decide)
          simp only [htails, htails', htails'', tails_zero, List.foldl_cons, List.foldl_nil,
            encodeChar_four hb'' ht hlow hhigh hu hv]
          rfl
        | case4 hb hb' hb'' =>
          cases hlead.symm.trans ((if_neg hb).trans ((if_neg hb').trans (if_neg hb'')))
      · split at h <;> cases h

end Utf8

namespace Text

/-- The bytes of characters read as these characters. -/
theorem ofBytes_encode (cs : List Char) : ofBytes (Utf8.encode cs) = ofChars cs := by
  rw [ofBytes, ofChars, mk.injEq]
  induction cs with
  | nil => rw [Utf8.encode, List.flatMap_nil, unitsOfBytes, List.map_nil]
  | cons c cs ih =>
    obtain ⟨b, bs, hbytes, hread⟩ := Utf8.readChar_encodeChar c (Utf8.encode cs)
    rw [Utf8.encode, List.flatMap_cons, ← Utf8.encode, hbytes, unitsOfBytes]
    split
    · next hchar =>
      obtain ⟨rfl, rfl⟩ := Utf8.Reading.char.inj (hread.symm.trans hchar)
      rw [ih, List.map_cons]
    · next hflaw => cases hread.symm.trans hflaw

/-- The text that bytes read as has these bytes. -/
theorem toBytes_ofBytes (bytes : List UInt8) : (ofBytes bytes).toBytes = bytes := by
  rw [ofBytes, toBytes]
  fun_induction unitsOfBytes bytes with
  | case1 => rfl
  | case2 b bs c rest hread hlength ih =>
    rw [List.flatMap_cons, ih]
    exact Utf8.encodeChar_of_readChar hread
  | case3 b bs sort length hread ih =>
    rw [List.flatMap_cons, ih]
    rfl

/-- A text of characters is a string. -/
theorem toString?_ofChars (cs : List Char) : (ofChars cs).toString? = some (String.ofList cs) := by
  have hchars : (cs.map TextUnit.char).mapM TextUnit.char? = some cs := by
    induction cs with
    | nil => rfl
    | cons c cs ih => rw [List.map_cons, List.mapM_cons, ih]; rfl
  rw [toString?, chars?, ofChars, hchars]
  rfl

end Text

end ProtoSchema
