import ProtoSchema.Proofs.Token.Literal

/-!
# Digits and their values

The digits of a number in a base have the number as their value (`value_toDigits`), and a run of
digits is the digits of its value behind zeros (`exists_toDigits_of_digits`). The case of a digit
does not matter to its value, but only the digits in lower case are those of a number.
-/

namespace ProtoSchema.Numeral

/-! ## Single digits -/

/-- A digit does not mind its case. -/
theorem hexDigit?_toLower (c : Char) : hexDigit? c.toLower = hexDigit? c := by
  by_cases hc : c.toNat < 128
  · have hall : ∀ n : Fin 128, hexDigit? (Char.ofNat n).toLower = hexDigit? (Char.ofNat n) := by
      decide +kernel
    have hn := hall ⟨c.toNat, hc⟩
    rwa [Char.ofNat_toNat] at hn
  · have hsame : c.toLower = c := by
      have hlast : ¬ c.val ≤ 'Z'.val := fun h => hc (Nat.lt_of_le_of_lt h (by decide))
      rw [Char.toLower, dif_neg fun h => hlast h.2]
    rw [hsame]

theorem digit?_toLower (base : Nat) (c : Char) : digit? base c.toLower = digit? base c := by
  rw [digit?, digit?, hexDigit?_toLower]

theorem isDigit_toLower (base : Nat) (c : Char) : isDigit base c.toLower = isDigit base c := by
  rw [isDigit, isDigit, digit?_toLower]

theorem digit?_eq_some_iff {base : Nat} {c : Char} {v : Nat} :
    digit? base c = some v ↔ hexDigit? c = some v ∧ v < base := by
  rw [digit?, Option.filter_eq_some_iff, decide_eq_true_eq]

/-- A digit in lower case is the character of its value. -/
theorem toLower_of_hexDigit? {c : Char} {v : Nat} (h : hexDigit? c = some v) :
    c.toLower = v.digitChar ∧ (v < 10 → c.toLower = c) := by
  have hall : ∀ n : Fin 128, ∀ v ∈ hexDigit? (Char.ofNat n),
      (Char.ofNat n).toLower = v.digitChar ∧ (v < 10 → (Char.ofNat n).toLower = Char.ofNat n) := by
    decide +kernel
  have hc : c.toNat < 128 := by
    have hdigit : isDigit (v + 1) c = true := by
      rw [isDigit, digit?_eq_some_iff.mpr ⟨h, Nat.lt_succ_self v⟩, Option.isSome_some]
    rcases range_of_isDigit hdigit with ⟨-, hlast⟩ | ⟨-, hlast⟩ | ⟨-, hlast⟩ <;>
      exact Nat.lt_of_le_of_lt hlast (by decide)
  have hn := hall ⟨c.toNat, hc⟩
  rw [Char.ofNat_toNat] at hn
  exact hn v h

theorem hexDigit?_digitChar {v : Nat} (h : v < 16) : hexDigit? v.digitChar = some v := by
  have hall : ∀ v : Fin 16, hexDigit? v.val.digitChar = some v.val := by decide
  exact hall ⟨v, h⟩

section

variable {base : Nat}

theorem digit?_digitChar (hbase : base ≤ 16) {v : Nat} (h : v < base) :
    digit? base v.digitChar = some v :=
  digit?_eq_some_iff.mpr ⟨hexDigit?_digitChar (h.trans_le hbase), h⟩

/-! ## Runs of digits -/

theorem value_concat (ds : List Char) (d : Char) :
    value base (ds ++ [d]) = value base ds * base + (digit? base d).getD 0 := by
  rw [value, List.foldl_append, ← value, List.foldl_cons, List.foldl_nil]

/-- Zeros in front of digits do not count. -/
theorem value_replicate_append (zeros : Nat) (ds : List Char) :
    value base (List.replicate zeros '0' ++ ds) = value base ds := by
  induction zeros with
  | zero => rfl
  | succ zeros ih =>
    have hzero : (digit? base '0').getD 0 = 0 := by
      cases hdigit : digit? base '0' with
      | none => rfl
      | some v => exact (Option.some.inj (digit?_eq_some_iff.mp hdigit).1).symm
    rw [List.replicate_succ, List.cons_append, value, List.foldl_cons, hzero, Nat.zero_mul, ← value,
      ih]

theorem value_map_toLower (ds : List Char) :
    value base (ds.map Char.toLower) = value base ds := by
  rw [value, value, List.foldl_map]
  simp only [digit?_toLower]

/-- The value of some digits is below the power of the base. -/
theorem value_lt {ds : List Char} (hall : ∀ c ∈ ds, isDigit base c = true) :
    value base ds < base ^ ds.length := by
  induction ds using List.reverseRecOn with
  | nil => simp [value]
  | append_singleton ds d ih =>
    have hds := ih fun c hc => hall c (List.mem_append_left _ hc)
    obtain ⟨v, hv⟩ := Option.isSome_iff_exists.mp (hall d (by simp))
    have hlt : v < base := (digit?_eq_some_iff.mp hv).2
    rw [value_concat, hv, Option.getD_some, List.length_append, List.length_singleton, Nat.pow_succ]
    calc value base ds * base + v
        < (value base ds + 1) * base := by rw [Nat.succ_mul]; omega
      _ ≤ base ^ ds.length * base := Nat.mul_le_mul_right base hds

/-- The digits of a number have it as their value. -/
theorem value_toDigits (hone : 1 < base) (hbase : base ≤ 16) (n : Nat) :
    value base (Nat.toDigits base n) = n := by
  induction n using Nat.strongRecOn with
  | ind n ih =>
    rw [Nat.toDigits_eq_if hone]
    split
    · next hn =>
      rw [← List.nil_append [n.digitChar], value_concat, digit?_digitChar hbase hn]
      simp [value]
    · next hn =>
      have hrest : n / base < n := Nat.div_lt_self (by omega) hone
      rw [value_concat, ih _ hrest, digit?_digitChar hbase (Nat.mod_lt n (by omega)),
        Option.getD_some]
      exact Nat.div_add_mod' n base

theorem isDigit_of_mem_toDigits (hone : 1 < base) (hbase : base ≤ 16) {n : Nat} {c : Char}
    (h : c ∈ Nat.toDigits base n) : isDigit base c = true := by
  induction n using Nat.strongRecOn with
  | ind n ih =>
    rw [Nat.toDigits_eq_if hone] at h
    split at h
    · next hn =>
      obtain rfl := List.mem_singleton.mp h
      rw [isDigit, digit?_digitChar hbase hn, Option.isSome_some]
    · next hn =>
      rcases List.mem_append.mp h with h | h
      · exact ih _ (Nat.div_lt_self (by omega) hone) h
      · obtain rfl := List.mem_singleton.mp h
        rw [isDigit, digit?_digitChar hbase (Nat.mod_lt n (by omega)), Option.isSome_some]

/-- Digits are those of their value behind zeros. -/
theorem exists_toDigits_of_digits (hone : 1 < base) {ds : List Char} (hne : ds ≠ [])
    (hall : ∀ c ∈ ds, isDigit base c = true) :
    ∃ zeros, ds.map Char.toLower =
      List.replicate zeros '0' ++ Nat.toDigits base (value base ds) := by
  induction ds using List.reverseRecOn with
  | nil => exact absurd rfl hne
  | append_singleton ds d ih =>
    obtain ⟨v, hv⟩ := Option.isSome_iff_exists.mp (hall d (by simp))
    obtain ⟨hhex, hlt⟩ := digit?_eq_some_iff.mp hv
    have hlast : [d.toLower] = Nat.toDigits base v := by
      rw [Nat.toDigits_of_lt_base hlt, (toLower_of_hexDigit? hhex).1]
    rw [value_concat, hv, Option.getD_some, List.map_append, List.map_singleton, hlast]
    by_cases hds : ds = []
    · subst hds
      exact ⟨0, by simp [value]⟩
    · obtain ⟨zeros, hzeros⟩ := ih hds fun c hc => hall c (List.mem_append_left _ hc)
      rw [hzeros]
      by_cases hvalue : value base ds = 0
      · -- the digits in front are zeros, and so is the last one of theirs
        refine ⟨zeros + 1, ?_⟩
        rw [hvalue, Nat.toDigits_zero, Nat.zero_mul, Nat.zero_add, List.replicate_succ']
      · refine ⟨zeros, ?_⟩
        rw [List.append_assoc, Nat.toDigits_append_toDigits hone (Nat.pos_of_ne_zero hvalue) hlt,
          Nat.mul_comm]

end

/-- Digits below ten have no case. -/
theorem map_toLower_of_digits {base : Nat} (hbase : base ≤ 10) {ds : List Char}
    (hall : ∀ c ∈ ds, isDigit base c = true) : ds.map Char.toLower = ds := by
  have hsame : ∀ c ∈ ds, c.toLower = c := by
    intro c hc
    obtain ⟨v, hv⟩ := Option.isSome_iff_exists.mp (hall c hc)
    obtain ⟨hhex, hlt⟩ := digit?_eq_some_iff.mp hv
    exact (toLower_of_hexDigit? hhex).2 (hlt.trans_le hbase)
  rw [List.map_congr_left hsame, List.map_id']

end ProtoSchema.Numeral
