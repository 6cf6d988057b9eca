import ProtoSchema.Descriptor.FieldType
import ProtoSchema.Proofs.Decimal.Written
import ProtoSchema.Proofs.Grammar.Slots
import ProtoSchema.Proofs.Name.Words
import ProtoSchema.Proofs.Token.Legible

/-!
# Phrases

Names, references to types, numbers, constants and options: the lexemes that they are written with,
and what these are read as, wherever no keyword may stand in place of a name.
-/

namespace ProtoSchema

/-- A text that is read as a nonterminal behind every item of a sort. -/
def Nonterminal.Phrase (n : Nonterminal) (Behind : Item → Prop) (text : String)
    (R : n.Value → Item → Prop) : Prop :=
  ∃ ls, Segment text.toList ls ∧ ∀ prev, Behind prev → n.Reads prev ls R

/-! ## Items without keywords -/

/-- No keyword may stand behind the item. -/
def Item.Quiet (i : Item) : Prop := i.keywords = []

instance (i : Item) : Decidable i.Quiet := inferInstanceAs (Decidable (i.keywords = []))

theorem Item.Quiet.admits {i : Item} (h : i.Quiet) (l : Lexed) : i.Admits l := by
  intro _ k _
  rw [h]
  exact List.not_mem_nil

theorem Item.admits_of_ne {i : Item} {l : Lexed} (h : l.1 ≠ .name) : i.Admits l :=
  fun hname => absurd hname h

theorem Item.admits_keyword {i : Item} {k : Keyword} {cs : List Char} :
    i.Admits (.keyword k, cs) :=
  admits_of_ne Terminal.noConfusion

theorem Item.admits_mark {i : Item} {m : Mark} {cs : List Char} : i.Admits (.mark m, cs) :=
  admits_of_ne Terminal.noConfusion

/-- The item behind a name. -/
def Item.name : Item := ⟨⟨.name, 0⟩, 1⟩

theorem Item.quiet_name : Item.name.Quiet := by decide

/-! ## Names -/

section Names

open Dotted

variable {w : String} {ws : List String} {prev : Item}

/-- The lexeme of a word. -/
def wordLexed (w : String) : Lexed := (.name, w.toList)

theorem reads_name (hprev : prev.Admits (wordLexed w)) :
    Nonterminal.name.Reads prev [wordLexed w] fun v last => v.text = w ∧ last = .name := by
  refine Nonterminal.reads_rule 0 (Action.reads_terminal rfl hprev fun token htoken => ?_)
  refine Action.reads_nil rfl ⟨?_, rfl⟩
  obtain ⟨-, hlexeme⟩ := Prod.mk.inj htoken
  rw [Token.ident, Token.text, hlexeme, String.ofList_toList]

/-- The lexemes of further words, each behind a point. -/
def tailLexed (ws : List String) : List Lexed :=
  ws.flatMap fun w => [(.mark .dot, ['.']), wordLexed w]

theorem reads_moreNames (hne : ws ≠ []) :
    Nonterminal.moreNames.Reads prev (tailLexed ws) fun vs last =>
      vs.map Ident.text = ws ∧ last = .name := by
  have hpoint : (⟨⟨.moreNames, 0⟩, 1⟩ : Item).Quiet ∧ (⟨⟨.moreNames, 1⟩, 2⟩ : Item).Quiet := by
    decide
  induction ws using List.reverseRecOn with
  | nil => exact absurd rfl hne
  | append_singleton ws w ih =>
    by_cases hws : ws = []
    · subst hws
      refine Nonterminal.reads_rule 0 (Action.reads_terminal rfl Item.admits_mark ?_)
      refine fun _ _ => Action.reads_last (reads_name (hpoint.1.admits _)) fun v last hv => ?_
      exact ⟨_, rfl, by rw [List.map_singleton, hv.1]; rfl, hv.2⟩
    · have htail : tailLexed (ws ++ [w]) =
          tailLexed ws ++ [(.mark .dot, ['.']), wordLexed w] := by
        rw [tailLexed, List.flatMap_append, List.flatMap_singleton]
        rfl
      rw [htail]
      refine Nonterminal.reads_rule 1 (Action.reads_part (ih hws) fun vs _ hvs => ?_)
      refine Action.reads_terminal rfl Item.admits_mark fun _ _ => ?_
      refine Action.reads_last (reads_name (hpoint.2.admits _)) fun v last hv => ?_
      exact ⟨_, rfl, by rw [List.map_append, hvs.1, List.map_singleton, hv.1], hv.2⟩

/-- The lexemes of a path behind a point. -/
def pathLexed (w : String) (ws : List String) : List Lexed :=
  (.mark .dot, ['.']) :: wordLexed w :: tailLexed ws

theorem reads_pointed :
    Nonterminal.fullIdent.Reads prev (pathLexed w ws) fun v last =>
      v.text = "." ++ ofWords (w :: ws) ∧ last = .name := by
  have hpoint : (⟨⟨.leadingDot, 0⟩, 1⟩ : Item).Quiet := by decide
  have hdot : Nonterminal.leadingDot.Reads prev [(.mark .dot, ['.'])] fun _ last =>
      last = ⟨⟨.leadingDot, 0⟩, 1⟩ :=
    Nonterminal.reads_rule 0 (Action.reads_terminal rfl Item.admits_mark
      fun _ _ => Action.reads_nil rfl rfl)
  by_cases hws : ws = []
  · subst hws
    refine Nonterminal.reads_rule 1 (Action.reads_part hdot ?_)
    rintro _ _ rfl
    refine Action.reads_last (reads_name (hpoint.admits _)) fun v last hv => ⟨_, rfl, ?_, hv.2⟩
    rw [Ident.absolute, hv.1, ofWords, String.intercalate_singleton]
  · refine Nonterminal.reads_rule 0 (Action.reads_part hdot ?_)
    rintro _ _ rfl
    refine Action.reads_part (reads_name (w := w) (hpoint.admits _)) fun v last hv => ?_
    refine Action.reads_last (reads_moreNames hws) fun vs last' hvs => ⟨_, rfl, ?_, hvs.2⟩
    rw [Ident.absolute, Ident.join, List.map_cons, hv.1, hvs.1]
    rfl

/-- A word that stands for itself. -/
theorem reads_word (hprev : prev.Admits (wordLexed w)) :
    Nonterminal.fullIdent.Reads prev [wordLexed w] fun v last => v.text = w ∧ last = .name :=
  Nonterminal.reads_rule 3 (Action.reads_last (reads_name hprev) fun _ _ hv => ⟨_, rfl, hv⟩)

/-- A word is the name of an option. -/
theorem reads_optionName (hprev : prev.Admits (wordLexed w)) :
    Nonterminal.optionName.Reads prev [wordLexed w] fun v _ => v.text = w :=
  Nonterminal.reads_rule 1 (Action.reads_last
    (Nonterminal.reads_rule 0 (Action.reads_last (reads_name hprev) fun _ _ hv => ⟨_, rfl, hv.1⟩))
    fun _ _ hv => ⟨_, rfl, hv⟩)

theorem segment_word (h : IsWord w) : Segment w.toList [wordLexed w] := Segment.lexeme (l := wordLexed w) h

theorem toList_ofWords (w : String) (ws : List String) :
    (ofWords (w :: ws)).toList = w.toList ++ ws.flatMap fun w => '.' :: w.toList := by
  induction ws generalizing w with
  | nil => simp [ofWords]
  | cons v ws ih =>
    have hrest := ih v
    simp only [ofWords, String.toList_intercalate, List.map_cons] at hrest ⊢
    rw [List.intercalate_cons_cons, hrest]
    simp

/-- Further words follow a word. -/
theorem segment_words (h : ∀ v ∈ w :: ws, IsWord v) :
    Segment (ofWords (w :: ws)).toList (wordLexed w :: tailLexed ws) := by
  rw [toList_ofWords]
  induction ws generalizing w with
  | nil =>
    rw [List.flatMap_nil, List.append_nil]
    exact segment_word (h w (by simp))
  | cons v ws ih =>
    rw [List.forall_mem_cons] at h
    obtain ⟨c, cs, hv, hc, -⟩ := (h.2 v (by simp)).exists_cons
    intro rest rs hrest hspells
    have hopen : ∃ d ds, v.toList ++ ws.flatMap (fun w => '.' :: w.toList) = d :: ds ∧
        ¬ d.isDigit = true :=
      ⟨c, _, by rw [hv, List.cons_append], by simp [(Lexeme.ne_of_isNameStart hc).1]⟩
    have hpoint := (ih h.2).mark (m := .dot) (fun _ => hopen) rest rs hrest hspells
    rw [List.append_assoc, List.flatMap_cons, List.cons_append]
    refine Spells.lexeme (l := wordLexed w) h.1 ?_ hpoint
    rintro d hd
    obtain rfl := Option.some.inj hd
    rfl

/-- A path behind a point. -/
theorem segment_pointed (h : ∀ v ∈ w :: ws, IsWord v) :
    Segment ("." ++ ofWords (w :: ws)).toList (pathLexed w ws) := by
  obtain ⟨c, cs, hw, hc, -⟩ := (h w (by simp)).exists_cons
  rw [String.toList_append]
  refine (segment_words h).mark (m := .dot) fun _ => ⟨c, cs ++ ws.flatMap fun w => '.' :: w.toList, ?_, ?_⟩
  · rw [toList_ofWords, hw, List.cons_append]
  · simp [(Lexeme.ne_of_isNameStart hc).1]

/-- A type is referred to by the keyword of a scalar, or by a path behind a point. -/
def IsTypeText (text : String) : Prop :=
  (∃ path, IsPath path ∧ text = "." ++ path) ∨ ∃ type ∈ FieldType.scalars, text = type.keyword

/-- The keywords of the scalars are words, and no keywords of the grammar. -/
theorem scalar_facts : ∀ type ∈ FieldType.scalars, IsWord type.keyword ∧
    Keyword.ofSpelling? type.keyword.toList = none := by
  decide +kernel

theorem phrase_type {text : String} (h : IsTypeText text) :
    Nonterminal.fullIdent.Phrase (fun _ => True) text fun v last => v.text = text ∧ last = .name := by
  rcases h with ⟨path, ⟨ws, hne, hws, rfl⟩, rfl⟩ | ⟨type, htype, rfl⟩
  · obtain ⟨w, ws, rfl⟩ := List.exists_cons_of_ne_nil hne
    exact ⟨_, segment_pointed hws, fun _ _ => reads_pointed⟩
  · obtain ⟨hword, hnone⟩ := scalar_facts type htype
    exact ⟨_, segment_word hword, fun _ _ => reads_word fun _ k hk => by cases hnone.symm.trans hk⟩

end Names

/-! ## Numbers -/

section Numbers

variable {prev : Item}

theorem Token.intValue_of_lexed {t : Token} {n : Nat} (h : t.lexed = (.int, Nat.toDigits 10 n)) :
    t.intValue = .ok (n : Int) := by
  rw [intValue, (Prod.mk.inj h).2, parseInt_toDigits]
  rfl

theorem segment_natural (n : Nat) :
    Segment (toString n).toList [(.int, Nat.toDigits 10 n)] := by
  have hdigits : (toString n).toList = Nat.toDigits 10 n := Nat.toList_repr
  rw [hdigits]
  exact Segment.lexeme (l := (.int, _)) (toDigits_mem_integers n)

theorem phrase_fieldNumber (n : Nat) :
    Nonterminal.fieldNumber.Phrase (fun _ => True) (toString n) fun v _ => v = n := by
  refine ⟨_, segment_natural n, fun prev _ => ?_⟩
  refine Nonterminal.reads_rule 0 (Action.reads_terminal rfl (Item.admits_of_ne nofun) ?_)
  intro token htoken
  have hvalue : token.intValue.map Int.toNat = .ok n := by
    rw [Token.intValue_of_lexed htoken]
    rfl
  exact Action.reads_nil hvalue rfl

/-- A negative number has a minus sign in front of its digits. -/
theorem segment_negative (n : Nat) : Segment (toString (Int.negSucc n)).toList
    [(.mark .minus, ['-']), (.int, Nat.toDigits 10 (n + 1))] := by
  have htext : toString (Int.negSucc n) = "-" ++ toString (n + 1) := rfl
  rw [htext, String.toList_append]
  exact (segment_natural (n + 1)).mark (m := .minus) nofun

theorem phrase_signedInt (i : Int) :
    Nonterminal.signedInt.Phrase (fun _ => True) (toString i) fun v _ => v = i := by
  cases i with
  | ofNat n =>
    refine ⟨_, segment_natural n, fun prev _ => ?_⟩
    refine Nonterminal.reads_rule 1 (Action.reads_terminal rfl (Item.admits_of_ne nofun) ?_)
    exact fun token htoken => Action.reads_nil (Token.intValue_of_lexed htoken) rfl
  | negSucc n =>
    refine ⟨_, segment_negative n, fun prev _ => ?_⟩
    refine Nonterminal.reads_rule 0 (Action.reads_terminal rfl Item.admits_mark ?_)
    refine fun _ _ => Action.reads_terminal rfl (Item.admits_of_ne nofun) fun token htoken => ?_
    have hvalue : token.intValue.map (- ·) = .ok (Int.negSucc n) := by
      rw [Token.intValue_of_lexed htoken]
      rfl
    exact Action.reads_nil hvalue rfl

end Numbers

/-! ## Constants -/

section Constants

open Dotted

variable {prev : Item}

theorem reads_minus : Nonterminal.sign.Reads prev [(.mark .minus, ['-'])] fun v last =>
    v = .minus ∧ last = ⟨⟨.sign, 0⟩, 1⟩ :=
  Nonterminal.reads_rule 0 (Action.reads_terminal rfl Item.admits_mark
    fun _ _ => Action.reads_nil rfl ⟨rfl, rfl⟩)

/-- A number as a constant. -/
theorem reads_number {ls : List Lexed} {R : Constant → Item → Prop}
    (h : Nonterminal.number.Reads prev ls R) : Nonterminal.constant.Reads prev ls R :=
  Nonterminal.reads_rule 0 (Action.reads_last h fun _ _ hv => ⟨_, rfl, hv⟩)

theorem phrase_int (i : Int) :
    Nonterminal.constant.Phrase (fun _ => True) (toString i) fun c _ => c.value = .int i := by
  cases i with
  | ofNat n =>
    refine ⟨_, segment_natural n, fun prev _ => reads_number ?_⟩
    refine Nonterminal.reads_rule 1 (Action.reads_terminal rfl (Item.admits_of_ne nofun) ?_)
    intro token htoken
    have hvalue : Constant.ofInt .plus token = .ok ⟨.int (Int.ofNat n), some token.position⟩ := by
      rw [Constant.ofInt, Token.intValue_of_lexed htoken]
      rfl
    exact Action.reads_nil hvalue rfl
  | negSucc n =>
    refine ⟨_, segment_negative n, fun prev _ => reads_number ?_⟩
    refine Nonterminal.reads_rule 0 (Action.reads_part reads_minus ?_)
    rintro _ _ ⟨rfl, rfl⟩
    refine Action.reads_terminal rfl (Item.admits_of_ne nofun) fun token htoken => ?_
    have hvalue : Constant.ofInt .minus token =
        .ok ⟨.int (Int.negSucc n), some token.position⟩ := by
      rw [Constant.ofInt, Token.intValue_of_lexed htoken]
      rfl
    exact Action.reads_nil hvalue rfl

theorem phrase_word {w : String} (h : IsWord w) :
    Nonterminal.constant.Phrase Item.Quiet w fun c _ => c.value = .ident w := by
  refine ⟨_, segment_word h, fun prev hprev => ?_⟩
  refine Nonterminal.reads_rule 1 (Action.reads_last (reads_word (hprev.admits _)) ?_)
  exact fun v _ hv => ⟨_, rfl, congrArg Value.ident hv.1⟩

/-- A value that is a double, or a word that stands for one. -/
def Value.IsFloating (value : Value) : Prop :=
  (∃ x, value = .float x) ∨ value = .ident "inf" ∨ value = .ident "nan"

/-- The text of a double is a number, or a word with a meaning of its own. -/
theorem phrase_float (x : Float) :
    Nonterminal.constant.Phrase Item.Quiet (Decimal.floatText x) fun c _ => c.value.IsFloating := by
  have hword : ∀ w ∈ ["inf", "nan"], IsWord w := by decide +kernel
  have hquiet : (⟨⟨.sign, 0⟩, 1⟩ : Item).Quiet := by decide
  obtain ⟨sign, word, htext, hsign, hcases⟩ := Decimal.floatText_cases x
  rw [Nonterminal.Phrase, htext]
  have hcases : word ∈ Lexeme.floats ∨
      word ∈ Lexeme.names ∧ (String.ofList word = "inf" ∨ String.ofList word = "nan") := by
    rcases hcases with h | rfl | rfl
    · exact .inl h
    · exact .inr ⟨hword "inf" (by simp), .inl rfl⟩
    · exact .inr ⟨hword "nan" (by simp), .inr rfl⟩
  rcases hcases with h | ⟨h, hmeaning⟩
  · have hsegment : Segment word [(.float, word)] := Segment.lexeme (l := (.float, word)) h
    rcases hsign with rfl | rfl
    · refine ⟨_, hsegment, fun prev _ => reads_number ?_⟩
      refine Nonterminal.reads_rule 3 (Action.reads_terminal rfl (Item.admits_of_ne nofun) ?_)
      exact fun _ _ => Action.reads_nil rfl (.inl ⟨_, rfl⟩)
    · refine ⟨_, hsegment.mark (m := .minus) nofun, fun prev _ => reads_number ?_⟩
      refine Nonterminal.reads_rule 2 (Action.reads_part reads_minus fun _ _ _ => ?_)
      exact Action.reads_terminal rfl (Item.admits_of_ne nofun)
        fun _ _ => Action.reads_nil rfl (.inl ⟨_, rfl⟩)
  · have hsegment : Segment word [(.name, word)] := Segment.lexeme (l := (.name, word)) h
    rcases hsign with rfl | rfl
    · refine ⟨_, hsegment, fun prev hprev => ?_⟩
      have hread := @reads_word (String.ofList word) prev (hprev.admits _)
      rw [wordLexed, String.toList_ofList] at hread
      refine Nonterminal.reads_rule 1 (Action.reads_last hread fun v _ hv => ⟨_, rfl, .inr ?_⟩)
      exact hmeaning.imp (fun h => congrArg Value.ident (hv.1.trans h))
        fun h => congrArg Value.ident (hv.1.trans h)
    · refine ⟨_, hsegment.mark (m := .minus) nofun, fun prev _ => reads_number ?_⟩
      refine Nonterminal.reads_rule 4 (Action.reads_part reads_minus ?_)
      rintro _ _ ⟨-, rfl⟩
      refine Action.reads_terminal rfl (hquiet.admits _) fun token htoken => Action.reads_nil rfl ?_
      have htext : token.text = String.ofList word := by
        rw [Token.text, (Prod.mk.inj htoken).2]
      rcases hmeaning with h | h <;> exact .inl ⟨_, by simp [Constant.ofSignedWord, htext, h]; rfl⟩

theorem phrase_string (bytes : List UInt8) :
    Nonterminal.constant.Phrase (fun _ => True) (Literal.quote bytes) fun c _ =>
      c.value = .string (.ofBytes bytes) := by
  refine ⟨_, Segment.lexeme (l := (.string, (Literal.quote bytes).toList))
    (Literal.quote_mem_strings bytes), fun prev _ => ?_⟩
  have hrun : Nonterminal.stringRun.Reads prev [(.string, (Literal.quote bytes).toList)]
      fun tokens _ => ∃ token : Token, tokens = [token] ∧ token.lexeme = (Literal.quote bytes).toList :=
    Nonterminal.reads_rule 0 (Action.reads_terminal rfl (Item.admits_of_ne nofun)
      fun token htoken => Action.reads_nil rfl ⟨token, rfl, (Prod.mk.inj htoken).2⟩)
  have hstrings : Nonterminal.strings.Reads prev [(.string, (Literal.quote bytes).toList)]
      fun s _ => s.bytes = bytes := by
    refine Nonterminal.reads_rule 0 (Action.reads_last hrun ?_)
    rintro _ _ ⟨token, rfl, htoken⟩
    have hbytes : token.bytes = .ok bytes := by
      rw [Token.bytes, htoken, Literal.unescape_quote]
      rfl
    have hvalue : ByteString.ofTokens [token] = .ok ⟨[bytes].flatten, token.position⟩ := by
      rw [ByteString.ofTokens, List.mapM_cons, hbytes]
      rfl
    exact ⟨_, hvalue, List.flatten_singleton⟩
  refine Nonterminal.reads_rule 2 (Action.reads_last hstrings fun s _ hs => ⟨_, rfl, ?_⟩)
  rw [Constant.ofBytes, hs]

end Constants

/-! ## Files -/

/-- A text with a single item derives a file of the older dialect. -/
theorem exists_derive_of_item {cs : List Char} {ls : List Lexed} {R : TopItem → Prop}
    (htext : Spells cs ls) (hitem : ∀ prev, Nonterminal.topItem.Reads prev ls fun item _ => R item) :
    ∃ tree item file, derive cs = .ok tree ∧ tree.value = .ok file ∧ R item ∧
      SchemaFile.ofItems .proto2 [item] = .ok file := by
  have hitems (prev : Item) : Nonterminal.topItems.Reads prev ls fun items _ =>
      ∃ item, items = [item] ∧ R item :=
    Nonterminal.reads_rule 0 (Action.reads_last (hitem prev) fun item _ h => ⟨_, rfl, item, rfl, h⟩)
  have hfile : Nonterminal.schemaFile.Reads ⟨⟨.schemaFile, 2⟩, 0⟩ ls fun file _ =>
      ∃ item, R item ∧ SchemaFile.ofItems .proto2 [item] = .ok file := by
    refine Nonterminal.reads_rule 2 (Action.reads_last (hitems _) ?_)
    rintro _ _ ⟨item, rfl, hR⟩
    obtain ⟨file, hfile⟩ : ∃ file, SchemaFile.ofItems .proto2 [item] = .ok file := by
      cases item <;> exact ⟨_, rfl⟩
    exact ⟨file, hfile, item, hR, hfile⟩
  obtain ⟨tree, file, -, htree, hvalue, item, hR, hmade⟩ := exists_derive_of_reads htext hfile
  exact ⟨tree, item, file, htree, hvalue, hR, hmade⟩

end ProtoSchema
