import ProtoSchema.Proofs.Schema.Accepted
import ProtoSchema.Proofs.Schema.Phrases
import ProtoSchema.Proofs.Token.Cut

/-!
# Quoted bytes

Bytes that are written between quotes are read again, whatever they are: as one literal with these
bytes as its value, and as the text of these bytes where they are the constant of an option
(`Literal.conveys_quote`).
-/

namespace ProtoSchema

open Dotted

/-! ## Single literals -/

/-- A text that is one lexeme has one token. -/
theorem Lexer.tokenize_lexeme {l : Lexed} (hl : l.2 ∈ l.1.language)
    (hname : l.1 ≠ .name) (hstops : l.1.Stops []) :
    tokenize l.2 = .ok [⟨l.1, l.2, .start⟩] := by
  have hnext : next (fun _ => true) ⟨l.2 ++ [], .start⟩ =
      .token ⟨l.1, l.2, .start⟩ ⟨[], Position.start.advance l.2⟩ :=
    next_append rfl hl (fun h => absurd h hname) hstops
  rw [List.append_nil] at hnext
  rw [tokenize, Cursor.ofText, tokensFrom_of_token hnext, tokensFrom_of_finished next_nil]
  rfl

/-! ## Options -/

/-- A file with one option and nothing else. -/
def SchemaFile.ofOption (name : Text) (o : OptionDecl) : SchemaFile :=
  ⟨name, .proto2, none, [], [], [], [], [], [o]⟩

/-- What is read as a constant can be given to an option of a file. -/
theorem SchemaFile.parse_option {option value : String} {Q : Value → Prop} (hoption : IsWord option)
    (hvalue : Nonterminal.constant.Phrase (fun _ => True) value fun c _ => Q c.value)
    (name : Text) :
    ∃ c position, SchemaFile.parse name ("option " ++ option ++ " = " ++ value ++ ";").toList =
      .ok (.ofOption name ⟨option, c, position⟩) ∧ Q c.value := by
  have hquiet : (⟨⟨.optionStmt, 0⟩, 1⟩ : Item).Quiet := by decide
  obtain ⟨ls, hsegment, hreads⟩ := hvalue
  have htext : ("option " ++ option ++ " = " ++ value ++ ";").toList =
      "option".toList ++ ' ' :: (option.toList ++ ' ' :: '=' :: ' ' :: (value.toList ++ [';'])) := by
    simp
  have hend := (hsegment.marked (m := .semicolon) nofun .nil).blank (c := ' ') rfl
  have hsegments := (Segment.lexeme (l := (.keyword .kwOption, "option".toList)) rfl).spaced
    ((segment_word hoption).spaced (hend.mark (m := .equal) nofun))
  have hspells := hsegments [] [] (by simp [Lexeme.Apart]) .nil
  rw [List.append_nil, List.append_nil] at hspells
  have hname := reads_optionName (hquiet.admits (wordLexed option))
  have hstmt {prev : Item} : Nonterminal.optionStmt.Reads prev
      ((.keyword .kwOption, "option".toList) :: ([wordLexed option] ++ (.mark .equal, ['=']) ::
        (ls ++ [(.mark .semicolon, [';'])]))) fun o _ => o.name = option ∧ Q o.value.value := by
    refine Nonterminal.reads_rule 0 (Action.reads_terminal rfl Item.admits_keyword ?_)
    refine fun _ _ => Action.reads_part hname fun v _ hv => ?_
    refine Action.reads_terminal rfl Item.admits_mark fun _ _ => ?_
    refine Action.reads_part (hreads _ trivial) fun c _ hc => ?_
    refine Action.reads_terminal rfl Item.admits_mark fun _ _ => ?_
    exact Action.reads_nil rfl ⟨hv, hc⟩
  obtain ⟨tree, _, file, htree, hfile, ⟨⟨_, c, position⟩, rfl, rfl, hc⟩, hmade⟩ :=
    exists_derive_of_item (R := fun item => ∃ o, item = .option o ∧ o.name = option ∧ Q o.value.value)
      hspells fun prev => Nonterminal.reads_rule 2 (Action.reads_last hstmt
        fun o _ ho => ⟨_, rfl, o, rfl, ho⟩)
  obtain rfl := Except.ok.inj hmade
  rw [htext]
  exact ⟨c, position, SchemaFile.parse_of_value_ok htree hfile rfl, hc⟩

/-! ## Quoted bytes -/

namespace Literal

/-- A literal conveys bytes: it is one token, which has these bytes as its value. Wherever a constant
may stand, and so behind an option, it is read as the text of these bytes, from which they are got
back. -/
structure Conveys (literal : String) (bytes : List UInt8) (text : Text) : Prop where
  token : tokenize literal.toList = .ok [⟨.string, literal.toList, .start⟩]
  value : unescape literal.toList = .ok bytes
  constant : Nonterminal.constant.Phrase (fun _ => True) literal fun c _ => c.value = .string text
  option : ∀ word, IsWord word → ∀ name, ∃ c position,
    SchemaFile.parse name ("option " ++ word ++ " = " ++ literal ++ ";").toList =
      .ok (.ofOption name ⟨word, c, position⟩) ∧ c.value = .string text
  bytes : text.toBytes = bytes

/-- All bytes are conveyed by what is written for them; and so is a string by what is written for its
bytes, which is read as the string itself. -/
theorem conveys_quote :
    (∀ bytes, Conveys (quote bytes) bytes (.ofBytes bytes)) ∧
      ∀ s : String, Conveys (quote (Utf8.encode s.toList)) (Utf8.encode s.toList) (.ofString s) := by
  have hbytes : ∀ bytes, Conveys (quote bytes) bytes (.ofBytes bytes) := by
    intro bytes
    have hmem := quote_mem_strings bytes
    exact ⟨Lexer.tokenize_lexeme (l := (.string, (quote bytes).toList)) hmem nofun trivial,
      unescape_quote bytes, phrase_string bytes, fun word hword name =>
        SchemaFile.parse_option (Q := (· = .string (.ofBytes bytes))) hword (phrase_string bytes) name,
      Text.toBytes_ofBytes bytes⟩
  refine ⟨hbytes, fun s => ?_⟩
  have hstring := hbytes (Utf8.encode s.toList)
  rwa [Text.ofBytes_encode] at hstring

end Literal

end ProtoSchema
