import ProtoSchema.Proofs.Grammar.Leavings

/-!
# Rules and wordings agree

Whatever value a rule of the compiled grammar yields, the wordings that the rule is an expansion of
build it from the pieces that the parts of the rule leave (`Nonterminal.fits`). By induction on a
tree what is built along its outline is the value of the tree (`Tree.exists_allPieces`), so its
tokens are read as the phrase of its root (`Tree.reads`).
-/

namespace ProtoSchema

/-- An action yields only results that `R` relates to the pieces its parts leave behind those from
before. -/
@[simp]
def Action.Leaves (keep : Bool) {β : Type} (R : β → List Piece → Prop) :
    (ss : List Symbol) → Action β ss → List Piece → Prop
  | [], result, before => ∀ v, result = .ok v → R v before
  | .terminal t :: ss, action, before =>
    if keep ∨ t.isClass then
      ∀ token : Token, token.terminal = t → token.lexeme ∈ t.language →
        Action.Leaves keep R ss (action token) (before ++ [⟨.token, token⟩])
    else ∀ token : Token, Action.Leaves keep R ss (action token) before
  | .nonterminal n :: ss, action, before =>
    ∀ v ps, n.Leaves v ps → Action.Leaves keep R ss (action v) (before ++ ps)

/-- A rule agrees with a wording: whatever it yields, the wording makes of the pieces that the parts
of the rule leave behind. -/
def Rule.Fits {n : Nonterminal} (r : Rule n) (w : Wording) : Prop :=
  Action.Leaves n.pattern.keepsAll (fun v ps => ∃ qs, w.build ps = some qs ∧ n.Leaves v qs)
    r.symbols r.action []

/-- All rules of a nonterminal agree with the wordings that they are expansions of. -/
def Nonterminal.Fits (n : Nonterminal) : Prop :=
  ∀ r ∈ rules n, ∀ w ∈ n.pattern.wordings, [] ∈ w.pattern.rests r.symbols → r.Fits w

/-- With one wording there is nothing to choose. -/
theorem Nonterminal.fits_of_forall {n : Nonterminal} {w : Wording} (hw : n.pattern.wordings = [w])
    (h : (rules n).Forall (·.Fits w)) : n.Fits := by
  intro r hr w' hw' _
  rw [hw] at hw'
  obtain rfl := List.mem_singleton.mp hw'
  exact List.forall_iff_forall_mem.mp h r hr

instance : Nonempty Token := ⟨⟨.name, [], .start⟩⟩

namespace Nonterminal

/-- Where every wording hands its pieces on, a rule has to leave what its parts leave. -/
theorem fits_of_handed {n : Nonterminal} (hw : ∀ w ∈ n.pattern.wordings, w.build = some)
    (h : (rules n).Forall fun r =>
      Action.Leaves n.pattern.keepsAll n.Leaves r.symbols r.action []) : n.Fits := by
  intro r hr w hmem _
  have hleaves : (fun v ps => ∃ qs, w.build ps = some qs ∧ n.Leaves v qs) = n.Leaves := by
    funext v ps
    rw [hw w hmem]
    exact propext ⟨fun ⟨_, hps, hv⟩ => Option.some.inj hps ▸ hv, fun hv => ⟨ps, rfl, hv⟩⟩
  rw [Rule.Fits, hleaves]
  exact List.forall_iff_forall_mem.mp h r hr

/-! ## Repetitions and inlined phrases -/

theorem fits_repetitions : ∀ n ∈ [topItems, moreFieldOptions, moreOptionNameParts, messageItems,
    oneofItems, extendItems, moreNumberRanges, enumItems, serviceItems, rpcItems, stringRun,
    aggregateFields, moreAggregateValues, moreNames], n.Fits := by
  refine List.forall_iff_forall_mem.mp ?_
  and_intros <;> refine fits_of_handed (by simp [Pattern.wordings, Wording.inlined]) ?_ <;>
    simp +contextual [rules, Piece.each]

theorem fits_moreReservedNames : moreReservedNames.Fits := by
  refine fits_of_handed (by simp [Pattern.wordings, Wording.inlined]) ⟨?_, ?_⟩
  · rintro _ s _ rfl _ hv
    cases hv
    exact ⟨[s], rfl, rfl⟩
  · rintro _ _ ⟨bs, rfl, rfl⟩ _ s _ rfl _ hv
    cases hv
    exact ⟨bs ++ [s], by simp [Piece.each], by simp⟩

theorem fits_items : ∀ n ∈ [topItem, optionNamePart, messageItem, oneofItem, extendItem, enumItem,
    serviceItem, rpcBody, aggregateValue], n.Fits := by
  refine List.forall_iff_forall_mem.mp ?_
  and_intros <;>
    refine fits_of_handed (by simp [Pattern.wordings, Phrase.wordings, Wording.inlined]) ?_ <;>
    simp [rules, TopItem.pieces, MessageItem.pieces, EnumItem.pieces, ServiceItem.pieces,
      Piece.each, Piece.plain?]

/-! ## Files and options -/

theorem fits_schemaFile : schemaFile.Fits := by
  refine fits_of_forall rfl ⟨?_, ?_, ?_, ?_⟩
  · rintro d _ rfl is _ rfl f hf
    exact Wording.exists_build_built (Piece.file_flatMap (some d) is hf)
  · rintro d _ rfl f hf
    exact Wording.exists_build_built (Piece.file_flatMap (some d) [] hf)
  · rintro is _ rfl f hf
    exact Wording.exists_build_built (Piece.file_flatMap none is hf)
  · rintro f hf
    exact Wording.exists_build_built (Piece.file_flatMap none [] hf)

theorem fits_options : ∀ n ∈ [importStmt, packageStmt, optionStmt, fieldOption, fieldOptions,
    optionName, extensionName], n.Fits := by
  refine List.forall_iff_forall_mem.mp ?_
  and_intros <;> refine fits_of_forall rfl ?_ <;>
    simp [rules, Rule.Fits, Piece.dependency, Piece.package, Piece.option, Piece.fieldOptions,
      Piece.optionName, Piece.extensionName, OptionDecl.ofIdent, Ident.join, Ident.parenthesised]

/-! ## Messages -/

theorem fits_fields :
    ∀ n ∈ [fieldDecl, mapFieldDecl, oneofField, oneofDecl, extendDecl], n.Fits := by
  refine List.forall_iff_forall_mem.mp ?_
  and_intros <;> refine fits_of_forall rfl ?_ <;>
    simp +contextual [rules, Rule.Fits, Piece.field, Piece.mapField, Piece.oneof, Piece.extend,
      FieldDecl.plain, FieldDecl.ofMap, OneofDecl.ofFields]

theorem fits_ranges :
    ∀ n ∈ [extensionsStmt, reservedStmt, numberRanges, reservedNames], n.Fits := by
  refine List.forall_iff_forall_mem.mp ?_
  and_intros <;> refine fits_of_forall rfl ?_ <;>
    simp +contextual [rules, Rule.Fits, Piece.extensions, Piece.reserved, Piece.ranges,
      Piece.reservedNames]

/-! ## Enums and services -/

theorem fits_values : ∀ n ∈ [enumValue, enumValueName, rpcDecl, rpcType, streamMark], n.Fits := by
  refine List.forall_iff_forall_mem.mp ?_
  and_intros <;> refine fits_of_forall rfl ?_ <;>
    simp [rules, Rule.Fits, Piece.enumValue, Piece.name, Piece.method, Piece.rpcType, Piece.stream,
      EnumValueDecl.ofIdent, Token.ident, MethodDecl.ofEnds]

theorem fits_constants :
    ∀ n ∈ [constant, aggregate, aggregateField, aggregateKey, aggregateList], n.Fits := by
  refine List.forall_iff_forall_mem.mp ?_
  and_intros <;> refine fits_of_forall rfl ?_ <;>
    simp +contextual [rules, Rule.Fits, Piece.constant, Piece.aggregate, Piece.aggregateField,
        Piece.aggregateKey, Piece.aggregateList, Piece.plain?, Constant.ofIdent, Constant.ofBytes]

theorem fits_names : ∀ n ∈ [fullIdent, leadingDot, name], n.Fits := by
  refine List.forall_iff_forall_mem.mp ?_
  and_intros <;> refine fits_of_forall rfl ?_ <;>
    simp [rules, Rule.Fits, Piece.fullIdent, Piece.leadingDot, Piece.name, Ident.join,
        Ident.absolute, Token.ident]

theorem fits_bodies : ∀ n ∈ [messageDecl, enumDecl, serviceDecl], n.Fits := by
  refine List.forall_iff_forall_mem.mp ?_
  and_intros <;> refine fits_of_forall rfl ?_ <;>
    simp [rules, Rule.Fits, Piece.message, Piece.messageOf_flatMap, Piece.enum_flatMap,
      Piece.enum_nil, Piece.service_flatMap, Piece.service_nil]

theorem fits_groupDecl : groupDecl.Fits := by
  refine fits_of_forall rfl ⟨?_, ?_, ?_, ?_⟩
  · rintro l _ rfl _ n _ rfl _ k _ rfl os _ rfl _ is _ rfl _ g hg
    cases hg
    exact Wording.exists_build_built (Piece.group_flatMap n l k (some os) is)
  · rintro l _ rfl _ n _ rfl _ k _ rfl os _ rfl _ _ g hg
    cases hg
    exact Wording.exists_build_built (Piece.group_flatMap n l k (some os) [])
  · rintro l _ rfl _ n _ rfl _ k _ rfl _ is _ rfl _ g hg
    cases hg
    exact Wording.exists_build_built (Piece.group_flatMap n l k none is)
  · rintro l _ rfl _ n _ rfl _ k _ rfl _ _ g hg
    cases hg
    exact Wording.exists_build_built (Piece.group_flatMap n l k none [])

theorem fits_importModifier : importModifier.Fits := by
  refine fits_of_forall rfl ⟨?_, ?_⟩
  all_goals
    rintro t - ht m hm
    cases hm
    exact Wording.exists_build_built (Piece.modifier_token (Token.text_of_mem_keyword ht))

theorem fits_fieldLabel : fieldLabel.Fits := by
  refine fits_of_forall rfl ⟨?_, ?_, ?_⟩
  all_goals
    rintro t - ht l hl
    cases hl
    exact Wording.exists_build_built (Piece.label_token (Token.text_of_mem_keyword ht))

theorem fits_sign : sign.Fits := by
  refine fits_of_forall rfl ⟨?_, ?_⟩
  all_goals
    rintro t - ht s hs
    cases hs
    exact Wording.exists_build_built (Piece.sign_token (Token.text_of_mem_mark ht))

theorem fits_dialectStmt : dialectStmt.Fits := by
  refine fits_of_forall rfl ?_
  rintro _ _ b _ rfl _ d hd
  exact Wording.exists_build_built (Piece.dialect_strings hd)

theorem fits_fieldNumber : fieldNumber.Fits := by
  refine fits_of_forall rfl ?_
  rintro t - ht k hk
  exact Wording.exists_build_built (Piece.fieldNumber_token ht hk)

theorem fits_number : number.Fits := by
  refine fits_of_forall rfl ⟨?_, ?_, ?_, ?_, ?_⟩
  · rintro s _ rfl t ht - c hc
    exact Wording.exists_build_built (Piece.number_int (some s) ht hc)
  · rintro t ht - c hc
    exact Wording.exists_build_built (Piece.number_int none ht hc)
  · rintro s _ rfl t ht - c hc
    cases hc
    exact Wording.exists_build_built (Piece.number_float (some s) ht)
  · rintro t ht - c hc
    cases hc
    exact Wording.exists_build_built (Piece.number_float none ht)
  · rintro s _ rfl t ht - c hc
    cases hc
    exact Wording.exists_build_built (Piece.number_word s ht)

theorem fits_signedInt : signedInt.Fits := by
  refine fits_of_forall rfl ⟨?_, ?_⟩
  · rintro minus - - t - - i hi
    exact Wording.exists_build_built (Piece.signedInt_tokens hi)
  · rintro t - - i hi
    exact Wording.exists_build_built (Piece.signedInt_token hi)

theorem fits_strings : strings.Fits := by
  refine fits_of_forall rfl ?_
  rintro ts _ ⟨rfl, hne⟩ b hb
  exact Wording.exists_build_built (Piece.strings_map hne hb)

theorem fits_numberRange : numberRange.Fits := by
  have h : (rules numberRange).Forall fun r => numberRange.pattern.wordings.Forall fun w =>
      [] ∈ w.pattern.rests r.symbols → r.Fits w := by
    -- a range up to the maximum has a wording of its own
    refine ⟨⟨?_, ?_⟩, ⟨?_, ?_⟩, ?_, ?_⟩
    · rintro - i _ rfl r hr
      cases hr
      exact Wording.exists_build_built rfl
    · exact fun h => absurd h (by decide)
    · rintro - i _ rfl _ j _ rfl r hr
      cases hr
      exact Wording.exists_build_built rfl
    · exact fun h => absurd h (by decide)
    · exact fun h => absurd h (by decide)
    · rintro - i _ rfl _ _ r hr
      cases hr
      exact Wording.exists_build_built rfl
  exact fun r hr => List.forall_iff_forall_mem.mp (List.forall_iff_forall_mem.mp h r hr)

/-- Every rule agrees with the wordings that it is an expansion of. -/
theorem fits (n : Nonterminal) : n.Fits := by
  cases n with
  | moreReservedNames => exact fits_moreReservedNames
  | schemaFile => exact fits_schemaFile
  | groupDecl => exact fits_groupDecl
  | importModifier => exact fits_importModifier
  | fieldLabel => exact fits_fieldLabel
  | sign => exact fits_sign
  | dialectStmt => exact fits_dialectStmt
  | fieldNumber => exact fits_fieldNumber
  | number => exact fits_number
  | signedInt => exact fits_signedInt
  | strings => exact fits_strings
  | numberRange => exact fits_numberRange
  | importStmt | packageStmt | optionStmt | fieldOption | fieldOptions | optionName
  | extensionName => exact fits_options _ (by decide)
  | fieldDecl | mapFieldDecl | oneofField | oneofDecl | extendDecl =>
    exact fits_fields _ (by decide)
  | extensionsStmt | reservedStmt | numberRanges | reservedNames => exact fits_ranges _ (by decide)
  | enumValue | enumValueName | rpcDecl | rpcType | streamMark => exact fits_values _ (by decide)
  | constant | aggregate | aggregateField | aggregateKey | aggregateList =>
    exact fits_constants _ (by decide)
  | fullIdent | leadingDot | name => exact fits_names _ (by decide)
  | messageDecl | enumDecl | serviceDecl => exact fits_bodies _ (by decide)
  | topItem | optionNamePart | messageItem | oneofItem | extendItem | enumItem | serviceItem
  | rpcBody | aggregateValue => exact fits_items _ (by decide)
  | _ => exact fits_repetitions _ (by decide)

end Nonterminal

/-! ## Trees -/

/-- What a symbol with a value leaves behind. -/
def Symbol.Leaves (keep : Bool) : (s : Symbol) → s.Value → List Piece → Prop
  | .terminal t, token, ps =>
    token.terminal = t ∧ token.lexeme ∈ t.language ∧ ps = token.pieces keep
  | .nonterminal n, v, ps => n.Leaves v ps

/-- An action goes on behind what its first part leaves. -/
theorem Action.leaves_of_cons {keep : Bool} {β : Type} {R : β → List Piece → Prop} {s : Symbol}
    {ss : List Symbol} {action : Action β (s :: ss)} {before ps : List Piece} {v : s.Value}
    (h : Action.Leaves keep R (s :: ss) action before) (hv : s.Leaves keep v ps) :
    Action.Leaves keep R ss (action v) (before ++ ps) := by
  cases s with
  | terminal t =>
    obtain ⟨hterminal, hlexeme, rfl⟩ := hv
    unfold Action.Leaves at h
    unfold Token.pieces
    rw [hterminal]
    split at h
    · next hkept =>
      rw [if_pos hkept]
      exact h v hterminal hlexeme
    · next hkept =>
      rw [if_neg hkept, List.append_nil]
      exact h v
  | nonterminal n =>
    unfold Action.Leaves at h
    exact h v ps hv

open Derivation (allPieces allPieces_append)

mutual

/-- The pieces that are made along the outline of a tree fit the value of the tree. -/
theorem Tree.exists_allPieces {s : Symbol} :
    (tree : Tree s) → (∀ t ∈ tree.tokens, t.lexeme ∈ t.terminal.language) →
      ∀ keep, (keep = true → s.isTerminal = true) → ∀ v, tree.value = .ok v →
        ∃ ps, allPieces keep tree.outline = some ps ∧ s.Leaves keep v ps
  | .leaf token, htokens, keep, _, v, hv => by
    rw [Tree.value] at hv
    obtain rfl := Except.ok.inj hv
    rw [Tree.tokens] at htokens
    have hpieces : allPieces keep (Tree.leaf token).outline = some (token.pieces keep) := by
      simp [Tree.outline, allPieces, Derivation.pieces]
    exact ⟨_, hpieces, rfl, htokens token (List.mem_singleton_self _), rfl⟩
  | .node r children, htokens, keep, hkeep, v, hv => by
    rw [Tree.value] at hv
    rw [Tree.tokens] at htokens
    obtain rfl : keep = false := by simpa [Symbol.isTerminal] using hkeep
    obtain ⟨w, hw, hexpansion⟩ := r.exists_wording_way
    have hfits := r.head.fits r.rule (List.getElem_mem _) w (List.mem_of_getElem? hw) hexpansion
    have hterminals : r.head.pattern.keepsAll = true → ∀ s ∈ r.symbols, s.isTerminal = true :=
      r.isTerminal_of_keepsAll
    obtain ⟨ps, hps, qs, hbuild, hleaves⟩ :=
      Forest.exists_allPieces children htokens r.head.pattern.keepsAll hterminals hfits v hv
    exact ⟨qs, (Tree.allPieces_node hw).mpr ⟨ps, hps, hbuild⟩, hleaves⟩

theorem Forest.exists_allPieces {ss : List Symbol} {β : Type} {R : β → List Piece → Prop} :
    (forest : Forest ss) → (∀ t ∈ forest.tokens, t.lexeme ∈ t.terminal.language) →
      ∀ keep, (keep = true → ∀ s ∈ ss, s.isTerminal = true) → {action : Action β ss} →
        {before : List Piece} → Action.Leaves keep R ss action before →
          ∀ v, forest.feed action = .ok v →
            ∃ ps, allPieces keep forest.outline = some ps ∧ R v (before ++ ps)
  | .nil, _, _, _, action, before, haction, v, hv => by
    rw [Forest.feed] at hv
    refine ⟨[], rfl, ?_⟩
    rw [List.append_nil]
    exact haction v hv
  | .cons first others, htokens, keep, hkeep, action, before, haction, v, hv => by
    rw [Forest.feed] at hv
    cases hfirst : first.value with
    | error e =>
      rw [hfirst] at hv
      cases hv
    | ok w =>
      rw [hfirst] at hv
      simp only [Forest.tokens, List.mem_append, or_imp, forall_and] at htokens
      obtain ⟨ps, hps, hw⟩ := Tree.exists_allPieces first htokens.1 keep
        (fun h => hkeep h _ List.mem_cons_self) w hfirst
      obtain ⟨qs, hqs, hv⟩ := Forest.exists_allPieces others htokens.2 keep
        (fun h s hs => hkeep h s (List.mem_cons_of_mem _ hs))
        (Action.leaves_of_cons haction hw) v hv
      refine ⟨ps ++ qs, allPieces_append.mpr ⟨ps, qs, hps, hqs, rfl⟩, ?_⟩
      rwa [← List.append_assoc]

end

/-- The tokens of a tree are read as what its symbol stands for, and the pieces that are left fit
the value of the tree. -/
theorem Tree.reads {s : Symbol} (tree : Tree s)
    (htokens : ∀ t ∈ tree.tokens, t.lexeme ∈ t.terminal.language) {v : s.Value}
    (hv : tree.value = .ok v) :
    ∃ ps, Reads false s.pattern tree.tokens ps ∧ s.Leaves false v ps := by
  obtain ⟨ps, hps, hleaves⟩ := tree.exists_allPieces htokens false nofun v hv
  have hreads := tree.derives_outline.reads hps
  rw [Tree.allTokens_outline] at hreads
  exact ⟨ps, hreads, hleaves⟩

end ProtoSchema
