import ProtoSchema.Proofs.Grammar.Agreement
import ProtoSchema.Proofs.Places
import ProtoSchema.Proofs.Schema.Faults

/-!
# Builders that refuse

Along a derivation every builder finds the pieces that it looks for: whatever phrase the grammar
derives, its builder makes something of the pieces inside it, unless a literal has a bad escape, the
dialect is unknown, or a file has two packages (`Phrase.builds_or_refuses`).
-/

namespace ProtoSchema

open Derivation (allPieces allTokens allPieces_append)

/-! ## Refusals -/

/-- Why a builder makes nothing of the pieces that it finds. -/
def Phrase.Refuses : Phrase → List Piece → Prop
  | .strings, ps => ∃ t e, (⟨.token, t⟩ : Piece) ∈ ps ∧ unescape t.lexeme = .error e
  | .dialect, ps => ∃ b, ps = [⟨.strings, b⟩] ∧ Dialect.ofName? (.ofBytes b.bytes) = none
  | .file, ps => 1 < (Piece.allOf .package ps).length
  | _, _ => False

/-- Why nothing is made of the pieces in what a nonterminal stands for. -/
def Pattern.Refuses : Pattern → List Piece → Prop
  | .phrase p, ps => p.Refuses ps
  | _, _ => False

namespace Piece

theorem strings_eq_none {ps : List Piece} (h : Phrase.strings.Refuses ps) : strings ps = none := by
  obtain ⟨t, e, ht, he⟩ := h
  rw [Option.eq_none_iff_forall_ne_some]
  intro p hp
  simp only [strings, Option.bind_eq_bind, Option.bind_eq_some_iff] at hp
  obtain ⟨tokens, htokens, bytes, hbytes, -⟩ := hp
  obtain ⟨u, hu, htoken⟩ := exists_mem_of_mapM htokens ht
  rw [as?_mk_self] at htoken
  obtain rfl := Option.some.inj htoken
  obtain ⟨_, -, hvalue⟩ := exists_mem_of_mapM hbytes hu
  rw [Token.bytes, he] at hvalue
  cases hvalue

theorem dialect_eq_none {ps : List Piece} (h : Phrase.dialect.Refuses ps) : dialect ps = none := by
  obtain ⟨b, rfl, hb⟩ := h
  simp [dialect, hb]

theorem file_eq_none {ps : List Piece} (h : Phrase.file.Refuses ps) : file ps = none := by
  have hpackage : atMostOne? .package ps = none := by
    change 1 < (allOf .package ps).length at h
    unfold atMostOne?
    split
    · next heq => simp [heq] at h
    · next heq => simp [heq] at h
    · rfl
  rw [file, hpackage]
  rfl

end Piece

/-- A builder that refuses gives nothing. -/
theorem Phrase.build_eq_none {p : Phrase} {w : Wording} (hw : w ∈ p.wordings) {ps : List Piece}
    (h : p.Refuses ps) : w.build ps = none := by
  cases p with
  | strings =>
    obtain rfl := List.mem_singleton.mp hw
    exact Option.map_eq_none_iff.mpr (Piece.strings_eq_none h)
  | dialect =>
    obtain rfl := List.mem_singleton.mp hw
    exact Option.map_eq_none_iff.mpr (Piece.dialect_eq_none h)
  | file =>
    obtain rfl := List.mem_singleton.mp hw
    exact Option.map_eq_none_iff.mpr (Piece.file_eq_none h)
  | _ => exact h.elim

/-! ## Rules without a value -/

/-- An action whose own faults are its results, so that it has a fault only where a part has one. -/
def Action.caught {β : Type} : (ss : List Symbol) → Action β ss → Action (Except Fault β) ss
  | [], result => .ok result
  | _ :: ss, action => fun v => Action.caught ss (action v)

/-- An action with a result for all values of its parts. -/
def Action.Total {β : Type} : (ss : List Symbol) → Action β ss → Prop
  | [], result => ∃ v, result = .ok v
  | _ :: ss, action => ∀ v, Action.Total ss (action v)

/-- A rule has a fault of its own only where the builders refuse the pieces of its parts. -/
def Rule.Declines {n : Nonterminal} (r : Rule n) : Prop :=
  Action.Leaves n.pattern.keepsAll
    (fun result ps => ∀ fault, result = .error fault → n.pattern.Refuses ps) r.symbols
      (Action.caught r.symbols r.action) []

/-- What always has a result never refuses. -/
theorem Action.Total.leaves {keep : Bool} {β : Type} {R : List Piece → Prop} {ss : List Symbol}
    {action : Action β ss} (h : Action.Total ss action) (before : List Piece) :
    Action.Leaves keep (fun result ps => ∀ fault, result = .error fault → R ps) ss
      (Action.caught ss action) before := by
  induction ss generalizing before with
  | nil =>
    rintro result ⟨⟩ fault hfault
    obtain ⟨v, hv⟩ := h
    cases hv.symm.trans hfault
  | cons s ss ih =>
    cases s with
    | terminal t =>
      unfold Action.Leaves
      split
      · exact fun token _ _ => ih (h token) _
      · exact fun token => ih (h token) _
    | nonterminal n => exact fun v ps _ => ih (h v) _

namespace Nonterminal

theorem declines_schemaFile : ∀ r ∈ rules schemaFile, r.Declines := by
  have hfile (d? : Option Dialect) (is : List TopItem) {fault : Fault}
      (h : SchemaFile.ofItems (d?.getD .proto2) is = .error fault) :
      Phrase.file.Refuses (Piece.each .dialect d?.toList ++ is.flatMap TopItem.pieces) := by
    have hpackages : Piece.allOf .package (is.flatMap TopItem.pieces) =
        is.filterMap TopItem.package? := Piece.allOf_flatMap (fun i => by cases i <;> rfl) is
    unfold SchemaFile.ofItems at h
    split at h
    · next heq => simp [Phrase.Refuses, hpackages, heq]
    · cases h
  refine List.forall_iff_forall_mem.mp ⟨?_, ?_, ?_, ?_⟩
  · rintro d _ rfl is _ rfl result ⟨⟩ fault h
    exact hfile (some d) is h
  · rintro d _ rfl result ⟨⟩ fault h
    exact hfile (some d) [] h
  · rintro is _ rfl result ⟨⟩ fault h
    exact hfile none is h
  · rintro result ⟨⟩ fault h
    exact hfile none [] h

theorem declines_dialectStmt : ∀ r ∈ rules dialectStmt, r.Declines := by
  refine List.forall_iff_forall_mem.mp ?_
  rintro _ _ b _ rfl _ result ⟨⟩ fault h
  refine ⟨b, rfl, ?_⟩
  unfold Dialect.ofBytes at h
  simp only at h
  split at h
  · cases h
  · assumption

theorem declines_strings : ∀ r ∈ rules strings, r.Declines := by
  refine List.forall_iff_forall_mem.mp ?_
  rintro ts _ ⟨rfl, -⟩ result ⟨⟩ fault h
  obtain ⟨t, ht, e, he, -⟩ := Token.exists_of_ofTokens h
  exact ⟨t, e, List.mem_map_of_mem ht, he⟩

/-- The numbers of fields and in constants and ranges all have values. -/
theorem declines_numbers : ∀ n ∈ [fieldNumber, number, signedInt], ∀ r ∈ rules n, r.Declines := by
  have hint {β : Type} {R : Prop} {t : Token} (ht : t.terminal = .int)
      (hlexeme : t.lexeme ∈ (Terminal.int).language) (f : Int → β) {fault : Fault}
      (h : t.intValue.map f = .error fault) : R :=
    absurd h (Token.map_intValue_ne_error hlexeme f)
  refine List.forall_iff_forall_mem.mp ⟨?_, ?_, ?_⟩
  · refine List.forall_iff_forall_mem.mp ?_
    rintro t ht hlexeme result ⟨⟩ fault h
    exact hint ht hlexeme _ h
  · refine List.forall_iff_forall_mem.mp ⟨?_, ?_, ?_, ?_, ?_⟩
    · rintro s _ rfl t ht hlexeme result ⟨⟩ fault h
      exact hint ht hlexeme _ h
    · rintro t ht hlexeme result ⟨⟩ fault h
      exact hint ht hlexeme _ h
    · rintro s _ rfl t ht hlexeme result ⟨⟩ fault h
      cases h
    · rintro t ht hlexeme result ⟨⟩ fault h
      cases h
    · rintro s _ rfl t ht hlexeme result ⟨⟩ fault h
      cases h
  · refine List.forall_iff_forall_mem.mp ⟨?_, ?_⟩
    · rintro minus - - t ht hlexeme result ⟨⟩ fault h
      exact hint ht hlexeme _ h
    · rintro t ht hlexeme result ⟨⟩ fault h
      obtain ⟨i, hi⟩ := Token.exists_intValue hlexeme
      cases hi.symm.trans h

end Nonterminal

theorem Rule.declines_of_mem {n : Nonterminal} : ∀ r ∈ rules n, r.Declines := by
  cases n with
  | schemaFile => exact Nonterminal.declines_schemaFile
  | dialectStmt => exact Nonterminal.declines_dialectStmt
  | strings => exact Nonterminal.declines_strings
  | fieldNumber | number | signedInt => exact Nonterminal.declines_numbers _ (by decide)
  | _ =>
    intro r hr
    refine Action.Total.leaves ?_ []
    revert r
    simp [rules, Action.Total]

/-! ## Trees and their pieces -/

/-- A builder that refuses gives nothing. -/
theorem Pattern.build_eq_none {p : Pattern} {w : Wording} (hw : w ∈ p.wordings) {ps : List Piece}
    (h : p.Refuses ps) : w.build ps = none := by
  cases p with
  | phrase p => exact Phrase.build_eq_none hw h
  | _ => exact h.elim

/-- If the parts of a rule have values and the rule has none, then its builder refuses. -/
theorem Forest.refuses_of_caught {r : RuleName} {children : Forest r.symbols}
    (htokens : ∀ t ∈ children.tokens, t.lexeme ∈ t.terminal.language) {ps : List Piece}
    (hps : allPieces r.head.pattern.keepsAll children.outline = some ps)
    {result : Except Fault r.head.Value}
    (hcaught : children.feed (Action.caught r.symbols r.rule.action) = .ok result) {fault : Fault}
    (hresult : result = .error fault) : r.head.pattern.Refuses ps := by
  have hdeclines : r.rule.Declines := Rule.declines_of_mem _ (List.getElem_mem _)
  obtain ⟨qs, hqs, hrefuses⟩ := children.exists_allPieces htokens r.head.pattern.keepsAll
    r.isTerminal_of_keepsAll hdeclines result hcaught
  obtain rfl := Option.some.inj (hps.symm.trans hqs)
  exact hrefuses fault hresult

mutual

/-- A tree along which pieces are made has a value. -/
theorem Tree.exists_value {s : Symbol} :
    (tree : Tree s) → (∀ t ∈ tree.tokens, t.lexeme ∈ t.terminal.language) →
      ∀ keep, (keep = true → s.isTerminal = true) → ∀ ps, allPieces keep tree.outline = some ps →
        ∃ v, tree.value = .ok v
  | .leaf token, _, _, _, _, _ => ⟨token, by rw [Tree.value]⟩
  | .node r children, htokens, keep, hkeep, qs, hqs => by
    obtain rfl : keep = false := by simpa [Symbol.isTerminal] using hkeep
    obtain ⟨w, hw, -⟩ := r.exists_wording_way
    obtain ⟨ps, hps, hbuild⟩ := (Tree.allPieces_node hw).mp hqs
    rw [Tree.tokens] at htokens
    obtain ⟨result, hcaught, hfeed⟩ := Forest.exists_caught children htokens
      r.head.pattern.keepsAll r.isTerminal_of_keepsAll ps hps r.rule.action
    rw [Tree.value, hfeed]
    cases hresult : result with
    | ok v => exact ⟨v, rfl⟩
    | error fault =>
      have hrefuses := Forest.refuses_of_caught htokens hps hcaught hresult
      rw [Pattern.build_eq_none (List.mem_of_getElem? hw) hrefuses] at hbuild
      cases hbuild

theorem Forest.exists_caught {ss : List Symbol} {β : Type} :
    (forest : Forest ss) → (∀ t ∈ forest.tokens, t.lexeme ∈ t.terminal.language) →
      ∀ keep, (keep = true → ∀ s ∈ ss, s.isTerminal = true) → ∀ ps,
        allPieces keep forest.outline = some ps → ∀ action : Action β ss,
          ∃ result, forest.feed (Action.caught ss action) = .ok result ∧
            forest.feed action = result
  | .nil, _, _, _, _, _, action => ⟨action, by rw [Forest.feed, Action.caught], by rw [Forest.feed]⟩
  | .cons first others, htokens, keep, hkeep, ps, hps, action => by
    rw [Forest.outline, allPieces_append] at hps
    obtain ⟨qs, rs, hqs, hrs, -⟩ := hps
    simp only [Forest.tokens, List.mem_append, or_imp, forall_and] at htokens
    obtain ⟨v, hv⟩ := Tree.exists_value first htokens.1 keep
      (fun h => hkeep h _ List.mem_cons_self) qs hqs
    obtain ⟨result, hcaught, hfeed⟩ := Forest.exists_caught others htokens.2 keep
      (fun h s hs => hkeep h s (List.mem_cons_of_mem _ hs)) rs hrs (action v)
    refine ⟨result, ?_, ?_⟩
    · rw [Forest.feed, hv]
      exact hcaught
    · rw [Forest.feed, hv]
      exact hfeed

end

/-- A phrase is what some nonterminal stands for. -/
theorem Phrase.exists_nonterminal (p : Phrase) : ∃ n : Nonterminal, n.pattern = .phrase p := by
  have h : ∃ n ∈ Nonterminal.all, n.pattern = .phrase p := by cases p <;> decide
  obtain ⟨n, -, hn⟩ := h
  exact ⟨n, hn⟩

/-- The builder of a phrase finds in the pieces of the phrase all that it needs, unless it refuses
them. -/
theorem Phrase.builds_or_refuses {p : Phrase} {way : Nat} {parts : List Derivation}
    (h : Derives (.phrase p) [.phrase p way parts])
    (htokens : ∀ t ∈ allTokens parts, t.lexeme ∈ t.terminal.language) {w : Wording}
    (hw : p.wordings[way]? = some w) {ps : List Piece}
    (hps : allPieces p.keepsAll parts = some ps) :
    (∃ qs, w.build ps = some qs) ∨ p.Refuses ps := by
  obtain ⟨n, hn⟩ := p.exists_nonterminal
  obtain ⟨tree, htree⟩ := h.treed.1 (.nonterminal n) hn
  cases tree with
  | node r children =>
    rw [Tree.outline_of_phrase hn] at htree
    obtain ⟨-, rfl, rfl⟩ := Derivation.phrase.inj (List.singleton_inj.mp htree)
    rw [Forest.allTokens_outline] at htokens
    have hkeeps : r.head.pattern.keepsAll = p.keepsAll := by rw [hn]; rfl
    rw [← hkeeps] at hps
    obtain ⟨result, hcaught, hfeed⟩ := Forest.exists_caught children htokens
      r.head.pattern.keepsAll r.isTerminal_of_keepsAll ps hps r.rule.action
    cases hresult : result with
    | ok v =>
      obtain ⟨qs, hqs, -⟩ := (Tree.node r children).exists_allPieces
        (by rwa [Tree.tokens]) false nofun v (by rw [Tree.value, hfeed, hresult])
      obtain ⟨ps', hps', hbuild⟩ := (Tree.allPieces_node (by rwa [hn])).mp hqs
      obtain rfl := Option.some.inj (hps.symm.trans hps')
      exact .inl ⟨qs, hbuild⟩
    | error fault =>
      have hrefuses := Forest.refuses_of_caught htokens hps hcaught hresult
      rw [hn] at hrefuses
      exact .inr hrefuses

end ProtoSchema
