import ProtoSchema.Proofs.Grammar.Phrase

/-!
# Derivations of the written grammar

A derivation of the grammar as it is written is a tree of phrases: for each phrase which of its
wordings was taken, and the tokens and phrases in it (`Derives`). Repetitions and optional parts
leave no nodes of their own.

A tree of the compiled grammar has such a derivation as its outline, and every derivation is the
outline of a tree (`Derives.exists_tree`): each expansion of a wording is the right side of a rule.
-/

namespace ProtoSchema

/-! ## Derivations -/

/-- A derivation: a token, or a phrase written in one of its ways. -/
inductive Derivation
  | token (t : Token)
  | phrase (p : Phrase) (way : Nat) (parts : List Derivation)

namespace Derivation

mutual

/-- The tokens of a derivation, from left to right. -/
def tokens : Derivation → List Token
  | token t => [t]
  | phrase _ _ parts => allTokens parts

/-- The tokens of some derivations. -/
def allTokens : List Derivation → List Token
  | [] => []
  | d :: ds => d.tokens ++ allTokens ds

end

mutual

/-- The pieces that the builders of the phrases make along a derivation. -/
def pieces (keep : Bool) : Derivation → Option (List Piece)
  | token t => some (t.pieces keep)
  | phrase p way parts => do
    let ps ← allPieces p.keepsAll parts
    let w ← p.wordings[way]?
    w.build ps

/-- The pieces that are made along some derivations. -/
def allPieces (keep : Bool) : List Derivation → Option (List Piece)
  | [] => some []
  | d :: ds => do
    let ps ← d.pieces keep
    let qs ← allPieces keep ds
    some (ps ++ qs)

end

theorem allTokens_append (ds es : List Derivation) :
    allTokens (ds ++ es) = allTokens ds ++ allTokens es := by
  induction ds with
  | nil => rfl
  | cons d ds ih => simp [allTokens, ih]

theorem allPieces_append {keep : Bool} {ds es : List Derivation} {ps : List Piece} :
    allPieces keep (ds ++ es) = some ps ↔ ∃ qs rs, allPieces keep ds = some qs ∧
      allPieces keep es = some rs ∧ ps = qs ++ rs := by
  induction ds generalizing ps with
  | nil => simp [allPieces]
  | cons d ds ih =>
    simp only [List.cons_append, allPieces, Option.bind_eq_bind, Option.bind_eq_some_iff, ih,
      Option.some.injEq]
    constructor
    · rintro ⟨first, hfirst, _, ⟨qs, rs, hqs, hrs, rfl⟩, rfl⟩
      exact ⟨first ++ qs, rs, ⟨first, hfirst, qs, hqs, rfl⟩, hrs, (List.append_assoc _ _ _).symm⟩
    · rintro ⟨_, rs, ⟨first, hfirst, qs, hqs, rfl⟩, hrs, rfl⟩
      exact ⟨first, hfirst, _, ⟨qs, rs, hqs, hrs, rfl⟩, (List.append_assoc _ _ _).symm⟩

end Derivation

open Derivation

/-- The grammar derives these tokens and phrases from a pattern. -/
inductive Derives : Pattern → List Derivation → Prop
  | nothing : Derives .nothing []
  | terminal (t : Token) : Derives (.terminal t.terminal) [.token t]
  | phrase {p : Phrase} {way : Nat} {w : Wording} {ds : List Derivation}
      (hway : p.wordings[way]? = some w) (hpattern : Derives w.pattern ds) :
      Derives (.phrase p) [.phrase p way ds]
  | chain {p q : Pattern} {ds es : List Derivation} (hfirst : Derives p ds)
      (hsecond : Derives q es) : Derives (.chain p q) (ds ++ es)
  | left {p q : Pattern} {ds : List Derivation} (h : Derives p ds) : Derives (.either p q) ds
  | right {p q : Pattern} {ds : List Derivation} (h : Derives q ds) : Derives (.either p q) ds
  | once {p : Pattern} {ds : List Derivation} (h : Derives p ds) : Derives (.many p) ds
  | again {p : Pattern} {ds es : List Derivation} (hmany : Derives (.many p) ds)
      (hlast : Derives p es) : Derives (.many p) (ds ++ es)

/-- The pieces that are made along a derivation are a reading of its tokens. -/
theorem Derives.reads {p : Pattern} {ds : List Derivation} (h : Derives p ds) {keep : Bool}
    {ps : List Piece} (hps : allPieces keep ds = some ps) : Reads keep p (allTokens ds) ps := by
  induction h generalizing keep ps with
  | nothing =>
    obtain rfl := Option.some.inj hps
    exact .nothing
  | terminal t =>
    simp only [allPieces, pieces, Option.bind_eq_bind, Option.bind_some, List.append_nil,
      Option.some.injEq] at hps
    obtain rfl := hps
    simpa [allTokens, tokens] using Reads.terminal t
  | phrase hway _ ih =>
    simp only [allPieces, pieces, hway, Option.bind_eq_bind, Option.bind_some, List.append_nil,
      Option.bind_eq_some_iff, Option.some.injEq, exists_eq_right] at hps
    obtain ⟨qs, hqs, hbuild⟩ := hps
    have hreads : Reads keep _ _ ps := .phrase (List.mem_of_getElem? hway) (ih hqs) hbuild
    simpa [allTokens, tokens] using hreads
  | chain _ _ ihp ihq =>
    obtain ⟨qs, rs, hqs, hrs, rfl⟩ := allPieces_append.mp hps
    rw [allTokens_append]
    exact .chain (ihp hqs) (ihq hrs)
  | left _ ih => exact .left (ih hps)
  | right _ ih => exact .right (ih hps)
  | once _ ih => exact .once (ih hps)
  | again _ _ ihmany ihlast =>
    obtain ⟨qs, rs, hqs, hrs, rfl⟩ := allPieces_append.mp hps
    rw [allTokens_append]
    exact .again (ihmany hqs) (ihlast hrs)

/-! ## Outlines of trees -/

/-- Which wording a rule is an expansion of. -/
def RuleName.way (r : RuleName) : Nat :=
  r.head.pattern.wordings.findIdx fun w => (w.pattern.rests r.symbols).contains []

theorem RuleName.exists_wording_way (r : RuleName) :
    ∃ w, r.head.pattern.wordings[r.way]? = some w ∧ [] ∈ w.pattern.rests r.symbols := by
  obtain ⟨w, hw, hexpansion⟩ := r.exists_wording
  have hlt : r.way < r.head.pattern.wordings.length :=
    List.findIdx_lt_length_of_exists ⟨w, hw, by simpa using hexpansion⟩
  refine ⟨_, List.getElem?_eq_getElem hlt, ?_⟩
  exact List.contains_iff_mem.mp (List.findIdx_getElem (w := hlt))

mutual

/-- The derivation of the written grammar that a tree stands for. -/
def Tree.outline {s : Symbol} : Tree s → List Derivation
  | .leaf t => [.token t]
  | .node r children =>
    match r.head.pattern with
    | .phrase p => [.phrase p r.way children.outline]
    | _ => children.outline

/-- The derivations of a sequence of trees. -/
def Forest.outline {ss : List Symbol} : Forest ss → List Derivation
  | .nil => []
  | .cons first others => first.outline ++ others.outline

end

mutual

theorem Tree.allTokens_outline {s : Symbol} :
    (tree : Tree s) → allTokens tree.outline = tree.tokens
  | .leaf t => by simp [Tree.outline, Tree.tokens, allTokens, Derivation.tokens]
  | .node r children => by
    rw [Tree.outline, Tree.tokens]
    split
    · simpa [allTokens, Derivation.tokens] using Forest.allTokens_outline children
    · exact Forest.allTokens_outline children

theorem Forest.allTokens_outline {ss : List Symbol} :
    (forest : Forest ss) → allTokens forest.outline = forest.tokens
  | .nil => rfl
  | .cons first others => by
    rw [Forest.outline, Forest.tokens, allTokens_append, Tree.allTokens_outline first,
      Forest.allTokens_outline others]

end

/-- A nonterminal stands for a phrase or for a repetition. -/
theorem Nonterminal.pattern_eq (n : Nonterminal) :
    (∃ p, n.pattern = .phrase p) ∨ ∃ p, n.pattern = .many p := by
  cases n with
  | topItems | moreFieldOptions | moreOptionNameParts | messageItems | oneofItems | extendItems
  | moreNumberRanges | moreReservedNames | enumItems | serviceItems | rpcItems | stringRun
  | aggregateFields | moreAggregateValues | moreNames => exact .inr ⟨_, rfl⟩
  | _ => exact .inl ⟨_, rfl⟩

theorem Pattern.mem_wordings_many {p : Pattern} {w : Wording} (hw : w ∈ (many p).wordings) :
    w = .inlined p ∨ w = .inlined (.chain (.many p) p) := by
  simpa [wordings] using hw

theorem Tree.outline_of_phrase {r : RuleName} {p : Phrase} (hp : r.head.pattern = .phrase p)
    (children : Forest r.symbols) :
    (Tree.node r children).outline = [.phrase p r.way children.outline] := by
  rw [outline, hp]

theorem Tree.outline_of_many {r : RuleName} {p : Pattern} (hp : r.head.pattern = .many p)
    (children : Forest r.symbols) : (Tree.node r children).outline = children.outline := by
  rw [outline, hp]

/-- The pieces of a node are what the wording of its rule makes of the pieces in it. -/
theorem Tree.allPieces_node {r : RuleName} {children : Forest r.symbols} {w : Wording}
    {qs : List Piece} (hw : r.head.pattern.wordings[r.way]? = some w) :
    allPieces false (Tree.node r children).outline = some qs ↔
      ∃ ps, allPieces r.head.pattern.keepsAll children.outline = some ps ∧
        w.build ps = some qs := by
  rcases r.head.pattern_eq with ⟨p, hp⟩ | ⟨p, hp⟩
  · rw [outline_of_phrase hp, hp]
    rw [hp] at hw
    have hw : p.wordings[r.way]? = some w := hw
    simp [allPieces, pieces, hw, Option.bind_eq_some_iff]
  · rw [outline_of_many hp, hp]
    rw [hp] at hw
    have hbuild : w.build = some := by
      rcases Pattern.mem_wordings_many (List.mem_of_getElem? hw) with rfl | rfl <;> rfl
    simp [hbuild]

/-! ## Outlines are derivations -/

namespace Derives

variable {ds : List Derivation}

theorem of_chain {p q : Pattern} (h : Derives (.chain p q) ds) :
    ∃ ds₁ ds₂, ds = ds₁ ++ ds₂ ∧ Derives p ds₁ ∧ Derives q ds₂ := by
  cases h with
  | chain hfirst hsecond => exact ⟨_, _, rfl, hfirst, hsecond⟩

/-- Nothing behind a pattern leaves the pattern. -/
theorem of_chain_nothing {p : Pattern} (h : Derives (.chain p .nothing) ds) : Derives p ds := by
  obtain ⟨ds₁, ds₂, rfl, hp, hnothing⟩ := of_chain h
  cases hnothing
  rwa [List.append_nil]

theorem nothing_chain {p : Pattern} (h : Derives p ds) : Derives (.chain .nothing p) ds :=
  .chain .nothing h

theorem chain_assoc {p q r : Pattern} (h : Derives (.chain p (.chain q r)) ds) :
    Derives (.chain (.chain p q) r) ds := by
  obtain ⟨ds₁, _, rfl, hp, hqr⟩ := of_chain h
  obtain ⟨es₁, es₂, rfl, hq, hr⟩ := of_chain hqr
  rw [← List.append_assoc]
  exact .chain (.chain hp hq) hr

theorem chain_mono {p p' q : Pattern} (hp : ∀ {ds}, Derives p ds → Derives p' ds)
    (h : Derives (.chain p q) ds) : Derives (.chain p' q) ds := by
  obtain ⟨_, _, rfl, hfirst, hsecond⟩ := of_chain h
  exact .chain (hp hfirst) hsecond

/-- Symbols that open with an expansion of a pattern derive it and then what is left. -/
theorem of_mem_rests {p : Pattern} {ss rest : List Symbol} (hrest : rest ∈ p.rests ss)
    (h : Derives (Symbol.patterns ss) ds) : Derives (.chain p (Symbol.patterns rest)) ds := by
  induction p generalizing ss rest ds with
  | nothing =>
    obtain rfl := List.mem_singleton.mp hrest
    exact nothing_chain h
  | chain p q ihp ihq =>
    obtain ⟨middle, hmiddle, hrest⟩ := List.mem_flatMap.mp hrest
    obtain ⟨_, _, rfl, hp, hmiddle⟩ := of_chain (ihp hmiddle h)
    exact chain_assoc (.chain hp (ihq hrest hmiddle))
  | either p q ihp ihq =>
    rcases List.mem_append.mp hrest with hrest | hrest
    · exact chain_mono .left (ihp hrest h)
    · exact chain_mono .right (ihq hrest h)
  | terminal | phrase | many =>
    cases ss with
    | nil => cases hrest
    | cons s ss =>
      unfold Pattern.rests at hrest
      split at hrest
      · next hs =>
        obtain rfl := List.mem_singleton.mp hrest
        exact hs ▸ h
      · cases hrest

end Derives

mutual

/-- The outline of a tree is a derivation from what its symbol stands for. -/
theorem Tree.derives_outline {s : Symbol} : (tree : Tree s) → Derives s.pattern tree.outline
  | .leaf t => .terminal t
  | .node r children => by
    obtain ⟨w, hw, hexpansion⟩ := r.exists_wording_way
    have hpattern := Derives.of_chain_nothing
      (.of_mem_rests hexpansion (Forest.derives_outline children))
    rw [Symbol.pattern]
    rcases r.head.pattern_eq with ⟨p, hp⟩ | ⟨p, hp⟩
    · rw [Tree.outline_of_phrase hp, hp]
      rw [hp] at hw
      exact .phrase hw hpattern
    · rw [Tree.outline_of_many hp, hp]
      rw [hp] at hw
      rcases Pattern.mem_wordings_many (List.mem_of_getElem? hw) with rfl | rfl
      · exact .once hpattern
      · obtain ⟨_, _, heq, hmany, hlast⟩ := Derives.of_chain hpattern
        rw [heq]
        exact .again hmany hlast

theorem Forest.derives_outline {ss : List Symbol} :
    (forest : Forest ss) → Derives (Symbol.patterns ss) forest.outline
  | .nil => .nothing
  | .cons first others => .chain (Tree.derives_outline first) (Forest.derives_outline others)

end

/-! ## Derivations are outlines -/

namespace Pattern

/-- The sequences of tokens, phrases and repetitions that a pattern stands for. -/
def expansions : Pattern → List (List Pattern)
  | .nothing => [[]]
  | .chain p q => p.expansions.flatMap fun e => q.expansions.map (e ++ ·)
  | .either p q => p.expansions ++ q.expansions
  | p => [[p]]

end Pattern

/-- Whether every expansion of the wordings of a nonterminal is the right side of a rule. -/
def Nonterminal.isCovered (n : Nonterminal) : Bool :=
  n.pattern.wordings.zipIdx.all fun (w, way) =>
    w.pattern.expansions.all fun e =>
      (RuleName.ofHead n).any fun r => r.symbols.map Symbol.pattern = e ∧ r.way = way

theorem Nonterminal.isCovered_all : (all.all isCovered) = true := by decide +kernel

/-- Every expansion of a wording is the right side of a rule. -/
theorem Nonterminal.exists_rule {n : Nonterminal} {way : Nat} {w : Wording}
    (hw : n.pattern.wordings[way]? = some w) {e : List Pattern} (he : e ∈ w.pattern.expansions) :
    ∃ r : RuleName, r.head = n ∧ r.symbols.map Symbol.pattern = e ∧ r.way = way := by
  have hcovered := List.all_eq_true.mp isCovered_all n n.mem_all
  have hway := List.all_eq_true.mp hcovered (w, way) (List.mem_zipIdx_iff_getElem?.mpr hw)
  have hrule := List.all_eq_true.mp hway e he
  obtain ⟨r, hr, hsymbols⟩ := List.any_eq_true.mp hrule
  rw [decide_eq_true_eq] at hsymbols
  obtain ⟨index, -, rfl⟩ := List.mem_map.mp hr
  exact ⟨⟨n, index⟩, rfl, hsymbols⟩

/-- One forest behind the other. -/
def Forest.append {ss ts : List Symbol} : Forest ss → Forest ts → Forest (ss ++ ts)
  | .nil, behind => behind
  | .cons first others, behind => .cons first (others.append behind)

theorem Forest.outline_append {ss ts : List Symbol} :
    (forest : Forest ss) → (behind : Forest ts) →
      (forest.append behind).outline = forest.outline ++ behind.outline
  | .nil, _ => rfl
  | .cons first others, behind => by
    rw [append, outline, outline, outline_append others behind, List.append_assoc]

/-- Whether a pattern is what a symbol may stand for. -/
def Pattern.isUnit : Pattern → Bool
  | .terminal _ | .phrase _ | .many _ => true
  | _ => false

theorem Symbol.isUnit_pattern (s : Symbol) : s.pattern.isUnit = true := by
  cases s with
  | terminal => rfl
  | nonterminal n => cases n <;> rfl

/-- Some derivations are the outline of a tree for each symbol that stands for a pattern. -/
def Pattern.Treed (p : Pattern) (ds : List Derivation) : Prop :=
  ∀ s : Symbol, s.pattern = p → ∃ tree : Tree s, tree.outline = ds

/-- Some derivations are the outline of a forest for the symbols of an expansion. -/
def Pattern.Forested (p : Pattern) (ds : List Derivation) : Prop :=
  ∃ e ∈ p.expansions, ∀ ss : List Symbol, ss.map Symbol.pattern = e →
    ∃ forest : Forest ss, forest.outline = ds

namespace Pattern

variable {p q : Pattern} {ds es : List Derivation}

theorem Treed.forested (h : p.Treed ds) (hp : p.expansions = [[p]]) : p.Forested ds := by
  refine ⟨[p], hp ▸ List.mem_singleton_self _, fun ss hss => ?_⟩
  obtain ⟨s, _, rfl, hs, hnil⟩ := List.map_eq_cons_iff.mp hss
  obtain rfl := List.map_eq_nil_iff.mp hnil
  obtain ⟨tree, rfl⟩ := h s hs
  exact ⟨.cons tree .nil, by rw [Forest.outline, Forest.outline, List.append_nil]⟩

theorem Forested.append (hp : p.Forested ds) (hq : q.Forested es) :
    (chain p q).Forested (ds ++ es) := by
  obtain ⟨e, he, hp⟩ := hp
  obtain ⟨e', he', hq⟩ := hq
  refine ⟨e ++ e', List.mem_flatMap.mpr ⟨e, he, List.mem_map_of_mem he'⟩, fun ss hss => ?_⟩
  obtain ⟨before, behind, rfl, hbefore, hbehind⟩ := List.map_eq_append_iff.mp hss
  obtain ⟨first, rfl⟩ := hp before hbefore
  obtain ⟨second, rfl⟩ := hq behind hbehind
  exact ⟨first.append second, first.outline_append second⟩

/-- A wording whose expansions are forests makes a tree of what it is a wording of. -/
theorem Forested.exists_node {w : Wording} {way : Nat} {n : Nonterminal}
    (hw : n.pattern.wordings[way]? = some w) (h : w.pattern.Forested ds) :
    ∃ (r : RuleName) (children : Forest r.symbols), r.head = n ∧ r.way = way ∧
      children.outline = ds := by
  obtain ⟨e, he, h⟩ := h
  obtain ⟨r, hr, hsymbols, hway⟩ := Nonterminal.exists_rule hw he
  obtain ⟨children, hchildren⟩ := h r.symbols hsymbols
  exact ⟨r, children, hr, hway, hchildren⟩

/-- A repetition is written in the ways of its nonterminal. -/
theorem treed_many {w : Wording} {way : Nat} (hw : (many p).wordings[way]? = some w)
    (h : w.pattern.Forested ds) : (many p).Treed ds := by
  intro s hs
  cases s with
  | terminal t => cases hs
  | nonterminal n =>
    have hn : n.pattern = many p := hs
    obtain ⟨r, children, rfl, -, houtline⟩ := h.exists_node (hn ▸ hw)
    exact ⟨.node r children, (Tree.outline_of_many hn children).trans houtline⟩

end Pattern

/-- Every derivation of the written grammar is the outline of a tree. -/
theorem Derives.treed {p : Pattern} {ds : List Derivation} (h : Derives p ds) :
    p.Treed ds ∧ p.Forested ds := by
  -- no symbol stands for the other patterns
  have hnone {q : Pattern} (hq : q.isUnit = false) (es : List Derivation) : q.Treed es := by
    rintro s rfl
    exact absurd (s.isUnit_pattern.symm.trans hq) nofun
  induction h with
  | nothing =>
    refine ⟨hnone rfl _, [], List.mem_singleton_self _, fun ss hss => ?_⟩
    obtain rfl := List.map_eq_nil_iff.mp hss
    exact ⟨.nil, rfl⟩
  | terminal t =>
    have htree : (Pattern.terminal t.terminal).Treed [.token t] := by
      intro s hs
      rcases s with t' | n
      · obtain rfl := Pattern.terminal.inj hs
        exact ⟨.leaf t, rfl⟩
      · cases n <;> cases hs
    exact ⟨htree, htree.forested rfl⟩
  | @phrase p way w ds hway _ ih =>
    have htree : (Pattern.phrase p).Treed [.phrase p way ds] := by
      intro s hs
      cases s with
      | terminal t => cases hs
      | nonterminal n =>
        have hn : n.pattern = .phrase p := hs
        have hw : n.pattern.wordings[way]? = some w := by rwa [hn]
        obtain ⟨r, children, rfl, rfl, rfl⟩ := ih.2.exists_node hw
        exact ⟨.node r children, Tree.outline_of_phrase hn children⟩
    exact ⟨htree, htree.forested rfl⟩
  | chain _ _ ihp ihq => exact ⟨hnone rfl _, ihp.2.append ihq.2⟩
  | left _ ih =>
    obtain ⟨e, he, hforest⟩ := ih.2
    exact ⟨hnone rfl _, e, List.mem_append_left _ he, hforest⟩
  | right _ ih =>
    obtain ⟨e, he, hforest⟩ := ih.2
    exact ⟨hnone rfl _, e, List.mem_append_right _ he, hforest⟩
  | @once p _ _ ih =>
    have htree := Pattern.treed_many (show (Pattern.many p).wordings[0]? = _ from rfl) ih.2
    exact ⟨htree, htree.forested rfl⟩
  | @again p _ _ _ _ ihmany ihlast =>
    have htree := Pattern.treed_many (show (Pattern.many p).wordings[1]? = _ from rfl)
      (ihmany.2.append ihlast.2)
    exact ⟨htree, htree.forested rfl⟩

/-- Every derivation of a file is the outline of a tree of a file, with the same tokens. -/
theorem Derives.exists_tree {ds : List Derivation} (h : Derives (.phrase .file) ds) :
    ∃ tree : Tree (.nonterminal .schemaFile), tree.outline = ds ∧ tree.tokens = allTokens ds := by
  obtain ⟨tree, rfl⟩ := h.treed.1 (.nonterminal .schemaFile) rfl
  exact ⟨tree, rfl, tree.allTokens_outline.symm⟩

end ProtoSchema
