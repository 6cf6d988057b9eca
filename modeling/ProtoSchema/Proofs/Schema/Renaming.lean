import ProtoSchema.Proofs.Grammar.Derivation
import ProtoSchema.Proofs.Grammar.Fronts
import ProtoSchema.Proofs.Schema.Accepted
import ProtoSchema.Proofs.Schema.Moved
import ProtoSchema.Proofs.Schema.Renamed

/-!
# Renaming declarations

A declaration may be named by any word that is a name, keywords included: where the name is replaced
in a text, the text stands for the same file but for the name and the places behind it
(`SchemaFile.parse_renamed`). A tree with another name is built first, which stands for the renamed
file and leads through the same states (`Tree.exists_renamed`); then the new text is found to scan
as that tree (`Tree.derive_respelled`). The one exception are values of enums right behind an option
or a reserved statement. The keywords that may follow such a statement elsewhere are read as
keywords there (`Nonterminal.Bars`), and no rule goes on with them.
-/

namespace ProtoSchema

open Exploration

/-! ## Words -/

/-- A declaration may be named by a name, and a value of an enum also by two keywords. -/
def Nonterminal.NamedBy (n : Nonterminal) (u : Terminal) : Prop :=
  u = .name ∨ n = .enumValue ∧ (u = .keyword .kwOption ∨ u = .keyword .kwReserved)

theorem Nonterminal.NamedBy.isWord {n : Nonterminal} {u : Terminal} (h : n.NamedBy u) :
    u.isWord = true := by
  rcases h with rfl | ⟨-, rfl | rfl⟩ <;> rfl

/-- What the nonterminals of names stand for. -/
def Nonterminal.Spells : (m : Nonterminal) → m.Value → Token → Prop
  | .name | .enumValueName => fun v t => v = t.ident
  | _ => fun _ _ => False

theorem Nonterminal.Spells.respelled {m : Nonterminal} {v v' : m.Value} {t : Token} {u : Terminal}
    {new : String} (h : m.Spells v t) (h' : m.Spells v' ⟨u, new.toList, t.position⟩) :
    m.Respelled t.ident new v v' := by
  cases m with
  | name | enumValueName =>
    obtain rfl : v = t.ident := h
    obtain rfl : v' = Token.ident _ := h'
    exact ⟨rfl, by simp [Token.ident, Token.text]⟩
  | _ => cases h

/-- Names are single words. -/
theorem Rule.exists_word {m : Nonterminal} (h : m = .name ∨ m = .enumValueName) :
    ∀ q ∈ rules m, ∃ t f, q = ⟨[.terminal t], f⟩ ∧
      (∀ n : Nonterminal, (n = .enumValue ↔ m = .enumValueName) → n.NamedBy t) ∧
        ∀ token, ∃ v, f token = .ok v ∧ m.Spells v token := by
  rcases h with rfl | rfl <;> simp [rules, Nonterminal.Spells, Nonterminal.NamedBy]

/-- A tree of a single word. -/
structure Tree.IsWord {m : Nonterminal} (tree : Tree (.nonterminal m)) (t : Token) : Prop where
  tokens_eq : tree.tokens = [t]
  states_eq : ∀ i, tree.states i = [(complete.target? i (.terminal t.terminal)).getD 0]
  exists_value : ∃ v, tree.value = .ok v ∧ m.Spells v t

section

variable {m : Nonterminal} {q : Rule m} {t : Terminal} {f : Token → Except Fault m.Value}

/-- What a sequence of one word consists of. -/
theorem Forest.exists_word (hq : q = ⟨[.terminal t], f⟩) (forest : Forest q.symbols) :
    ∃ token : Token, token.terminal = t ∧ forest.tokens = [token] ∧
      (∀ i, forest.states i = [(complete.target? i (.terminal t)).getD 0]) ∧
        forest.feed q.action = f token := by
  subst hq
  match forest with
  | .cons (.leaf token) .nil =>
    refine ⟨token, rfl, tokens_singleton _, fun i => ?_, ?_⟩
    · rw [states, states, Tree.states_leaf]
      rfl
    · rw [feed, Tree.value_leaf]
      exact feed_nil _

theorem Forest.exists_of_word (token : Token) (hq : q = ⟨[.terminal token.terminal], f⟩) :
    ∃ forest : Forest q.symbols, forest.tokens = [token] := by
  subst hq
  exact ⟨.cons (.leaf token) .nil, by rw [tokens_singleton, Tree.tokens_leaf]⟩

end

/-- What is derived by a rule for a name is a single word. -/
theorem Tree.isWord_node {r : RuleName} (h : r.head = .name ∨ r.head = .enumValueName)
    (children : Forest r.symbols) (item : Item) (σ : Scope) :
    ∃ token, (node r children).IsWord token ∧
      (node r children).leaves item σ = [⟨token, ⟨r, 1⟩, σ.named?⟩] := by
  obtain ⟨t, f, hrule, -, hf⟩ := Rule.exists_word h r.rule r.rule_mem
  obtain ⟨token, rfl, htokens, hstates, hfeed⟩ := children.exists_word hrule
  obtain ⟨v, hv, hspells⟩ := hf token
  refine ⟨token, ⟨?_, fun i => ?_, v, ?_, hspells⟩, ?_⟩
  · rw [Tree.tokens]
    exact htokens
  · rw [Tree.states]
    exact hstates i
  · rw [Tree.value]
    exact hfeed.trans hv
  · have hsymbols : r.symbols = [.terminal token.terminal] := congrArg Rule.symbols hrule
    obtain ⟨token', -, hleaves⟩ := children.leaves_terminal hsymbols ⟨r, 0⟩ σ
    have hmap := children.map_token_leaves ⟨r, 0⟩ σ
    rw [hleaves, List.map_singleton] at hmap
    obtain rfl : token' = token := List.singleton_inj.mp (hmap.trans htokens)
    rw [Tree.leaves, hleaves, Scope.named?_child_terminal h]
    rfl

/-- Whatever word a rule for a name reads is a name. -/
theorem Tree.exists_isWord {r : RuleName} (h : r.head = .name ∨ r.head = .enumValueName)
    (token : Token) (hsymbols : r.symbols = [.terminal token.terminal]) :
    ∃ tree : Tree (.nonterminal r.head), tree.IsWord token := by
  obtain ⟨t, f, hrule, -⟩ := Rule.exists_word h r.rule r.rule_mem
  obtain rfl : t = token.terminal := by
    have hterminal : r.symbols = [.terminal t] := congrArg Rule.symbols hrule
    simpa using hterminal.symm.trans hsymbols
  obtain ⟨children, htokens⟩ : ∃ children : Forest r.symbols, children.tokens = [token] :=
    Forest.exists_of_word token hrule
  obtain ⟨t', hword, -⟩ := isWord_node h children ⟨r, 0⟩ .other
  obtain rfl : token = t' := by
    have hnode := hword.tokens_eq
    rw [Tree.tokens, htokens] at hnode
    simpa using hnode
  exact ⟨_, hword⟩

/-! ## Trees -/

/-- Other tokens and states, where a token stands in place of a leaf. The state behind it is another
one only if its terminal is. -/
structure Leaf.Exchanged (before : List Leaf) (leaf : Leaf) (behind : List Leaf) (token : Token)
    (tokens : List Token) (states states' : Nat → List Nat) : Prop where
  tokens_eq : tokens = before.map Leaf.token ++ token :: behind.map Leaf.token
  exists_states : ∀ i, ∃ js j j' ks, states i = js ++ j :: ks ∧ states' i = js ++ j' :: ks ∧
    js.length = before.length ∧ (token.terminal = leaf.token.terminal → j' = j)

namespace Leaf.Exchanged

variable {before behind : List Leaf} {leaf : Leaf} {token : Token} {tokens : List Token}
  {states states' : Nat → List Nat}

/-- What stands in front stays as it is. -/
theorem append_left (h : Exchanged before leaf behind token tokens states states')
    {front : List Leaf} {fronts : Nat → List Nat} (next : Nat → Nat)
    (hlength : ∀ i, (fronts i).length = front.length) :
    Exchanged (front ++ before) leaf behind token (front.map Leaf.token ++ tokens)
      (fun i => fronts i ++ states (next i)) (fun i => fronts i ++ states' (next i)) := by
  refine ⟨by rw [h.tokens_eq, List.map_append, List.append_assoc], fun i => ?_⟩
  obtain ⟨js, j, j', ks, hstates, hstates', hjs, hj⟩ := h.exists_states (next i)
  refine ⟨fronts i ++ js, j, j', ks, ?_, ?_, ?_, hj⟩
  · rw [hstates, List.append_assoc]
  · rw [hstates', List.append_assoc]
  · rw [List.length_append, List.length_append, hlength, hjs]

/-- What stands behind stays as it is. -/
theorem append_right (h : Exchanged before leaf behind token tokens states states')
    (rest : List Leaf) (others : Nat → List Nat) :
    Exchanged before leaf (behind ++ rest) token (tokens ++ rest.map Leaf.token)
      (fun i => states i ++ others i) (fun i => states' i ++ others i) := by
  refine ⟨by rw [h.tokens_eq, List.map_append, List.append_assoc, List.cons_append], fun i => ?_⟩
  obtain ⟨js, j, j', ks, hstates, hstates', hjs, hj⟩ := h.exists_states i
  refine ⟨js, j, j', ks ++ others i, ?_, ?_, hjs, hj⟩
  · rw [hstates, List.append_assoc, List.cons_append]
  · rw [hstates', List.append_assoc, List.cons_append]

end Leaf.Exchanged

/-- What follows parts that are alike in what they yield. -/
theorem Forest.feed_alike {ss : List Symbol} {β : Type} {R : β → β → Prop} :
    (forest : Forest ss) → {action action' : Action β ss} → Action.Alike R ss action action' →
      ∀ v, forest.feed action = .ok v → ∃ v', forest.feed action' = .ok v' ∧ R v v'
  | .nil, _, _, halike, v, hv => by
    rw [Forest.feed] at hv ⊢
    exact halike v hv
  | .cons first others, action, action', halike, v, hv => by
    obtain ⟨w, hw, hothers⟩ := Forest.exists_fed hv
    obtain ⟨v', hv', hR⟩ := Forest.feed_alike others (halike w) v hothers
    refine ⟨v', ?_, hR⟩
    rw [Forest.feed, hw]
    exact hv'

theorem Tree.satisfies_marked {s : Symbol} (tree : Tree s) {v : s.Value} (h : tree.value = .ok v) :
    s.Satisfies (fun _ _ => True) Nonterminal.Marked v :=
  Tree.satisfies_value (fun r => Rule.marks_of_mem _ r.rule_mem) tree (fun _ _ => trivial) v h

section

variable {n : Nonterminal} {new : String} {u : Terminal}

/-- A name is read by a rule with the same head as another word that it may be. -/
theorem RuleName.exists_word (hu : n.NamedBy u) {m : Nonterminal}
    (hm : m = .name ∨ m = .enumValueName) (hn : n = .enumValue ↔ m = .enumValueName) :
    ∃ r : RuleName, r.head = m ∧ r.symbols = [.terminal u] := by
  rcases hu with rfl | ⟨rfl, rfl | rfl⟩
  · rcases hm with rfl | rfl
    · exact ⟨⟨.name, ⟨0, by decide⟩⟩, rfl, rfl⟩
    · exact ⟨⟨.enumValueName, ⟨0, by decide⟩⟩, rfl, rfl⟩
  · exact ⟨⟨.enumValueName, ⟨1, by decide⟩⟩, (hn.mp rfl).symm, rfl⟩
  · exact ⟨⟨.enumValueName, ⟨2, by decide⟩⟩, (hn.mp rfl).symm, rfl⟩

/-- A name is read as what the declaration may be named by. -/
theorem Tree.namedBy_of_names {s : Symbol} (tree : Tree s) {item : Item} {σ : Scope}
    (hfits : σ.Fits s) {l : Leaf} (hl : l ∈ tree.leaves item σ) (hn : l.names? = some n) :
    n.NamedBy l.token.terminal := by
  obtain ⟨r, -, hsymbols, hword, hvalue⟩ := tree.item_of_names hfits l hl n hn
  obtain ⟨t, f, hrule, hnamed, -⟩ := Rule.exists_word hword r.rule r.rule_mem
  have hterminal : r.symbols = [.terminal t] := congrArg Rule.symbols hrule
  obtain rfl : t = l.token.terminal := by simpa using hterminal.symm.trans hsymbols
  exact hnamed n hvalue

mutual

/-- Where a name is replaced in a tree, the tree stands for what has the other name. -/
theorem Tree.exists_renamed (hu : n.NamedBy u) {s : Symbol} :
    (tree : Tree s) → {item : Item} → {σ : Scope} → σ.Fits s →
      ∀ {before behind : List Leaf} {leaf : Leaf}, tree.leaves item σ = before ++ leaf :: behind →
        leaf.names? = some n → ∃ tree' : Tree s,
          Leaf.Exchanged before leaf behind ⟨u, new.toList, leaf.token.position⟩ tree'.tokens
            (fun i => tree.states i) (fun i => tree'.states i) ∧
          ∀ v, tree.value = .ok v → ∃ v', tree'.value = .ok v' ∧
            σ.Renamed n leaf.token.ident new s v v'
  | .leaf token, item, σ, hfits, before, behind, leaf, hleaves, hn => by
    rw [Tree.leaves] at hleaves
    have hmem : leaf ∈ [Leaf.mk token item.advance σ.named?] :=
      hleaves ▸ List.mem_append_right _ List.mem_cons_self
    rw [List.mem_singleton.mp hmem] at hn
    cases hfits.symm.trans hn
  | .node r children, item, σ, hfits, before, behind, leaf, hleaves, hn => by
    by_cases hword : r.head = .name ∨ r.head = .enumValueName
    · obtain ⟨token, hold, hsingle⟩ := Tree.isWord_node hword children item σ
      obtain ⟨rfl, hleaf⟩ | ⟨-, hnil⟩ :=
        List.append_eq_singleton_iff.mp (hleaves.symm.trans hsingle)
      · obtain ⟨rfl, rfl⟩ := List.cons.inj hleaf
        obtain rfl : σ = .naming n := Scope.eq_of_named? hn
        obtain ⟨r', hhead, hsymbols⟩ := RuleName.exists_word hu hword (hfits n rfl)
        obtain ⟨tree', hnew⟩ : ∃ tree' : Tree (.nonterminal r.head),
            tree'.IsWord ⟨u, new.toList, token.position⟩ :=
          hhead ▸ Tree.exists_isWord (hhead ▸ hword) _ hsymbols
        refine ⟨tree', ⟨hnew.tokens_eq, fun i => ?_⟩, fun v hv => ?_⟩
        · exact ⟨[], _, _, [], hold.states_eq i, hnew.states_eq i, rfl, fun h => by rw [h]⟩
        · obtain ⟨w, hw, hspells⟩ := hold.exists_value
          obtain rfl := Except.ok.inj (hw.symm.trans hv)
          obtain ⟨w', hw', hspells'⟩ := hnew.exists_value
          exact ⟨w', hw', rfl, hspells.respelled hspells'⟩
      · cases hnil
    · rw [not_or] at hword
      rw [Tree.leaves] at hleaves
      obtain ⟨children', hexchanged, hfeed⟩ :=
        Forest.exists_renamed hu children hword.1 hword.2 hleaves hn
      refine ⟨.node r children', ?_, fun v hv => ?_⟩
      · simp only [Tree.tokens, Tree.states]
        exact hexchanged
      · rw [Tree.value] at hv
        simp only [Tree.value]
        exact hfeed _ _ (Rule.carries_of_mem σ r.rule r.rule_mem) v hv

theorem Forest.exists_renamed (hu : n.NamedBy u) {ss : List Symbol} :
    (forest : Forest ss) → {item : Item} → {σ : Scope} →
      item.rule.head ≠ .name → item.rule.head ≠ .enumValueName →
        ∀ {before behind : List Leaf} {leaf : Leaf},
          forest.leaves item σ = before ++ leaf :: behind → leaf.names? = some n →
            ∃ forest' : Forest ss,
              Leaf.Exchanged before leaf behind ⟨u, new.toList, leaf.token.position⟩ forest'.tokens
                (fun i => forest.states i) (fun i => forest'.states i) ∧
              ∀ {β : Type} (R : β → β → Prop) (action : Action β ss),
                Action.Carries
                    (fun s => (σ.child item.rule.head s).Renamed n leaf.token.ident new s)
                    R ss action →
                ∀ v, forest.feed action = .ok v → ∃ v', forest'.feed action = .ok v' ∧ R v v'
  | .nil, _, _, _, _, before, _, _, hleaves, _ => by
    rw [Forest.leaves] at hleaves
    simp at hleaves
  | @Forest.cons s ss first others, item, σ, hname, hvalue, before, behind, leaf, hleaves,
      hn => by
    rw [Forest.leaves] at hleaves
    rcases exists_of_append_eq_append_cons hleaves with ⟨rest, hfirst, rfl⟩ | ⟨rest, rfl, hothers⟩
    · obtain ⟨first', hexchanged, hfed⟩ :=
        Tree.exists_renamed hu first (Scope.fits_child hname hvalue σ s) hfirst hn
      refine ⟨.cons first' others, ?_, fun R action hcarries v hv => ?_⟩
      · simp only [Forest.tokens, Forest.states, ← others.map_token_leaves item.advance σ]
        exact hexchanged.append_right _ _
      · obtain ⟨w, hw, hothers⟩ := Forest.exists_fed hv
        obtain ⟨w', hw', hrenamed⟩ := hfed w hw
        have halike := (hcarries w (first.satisfies_marked hw)).1 w' hrenamed
        obtain ⟨v', hv', hR⟩ := others.feed_alike halike v hothers
        refine ⟨v', ?_, hR⟩
        rw [Forest.feed, hw']
        exact hv'
    · obtain ⟨others', hexchanged, hfed⟩ :=
        @Forest.exists_renamed hu _ others item.advance _ hname hvalue _ _ _ hothers hn
      refine ⟨.cons first others', ?_, fun R action hcarries v hv => ?_⟩
      · simp only [Forest.tokens, Forest.states,
          ← first.map_token_leaves item (σ.child item.rule.head s)]
        refine hexchanged.append_left _ fun i => ?_
        rw [first.length_states, ← first.map_token_leaves item (σ.child item.rule.head s),
          List.length_map]
      · obtain ⟨w, hw, hothers⟩ := Forest.exists_fed hv
        obtain ⟨v', hv', hR⟩ :=
          hfed R _ (hcarries w (first.satisfies_marked hw)).2 v hothers
        refine ⟨v', ?_, hR⟩
        rw [Forest.feed, hw]
        exact hv'

end

end

/-! ## Files -/

/-- Right behind an option or a reserved statement a value of an enum may not be named by a keyword
that may follow such a statement elsewhere, unless values may be named by it. -/
def Nonterminal.Bars (n : Nonterminal) (before : List Leaf) (word : List Char) : Prop :=
  n = .enumValue ∧ ∃ k : Keyword, k.spelling.toList = word ∧ .keyword k ∉ Terminal.values ∧
    ∃ front ∈ before.getLast?, front.item.Clashes k

/-- No word is barred that values may be named by. -/
theorem Nonterminal.not_bars_of_values {n : Nonterminal} {before : List Leaf} {k : Keyword}
    (hk : .keyword k ∈ Terminal.values) : ¬ n.Bars before k.spelling.toList := by
  rintro ⟨-, l, hl, hvalue, -⟩
  obtain rfl : l = k := Keyword.spelling_injective hl
  exact hvalue hk

namespace Tree

variable {tree : Tree (.nonterminal .schemaFile)} {n : Nonterminal} {u : Terminal}
  {before behind : List Leaf} {leaf : Leaf} {js ks : List Nat} {j : Nat}

/-- A tree of a file shifts each of its tokens from the state behind the token in front. -/
theorem accepts_states {ts us : List Token} {t : Token} (htokens : tree.tokens = ts ++ t :: us)
    (hstates : tree.states 0 = js ++ j :: ks) (hlength : js.length = ts.length) :
    Automaton.accepts (js.getLastD 0) t.terminal = true := by
  obtain ⟨top, hfeeds, -⟩ := tree.feeds
  rw [htokens, hstates] at hfeeds
  obtain ⟨js', ks', stack, hjs, hfirst, hrest⟩ := hfeeds.exists_append
  obtain ⟨rfl, -⟩ := List.append_inj hjs (hlength.trans hfirst.length_eq.symm)
  cases hrest with
  | cons hsettle _ =>
    have haccept := Stack.accepts_of_settle_shift hsettle
    rwa [hfirst.state_eq] at haccept

/-- Behind a token the one is accepted that follows. -/
theorem accepts_behind {ts us : List Token} {t t' : Token}
    (htokens : tree.tokens = ts ++ t :: us) (ht' : t' ∈ us.head?)
    (hstates : tree.states 0 = js ++ j :: ks) (hlength : js.length = ts.length) :
    Automaton.accepts j t'.terminal = true := by
  obtain ⟨us, rfl⟩ := List.head?_eq_some_iff.mp ht'
  obtain ⟨k, ks, rfl⟩ := List.exists_cons_of_length_pos (l := ks) (by
    have hall := tree.length_states 0
    rw [hstates, htokens] at hall
    simp only [List.length_append, List.length_cons] at hall
    omega)
  rw [List.append_cons] at htokens hstates
  have haccept := accepts_states htokens hstates (by simp [hlength])
  rwa [List.getLastD_concat] at haccept

/-- The name of a declaration is read as what the declaration may be named by. -/
theorem namedBy_of_words (h : tree.words = before ++ leaf :: behind) (hn : leaf.names? = some n) :
    n.NamedBy leaf.token.terminal := by
  have hfits : Scope.Fits .declaring (.nonterminal .schemaFile) := nofun
  exact tree.namedBy_of_names hfits (h ▸ List.mem_append_right before List.mem_cons_self) hn

/-- Where a name in a file is replaced, its tree stands for the file with the other name. Another
state stands behind the name only if an equals sign follows. -/
theorem exists_respelled (hu : n.NamedBy u) (h : tree.words = before ++ leaf :: behind)
    (hn : leaf.names? = some n) (hstates : tree.states 0 = js ++ j :: ks)
    (hlength : js.length = before.length) (new : String) :
    ∃ (tree' : Tree (.nonterminal .schemaFile)) (j' : Nat),
      tree'.tokens = before.map Leaf.token ++
        ⟨u, new.toList, leaf.token.position⟩ :: behind.map Leaf.token ∧
      tree'.states 0 = js ++ j' :: ks ∧
      (j' = j ∨ (∃ t ∈ (behind.map Leaf.token).head?, t.terminal = .mark .equal) ∧
        Automaton.accepts j' (.mark .equal) = true) ∧
      ∀ v, tree.value = .ok v → ∃ v', tree'.value = .ok v' ∧
        SchemaFile.Renamed n leaf.token.ident new v v' := by
  have hfits : Scope.Fits .declaring (.nonterminal .schemaFile) := nofun
  obtain ⟨tree', hexchanged, hvalue⟩ :=
    @Tree.exists_renamed _ new _ hu _ tree _ _ hfits _ _ _ h hn
  obtain ⟨js', i, j', ks', hold, hnew, hjs, hj⟩ := hexchanged.exists_states 0
  obtain ⟨rfl, hcons⟩ := List.append_inj (hstates.symm.trans hold) (hlength.trans hjs.symm)
  obtain ⟨rfl, rfl⟩ := List.cons.inj hcons
  refine ⟨tree', j', hexchanged.tokens_eq, hnew, ?_, hvalue⟩
  by_cases hsame : u = leaf.token.terminal
  · exact .inl (hj hsame)
  · right
    -- only a value of an enum may be named by words of two kinds
    obtain rfl : n = .enumValue := by
      rcases hu with rfl | ⟨hvalue, -⟩
      · exact ((namedBy_of_words h hn).resolve_left (Ne.symm hsame)).1
      · exact hvalue
    obtain ⟨hname, -⟩ | ⟨l, hl, hequal⟩ := tree.equal_behind hfits h hn
    · cases hname
    · have hbehind : l.token ∈ (behind.map Leaf.token).head? := by
        rw [List.head?_map, hl]
        rfl
      have haccept := accepts_behind hexchanged.tokens_eq hbehind hnew (by simp [hjs])
      exact ⟨⟨l.token, hbehind, hequal⟩, hequal ▸ haccept⟩

/-- In place of a name a word that is not barred is read as what the declaration may be named by. -/
theorem namedBy_of_not_bars {word : List Char} (hwords : tree.words = before ++ leaf :: behind)
    (hn : leaf.names? = some n) (hstates : tree.states 0 = js ++ j :: ks)
    (hlength : js.length = before.length)
    (hu : Lexer.ReadsAs (Automaton.accepts (js.getLastD 0)) word u)
    (hbars : ¬ n.Bars before word) : n.NamedBy u := by
  cases hu with
  | name => exact .inl rfl
  | @keyword k hk hspelling =>
    obtain ⟨front, hfront, hmem, hholds⟩ := exists_front_state hwords hn hstates hlength
    obtain ⟨rfl, rfl | rfl | hclashes⟩ := Automaton.frees_of_accepts hmem hholds hk
    · exact .inr ⟨rfl, .inl rfl⟩
    · exact .inr ⟨rfl, .inr rfl⟩
    · by_contra hnamed
      refine hbars ⟨rfl, k, hspelling, fun hvalue => hnamed ?_, front, hfront, hclashes⟩
      simpa [Nonterminal.NamedBy, Terminal.values] using hvalue

/-- In place of a name a word that is barred is read as a keyword that names nothing. -/
theorem exists_keyword_of_bars {word : List Char} (hwords : tree.words = before ++ leaf :: behind)
    (hn : leaf.names? = some n) (hstates : tree.states 0 = js ++ j :: ks)
    (hlength : js.length = before.length)
    (hu : Lexer.ReadsAs (Automaton.accepts (js.getLastD 0)) word u) (hbars : n.Bars before word) :
    ∃ k, u = .keyword k ∧ .keyword k ∉ Terminal.values := by
  obtain ⟨-, k, hspelling, hvalue, front, hfront, hclashes⟩ := hbars
  obtain ⟨front', hfront', -, hholds⟩ := exists_front_state hwords hn hstates hlength
  obtain rfl : front' = front := Option.mem_unique hfront' hfront
  cases hu with
  | name hrefuse =>
    cases (hrefuse k hspelling).symm.trans (Automaton.accepts_of_clashes hholds hclashes hvalue)
  | @keyword l _ hl =>
    obtain rfl : l = k := Keyword.spelling_injective (hl.trans hspelling.symm)
    exact ⟨l, rfl, hvalue⟩

/-- Where a value of an enum is named, a keyword that names no value is refused. -/
theorem exists_refuse_of_enumValue {k : Keyword} {stack below : Stack}
    (hwords : tree.words = before ++ leaf :: behind) (hn : leaf.names? = some .enumValue)
    (hvalid : stack.Valid) (hsettle : stack.settle (some leaf.token.terminal) = .shift below j)
    (hholds : complete.Holds j leaf.item) (hk : .keyword k ∉ Terminal.values) :
    ∃ i, stack.settle (some (.keyword k)) = .refuse i := by
  have hfits : Scope.Fits .declaring (.nonterminal .schemaFile) := nofun
  have hmem : leaf ∈ tree.words := hwords ▸ List.mem_append_right _ List.mem_cons_self
  obtain ⟨r, hitem, -, -, hvalue⟩ := tree.item_of_names hfits leaf hmem .enumValue hn
  have hleaf : leaf.token.terminal ∈ Terminal.values := by
    simpa [Nonterminal.NamedBy, Terminal.values] using namedBy_of_words hwords hn
  exact Stack.exists_refuse hvalid hleaf hsettle (hvalue.mp rfl) (hitem ▸ hholds) hk

/-- In a text any word that is not barred may take the place of a name of a declaration, and the
tree of the text stands for the file with the other name. A word that is barred is refused. -/
theorem derive_respelled {text : List Char} (h : derive text = .ok tree)
    (hwords : tree.words = before ++ leaf :: behind) (hn : leaf.names? = some n) :
    ∃ pre post, text = pre ++ leaf.token.lexeme ++ post ∧
      leaf.token.position = Position.start.advance pre ∧ ∀ new ∈ Lexeme.names,
        (¬ n.Bars before new → ∃ tree' : Tree (.nonterminal .schemaFile),
          derive (pre ++ new ++ post) =
            .ok (tree'.move (leaf.token.position.shift leaf.token.lexeme.length new.length)) ∧
          ∀ v, tree.value = .ok v → ∃ v', tree'.value = .ok v' ∧
            SchemaFile.Renamed n leaf.token.ident (String.ofList new) v v') ∧
        (n.Bars before new → ∃ expected, derive (pre ++ new ++ post) =
          .error ⟨.unexpectedToken new expected, leaf.token.position⟩) := by
  obtain ⟨stack, below, js, j, ks, hstates, hlength, hholds, hfeeds, hsettle⟩ :=
    exists_state hwords
  have hjs : js.length = (before.map Leaf.token).length := by rw [List.length_map, hlength]
  have hword := (namedBy_of_words hwords hn).isWord
  have hname : Automaton.accepts (js.getLastD 0) .name = true := by
    obtain ⟨tree', j', htokens', hstates', -⟩ :=
      exists_respelled (.inl rfl) hwords hn hstates hlength ""
    exact accepts_states htokens' hstates' hjs
  have hfront := tree.fronted hwords hn
  obtain ⟨last, hscans, hlast⟩ := derive_iff_scans.mp h
  rw [tree.tokens_of_words hwords, hstates] at hscans
  rw [hstates, ← hlength, List.take_left] at hfront
  obtain ⟨pre, post, htext, hplace, hrespelled⟩ := hscans.respell hjs hfront hword hname
  refine ⟨pre, post, htext, hplace, fun new hnew => ?_⟩
  obtain ⟨u, middle, rest, hu, hbefore, hfound, hscanned⟩ := hrespelled new hnew
  refine ⟨fun hbars => ?_, fun hbars => ?_⟩
  · have hnamed := namedBy_of_not_bars hwords hn hstates hlength hu hbars
    obtain ⟨tree', j', htokens', hstates', hj', hvalue⟩ :=
      exists_respelled hnamed hwords hn hstates hlength (String.ofList new)
    rw [String.toList_ofList] at htokens'
    obtain ⟨last', hmoved, hend⟩ := hscanned j' hj'
    refine ⟨tree', derive_iff_scans.mpr ⟨last', ?_, hend.trans hlast⟩, hvalue⟩
    rw [tokens_move, htokens', states_move, hstates']
    exact hmoved
  · obtain ⟨k, rfl, hvalue⟩ := exists_keyword_of_bars hwords hn hstates hlength hu hbars
    obtain rfl : n = .enumValue := hbars.1
    obtain ⟨i, hrefuse⟩ :=
      exists_refuse_of_enumValue hwords hn (hfeeds.valid trivial) hsettle hholds hvalue
    obtain ⟨q, hrun⟩ := Machine.exists_run_of_feeds (p := .start) hfeeds hbefore
    have hstate : stack.state = js.getLastD 0 := hfeeds.state_eq
    rw [← hstate] at hfound
    exact ⟨_, hrun.trans (Machine.run_of_refuse hfound hrefuse)⟩

end Tree

namespace SchemaFile

variable {name : Text} {text : List Char} {file : SchemaFile}

/-- Any word may take the place of any name of a declaration, keywords included. The text then
stands for the same file but for the name, and for the places behind it on its line. Only the name
of a value of an enum may not, right behind an option or a reserved statement, become a keyword that
may follow such a statement elsewhere: that is refused. -/
theorem parse_renamed (h : parse name text = .ok file) : ∃ tree, derive text = .ok tree ∧
    ∀ before leaf behind n, tree.words = before ++ leaf :: behind → leaf.names? = some n →
      ∃ pre post, text = pre ++ leaf.token.lexeme ++ post ∧
        leaf.token.position = Position.start.advance pre ∧ ∀ new ∈ Lexeme.names,
          (¬ n.Bars before new → ∃ file',
            SchemaFile.Renamed n leaf.token.ident (String.ofList new) file file' ∧
            parse name (pre ++ new ++ post) =
              .ok (file'.move (leaf.token.position.shift leaf.token.lexeme.length new.length))) ∧
          (n.Bars before new → ∃ expected, parse name (pre ++ new ++ post) =
            .error ⟨.unexpectedToken new expected, leaf.token.position⟩) := by
  obtain ⟨tree, read, htree, hvalue, rfl⟩ := exists_tree_of_parse h
  have hfields := problem?_of_parse h
  have hfault : read.fault? = none := fault?_eq_none_iff.mpr hfields
  refine ⟨tree, htree, fun before leaf behind n hwords hn => ?_⟩
  obtain ⟨pre, post, htext, hplace, hrespelled⟩ := tree.derive_respelled htree hwords hn
  refine ⟨pre, post, htext, hplace, fun new hnew => ?_⟩
  obtain ⟨hfree, hbarred⟩ := hrespelled new hnew
  refine ⟨fun hbars => ?_, fun hbars => ?_⟩
  · obtain ⟨tree', htree', hrenamed⟩ := hfree hbars
    obtain ⟨read', hvalue', hread'⟩ := hrenamed read hvalue
    have hstart : leaf.token.position.shift leaf.token.lexeme.length new.length .start = .start :=
      Position.shift_of_le (hplace ▸ Position.le_advance _ _)
    refine ⟨{ read' with name }, hread'.named name, ?_⟩
    exact parse_of_value_ok htree' (tree'.value_move hstart read' hvalue')
      (fault?_move (hread'.fault? hfault))
  · obtain ⟨expected, herror⟩ := hbarred hbars
    exact ⟨expected, parse_of_derive_error herror⟩

end SchemaFile

/-! ### A value behind an option -/

namespace Sample

/-- The lexemes of the beginning of an enum that opens with an option. -/
def optionAhead : List Lexed :=
  [(.keyword .kwEnum, ['e', 'n', 'u', 'm']), (.name, ['E']), (.mark .lbrace, ['\x7b']),
    (.keyword .kwOption, ['o', 'p', 't', 'i', 'o', 'n']), (.name, ['a']), (.mark .equal, ['=']),
    (.int, ['1']), (.mark .semicolon, [';'])]

/-- The lexemes behind the name of the only value. -/
def valueBehind : List Lexed :=
  [(.mark .equal, ['=']), (.int, ['0']), (.mark .semicolon, [';']), (.mark .rbrace, ['\x7d'])]

/-- The text of an enum with an option in front of a value that a word names. -/
def optionedText (word : List Char) : List Char :=
  Lexed.spaced optionAhead ++ [' '] ++ word ++ Lexed.behind valueBehind

/-- The tree of this text if the value is named `A`. -/
def optionedTree : Tree (.nonterminal .schemaFile) :=
  let name : Tree (.part .optionName) := .node ⟨.optionName, 1⟩
    (.cons (.node ⟨.optionNamePart, 0⟩ (.cons (wordAt ['a'] 17) .nil)) .nil)
  let one : Tree (.part .constant) := .node ⟨.constant, 0⟩
    (.cons (.node ⟨.number, 1⟩ (.cons (leafAt .int ['1'] 21) .nil)) .nil)
  let option : Tree (.part .enumItem) := .node ⟨.enumItem, 1⟩ (.cons (.node ⟨.optionStmt, 0⟩
    (.cons (leafAt (.keyword .kwOption) ['o', 'p', 't', 'i', 'o', 'n'] 10) (.cons name
      (.cons (leafAt (.mark .equal) ['='] 19) (.cons one
        (.cons (leafAt (.mark .semicolon) [';'] 23) .nil)))))) .nil)
  let value : Tree (.part .enumItem) := .node ⟨.enumItem, 0⟩ (.cons (.node ⟨.enumValue, 1⟩
    (.cons (.node ⟨.enumValueName, 0⟩ (.cons (leafAt .name ['A'] 25) .nil))
      (.cons (leafAt (.mark .equal) ['='] 27)
        (.cons (.node ⟨.signedInt, 1⟩ (.cons (leafAt .int ['0'] 29) .nil))
          (.cons (leafAt (.mark .semicolon) [';'] 31) .nil))))) .nil)
  let items : Tree (.part .enumItems) :=
    .node ⟨.enumItems, 1⟩ (.cons (.node ⟨.enumItems, 0⟩ (.cons option .nil)) (.cons value .nil))
  .node .bareFile (.cons (.node .firstItem (.cons (.node ⟨.topItem, 4⟩
    (.cons (.node ⟨.enumDecl, 0⟩ (.cons (leafAt (.keyword .kwEnum) ['e', 'n', 'u', 'm'] 1)
      (.cons (wordAt ['E'] 6) (.cons (leafAt (.mark .lbrace) ['\x7b'] 8) (.cons items
        (.cons (leafAt (.mark .rbrace) ['\x7d'] 33) .nil)))))) .nil)) .nil)) .nil)

/-- The name of the value. -/
def optionedValue : Leaf :=
  ⟨⟨.name, ['A'], ⟨1, 25⟩⟩, ⟨⟨.enumValueName, 0⟩, 1⟩, some .enumValue⟩

/-- The file of this tree. -/
def optionedFile (name : Text) : SchemaFile :=
  ⟨name, .proto2, none, [], [], [⟨"E", [⟨"A", 0, [], ⟨1, 25⟩⟩],
    [⟨"a", ⟨.int 1, some ⟨1, 21⟩⟩, ⟨1, 17⟩⟩], [], [], ⟨1, 6⟩⟩], [], [], []⟩

/-- Where a value is named behind the option. -/
theorem words_optionedTree : optionedTree.words =
    optionedTree.words.take 8 ++ optionedValue :: optionedTree.words.drop 9 := rfl

theorem derive_optionedText : derive (optionedText ['A']) = .ok optionedTree := by
  have hlexed : ∀ l ∈ optionAhead ++ (.name, ['A']) :: valueBehind,
      Lexer.lexed? (· = l.1) l.2 = some l ∧ (l.1 = .name → Keyword.ofSpelling? l.2 = none) := by
    decide
  exact derive_spaced (fun l hl => Lexed.proper_of_lexed? (hlexed l hl).1 (hlexed l hl).2)
    (by decide)

theorem parse_optionedText (name : Text) :
    SchemaFile.parse name (optionedText ['A']) = .ok (optionedFile name) := by
  have hvalue : optionedTree.value = .ok (optionedFile "") := by with_unfolding_all rfl
  exact SchemaFile.parse_of_value_ok derive_optionedText hvalue rfl

/-- Behind the option no value may be named `message`. -/
theorem bars_optionedTree :
    Nonterminal.enumValue.Bars (optionedTree.words.take 8) Keyword.kwMessage.spelling.toList :=
  ⟨rfl, .kwMessage, rfl, by decide, _, rfl, by decide⟩

end Sample

namespace SchemaFile

/-- Behind an option a value of an enum may be named `option`, and not `message`. -/
theorem parse_renamed_optioned :
    ∃ pre post, Sample.optionedText ['A'] = pre ++ ['A'] ++ post ∧
      (∃ file', SchemaFile.Renamed .enumValue Sample.optionedValue.token.ident "option"
          (Sample.optionedFile "a.proto") file' ∧
        parse "a.proto" (pre ++ Keyword.kwOption.spelling.toList ++ post) =
          .ok (file'.move (Position.shift ⟨1, 25⟩ 1 6))) ∧
      ∃ expected, parse "a.proto" (pre ++ Keyword.kwMessage.spelling.toList ++ post) =
        .error ⟨.unexpectedToken Keyword.kwMessage.spelling.toList expected, ⟨1, 25⟩⟩ := by
  obtain ⟨tree, htree, hrenamed⟩ := parse_renamed (Sample.parse_optionedText "a.proto")
  obtain rfl : Sample.optionedTree = tree :=
    Except.ok.inj (Sample.derive_optionedText.symm.trans htree)
  obtain ⟨pre, post, htext, -, hwords⟩ := hrenamed _ _ _ _ Sample.words_optionedTree rfl
  refine ⟨pre, post, htext, ?_, ?_⟩
  · exact (hwords _ (Keyword.spelling_mem_names .kwOption)).1
      (Nonterminal.not_bars_of_values (by decide))
  · exact (hwords _ (Keyword.spelling_mem_names .kwMessage)).2 Sample.bars_optionedTree

/-- The text `enum E { option a = 1 ; A = 0 ; }` is accepted, and not with `message` in place of
`A`, although that names a value of the enum and `message` is a name. -/
theorem keyword_value_refused :
    parse "a.proto" (Sample.optionedText ['A']) = .ok (Sample.optionedFile "a.proto") ∧
      (∃ tree, derive (Sample.optionedText ['A']) = .ok tree ∧ Sample.optionedValue ∈ tree.words) ∧
      Keyword.kwMessage.spelling.toList ∈ Lexeme.names ∧
      ∃ expected, parse "a.proto" (Sample.optionedText Keyword.kwMessage.spelling.toList) =
        .error ⟨.unexpectedToken Keyword.kwMessage.spelling.toList expected, ⟨1, 25⟩⟩ := by
  have hmem : Sample.optionedValue ∈ Sample.optionedTree.words :=
    Sample.words_optionedTree ▸ List.mem_append_right _ List.mem_cons_self
  have hmessage := Keyword.spelling_mem_names .kwMessage
  obtain ⟨pre, post, htext, -, hwords⟩ :=
    Sample.optionedTree.derive_respelled Sample.derive_optionedText Sample.words_optionedTree rfl
  -- the name of the value stands only once in the text
  obtain ⟨rfl, -, rfl⟩ := (List.append_cons_inj_of_notMem (by decide) (by decide)).mp
    ((List.append_cons ..).trans (htext.trans (List.append_cons ..).symm))
  obtain ⟨expected, herror⟩ := (hwords _ hmessage).2 Sample.bars_optionedTree
  exact ⟨Sample.parse_optionedText _, ⟨_, Sample.derive_optionedText, hmem⟩, hmessage, expected,
    parse_of_derive_error herror⟩

end SchemaFile

end ProtoSchema
