import ProtoSchema.Grammar.Machine
import ProtoSchema.Grammar.Tree
import ProtoSchema.Proofs.Token.Language

/-!
# Derivations of texts

The machine moves tokens and trees, but neither loses nor makes up any: the tokens that the trees on
its stack derive are those that have been read (`Machine.exists_tokens_of_run`). So what is true of
every lexeme and is kept by every rule of the grammar is true of what a text stands for
(`Tree.satisfies_value`), also where it is about the tokens that a part was read from
(`Tree.spans_value`).
-/

namespace ProtoSchema

/-!
## Branches of a derivation

A derivation of a nonterminal applies one of its rules to derivations of the symbols of the rule
(`Tree.exists_rule`). A terminal among them stands for one token (`Forest.feed_token`), and a
nonterminal for a value that the rule is then fed with (`Forest.exists_fed`).

The parts of a derivation are the derivations of a nonterminal that it contains, without those that
stand inside of others (`Tree.parts`). The rules tell where a nonterminal does not occur
(`Tree.outermost_of_closed`), and which terminal a derivation does not open with
(`Tree.opens_of_avoids`).
-/

/-! ### Parts -/

mutual

/-- The derivations of a nonterminal in a derivation; those inside of others do not count. -/
def Tree.outermost (n : Nonterminal) {s : Symbol} : Tree s → List (Tree (.nonterminal n))
  | .leaf _ => []
  | .node r children =>
    if h : r.head = n then [h ▸ .node r children] else Forest.outermost n children

/-- The derivations of a nonterminal in several derivations, one behind the other. -/
def Forest.outermost (n : Nonterminal) {ss : List Symbol} :
    Forest ss → List (Tree (.nonterminal n))
  | .nil => []
  | .cons first others => first.outermost n ++ others.outermost n

end

/-- The derivations of a nonterminal below the root of a derivation. -/
def Tree.parts (n : Nonterminal) {m : Nonterminal} : Tree (.nonterminal m) →
    List (Tree (.nonterminal n))
  | .node _ children => children.outermost n

/-! ### Taking a derivation apart -/

namespace Tree

theorem exists_token {t : Terminal} (tree : Tree (.terminal t)) :
    ∃ token : Token, token.terminal = t ∧ tree.tokens = [token] ∧ tree.value = .ok token :=
  match tree with
  | .leaf token => ⟨token, rfl, by rw [tokens], by rw [value]⟩

variable {n : Nonterminal}

theorem sizeOf_lt (r : RuleName) (children : Forest r.symbols) :
    sizeOf children < sizeOf (node r children) := by
  rw [node.sizeOf_spec]
  omega

theorem exists_rule (tree : Tree (.nonterminal n)) :
    ∃ (i : Fin (rules n).length) (children : Forest (RuleName.symbols ⟨n, i⟩)),
      tree.tokens = children.tokens ∧ tree.value = children.feed (RuleName.rule ⟨n, i⟩).action ∧
        (∀ m, tree.parts m = children.outermost m) ∧ sizeOf children < sizeOf tree :=
  match tree with
  | .node ⟨_, i⟩ children =>
    ⟨i, children, by rw [tokens], by rw [value], fun m => by rw [parts],
      sizeOf_lt ⟨n, i⟩ children⟩

theorem outermost_token {t : Terminal} (tree : Tree (.terminal t)) (m : Nonterminal) :
    tree.outermost m = [] :=
  match tree with
  | .leaf _ => by rw [outermost]

theorem outermost_self (tree : Tree (.nonterminal n)) : tree.outermost n = [tree] :=
  match tree with
  | .node ⟨_, i⟩ children => by rw [outermost, dif_pos rfl]

theorem outermost_of_ne {m : Nonterminal} (h : n ≠ m) (tree : Tree (.nonterminal n)) :
    tree.outermost m = tree.parts m :=
  match tree with
  | .node ⟨_, i⟩ children => by rw [outermost, dif_neg h, parts]

end Tree

namespace Forest

variable {ss : List Symbol} {β : Type}

theorem feed_nil (action : Action β []) : nil.feed action = action := by rw [feed]

theorem feed_token {t : Terminal} (tree : Tree (.terminal t)) (others : Forest ss) :
    ∃ token : Token, token.terminal = t ∧ (cons tree others).tokens = token :: others.tokens ∧
      ∀ action : Action β (.terminal t :: ss), (cons tree others).feed action =
        others.feed (action token) := by
  obtain ⟨token, hterminal, htokens, hvalue⟩ := tree.exists_token
  refine ⟨token, hterminal, ?_, fun action => ?_⟩
  · rw [tokens, htokens]
    rfl
  · rw [feed, hvalue]
    rfl

theorem tokens_singleton {s : Symbol} (tree : Tree s) : (cons tree nil).tokens = tree.tokens := by
  rw [tokens, tokens, List.append_nil]

theorem feed_last {t : Terminal} (tree : Tree (.terminal t)) :
    ∃ token : Token, token.terminal = t ∧ (cons tree nil).tokens = [token] ∧
      ∀ action : Action β [.terminal t], (cons tree nil).feed action = action token := by
  obtain ⟨token, hterminal, htokens, hfeed⟩ := feed_token tree nil
  refine ⟨token, hterminal, ?_, fun action => ?_⟩
  · rw [htokens, tokens]
  · rw [hfeed, feed_nil]

theorem sizeOf_first_lt {s : Symbol} (first : Tree s) (others : Forest ss) :
    sizeOf first < sizeOf (cons first others) := by
  rw [cons.sizeOf_spec]
  omega

theorem exists_fed {s : Symbol} {tree : Tree s} {others : Forest ss}
    {action : Action β (s :: ss)} {w : β} (h : (cons tree others).feed action = .ok w) :
    ∃ v, tree.value = .ok v ∧ others.feed (action v) = .ok w := by
  rw [feed] at h
  cases hvalue : tree.value with
  | error e =>
    rw [hvalue] at h
    cases h
  | ok v =>
    rw [hvalue] at h
    exact ⟨v, rfl, h⟩

theorem outermost_nil (n : Nonterminal) : nil.outermost n = [] := by rw [outermost]

theorem outermost_cons (n : Nonterminal) {s : Symbol} (first : Tree s) (others : Forest ss) :
    (cons first others).outermost n = first.outermost n ++ others.outermost n := by rw [outermost]

end Forest

/-! ### What the rules exclude -/

/-- A symbol is one of some nonterminals, or a terminal of some kind. -/
def Symbol.Within (P : Terminal → Prop) (ns : List Nonterminal) : Symbol → Prop
  | .terminal t => P t
  | .nonterminal n => n ∈ ns

instance (P : Terminal → Prop) [DecidablePred P] (ns : List Nonterminal) :
    DecidablePred (Symbol.Within P ns)
  | .terminal t => inferInstanceAs (Decidable (P t))
  | .nonterminal n => inferInstanceAs (Decidable (n ∈ ns))

theorem RuleName.rule_mem (r : RuleName) : r.rule ∈ rules r.head := List.getElem_mem _

section

variable {ns : List Nonterminal}

/-- The rules of some nonterminals use no other ones. -/
def Closed (ns : List Nonterminal) : Prop :=
  ∀ n ∈ ns, ∀ r ∈ rules n, ∀ s ∈ r.symbols, s.Within (fun _ => True) ns

mutual

/-- What is derived by rules with no nonterminals but some has no part of any other. -/
theorem Tree.outermost_of_closed (hns : Closed ns) {m : Nonterminal} (hm : m ∉ ns) {s : Symbol} :
    (tree : Tree s) → s.Within (fun _ => True) ns → tree.outermost m = []
  | .leaf _, _ => by rw [Tree.outermost]
  | .node r children, hs => by
    have hne : r.head ≠ m := by
      rintro rfl
      exact hm hs
    rw [Tree.outermost, dif_neg hne]
    exact Forest.outermost_of_closed hns hm children (hns _ hs _ r.rule_mem)

theorem Forest.outermost_of_closed (hns : Closed ns) {m : Nonterminal} (hm : m ∉ ns)
    {ss : List Symbol} :
    (forest : Forest ss) → (∀ s ∈ ss, s.Within (fun _ => True) ns) → forest.outermost m = []
  | .nil, _ => by rw [Forest.outermost]
  | .cons first others, hss => by
    obtain ⟨hs, hss⟩ := List.forall_mem_cons.mp hss
    rw [Forest.outermost, Tree.outermost_of_closed hns hm first hs,
      Forest.outermost_of_closed hns hm others hss, List.append_nil]

end

/-- The rules of some nonterminals open with another terminal, or with one of these nonterminals. -/
def Avoids (t : Terminal) (ns : List Nonterminal) : Prop :=
  ∀ n ∈ ns, ∀ r ∈ rules n, ∃ s ∈ r.symbols.head?, s.Within (· ≠ t) ns

mutual

/-- What is derived by rules that do not open with a terminal opens with another one. -/
theorem Tree.opens_of_avoids {t : Terminal} (hns : Avoids t ns) {s : Symbol} :
    (tree : Tree s) → s.Within (· ≠ t) ns →
      ∃ token others, tree.tokens = token :: others ∧ token.terminal ≠ t
  | .leaf token, hs => ⟨token, [], by rw [Tree.tokens], hs⟩
  | .node r children, hs => by
    rw [Tree.tokens]
    exact Forest.opens_of_avoids hns children (hns _ hs _ r.rule_mem)

theorem Forest.opens_of_avoids {t : Terminal} (hns : Avoids t ns) {ss : List Symbol} :
    (forest : Forest ss) → (∃ s ∈ ss.head?, s.Within (· ≠ t) ns) →
      ∃ token others, forest.tokens = token :: others ∧ token.terminal ≠ t
  | .nil, hss => by
    obtain ⟨_, hnone, -⟩ := hss
    cases hnone
  | .cons first others, hss => by
    obtain ⟨_, hsome, hs⟩ := hss
    obtain rfl := Option.some.inj hsome
    obtain ⟨token, more, hfirst, hne⟩ := Tree.opens_of_avoids hns first hs
    exact ⟨token, more ++ others.tokens, by rw [Forest.tokens, hfirst, List.cons_append], hne⟩

end

end

/-! ## Tokens on the stack -/

/-- The tokens that the trees on a stack derive, in the order in which they were read. -/
def Stack.tokens (stack : Stack) : List Token := stack.reverse.flatMap (·.tree.tokens)

theorem Stack.tokens_cons (f : Frame) (stack : Stack) :
    Stack.tokens (f :: stack) = stack.tokens ++ f.tree.tokens := by
  simp [Stack.tokens]

/-- The frames that make up a forest derive its tokens. -/
theorem Forest.tokens_of_ofFrames? {symbols : List Symbol} {frames : List Frame}
    {forest : Forest symbols} (h : ofFrames? symbols frames = some forest) :
    forest.tokens = frames.flatMap (·.tree.tokens) := by
  induction symbols generalizing frames with
  | nil =>
    cases frames with
    | nil =>
      obtain rfl := Option.some.inj h
      rfl
    | cons => cases h
  | cons s ss ih =>
    cases frames with
    | nil => cases h
    | cons f fs =>
      unfold ofFrames? at h
      split at h
      · next hs =>
        obtain ⟨others, hothers, rfl⟩ := Option.map_eq_some_iff.mp h
        subst hs
        rw [List.flatMap_cons, ← ih hothers]
        rfl
      · cases h

namespace Stack

/-- What is popped are the last tokens of the stack. -/
theorem tokens_of_pop? {stack below : Stack} {r : RuleName} {children : Forest r.symbols}
    (h : stack.pop? r = some (children, below)) :
    stack.tokens = below.tokens ++ children.tokens := by
  obtain ⟨forest, hforest, heq⟩ := Option.map_eq_some_iff.mp h
  obtain ⟨rfl, rfl⟩ := Prod.mk.inj heq
  rw [Forest.tokens_of_ofFrames? hforest, tokens, tokens, ← List.flatMap_append,
    ← List.reverse_append, List.take_append_drop]

/-- Whatever settling ends with derives these tokens. -/
def Settled.Derives (tokens : List Token) : Settled → Prop
  | .shift stack _ => stack.tokens = tokens
  | .accept tree => tree.tokens = tokens
  | .refuse _ => True

theorem tokens_node_cast {r : RuleName} (h : r.head = .schemaFile) (children : Forest r.symbols) :
    (h ▸ Tree.node r children : Tree (.nonterminal .schemaFile)).tokens = children.tokens := by
  -- the head must be a variable before the equation can be followed
  obtain ⟨head, index⟩ := r
  cases h
  rfl

/-- Settling ends with the tokens of the stack. -/
theorem derives_of_reduceOnce {stack : Stack} {next : Expectation} {settled : Settled}
    (h : stack.reduceOnce next = .inl settled) : settled.Derives stack.tokens := by
  revert h
  fun_cases reduceOnce stack next with
  | case1 target =>
    rintro ⟨⟩
    rfl
  | case4 r hstep children below hpop hhead hend =>
    rintro ⟨⟩
    obtain rfl : below = [] := List.isEmpty_iff.mp hend.1
    rw [tokens_of_pop? hpop]
    exact tokens_node_cast hhead children
  | case2 | case3 | case5 | case6 =>
    rintro ⟨⟩
    trivial
  | case7 => exact fun h => Sum.inr_ne_inl.elim h

/-- A reduction keeps the tokens of the stack. -/
theorem tokens_of_reduceOnce {stack : Stack} {next : Expectation}
    {lower : { s : Stack // s.weight < stack.weight }}
    (h : stack.reduceOnce next = .inr lower) : lower.1.tokens = stack.tokens := by
  revert h
  fun_cases reduceOnce stack next with
  | case7 r hstep children below hpop =>
    rintro ⟨⟩
    rw [tokens_of_pop? hpop, tokens_cons]
    rfl
  | case1 | case2 | case3 | case4 | case5 | case6 => exact fun h => Sum.inl_ne_inr.elim h

theorem derives_settle (stack : Stack) (next : Expectation) :
    (stack.settle next).Derives stack.tokens := by
  induction stack using settle.induct next with
  | case1 stack settled h =>
    rw [settle, h]
    exact derives_of_reduceOnce h
  | case2 stack lower h ih =>
    rw [settle, h]
    exact tokens_of_reduceOnce h ▸ ih

end Stack

/-! ## Reading -/

/-- The tree that is found derives what was on the stack and then the tokens of the text that has
been read. -/
theorem Machine.exists_tokens_of_run {c : Cursor} {stack : Stack} {last : Position}
    {tree : Tree (.nonterminal .schemaFile)} (h : run c stack last = .ok tree) :
    ∃ read, tree.tokens = stack.tokens ++ read ∧ Layout c.position c.rest read := by
  fun_induction run c stack last with
  -- a token is shifted behind the stack on which all reductions were made
  | case1 c stack last t behind hnext below target hsettle hlt ih =>
    obtain ⟨read, htokens, hread⟩ := ih h
    have hbelow : below.tokens = stack.tokens := by
      have hderives := stack.derives_settle (some t.terminal)
      rwa [hsettle] at hderives
    refine ⟨t :: read, ?_, Lexer.layout_of_next_token hnext hread⟩
    rw [htokens, Stack.tokens_cons, hbelow, List.append_assoc]
    rfl
  | case4 c stack last cursor hnext result hsettle =>
    obtain rfl := Except.ok.inj h
    have hderives := stack.derives_settle none
    rw [hsettle] at hderives
    refine ⟨[], ?_, Lexer.layout_of_next_finished hnext⟩
    rw [List.append_nil]
    exact hderives
  | case2 | case3 | case5 | case6 | case7 => cases h

/-- A text consists of the tokens that its tree derives. -/
theorem layout_of_derive {text : List Char} {tree : Tree (.nonterminal .schemaFile)}
    (h : derive text = .ok tree) : Layout .start text tree.tokens := by
  obtain ⟨read, htokens, hread⟩ := Machine.exists_tokens_of_run h
  rw [htokens]
  exact hread

/-! ## Values -/

/-- What a symbol stands for is the only token read and has `P`, if the symbol is a terminal, and has
`Q` with the tokens read, if it is a nonterminal. -/
def Symbol.Spans (P : Terminal → Token → Prop)
    (Q : (n : Nonterminal) → List Token → n.Value → Prop) :
    (s : Symbol) → List Token → s.Value → Prop
  | .terminal t => fun read v => read = [v] ∧ P t v
  | .nonterminal n => Q n

/-- Behind the tokens that have been read, an action yields only results that have `R` with these
tokens and those of its parts, as long as all of them stand one behind the other in `tokens`. -/
def Action.Builds (P : Terminal → Token → Prop)
    (Q : (n : Nonterminal) → List Token → n.Value → Prop) (tokens : List Token) {β : Type}
    (R : List Token → β → Prop) (read : List Token) : (ss : List Symbol) → Action β ss → Prop
  | [], result => read <:+: tokens → ∀ v, result = .ok v → R read v
  | s :: ss, action =>
    ∀ more v, s.Spans P Q more v → Action.Builds P Q tokens R (read ++ more) ss (action v)

section Spans

variable {P : Terminal → Token → Prop} {Q : (n : Nonterminal) → List Token → n.Value → Prop}
  {tokens : List Token}

/-- Where everything has `R`, an action builds nothing else. -/
theorem Action.builds_of_all {β : Type} {R : List Token → β → Prop} (h : ∀ read v, R read v)
    (read : List Token) (ss : List Symbol) (action : Action β ss) :
    Action.Builds P Q tokens R read ss action := by
  induction ss generalizing read with
  | nil => exact fun _ v _ => h read v
  | cons s ss ih => exact fun more v _ => ih (read ++ more) (action v)

mutual

/-- If all rules keep what their parts have with their tokens, then what a tree stands for has it with
the tokens of the tree. -/
theorem Tree.spans_value (htokens : ∀ t ∈ tokens, P t.terminal t)
    (h : ∀ r : RuleName, Action.Builds P Q tokens (Q r.head) [] r.symbols r.rule.action)
    {s : Symbol} :
    (tree : Tree s) → tree.tokens <:+: tokens → ∀ v, tree.value = .ok v →
      s.Spans P Q tree.tokens v
  | .leaf token, hwithin, v, hv => by
    rw [Tree.value] at hv
    rw [Tree.tokens] at hwithin ⊢
    obtain rfl := Except.ok.inj hv
    exact ⟨rfl, htokens token (hwithin.subset List.mem_cons_self)⟩
  | .node r children, hwithin, v, hv => by
    rw [Tree.value] at hv
    rw [Tree.tokens] at hwithin ⊢
    exact Forest.builds_feed htokens h children hwithin (h r) v hv

theorem Forest.builds_feed (htokens : ∀ t ∈ tokens, P t.terminal t)
    (h : ∀ r : RuleName, Action.Builds P Q tokens (Q r.head) [] r.symbols r.rule.action)
    {ss : List Symbol} {β : Type} {R : List Token → β → Prop} {read : List Token} :
    (forest : Forest ss) → read ++ forest.tokens <:+: tokens → {action : Action β ss} →
      Action.Builds P Q tokens R read ss action → ∀ v, forest.feed action = .ok v →
        R (read ++ forest.tokens) v
  | .nil, hwithin, _, haction, v, hv => by
    rw [Forest.feed] at hv
    rw [Forest.tokens, List.append_nil] at hwithin ⊢
    exact haction hwithin v hv
  | .cons first others, hwithin, action, haction, v, hv => by
    rw [Forest.feed] at hv
    rw [Forest.tokens, ← List.append_assoc] at hwithin ⊢
    cases hfirst : first.value with
    | error e =>
      rw [hfirst] at hv
      cases hv
    | ok w =>
      rw [hfirst] at hv
      have hinside : first.tokens <:+: read ++ first.tokens ++ others.tokens := ⟨read, _, rfl⟩
      have hw := Tree.spans_value htokens h first (hinside.trans hwithin) w hfirst
      exact Forest.builds_feed htokens h others hwithin (haction first.tokens w hw) v hv

end

end Spans

/-! ### Values without their tokens -/

/-- What a symbol stands for satisfies `P` if it is a token of a terminal, and `Q` if it is a
part. -/
def Symbol.Satisfies (P : Terminal → Token → Prop) (Q : (n : Nonterminal) → n.Value → Prop) :
    (s : Symbol) → s.Value → Prop
  | .terminal t => P t
  | .nonterminal n => Q n

/-- An action yields only results with `R`, if its parts satisfy `P` and `Q`. -/
def Action.Yields (P : Terminal → Token → Prop) (Q : (n : Nonterminal) → n.Value → Prop) {β : Type}
    (R : β → Prop) : (ss : List Symbol) → Action β ss → Prop
  | [], result => ∀ v, result = .ok v → R v
  | s :: ss, action => ∀ v, s.Satisfies P Q v → Action.Yields P Q R ss (action v)

variable {P : Terminal → Token → Prop} {Q : (n : Nonterminal) → n.Value → Prop}

/-- Where everything has `R`, an action yields nothing else. -/
theorem Action.yields_of_all {β : Type} {R : β → Prop} (h : ∀ v, R v) (ss : List Symbol)
    (action : Action β ss) : Action.Yields P Q R ss action := by
  induction ss with
  | nil => exact fun v _ => h v
  | cons s ss ih => exact fun v _ => ih (action v)

/-- What yields results with `R` whatever tokens its parts are read from builds such results. -/
theorem Action.Yields.builds {Q' : (n : Nonterminal) → List Token → n.Value → Prop} {β : Type}
    {R : β → Prop} {ss : List Symbol} {action : Action β ss} (h : Action.Yields P Q R ss action)
    (hQ : ∀ n read v, Q' n read v → Q n v) (tokens read : List Token) :
    Action.Builds P Q' tokens (fun _ => R) read ss action := by
  induction ss generalizing read with
  | nil => exact fun _ => h
  | cons s ss ih =>
    intro more v hv
    refine ih (h v ?_) (read ++ more)
    cases s with
    | terminal t => exact hv.2
    | nonterminal n => exact hQ n more v hv

/-- If all rules keep what their parts satisfy, then what a tree stands for satisfies it. -/
theorem Tree.satisfies_value
    (h : ∀ r : RuleName, Action.Yields P Q (Q r.head) r.symbols r.rule.action) {s : Symbol}
    (tree : Tree s) (htokens : ∀ t ∈ tree.tokens, P t.terminal t) (v : s.Value)
    (hv : tree.value = .ok v) : s.Satisfies P Q v := by
  have hspans := Tree.spans_value (Q := fun n _ => Q n) htokens
    (fun r => (h r).builds (fun _ _ _ => id) tree.tokens []) tree List.infix_rfl v hv
  cases s with
  | terminal t => exact hspans.2
  | nonterminal n => exact hspans

end ProtoSchema
