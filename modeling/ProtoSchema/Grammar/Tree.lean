import ProtoSchema.Grammar.Rules

/-!
# Derivation trees

A tree for a symbol is either a token of that terminal or a rule of that nonterminal with a tree
for each of its symbols, so every tree is a derivation. Its `tokens` are the sentence it derives
and its `value` what the sentence stands for.
-/

namespace ProtoSchema

/-- A rule of the grammar, named by its nonterminal and its place among the rules of that. -/
structure RuleName where
  head : Nonterminal
  index : Fin (rules head).length
  deriving DecidableEq

namespace RuleName

/-- The rule of a name. -/
def rule (r : RuleName) : Rule r.head := (rules r.head)[r.index]

/-- The symbols of the rule of a name. -/
def symbols (r : RuleName) : List Symbol := r.rule.symbols

/-- The names of the rules of a nonterminal. -/
def ofHead (n : Nonterminal) : List RuleName :=
  (List.finRange (rules n).length).map fun i => ⟨n, i⟩

/-- The names of all rules. -/
def all : List RuleName := Nonterminal.all.flatMap ofHead

end RuleName

mutual

/-- The derivations of a symbol. -/
inductive Tree : Symbol → Type
  | leaf (token : Token) : Tree (.terminal token.terminal)
  | node (r : RuleName) (children : Forest r.symbols) : Tree (.nonterminal r.head)

/-- The derivations of a sequence of symbols. -/
inductive Forest : List Symbol → Type
  | nil : Forest []
  | cons {s : Symbol} {ss : List Symbol} (first : Tree s) (others : Forest ss) : Forest (s :: ss)

end

mutual

/-- The tokens that a tree derives, from left to right. -/
def Tree.tokens {s : Symbol} : Tree s → List Token
  | .leaf token => [token]
  | .node _ children => children.tokens

/-- The tokens that a sequence of trees derives. -/
def Forest.tokens {ss : List Symbol} : Forest ss → List Token
  | .nil => []
  | .cons first others => first.tokens ++ others.tokens

end

mutual

/-- What a tree stands for. The parts of a rule are evaluated from left to right and the first
fault wins. -/
def Tree.value {s : Symbol} : Tree s → Except Fault s.Value
  | .leaf token => .ok token
  | .node r children => children.feed r.rule.action

/-- Feeds the values of a sequence of trees to an action. -/
def Forest.feed {ss : List Symbol} {β : Type} : Forest ss → Action β ss → Except Fault β
  | .nil, action => action
  | .cons first others, action => do
    let v ← first.value
    others.feed (action v)

end

end ProtoSchema
