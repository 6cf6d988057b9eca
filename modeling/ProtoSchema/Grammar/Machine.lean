import ProtoSchema.Grammar.Automaton
import ProtoSchema.Token.Lexer

/-!
# The parsing machine

The machine keeps a stack of derivation trees, each with the state behind it. Before a token is
shifted the machine settles the stack: it reduces finished rules as long as the automaton says so.
Every reduction other than the last either shortens the stack or replaces its top symbol by a
strictly higher one, so settling ends. The lexer is asked for the terminals that the state on top
of the stack accepts.
-/

namespace ProtoSchema

/-! ## Heights -/

namespace Nonterminal

/-- One more than the greatest height below that of a symbol which alone makes up a rule of `n`,
counting at most `bound` steps. -/
def heightWithin : (bound : Nat) → Nonterminal → Nat
  | 0, _ => 0
  | bound + 1, n =>
    1 + (RuleName.ofHead n).foldl
      (fun h r =>
        match r.symbols with
        | [.nonterminal m] => max h (heightWithin bound m)
        | _ => h)
      0

/-- The length of the longest chain of rules of one symbol that starts at `n`. -/
def height (n : Nonterminal) : Nat := heightWithin 8 n

end Nonterminal

/-- The height of a symbol: terminals have none. -/
def Symbol.height : Symbol → Nat
  | .terminal _ => 0
  | .nonterminal n => n.height

/-- A rule of one symbol climbs; a rule of no symbol belongs to the file as a whole. -/
def RuleName.climbs (r : RuleName) : Bool :=
  match r.symbols with
  | [] => r.head = .schemaFile
  | [s] => s.height < r.head.height
  | _ => true

/-- Every rule climbs. -/
theorem RuleName.climbs_eq_true (r : RuleName) : r.climbs = true := by
  obtain ⟨head, index⟩ := r
  revert index
  cases head <;> decide

/-- Heights stay below ten. -/
theorem Nonterminal.height_lt (n : Nonterminal) : n.height < 10 := by
  cases n <;> decide

/-- Heights stay below ten. -/
theorem Symbol.height_lt (s : Symbol) : s.height < 10 := by
  cases s with
  | terminal => simp [Symbol.height]
  | nonterminal n => exact n.height_lt

/-! ## Settling the stack -/

/-- A tree on the stack and the state behind it. -/
structure Frame where
  state : Nat
  symbol : Symbol
  tree : Tree symbol

/-- The stack, top first. -/
abbrev Stack := List Frame

namespace Stack

/-- The state on top; the empty stack is in the start state. -/
def state : Stack → Nat
  | [] => 0
  | f :: _ => f.state

/-- The height of the top symbol. -/
def topHeight : Stack → Nat
  | [] => 0
  | f :: _ => f.symbol.height

/-- A measure that every reduction lowers. -/
def weight (s : Stack) : Nat := 10 * s.length + (9 - s.topHeight)

end Stack

/-- The forest of a list of frames, if their symbols are the given ones. -/
def Forest.ofFrames? : (symbols : List Symbol) → List Frame → Option (Forest symbols)
  | [], [] => some .nil
  | s :: ss, f :: fs =>
    if h : f.symbol = s then (ofFrames? ss fs).map (.cons (h ▸ f.tree)) else none
  | _, _ => none

/-- Frames that make up a forest have its symbols. -/
theorem Forest.map_symbol_of_ofFrames? {symbols : List Symbol} {frames : List Frame}
    {forest : Forest symbols} (h : ofFrames? symbols frames = some forest) :
    frames.map Frame.symbol = symbols := by
  induction symbols generalizing frames with
  | nil =>
    cases frames with
    | nil => rfl
    | cons => cases h
  | cons s ss ih =>
    cases frames with
    | nil => cases h
    | cons f fs =>
      unfold ofFrames? at h
      split at h
      · rename_i hs
        obtain ⟨others, hothers, -⟩ := Option.map_eq_some_iff.mp h
        rw [List.map_cons, ih hothers, hs]
      · cases h

namespace Stack

/-- Takes the parts of a rule from the stack. -/
def pop? (stack : Stack) (r : RuleName) : Option (Forest r.symbols × Stack) :=
  let count := r.symbols.length
  (Forest.ofFrames? r.symbols (stack.take count).reverse).map fun children =>
    (children, stack.drop count)

/-- Putting a rule's nonterminal in place of its parts lowers the weight. -/
theorem weight_lt_of_pop? {stack below : Stack} {r : RuleName} {children : Forest r.symbols}
    (h : stack.pop? r = some (children, below)) (hr : r.head ≠ .schemaFile) (f : Frame)
    (hf : f.symbol = .nonterminal r.head) : weight (f :: below) < weight stack := by
  obtain ⟨forest, hforest, heq⟩ := Option.map_eq_some_iff.mp h
  obtain ⟨-, rfl⟩ := Prod.mk.inj heq
  have hsymbols := Forest.map_symbol_of_ofFrames? hforest
  have hlength := congrArg List.length hsymbols
  simp only [List.length_map, List.length_reverse, List.length_take] at hlength
  have hclimb := r.climbs_eq_true
  have htop : topHeight (f :: stack.drop r.symbols.length) = r.head.height := by
    simp [topHeight, hf, Symbol.height]
  have hlt := r.head.height_lt
  unfold weight
  rw [htop, List.length_cons, List.length_drop]
  rcases hs : r.symbols with _ | ⟨s, _ | ⟨s', ss⟩⟩
  · simp only [RuleName.climbs, hs, decide_eq_true_eq] at hclimb
    exact absurd hclimb hr
  · simp only [RuleName.climbs, hs, decide_eq_true_eq] at hclimb
    cases stack with
    | nil => simp [hs] at hlength
    | cons g gs =>
      have hg : g.symbol = s := by simpa [hs] using hsymbols
      simp only [topHeight, hg, List.length_cons, List.length_nil]
      omega
  · rw [hs] at hlength
    simp only [List.length_cons] at hlength ⊢
    omega

/-- How settling ends: with a token to shift, with the tree of a whole file, or in a state that
refuses what comes next. -/
inductive Settled
  | shift (stack : Stack) (target : Nat)
  | accept (tree : Tree (.nonterminal .schemaFile))
  | refuse (state : Nat)

/-- One step of settling: either the end of it, or a stack of lower weight. -/
def reduceOnce (stack : Stack) (next : Expectation) :
    Settled ⊕ { s : Stack // s.weight < stack.weight } :=
  match Automaton.step stack.state next with
  | .shift target => .inl (.shift stack target)
  | .refuse => .inl (.refuse stack.state)
  | .reduce r =>
    match hpop : stack.pop? r with
    | none => .inl (.refuse stack.state)
    | some (children, below) =>
      if hr : r.head = .schemaFile then
        if below.isEmpty ∧ next = none then .inl (.accept (hr ▸ .node r children))
        else .inl (.refuse stack.state)
      else
        match Automaton.goto? (state below) r.head with
        | none => .inl (.refuse stack.state)
        | some target =>
          .inr ⟨⟨target, _, .node r children⟩ :: below, weight_lt_of_pop? hpop hr _ rfl⟩

/-- Reduces as long as the automaton says so. -/
def settle (stack : Stack) (next : Expectation) : Settled :=
  match stack.reduceOnce next with
  | .inl settled => settled
  | .inr lower => settle lower.1 next
  termination_by stack.weight
  decreasing_by exact lower.2

end Stack

/-! ## Reading a file -/

namespace Machine

/-- The fault of a place where the lexer finds none of the terminals it was asked for: the token
that stands there is unexpected, or nothing stands there that could be a token. The keywords that
would have been read as names are not listed. -/
def faultAt (state : Nat) (c : Cursor) : Fault :=
  match Lexer.next (fun _ => true) c with
  | .token t _ =>
    let listed (e : Expectation) : Bool :=
      match e with
      | none => false
      | some (.keyword _) => !Automaton.accepts state .name
      | some _ => true
    ⟨.unexpectedToken t.lexeme ((Automaton.expected state).filter listed), t.position⟩
  | .finished c | .stuck c => Lexer.faultAt c

/-- Reads the tokens from a cursor on, with what has been read on the stack; `last` is the place
of the last token. -/
def run (c : Cursor) (stack : Stack) (last : Position) :
    Except Fault (Tree (.nonterminal .schemaFile)) :=
  match h : Lexer.next (Automaton.accepts stack.state) c with
  | .token t behind =>
    match stack.settle (some t.terminal) with
    | .shift below target =>
      have := Lexer.length_lt_of_next h
      run behind (⟨target, _, .leaf t⟩ :: below) t.position
    | .accept _ => .error ⟨.unexpectedToken t.lexeme [], t.position⟩
    | .refuse state => .error ⟨.unexpectedToken t.lexeme (Automaton.expected state), t.position⟩
  | .finished _ =>
    match stack.settle none with
    | .accept tree => .ok tree
    | .shift below _ => .error ⟨.unexpectedEnd (Automaton.expected below.state), last⟩
    | .refuse state => .error ⟨.unexpectedEnd (Automaton.expected state), last⟩
  | .stuck c => .error (faultAt stack.state c)
  termination_by c.rest.length

end Machine

/-- The derivation of a text as a schema file. -/
def derive (text : List Char) : Except Fault (Tree (.nonterminal .schemaFile)) :=
  Machine.run (.ofText text) [] .start

end ProtoSchema
