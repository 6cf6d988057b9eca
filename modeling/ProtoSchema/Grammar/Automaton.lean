import ProtoSchema.Grammar.ItemSet
import ProtoSchema.Problem.Source

/-!
# The parser's automaton

The states are the item sets that can be reached from the start. A finished rule may be reduced in
a state when the next token belongs to the lookahead of the rule there, and that lookahead is
everything that may follow the rule's nonterminal where its reading began, joined over all those
places. No rule but that of the empty file is empty, so what follows a nonterminal is either read
next or follows a larger nonterminal that ends with it.
-/

namespace ProtoSchema

/-! ## Sets of expectations -/

/-- A set of terminals and possibly the end of the input, as a bit vector. -/
structure ExpectationSet where
  bits : Nat
  deriving DecidableEq

namespace ExpectationSet

/-- The bit of an expectation; the end of the input has the lowest. -/
def index : Expectation → Nat
  | none => 0
  | some .name => 1
  | some .int => 2
  | some .float => 3
  | some .string => 4
  | some (.keyword k) => 5 + k.ctorIdx
  | some (.mark m) => 5 + Keyword.all.length + m.ctorIdx

/-- Every expectation. -/
def all : List Expectation := none :: Terminal.all.map some

/-- The empty set. -/
def empty : ExpectationSet := ⟨0⟩

/-- The set of one expectation. -/
def singleton (e : Expectation) : ExpectationSet := ⟨1 <<< index e⟩

/-- The union of two sets. -/
def union (a b : ExpectationSet) : ExpectationSet := ⟨a.bits ||| b.bits⟩

/-- Whether an expectation belongs to a set. -/
def contains (s : ExpectationSet) (e : Expectation) : Bool := s.bits.testBit (index e)

/-- The set of the listed expectations. -/
def ofList (es : List Expectation) : ExpectationSet :=
  es.foldl (fun s e => s.union (singleton e)) empty

/-- The expectations of a set. -/
def toList (s : ExpectationSet) : List Expectation := all.filter s.contains

end ExpectationSet

/-! ## States -/

/-- A state of the automaton. -/
structure State where
  items : ItemSet
  edges : List (Symbol × Nat)
  reductions : List (RuleName × ExpectationSet)
  accepts : ExpectationSet

/-- The item sets found so far and the edges out of those that have been expanded. -/
structure Exploration where
  sets : Array ItemSet
  edges : Array (List (Symbol × Nat))

namespace Exploration

/-- The number of a kernel's set, which is added if it is new. -/
def locate (sets : Array ItemSet) (kernel : List Item) : Array ItemSet × Nat :=
  match sets.findIdx? fun s => ItemSet.sameKernel s.kernel kernel with
  | some i => (sets, i)
  | none => (sets.push (.ofKernel kernel), sets.size)

/-- Expands the item set of a number, if there is one. -/
def expand (e : Exploration) (i : Nat) : Exploration :=
  match e.sets[i]? with
  | none => e
  | some set =>
    let (sets, edges) := set.moves.foldl
      (fun (sets, edges) (symbol, kernel) =>
        let (sets, j) := locate sets kernel
        (sets, edges.push (symbol, j)))
      (e.sets, #[])
    ⟨sets, e.edges.push edges.toList⟩

/-- More than the number of item sets of the grammar. -/
def bound : Nat := 1000

/-- All item sets and edges. -/
@[irreducible]
def complete : Exploration := (List.range bound).foldl expand ⟨#[.start], #[]⟩

/-- The state that an edge leads to. -/
def target? (e : Exploration) (i : Nat) (symbol : Symbol) : Option Nat :=
  (e.edges[i]?.getD []).lookup symbol

/-- The state that a path leads to. -/
def walk? (e : Exploration) (i : Nat) : List Symbol → Option Nat
  | [] => some i
  | symbol :: symbols => (e.target? i symbol).bind fun j => e.walk? j symbols

end Exploration

/-! ## Lookaheads -/

/-- A place where the reading of a nonterminal may begin. -/
structure Site where
  state : Nat
  nonterminal : Nonterminal
  deriving DecidableEq

namespace Site

/-- The number of a site. -/
def index (s : Site) : Nat := s.state * Nonterminal.all.length + s.nonterminal.ctorIdx

end Site

namespace Exploration

/-- The sites of a state. -/
def sitesOf (e : Exploration) (i : Nat) : List Site :=
  let corners := (e.sets[i]?.map ItemSet.corners).getD []
  (if i = 0 then .schemaFile :: corners else corners).map fun n => ⟨i, n⟩

/-- Every site. -/
def sites (e : Exploration) : List Site := (List.range e.sets.size).flatMap e.sitesOf

/-- What is read directly behind a nonterminal that was begun at a site. -/
def readsBehind (e : Exploration) (s : Site) : ExpectationSet :=
  if s.nonterminal = .schemaFile then .singleton none
  else
    match e.target? s.state (.nonterminal s.nonterminal) with
    | none => .empty
    | some j =>
      .ofList ((e.edges[j]?.getD []).filterMap fun (symbol, _) =>
        match symbol with
        | .terminal t => some (some t)
        | .nonterminal _ => none)

/-- The sites whose nonterminal ends where that of `s` ends: those of a last symbol of a rule. -/
def endingWith (e : Exploration) (s : Site) : List Site :=
  (RuleName.ofHead s.nonterminal).filterMap fun r =>
    match r.symbols.getLast? with
    | some (.nonterminal n) => (e.walk? s.state r.symbols.dropLast).map fun j => ⟨j, n⟩
    | _ => none

/-- What may follow the nonterminal of each site, by the number of the site. -/
abbrev Follow := Array ExpectationSet

/-- What follows at a site, according to what has been found so far. -/
def followAt (follow : Follow) (s : Site) : ExpectationSet := follow[s.index]?.getD .empty

/-- What follows at a site also follows at each site of the list. -/
def inherit (follow : Follow) (edge : Site × List Site) : Follow :=
  edge.2.foldl
    (fun follow s =>
      follow.setIfInBounds s.index ((followAt follow s).union (followAt follow edge.1)))
    follow

/-- Inherits along all edges until nothing changes, in at most `bound` rounds. -/
def settle : (bound : Nat) → List (Site × List Site) → Follow → Follow
  | 0, _, follow => follow
  | bound + 1, edges, follow =>
    let new := edges.foldl inherit follow
    if new = follow then follow else settle bound edges new

/-- What may follow the nonterminal of each site. -/
def follow (e : Exploration) : Follow :=
  let start := e.sites.foldl
    (fun (follow : Follow) s => follow.setIfInBounds s.index (e.readsBehind s))
    (Array.replicate (e.sets.size * Nonterminal.all.length) .empty)
  settle bound (e.sites.map fun s => (s, e.endingWith s)) start

/-- The finished rules of a state: each with the site where it began. -/
def finished (e : Exploration) : Array (List (RuleName × Site)) :=
  e.sites.foldl
    (fun table s =>
      (RuleName.ofHead s.nonterminal).foldl
        (fun table r =>
          match e.walk? s.state r.symbols with
          | some j => table.modify j ((r, s) :: ·)
          | none => table)
        table)
    (Array.replicate e.sets.size [])

/-- The lookahead of each rule that is finished in a state. -/
def reductionsOf (follow : Follow) (finished : List (RuleName × Site)) :
    List (RuleName × ExpectationSet) :=
  (finished.map (·.1)).eraseDups.map fun r =>
    (r, (finished.filter (·.1 = r)).foldl (fun set f => set.union (followAt follow f.2)) .empty)

/-- The state of an item set with its edges and reductions. -/
def stateOf (items : ItemSet) (edges : List (Symbol × Nat))
    (reductions : List (RuleName × ExpectationSet)) : State where
  items
  edges
  reductions
  accepts :=
    reductions.foldl (fun set r => set.union r.2)
      (.ofList (edges.filterMap fun (symbol, _) =>
        match symbol with
        | .terminal t => some (some t)
        | .nonterminal _ => none))

/-- All states of the automaton. -/
def states (e : Exploration) : Array State :=
  let follow := e.follow
  let finished := e.finished
  Array.ofFn fun i : Fin e.sets.size =>
    stateOf e.sets[i] (e.edges[i]?.getD []) (reductionsOf follow (finished[i]?.getD []))

end Exploration

/-! ## The automaton -/

namespace Automaton

/-- The states of the automaton; number zero is the start. -/
@[irreducible]
def states : Array State := Exploration.complete.states

/-- The state of a number. A number beyond the last stands for a state that accepts nothing. -/
def state (i : Nat) : State := states[i]?.getD ⟨⟨[], []⟩, [], [], .empty⟩

/-- What to do in a state on the next token. -/
inductive Step
  | shift (target : Nat)
  | reduce (r : RuleName)
  | refuse

/-- The step of a state for what comes next. -/
def step (i : Nat) (next : Expectation) : Step :=
  let s := state i
  match next.bind fun t => s.edges.lookup (.terminal t) with
  | some j => .shift j
  | none =>
    match s.reductions.find? fun r => r.2.contains next with
    | some (r, _) => .reduce r
    | none => .refuse

/-- The state behind a nonterminal. -/
def goto? (i : Nat) (n : Nonterminal) : Option Nat := (state i).edges.lookup (.nonterminal n)

/-- Whether a state has a step for a terminal. -/
def accepts (i : Nat) (t : Terminal) : Bool := (state i).accepts.contains (some t)

/-- Everything that a state has a step for. -/
def expected (i : Nat) : List Expectation := (state i).accepts.toList

end Automaton

end ProtoSchema
