import ProtoSchema.Proofs.Grammar.Followers
import ProtoSchema.Proofs.Token.Legible

/-!
# The machine finds every derivation

Feeding the tokens of a tree to the machine has the same effect as putting the tree on the stack,
once what follows asks for the reductions (`Tree.exists_feed`). The tokens of a part are fed one part
after the other: what follows a part is the first token of the next, or, for the last part, what
follows the whole. So the machine finds the tree of every file from its tokens
(`Tree.exists_feed_accept`).

Whatever settles into a shift is accepted by the state on top, so the lexer finds every token of a
legible text where the machine is ready for it (`Machine.run_legible`), unless a name is spelled like a
keyword that is accepted there. So a spaced text without such names derives the tree of its tokens
(`derive_spaced`).
-/

namespace ProtoSchema

open Exploration

namespace Exploration

variable {e : Exploration} {i j : Nat}

theorem walk_append (before behind : List Symbol) :
    e.walk? i (before ++ behind) = (e.walk? i before).bind fun j => e.walk? j behind := by
  induction before generalizing i with
  | nil => rfl
  | cons symbol before ih =>
    simp only [List.cons_append, walk?, Option.bind_assoc]
    exact congrArg _ (funext fun j => ih)

/-- What leads on behind a nonterminal follows it there. -/
theorem contains_follow_of_targets {n : Nonterminal} {t : Terminal} {k : Nat}
    (hs : ⟨i, n⟩ ∈ e.sites) (hn : n ≠ .schemaFile) (hj : e.target? i (.nonterminal n) = some j)
    (hk : e.target? j (.terminal t) = some k) :
    (followAt e.follow ⟨i, n⟩).contains (some t) = true := by
  refine contains_follow hs ?_
  rw [readsBehind, if_neg hn, hj]
  obtain ⟨before, behind, hedges, -⟩ := List.lookup_eq_some_iff.mp hk
  refine ExpectationSet.contains_ofList (List.mem_filterMap.mpr ⟨(.terminal t, k), ?_, rfl⟩)
  rw [hedges]
  exact List.mem_append_right _ List.mem_cons_self

end Exploration

namespace Stack

variable {stack top : Stack}

/-! ## Putting trees on the stack -/

/-- Puts the trees of a forest on a stack, each with the state that its symbol leads to. -/
def push? : (stack : Stack) → {ss : List Symbol} → Forest ss → Option Stack
  | stack, _, .nil => some stack
  | stack, _, .cons (s := s) first others =>
    (complete.target? stack.state s).bind fun j => push? (⟨j, s, first⟩ :: stack) others

theorem walk_of_push? {ss : List Symbol} :
    (forest : Forest ss) → {stack : Stack} → stack.push? forest = some top →
      complete.walk? stack.state ss = some top.state
  | .nil, _, h => by
    obtain rfl := Option.some.inj h
    rfl
  | .cons first others, _, h => by
    obtain ⟨j, hj, h⟩ := Option.bind_eq_some_iff.mp h
    rw [walk?, hj]
    exact walk_of_push? others h

theorem exists_frames_of_push? {ss : List Symbol} :
    (forest : Forest ss) → {stack : Stack} → stack.push? forest = some top →
      ∃ frames, top = frames.reverse ++ stack ∧ Forest.ofFrames? ss frames = some forest
  | .nil, _, h => by
    obtain rfl := Option.some.inj h
    exact ⟨[], rfl, rfl⟩
  | .cons first others, _, h => by
    obtain ⟨j, hj, h⟩ := Option.bind_eq_some_iff.mp h
    obtain ⟨frames, rfl, hframes⟩ := exists_frames_of_push? others h
    refine ⟨⟨j, _, first⟩ :: frames, by simp, ?_⟩
    rw [Forest.ofFrames?, dif_pos rfl, hframes]
    rfl

/-- The parts of a rule that have been put on the stack are popped. -/
theorem pop?_of_push? {r : RuleName} {children : Forest r.symbols}
    (h : stack.push? children = some top) : top.pop? r = some (children, stack) := by
  obtain ⟨frames, rfl, hframes⟩ := exists_frames_of_push? children h
  have hlength := congrArg List.length (Forest.map_symbol_of_ofFrames? hframes)
  rw [List.length_map] at hlength
  have htake : (frames.reverse ++ stack).take r.symbols.length = frames.reverse := by
    rw [← hlength, ← List.length_reverse, List.take_left]
  have hdrop : (frames.reverse ++ stack).drop r.symbols.length = stack := by
    rw [← hlength, ← List.length_reverse, List.drop_left]
  simp only [pop?, htake, hdrop, List.reverse_reverse, hframes, Option.map_some]

/-- A rule whose parts are on the stack is reduced before what follows where it began. -/
theorem step_of_push? {r : RuleName} {children : Forest r.symbols} {x : Expectation}
    (h : stack.push? children = some top) (hs : ⟨stack.state, r.head⟩ ∈ complete.sites)
    (hx : (followAt complete.follow ⟨stack.state, r.head⟩).contains x = true) :
    Automaton.step top.state x = .reduce r := by
  have hwalk := walk_of_push? children h
  have hlt := walk_lt (mem_sites.mp hs).1 hwalk
  exact Automaton.step_of_finished (mem_finished.mpr ⟨hlt, hs, rfl, hwalk⟩) hx

/-! ## Feeding tokens -/

/-- Shifts some tokens, each behind the reductions that it asks for. -/
def feed : Stack → List Token → Option Stack
  | stack, [] => some stack
  | stack, t :: ts =>
    match stack.settle (some t.terminal) with
    | .shift below target => feed (⟨target, _, .leaf t⟩ :: below) ts
    | _ => none

theorem feed_append (ts us : List Token) :
    stack.feed (ts ++ us) = (stack.feed ts).bind fun middle => middle.feed us := by
  induction ts generalizing stack with
  | nil => rfl
  | cons t ts ih =>
    rw [List.cons_append, feed, feed]
    split
    · exact ih
    · rfl

/-- Tokens see no more of the stack than how it settles before the first of them. -/
theorem feed_congr {other : Stack} {t : Token} (ts : List Token)
    (h : stack.settle (some t.terminal) = other.settle (some t.terminal)) :
    stack.feed (t :: ts) = other.feed (t :: ts) := by
  rw [feed, feed, h]

end Stack

/-! ## Trees -/

mutual

/-- Feeding the tokens of a tree that may be read next puts the tree on the stack. -/
theorem Tree.exists_feed {s : Symbol} :
    (tree : Tree s) → {stack : Stack} → {item : Item} → {j : Nat} → {x : Expectation} →
      complete.Holds stack.state item → item.next? = some s →
        complete.target? stack.state s = some j →
          (∀ n, s = .nonterminal n →
            (followAt complete.follow ⟨stack.state, n⟩).contains x = true) →
            ∃ top, stack.feed tree.tokens = some top ∧
              top.settle x = Stack.settle (⟨j, s, tree⟩ :: stack) x
  | .leaf token, stack, item, j, x, _, _, hj, _ => by
    refine ⟨⟨j, _, .leaf token⟩ :: stack, ?_, rfl⟩
    rw [Tree.tokens, Stack.feed, Stack.settle_of_shift (Automaton.step_of_target hj)]
    rfl
  | .node r children, stack, item, j, x, hitem, hnext, hj, hx => by
    have hhead : r.head ≠ .schemaFile := fun h => item.next?_ne_schemaFile (h ▸ hnext)
    have hsite := mem_sites_of_next hitem hnext
    obtain ⟨top, full, htop, hfull, hsettle⟩ :=
      @Forest.exists_feed _ children stack stack r 0 x rfl (holds_of_next hitem hnext rfl) hsite
        rfl (hx _ rfl)
    refine ⟨top, by rwa [Tree.tokens], ?_⟩
    have hgoto : Automaton.goto? stack.state r.head = some j := by
      obtain ⟨set, hset, -⟩ := hitem
      rw [Automaton.goto?_eq hset, hj]
    rw [hsettle]
    exact Stack.settle_of_reduce (Stack.step_of_push? hfull hsite (hx _ rfl))
      (Stack.pop?_of_push? hfull) hhead hgoto

/-- Feeding the tokens of the parts of a rule puts these parts on the stack. -/
theorem Forest.exists_feed {ss : List Symbol} :
    (forest : Forest ss) → {base stack : Stack} → {r : RuleName} → {d : Nat} → {x : Expectation} →
      r.symbols.drop d = ss → complete.Holds stack.state ⟨r, d⟩ →
        ⟨base.state, r.head⟩ ∈ complete.sites →
          complete.walk? base.state (r.symbols.take d) = some stack.state →
            (followAt complete.follow ⟨base.state, r.head⟩).contains x = true →
              ∃ top full, stack.feed forest.tokens = some top ∧ stack.push? forest = some full ∧
                top.settle x = full.settle x
  | .nil, _, stack, _, _, _, _, _, _, _, _ => ⟨stack, stack, rfl, rfl, rfl⟩
  | @Forest.cons s ss first others, base, stack, r, d, x, hdrop, hitem, hbase, hwalk, hx => by
    have hnext : (⟨r, d⟩ : Item).next? = some s := by
      rw [Item.next?, ← List.head?_drop, hdrop, List.head?_cons]
    obtain ⟨j, hj⟩ := exists_target hitem hnext
    have htake : r.symbols.take (d + 1) = r.symbols.take d ++ [s] := by
      rw [List.take_add_one]
      exact congrArg (_ ++ Option.toList ·) hnext
    have hdrop' : r.symbols.drop (d + 1) = ss := by
      rw [← List.tail_drop, hdrop, List.tail_cons]
    have hholds : complete.Holds j ⟨r, d + 1⟩ := complete_sound.holds_of_target hitem hnext hj
    have hwalk' : complete.walk? base.state (r.symbols.take (d + 1)) = some j := by
      rw [htake, walk_append, hwalk, Option.bind_some, walk?, hj]
      rfl
    by_cases hlast : ss = []
    · -- the last part is followed by what follows the whole
      subst hlast
      cases others with
      | nil =>
        have hsymbols : r.symbols = r.symbols.take d ++ [s] := by
          rw [← htake, List.take_of_length_le]
          exact List.drop_eq_nil_iff.mp hdrop'
        have hfollow : ∀ n, s = .nonterminal n →
            (followAt complete.follow ⟨stack.state, n⟩).contains x = true := by
          rintro n rfl
          have hend : ⟨stack.state, n⟩ ∈ complete.endingWith ⟨base.state, r.head⟩ := by
            refine mem_endingWith (r := r) rfl ?_ ?_
            · rw [hsymbols, List.getLast?_concat]
            · rw [hsymbols, List.dropLast_concat]
              exact hwalk
          exact contains_follow_of_ending hbase hend hx
        obtain ⟨top, htop, hsettle⟩ := Tree.exists_feed first hitem hnext hj hfollow
        refine ⟨top, _, ?_, ?_, hsettle⟩
        · rw [Forest.tokens, Forest.tokens, List.append_nil]
          exact htop
        · rw [Stack.push?, hj]
          rfl
    · -- any other part by the first token of the next
      obtain ⟨t, ts, htokens, k, hk⟩ := exists_target_first_forest others hholds hdrop' hlast
      have hfollow : ∀ n, s = .nonterminal n →
          (followAt complete.follow ⟨stack.state, n⟩).contains (some t.terminal) = true := by
        rintro n rfl
        have hfile : n ≠ .schemaFile := fun h => Item.next?_ne_schemaFile _ (h ▸ hnext)
        exact contains_follow_of_targets (mem_sites_of_next hitem hnext) hfile hj hk
      obtain ⟨middle, hmiddle, hsettle⟩ := Tree.exists_feed first hitem hnext hj hfollow
      obtain ⟨top, full, htop, hfull, hend⟩ :=
        @Forest.exists_feed _ others base (⟨j, s, first⟩ :: stack) r (d + 1) x hdrop' hholds hbase
          hwalk' hx
      refine ⟨top, full, ?_, ?_, hend⟩
      · rw [Forest.tokens, Stack.feed_append, hmiddle, Option.bind_some, ← htop, htokens]
        exact Stack.feed_congr ts hsettle
      · rw [Stack.push?, hj]
        exact hfull

end

/-! ## Files -/

/-- The tokens of a file are accepted as the file. -/
theorem Tree.exists_feed_accept (tree : Tree (.nonterminal .schemaFile)) :
    ∃ top, Stack.feed [] tree.tokens = some top ∧ top.settle none = .accept tree := by
  suffices h : ∀ {s : Symbol} (tree : Tree s) (hs : s = .nonterminal .schemaFile),
      ∃ top, Stack.feed [] tree.tokens = some top ∧ top.settle none = .accept (hs ▸ tree) from
    h tree rfl
  intro s tree hs
  cases tree with
  | leaf => cases hs
  | node r children =>
    have hr : r.head = .schemaFile := Symbol.nonterminal.inj hs
    have hsite : ⟨0, r.head⟩ ∈ complete.sites :=
      hr ▸ mem_sites.mpr ⟨(Array.getElem?_eq_some_iff.mp start_of_complete).1, .inl ⟨rfl, rfl⟩⟩
    have hnone : (followAt complete.follow ⟨0, r.head⟩).contains none = true := by
      refine contains_follow hsite ?_
      rw [readsBehind, if_pos hr]
      exact ExpectationSet.contains_singleton none
    have hitem := holds_of_mem_sites start_of_complete hsite (r := r) rfl
    obtain ⟨top, full, htop, hfull, hsettle⟩ :=
      @Forest.exists_feed _ children [] [] r 0 none rfl hitem hsite rfl hnone
    refine ⟨top, by rwa [Tree.tokens], ?_⟩
    rw [hsettle]
    have hstep := Stack.step_of_push? hfull hsite hnone
    rw [Stack.settle_of_accept hstep (Stack.pop?_of_push? hfull) hr]
    -- the head must be a variable before the equation can be followed
    obtain ⟨head, index⟩ := r
    cases hr
    rfl

/-! ## Legible texts are accepted -/

theorem State.lookup_of_step_eq_shift {s : State} {t : Terminal} {j : Nat}
    (h : s.step (some t) = .shift j) : s.edges.lookup (.terminal t) = some j := by
  rw [step, Option.bind_some] at h
  split at h
  · next k hk =>
    obtain rfl := Automaton.Step.shift.inj h
    exact hk
  · split at h <;> cases h

namespace Automaton

variable {i : Nat} {t : Terminal}

/-- What is shifted leads on. -/
theorem target_of_step_eq_shift {j : Nat} (h : step i (some t) = .shift j) :
    complete.target? i (.terminal t) = some j := by
  rw [step_eq] at h
  have hlookup := State.lookup_of_step_eq_shift h
  cases hs : complete.sets[i]? with
  | none =>
    rw [state_of_none hs] at hlookup
    cases hlookup
  | some s => rwa [target?, ← edges_eq hs]

theorem accepts_of_reduce {r : RuleName} (h : step i (some t) = .reduce r) :
    accepts i t = true := by
  obtain ⟨s, hfinished, hfollow⟩ := exists_finished_of_step_eq_reduce h
  exact accepts_iff.mpr (.inr ⟨(r, s), hfinished, hfollow⟩)

end Automaton

/-- What is shifted, perhaps after some reductions, is accepted by the state on top. -/
theorem Stack.accepts_of_settle_shift {stack below : Stack} {t : Terminal} {j : Nat}
    (h : stack.settle (some t) = .shift below j) : Automaton.accepts stack.state t = true := by
  rw [settle] at h
  revert h
  fun_cases reduceOnce stack (some t) with
  | case1 target hstep =>
    exact fun _ => Automaton.accepts_of_target (Automaton.target_of_step_eq_shift hstep)
  | case2 => exact fun h => by cases h
  | case3 r hstep | case4 r hstep | case5 r hstep | case6 r hstep | case7 r hstep =>
    exact fun _ => Automaton.accepts_of_reduce hstep

namespace Stack

/-- Whatever is fed of some tokens, the state behind it does not accept a keyword that the next token
is a name for. -/
def Clear (stack : Stack) (ts : List Token) : Prop :=
  ∀ before t after top k, ts = before ++ t :: after → stack.feed before = some top →
    t.terminal = .name → Keyword.ofSpelling? t.lexeme = some k →
      Automaton.accepts top.state (.keyword k) = false

theorem clear_of_no_keywords (stack : Stack) {ts : List Token}
    (h : ∀ t ∈ ts, t.terminal = .name → Keyword.ofSpelling? t.lexeme = none) : stack.Clear ts := by
  rintro before t after top k rfl - hname hk
  have ht : t ∈ before ++ t :: after := List.mem_append_right _ List.mem_cons_self
  cases (h t ht hname).symm.trans hk

theorem Clear.tail {stack below : Stack} {t : Token} {ts : List Token} {j : Nat}
    (h : stack.Clear (t :: ts)) (hsettle : stack.settle (some t.terminal) = .shift below j) :
    Clear (⟨j, _, .leaf t⟩ :: below) ts := by
  rintro before u after top k rfl htop
  refine h (t :: before) u after top k rfl ?_
  rw [feed, hsettle]
  exact htop

end Stack

namespace Machine

open Lexed

variable {stack top : Stack} {last p : Position} {tree : Tree (.nonterminal .schemaFile)}

/-- How a run goes on behind what is found next. -/
def goOn (stack : Stack) (last : Position) : Lexer.Scan → Except Fault (Tree (.nonterminal .schemaFile))
  | .token t behind =>
    match stack.settle (some t.terminal) with
    | .shift below target => run behind (⟨target, _, .leaf t⟩ :: below) t.position
    | .accept _ => .error ⟨.unexpectedToken t.lexeme [], t.position⟩
    | .refuse state => .error ⟨.unexpectedToken t.lexeme (Automaton.expected state), t.position⟩
  | .finished _ =>
    match stack.settle none with
    | .accept tree => .ok tree
    | .shift below _ => .error ⟨.unexpectedEnd (Automaton.expected below.state), last⟩
    | .refuse state => .error ⟨.unexpectedEnd (Automaton.expected state), last⟩
  | .stuck c => .error (faultAt stack.state c)

theorem run_eq_goOn (c : Cursor) :
    run c stack last = goOn stack last (Lexer.next (Automaton.accepts stack.state) c) := by
  rw [run]
  split
  · next hnext =>
    simp only [hnext]
    rfl
  · next hnext =>
    simp only [hnext]
    rfl
  · next hnext =>
    simp only [hnext]
    rfl

/-- A legible text is accepted if feeding its tokens ends with a tree. -/
theorem run_legible {cs : List Char} {ts : List Token} (htext : Legible p cs ts)
    (hclear : stack.Clear ts) (hfeed : stack.feed ts = some top)
    (hend : top.settle none = .accept tree) : run ⟨cs, p⟩ stack last = .ok tree := by
  induction htext generalizing stack last with
  | nil =>
    obtain rfl := Option.some.inj hfeed
    exact run_of_accept Lexer.next_nil hend
  | blank hc _ ih =>
    rw [run_eq_goOn, Lexer.next_blank hc, ← run_eq_goOn]
    exact ih hclear hfeed
  | comment hbody _ ih =>
    rw [run_eq_goOn, Lexer.next_comment hbody, ← run_eq_goOn]
    exact ih hclear hfeed
  | @token p l cs ts hl hstops _ ih =>
    rw [Stack.feed] at hfeed
    split at hfeed
    · next below target hsettle =>
      have hname : l.1 = .name → ∀ k, Keyword.ofSpelling? l.2 = some k →
          Automaton.accepts stack.state (.keyword k) = false := fun hname k hk =>
        hclear [] _ ts stack k rfl rfl hname hk
      have hnext := Lexer.next_append (p := p) (Stack.accepts_of_settle_shift hsettle) hl hname hstops
      rw [run_of_shift hnext hsettle]
      exact ih (hclear.tail hsettle) hfeed
    · cases hfeed

/-- A spaced text is accepted if feeding its tokens ends with a tree. -/
theorem run_spaced {ls : List Lexed} (hls : ∀ l ∈ ls, Proper l)
    (hfeed : stack.feed (placed p ls) = some top) (hend : top.settle none = .accept tree) :
    run ⟨spaced ls, p⟩ stack last = .ok tree :=
  run_legible (legible_spaced hls p)
    (stack.clear_of_no_keywords fun _ ht => (hls _ (exists_mem_of_mem_placed ht)).name) hfeed hend

end Machine

/-- The text of the lexemes of a tree derives this tree. -/
theorem derive_spaced {ls : List Lexed} {tree : Tree (.nonterminal .schemaFile)}
    (hls : ∀ l ∈ ls, l.Proper) (htree : tree.tokens = Lexed.placed .start ls) :
    derive (Lexed.spaced ls) = .ok tree := by
  obtain ⟨top, hfeed, hend⟩ := tree.exists_feed_accept
  exact Machine.run_spaced hls (htree ▸ hfeed) hend

/-! ## A file of one empty statement -/

namespace RuleName

/-- A file without a statement of its dialect. -/
def bareFile : RuleName := ⟨.schemaFile, ⟨2, by decide⟩⟩

/-- The first item of a file. -/
def firstItem : RuleName := ⟨.topItems, ⟨0, by decide⟩⟩

/-- An item of a file that is a semicolon. -/
def emptyItem : RuleName := ⟨.topItem, ⟨7, by decide⟩⟩

end RuleName

/-- The tree of a file of one empty statement. -/
def emptyStatementTree : Tree (.nonterminal .schemaFile) :=
  .node .bareFile (.cons (.node .firstItem (.cons (.node .emptyItem
    (.cons (.leaf ⟨.mark .semicolon, [';'], .start⟩) .nil)) .nil)) .nil)

theorem derive_semicolon : derive [';'] = .ok emptyStatementTree := by
  let semicolon : Lexed := (.mark .semicolon, [';'])
  have hproper : ∀ l ∈ [semicolon], Lexed.Proper l := by
    intro l hl
    obtain rfl := List.mem_singleton.mp hl
    exact ⟨Lexeme.mem_word_self _, nofun⟩
  have htokens : emptyStatementTree.tokens = Lexed.placed .start [semicolon] := rfl
  exact derive_spaced hproper htokens

end ProtoSchema
