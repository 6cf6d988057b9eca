import ProtoSchema.Proofs.Grammar.Derivation
import ProtoSchema.Proofs.Grammar.Viability
import ProtoSchema.Proofs.Token.Scans

/-!
# The states behind the tokens of a tree

Which terminals the lexer is asked for depends on the state behind the last token. Along a
derivation these states are told by the edges of the automaton (`Tree.states`), whatever is reduced
in between. So a text derives a tree if and only if a scan along the states of the tree finds its
tokens (`derive_iff_scans`).
-/

namespace ProtoSchema

open Exploration

/-! ## Feeding tokens -/

/-- Shifting some tokens, with the states behind them. -/
inductive Stack.Feeds : Stack → List Token → List Nat → Stack → Prop
  | nil {stack : Stack} : Feeds stack [] [] stack
  | cons {stack below top : Stack} {t : Token} {ts : List Token} {j : Nat} {js : List Nat}
      (hsettle : stack.settle (some t.terminal) = .shift below j)
      (hrest : Feeds (⟨j, _, .leaf t⟩ :: below) ts js top) : Feeds stack (t :: ts) (j :: js) top

namespace Stack.Feeds

variable {stack top : Stack} {ts us : List Token} {js : List Nat}

theorem feed_eq (h : Feeds stack ts js top) : stack.feed ts = some top := by
  induction h with
  | nil => rfl
  | cons hsettle _ ih => rw [feed, hsettle, ← ih]

theorem of_feed (h : stack.feed ts = some top) : ∃ js, Feeds stack ts js top := by
  induction ts generalizing stack with
  | nil =>
    obtain rfl := Option.some.inj h
    exact ⟨[], .nil⟩
  | cons t ts ih =>
    rw [feed] at h
    split at h
    · next below j hsettle =>
      obtain ⟨js, hjs⟩ := ih h
      exact ⟨j :: js, .cons hsettle hjs⟩
    · cases h

theorem states_unique {js' : List Nat} {top' : Stack} (h : Feeds stack ts js top)
    (h' : Feeds stack ts js' top') : js' = js := by
  induction h generalizing js' with
  | nil =>
    cases h'
    rfl
  | cons hsettle _ ih =>
    cases h' with
    | cons hsettle' hrest =>
      obtain ⟨rfl, rfl⟩ := Settled.shift.inj (hsettle'.symm.trans hsettle)
      rw [ih hrest]

theorem exists_append (h : Feeds stack (ts ++ us) js top) : ∃ js₁ js₂ middle, js = js₁ ++ js₂ ∧
    Feeds stack ts js₁ middle ∧ Feeds middle us js₂ top := by
  induction ts generalizing stack js with
  | nil => exact ⟨[], js, stack, rfl, .nil, h⟩
  | cons t ts ih =>
    cases h with
    | cons hsettle hrest =>
      obtain ⟨js₁, js₂, middle, rfl, hfirst, hlast⟩ := ih hrest
      exact ⟨_ :: js₁, js₂, middle, rfl, .cons hsettle hfirst, hlast⟩

theorem congr {other : Stack} {t : Token} (h : Feeds stack (t :: ts) js top)
    (heq : stack.settle (some t.terminal) = other.settle (some t.terminal)) :
    Feeds other (t :: ts) js top := by
  cases h with
  | cons hsettle hrest => exact .cons (heq ▸ hsettle) hrest

theorem length_eq (h : Feeds stack ts js top) : js.length = ts.length := by
  induction h with
  | nil => rfl
  | cons _ _ ih => rw [List.length_cons, List.length_cons, ih]

theorem valid (h : Feeds stack ts js top) (hvalid : stack.Valid) : top.Valid := by
  induction h with
  | nil => exact hvalid
  | cons hsettle _ ih =>
    obtain ⟨hbelow, htarget⟩ := hvalid.of_settle hsettle
    exact ih ⟨htarget, hbelow⟩

theorem state_eq (h : Feeds stack ts js top) : top.state = js.getLastD stack.state := by
  induction h with
  | nil => rfl
  | cons _ _ ih => rw [ih, List.getLastD_cons]; rfl

theorem tokens_eq (h : Feeds stack ts js top) : top.tokens = stack.tokens ++ ts := by
  induction h with
  | nil => rw [List.append_nil]
  | @cons stack below top t ts j js hsettle _ ih =>
    have hbelow : below.tokens = stack.tokens := by
      have hderives := stack.derives_settle (some t.terminal)
      rwa [hsettle] at hderives
    rw [ih, tokens_cons, hbelow, List.append_assoc]
    rfl

end Stack.Feeds

/-! ## The states of a tree -/

mutual

/-- The states behind the tokens of a tree that is read from a state on. -/
def Tree.states (i : Nat) {s : Symbol} : Tree s → List Nat
  | .leaf t => [(complete.target? i (.terminal t.terminal)).getD 0]
  | .node _ children => children.states i

/-- The states behind the tokens of a sequence of trees. -/
def Forest.states (i : Nat) {ss : List Symbol} : Forest ss → List Nat
  | .nil => []
  | .cons (s := s) first others =>
    first.states i ++ others.states ((complete.target? i s).getD 0)

end

mutual

theorem Tree.length_states (i : Nat) {s : Symbol} :
    (tree : Tree s) → (tree.states i).length = tree.tokens.length
  | .leaf _ => by rw [Tree.states, Tree.tokens, List.length_singleton, List.length_singleton]
  | .node _ children => by rw [Tree.states, Tree.tokens, children.length_states]

theorem Forest.length_states (i : Nat) {ss : List Symbol} :
    (forest : Forest ss) → (forest.states i).length = forest.tokens.length
  | .nil => by rw [Forest.states, Forest.tokens, List.length_nil, List.length_nil]
  | .cons first others => by
    rw [Forest.states, Forest.tokens, List.length_append, List.length_append, first.length_states,
      others.length_states]

end

mutual

/-- Shifting the tokens of a tree leads through the states of the tree. -/
theorem Tree.states_of_feeds {s : Symbol} :
    (tree : Tree s) → {stack top : Stack} → {item : Item} → {js : List Nat} →
      complete.Holds stack.state item → item.next? = some s →
        stack.Feeds tree.tokens js top → js = tree.states stack.state
  | .leaf t, stack, _, _, _, hitem, hnext, hfeeds => by
    obtain ⟨j, hj⟩ := exists_target hitem hnext
    have hsettle := Stack.settle_of_shift (Automaton.step_of_target hj)
    rw [Tree.tokens] at hfeeds
    cases hfeeds with
    | cons hshift hrest =>
      cases hrest
      obtain ⟨-, rfl⟩ := Stack.Settled.shift.inj (hshift.symm.trans hsettle)
      rw [Tree.states, hj, Option.getD_some]
  | .node r children, stack, _, _, _, hitem, hnext, hfeeds => by
    rw [Tree.tokens] at hfeeds
    rw [Tree.states]
    exact Forest.states_of_feeds children (holds_of_next hitem hnext rfl) rfl hfeeds

theorem Forest.states_of_feeds {ss : List Symbol} :
    (forest : Forest ss) → {stack top : Stack} → {r : RuleName} → {d : Nat} → {js : List Nat} →
      complete.Holds stack.state ⟨r, d⟩ → r.symbols.drop d = ss →
        stack.Feeds forest.tokens js top → js = forest.states stack.state
  | .nil, _, _, _, _, _, _, _, hfeeds => by
    rw [Forest.tokens] at hfeeds
    cases hfeeds
    rw [Forest.states]
  | @Forest.cons s ss first others, stack, _, r, d, _, hitem, hdrop, hfeeds => by
    have hnext : (⟨r, d⟩ : Item).next? = some s := by
      rw [Item.next?, ← List.head?_drop, hdrop, List.head?_cons]
    obtain ⟨j, hj⟩ := exists_target hitem hnext
    have hdrop' : r.symbols.drop (d + 1) = ss := by
      rw [← List.tail_drop, hdrop, List.tail_cons]
    have hholds : complete.Holds j ⟨r, d + 1⟩ := complete_sound.holds_of_target hitem hnext hj
    rw [Forest.tokens] at hfeeds
    obtain ⟨js₁, js₂, middle, rfl, hfirst, hothers⟩ := hfeeds.exists_append
    rw [Forest.states, hj, Option.getD_some, Tree.states_of_feeds first hitem hnext hfirst]
    congr 1
    by_cases hlast : ss = []
    · subst hlast
      cases others with
      | nil =>
        rw [Forest.tokens] at hothers
        cases hothers
        rw [Forest.states]
    · -- the first of the other tokens has the first part reduced
      obtain ⟨t, ts, htokens, k, hk⟩ := exists_target_first_forest others hholds hdrop' hlast
      have hfollow : ∀ n, s = .nonterminal n →
          (followAt complete.follow ⟨stack.state, n⟩).contains (some t.terminal) = true := by
        rintro n rfl
        have hfile : n ≠ .schemaFile := fun h => Item.next?_ne_schemaFile _ (h ▸ hnext)
        exact contains_follow_of_targets (mem_sites_of_next hitem hnext) hfile hj hk
      obtain ⟨middle', hmiddle, hsettle⟩ := first.exists_feed hitem hnext hj hfollow
      obtain rfl := Option.some.inj (hfirst.feed_eq.symm.trans hmiddle)
      rw [htokens] at hothers
      have hreduced := hothers.congr hsettle
      rw [← htokens] at hreduced
      exact @Forest.states_of_feeds _ others (⟨j, s, first⟩ :: stack) _ _ _ _ hholds hdrop' hreduced

end

/-- Shifting the tokens of a file leads through the states of its tree, and to the tree. -/
theorem Tree.feeds (tree : Tree (.nonterminal .schemaFile)) :
    ∃ top, Stack.Feeds [] tree.tokens (tree.states 0) top ∧ top.settle none = .accept tree := by
  obtain ⟨top, hfeed, hend⟩ := tree.exists_feed_accept
  obtain ⟨js, hfeeds⟩ := Stack.Feeds.of_feed hfeed
  refine ⟨top, ?_, hend⟩
  suffices h : ∀ {s : Symbol} (tree : Tree s), s = .nonterminal .schemaFile →
      Stack.Feeds [] tree.tokens js top → js = tree.states 0 from h tree rfl hfeeds ▸ hfeeds
  rintro s (_ | ⟨r, children⟩) hs hfeeds
  · cases hs
  · have hr : r.head = .schemaFile := Symbol.nonterminal.inj hs
    have hsite : ⟨0, r.head⟩ ∈ complete.sites :=
      hr ▸ mem_sites.mpr ⟨(Array.getElem?_eq_some_iff.mp start_of_complete).1, .inl ⟨rfl, rfl⟩⟩
    have hitem := holds_of_mem_sites start_of_complete hsite (r := r) rfl
    rw [Tree.tokens] at hfeeds
    rw [Tree.states]
    exact @Forest.states_of_feeds _ children [] _ _ _ _ hitem rfl hfeeds

/-! ## Texts -/

namespace Machine

variable {c last : Cursor} {stack top : Stack} {ts : List Token} {js : List Nat} {p : Position}
  {tree : Tree (.nonterminal .schemaFile)}

/-- The machine goes on behind the tokens that a scan finds. -/
theorem exists_run_of_feeds (h : stack.Feeds ts js top)
    (hscans : Lexer.Scans Automaton.accepts stack.state c ts js last) :
    ∃ q, run c stack p = run last top q := by
  induction h generalizing c p with
  | nil =>
    cases hscans
    exact ⟨p, rfl⟩
  | cons hsettle _ ih =>
    cases hscans with
    | cons hnext hrest =>
      rw [run_of_shift hnext hsettle]
      exact ih hrest

/-- The machine ends with a tree if a scan finds tokens that lead to it. -/
theorem run_of_feeds (h : stack.Feeds ts js top) (hend : top.settle none = .accept tree)
    (hscans : Lexer.Scans Automaton.accepts stack.state c ts js last)
    (hlast : last.skipBlanks.rest = []) : run c stack p = .ok tree := by
  obtain ⟨q, hq⟩ := exists_run_of_feeds h hscans
  rw [hq]
  exact run_of_accept (Lexer.next_of_nil hlast) hend

/-- A token that is refused. -/
theorem run_of_refuse {t : Token} {behind : Cursor} {i : Nat}
    (hnext : Lexer.next (Automaton.accepts stack.state) c = .token t behind)
    (hsettle : stack.settle (some t.terminal) = .refuse i) :
    run c stack p = .error ⟨.unexpectedToken t.lexeme (Automaton.expected i), t.position⟩ := by
  rw [run]
  split
  · next t' behind' hnext' =>
    obtain ⟨rfl, rfl⟩ := Lexer.Scan.token.inj (hnext'.symm.trans hnext)
    simp only [hsettle]
  · next hnext' => cases hnext'.symm.trans hnext
  · next hnext' => cases hnext'.symm.trans hnext

/-- Where the machine ends with a tree, a scan has found tokens that lead to it. -/
theorem exists_feeds_of_run (h : run c stack p = .ok tree) : ∃ ts js top last,
    stack.Feeds ts js top ∧ top.settle none = .accept tree ∧
      Lexer.Scans Automaton.accepts stack.state c ts js last ∧ last.skipBlanks.rest = [] := by
  fun_induction run c stack p with
  | case1 c stack p t behind hnext below j hsettle hlt ih =>
    obtain ⟨ts, js, top, last, hfeeds, hend, hscans, hlast⟩ := ih h
    exact ⟨t :: ts, j :: js, top, last, .cons hsettle hfeeds, hend, .cons hnext hscans, hlast⟩
  | case4 c stack p cursor hnext result hsettle =>
    obtain rfl := Except.ok.inj h
    obtain ⟨rfl, hnil⟩ := Lexer.eq_of_next_finished hnext
    exact ⟨[], [], stack, c, .nil, hsettle, .nil, hnil⟩
  | case2 | case3 | case5 | case6 | case7 => cases h

end Machine

/-- A text derives a tree if and only if a scan of the text, along the states of the tree, finds the
tokens of the tree and then nothing but blanks. -/
theorem derive_iff_scans {text : List Char} {tree : Tree (.nonterminal .schemaFile)} :
    derive text = .ok tree ↔ ∃ last,
      Lexer.Scans Automaton.accepts 0 (.ofText text) tree.tokens (tree.states 0) last ∧
        last.skipBlanks.rest = [] := by
  obtain ⟨top, hfeeds, hend⟩ := tree.feeds
  refine ⟨fun h => ?_, fun ⟨last, hscans, hlast⟩ =>
    Machine.run_of_feeds hfeeds hend hscans hlast⟩
  obtain ⟨ts, js, top', last, hfeeds', hend', hscans, hlast⟩ := Machine.exists_feeds_of_run h
  have htokens : tree.tokens = ts := by
    have hderives := top'.derives_settle none
    rw [hend', hfeeds'.tokens_eq] at hderives
    exact hderives
  rw [htokens] at hfeeds ⊢
  rw [hfeeds.states_unique hfeeds'] at hscans
  exact ⟨last, hscans, hlast⟩

end ProtoSchema
