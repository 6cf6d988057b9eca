import ProtoSchema.Proofs.Grammar.Viability

/-!
# Where the tokens of a tree are read

Behind each token of a tree, the machine is in a state that holds the item in which the token was
read (`Tree.exists_feed_slot`). Which keywords are accepted there depends on this item alone, and
behind most items it is none (`Item.keywords`). So a name that is spelled like a keyword is read as a
name wherever the keyword is not one of these (`Tree.clear`). Lexemes are read as a nonterminal if,
wherever they are placed, a tree of them stands for a value of it and each of them is read as what it
is (`Nonterminal.Reads`). They are if they are read as the parts of one of its rules, one after the
other (`Nonterminal.reads_rule`). So a legible text of lexemes that are read as a file derives a tree
of this file (`exists_derive_of_reads`).
-/

namespace ProtoSchema

open Exploration

/-! ## Keywords behind items -/

/-- The keywords that may stand behind a terminal, wherever it stands. -/
def Terminal.keywordsBehind : Terminal → List Keyword
  | .int => [.kwTo]
  | .keyword .kwOptional | .keyword .kwRequired | .keyword .kwRepeated => [.kwGroup]
  | .keyword .kwImport => [.kwPublic, .kwWeak]
  | .keyword .kwTo => [.kwMax]
  | .mark .lparen => [.kwStream]
  | .mark .rparen => [.kwReturns]
  | .mark .semicolon | .mark .lbrace | .mark .rbrace => Keyword.all
  | _ => []

/-- The keywords that may stand behind the symbol in front of the dot. Inside of an enum these are
those of the other statements that an enum may hold. -/
def Item.keywords (i : Item) : List Keyword :=
  match i.rule.head, i.rule.symbols[i.dot - 1]? with
  | .enumDecl, some (.terminal (.mark .lbrace)) => [.kwOption, .kwReserved]
  | .enumValue, some (.terminal (.mark .semicolon)) => [.kwOption, .kwReserved]
  | _, some (.terminal t) => t.keywordsBehind
  | _, _ => Keyword.all

/-- Whether no other keywords may stand behind the items of a kernel. -/
def Kernel.isHeeded (kernel : List Item) : Bool :=
  let nexts := (ItemSet.ofKernel kernel).nexts
  Keyword.all.all fun k => !nexts.contains (.keyword k) || kernel.all fun i => i.dot = 0 ∨ k ∈ i.keywords

theorem Kernel.isHeeded_all : (all.all isHeeded) = true := by decide +kernel

/-- A state accepts no other keywords than those behind each of its items. -/
theorem Automaton.mem_keywords_of_accepts {j : Nat} {i : Item} {k : Keyword}
    (hi : complete.Holds j i) (hdot : i.dot ≠ 0) (h : accepts j (.keyword k) = true) :
    k ∈ i.keywords := by
  obtain ⟨s, hs, hmem⟩ := hi
  obtain ⟨hset, hkernel⟩ := kernel_mem_all hs
  have hheeded := List.all_eq_true.mp Kernel.isHeeded_all s.kernel hkernel
  have hk := List.all_eq_true.mp hheeded k k.mem_all
  rw [← hset, List.contains_iff_mem.mpr (mem_nexts_of_accepts hs h)] at hk
  have hi : i ∈ s.kernel := by
    refine (List.mem_append.mp hmem).elim id fun hcorner => ?_
    obtain ⟨n, -, hn⟩ := List.mem_flatMap.mp hcorner
    exact absurd (Item.mem_ofHead.mp hn).2 hdot
  simpa [hdot] using List.all_eq_true.mp hk i hi

/-- Behind the item the lexeme is read as what it is: if it is a name that is spelled like a keyword,
this keyword may not stand there. -/
def Item.Admits (i : Item) (l : Lexed) : Prop :=
  l.1 = .name → ∀ k, Keyword.ofSpelling? l.2 = some k → k ∉ i.keywords

/-! ## Slots -/

mutual

/-- The tokens of a tree, each with the item in which it is the last that has been read. The item is
where the tree is read itself. -/
def Tree.slots {s : Symbol} : Tree s → Item → List (Token × Item)
  | .leaf token, i => [(token, i.advance)]
  | .node r children, _ => children.slots ⟨r, 0⟩

/-- The tokens of the parts of a rule, from an item of the rule on. -/
def Forest.slots {ss : List Symbol} : Forest ss → Item → List (Token × Item)
  | .nil, _ => []
  | .cons first others, i => first.slots i ++ others.slots i.advance

end

mutual

theorem Tree.map_fst_slots {s : Symbol} :
    (tree : Tree s) → (i : Item) → (tree.slots i).map Prod.fst = tree.tokens
  | .leaf _, _ => rfl
  | .node _ children, _ => children.map_fst_slots _

theorem Forest.map_fst_slots {ss : List Symbol} :
    (forest : Forest ss) → (i : Item) → (forest.slots i).map Prod.fst = forest.tokens
  | .nil, _ => rfl
  | .cons first others, i => by
    rw [Forest.slots, List.map_append, first.map_fst_slots, others.map_fst_slots, Forest.tokens]

end

mutual

theorem Tree.dot_ne_zero_of_mem_slots {s : Symbol} :
    (tree : Tree s) → (i : Item) → ∀ x ∈ tree.slots i, x.2.dot ≠ 0
  | .leaf _, i => by simp [Tree.slots, Item.advance]
  | .node _ children, _ => children.dot_ne_zero_of_mem_slots _

theorem Forest.dot_ne_zero_of_mem_slots {ss : List Symbol} :
    (forest : Forest ss) → (i : Item) → ∀ x ∈ forest.slots i, x.2.dot ≠ 0
  | .nil, _ => by simp [Forest.slots]
  | .cons first others, i =>
    List.forall_mem_append.mpr
      ⟨first.dot_ne_zero_of_mem_slots i, others.dot_ne_zero_of_mem_slots _⟩

end

mutual

/-- Behind a token of a tree the state holds the item of its slot. -/
theorem Tree.exists_feed_slot {s : Symbol} :
    (tree : Tree s) → {stack : Stack} → {item : Item} → {j : Nat} →
      complete.Holds stack.state item → item.next? = some s →
        complete.target? stack.state s = some j →
          ∀ {before after : List (Token × Item)} {x : Token × Item},
            tree.slots item = before ++ x :: after →
              ∃ top, stack.feed (before.map Prod.fst ++ [x.1]) = some top ∧
                complete.Holds top.state x.2
  | .leaf token, stack, item, j, hitem, hnext, hj, before, after, x, hslots => by
    obtain ⟨rfl, rfl, -⟩ : before = [] ∧ x = (token, item.advance) ∧ after = [] := by
      rw [Tree.slots, List.singleton_eq_append_iff] at hslots
      simpa using hslots
    refine ⟨⟨j, _, .leaf token⟩ :: stack, ?_, complete_sound.holds_of_target hitem hnext hj⟩
    rw [List.map_nil, List.nil_append, Stack.feed,
      Stack.settle_of_shift (Automaton.step_of_target hj)]
    rfl
  | .node r children, stack, item, _, hitem, hnext, _, before, after, x, hslots =>
    children.exists_feed_slot rfl (holds_of_next hitem hnext rfl) hslots

theorem Forest.exists_feed_slot {ss : List Symbol} :
    (forest : Forest ss) → {stack : Stack} → {r : RuleName} → {d : Nat} →
      r.symbols.drop d = ss → complete.Holds stack.state ⟨r, d⟩ →
        ∀ {before after : List (Token × Item)} {x : Token × Item},
          forest.slots ⟨r, d⟩ = before ++ x :: after →
            ∃ top, stack.feed (before.map Prod.fst ++ [x.1]) = some top ∧
              complete.Holds top.state x.2
  | .nil, _, _, _, _, _, _, _, _, hslots => by simp [Forest.slots] at hslots
  | @Forest.cons s ss first others, stack, r, d, hdrop, hitem, before, after, x, hslots => by
    have hnext : (⟨r, d⟩ : Item).next? = some s := by
      rw [Item.next?, ← List.head?_drop, hdrop, List.head?_cons]
    obtain ⟨j, hj⟩ := exists_target hitem hnext
    have hdrop' : r.symbols.drop (d + 1) = ss := by
      rw [← List.tail_drop, hdrop, List.tail_cons]
    have hholds : complete.Holds j ⟨r, d + 1⟩ := complete_sound.holds_of_target hitem hnext hj
    replace hslots : first.slots ⟨r, d⟩ ++ others.slots ⟨r, d + 1⟩ = before ++ x :: after := hslots
    -- the slot is one of the first part, or behind all of them
    obtain ⟨inner, hinner, hx⟩ | ⟨mid, rfl, hothers⟩ :
        (∃ inner, first.slots ⟨r, d⟩ = before ++ x :: inner ∧
          after = inner ++ others.slots ⟨r, d + 1⟩) ∨
        ∃ mid, before = first.slots ⟨r, d⟩ ++ mid ∧
          others.slots ⟨r, d + 1⟩ = mid ++ x :: after := by
      rcases List.append_eq_append_iff.mp hslots with ⟨mid, hbefore, hothers⟩ | ⟨mid, hfirst, hrest⟩
      · exact .inr ⟨mid, hbefore, hothers⟩
      · cases mid with
        | nil => exact .inr ⟨[], by simpa using hfirst.symm, by simpa using hrest.symm⟩
        | cons y mid =>
          obtain ⟨rfl, hafter⟩ := List.cons.inj hrest
          exact .inl ⟨mid, hfirst, hafter⟩
    · exact first.exists_feed_slot hitem hnext hj hinner
    · have hlast : ss ≠ [] := by
        rintro rfl
        cases others
        simp [Forest.slots] at hothers
      obtain ⟨t, ts, htokens, k, hk⟩ := exists_target_first_forest others hholds hdrop' hlast
      have hfollow : ∀ n, s = .nonterminal n →
          (followAt complete.follow ⟨stack.state, n⟩).contains (some t.terminal) = true := by
        rintro n rfl
        have hfile : n ≠ .schemaFile := fun h => Item.next?_ne_schemaFile _ (h ▸ hnext)
        exact contains_follow_of_targets (mem_sites_of_next hitem hnext) hfile hj hk
      obtain ⟨middle, hmiddle, hsettle⟩ := Tree.exists_feed first hitem hnext hj hfollow
      obtain ⟨top, htop, hslot⟩ :=
        @Forest.exists_feed_slot _ others (⟨j, s, first⟩ :: stack) r (d + 1) hdrop' hholds mid after x
          hothers
      -- the next token is the first of the others
      obtain ⟨us, hus⟩ : ∃ us, mid.map Prod.fst ++ [x.1] = t :: us := by
        have hmap := congrArg (List.map Prod.fst) hothers
        rw [others.map_fst_slots, htokens, List.map_append, List.map_cons] at hmap
        cases mid with
        | nil => exact ⟨[], by rw [(List.cons.inj hmap).1]; rfl⟩
        | cons y mid => exact ⟨_, by rw [(List.cons.inj hmap).1]; rfl⟩
      refine ⟨top, ?_, hslot⟩
      rw [List.map_append, first.map_fst_slots, List.append_assoc, Stack.feed_append, hmiddle,
        Option.bind_some, hus, Stack.feed_congr us hsettle, ← hus, htop]

end

/-! ## Names that are spelled like keywords -/

/-- Each token is read as what it is behind the item of the slot in front of it. -/
def Chained : Item → List (Token × Item) → Prop
  | _, [] => True
  | prev, x :: xs => prev.Admits x.1.lexed ∧ Chained x.2 xs

/-- The item of the last slot. -/
def lastItem (prev : Item) (slots : List (Token × Item)) : Item :=
  (slots.getLast?.map Prod.snd).getD prev

theorem lastItem_cons (prev : Item) (x : Token × Item) (xs : List (Token × Item)) :
    lastItem prev (x :: xs) = lastItem x.2 xs := by
  cases xs with
  | nil => rfl
  | cons y ys => rw [lastItem, List.getLast?_cons_cons, lastItem, List.getLast?_cons]; rfl

theorem lastItem_append (prev : Item) (xs ys : List (Token × Item)) :
    lastItem prev (xs ++ ys) = lastItem (lastItem prev xs) ys := by
  induction xs generalizing prev with
  | nil => rfl
  | cons x xs ih => rw [List.cons_append, lastItem_cons, lastItem_cons, ih]

theorem chained_append {prev : Item} {xs ys : List (Token × Item)} :
    Chained prev (xs ++ ys) ↔ Chained prev xs ∧ Chained (lastItem prev xs) ys := by
  induction xs generalizing prev with
  | nil => simp [Chained, lastItem]
  | cons x xs ih => rw [List.cons_append, Chained, Chained, ih, lastItem_cons, and_assoc]

/-- No file opens with a name. -/
theorem Tree.head_ne_name (tree : Tree (.nonterminal .schemaFile)) :
    ∀ t ∈ tree.tokens.head?, t.terminal ≠ .name := by
  have hstart : Terminal.name ∉ ItemSet.start.nexts := by decide +kernel
  intro t ht hname
  obtain ⟨ts, htokens⟩ := List.head?_eq_some_iff.mp ht
  obtain ⟨top, hfeed, -⟩ := tree.exists_feed_accept
  rw [htokens, Stack.feed] at hfeed
  split at hfeed
  · next hsettle =>
    have haccepts := Stack.accepts_of_settle_shift hsettle
    exact hstart (hname ▸ Automaton.mem_nexts_of_accepts start_of_complete haccepts)
  · cases hfeed

/-- The names of a file that are spelled like keywords are read as names, if the item in front of
each of them admits it. -/
theorem Tree.clear (tree : Tree (.nonterminal .schemaFile)) {i prev : Item}
    (h : Chained prev (tree.slots i)) : Stack.Clear [] tree.tokens := by
  intro before t after top k htokens hfeed hname hk
  rcases List.eq_nil_or_concat before with rfl | ⟨before, u, rfl⟩
  · exact absurd hname (tree.head_ne_name t (by rw [htokens]; rfl))
  · -- the slots of the last two tokens that have been read
    rw [← tree.map_fst_slots i, List.concat_eq_append, List.append_assoc, List.singleton_append,
      List.map_eq_append_iff] at htokens
    obtain ⟨xs, rest, hslots, rfl, hrest⟩ := htokens
    obtain ⟨x, others, rfl, rfl, hothers⟩ := List.map_eq_cons_iff.mp hrest
    obtain ⟨y, rest, rfl, rfl, rfl⟩ := List.map_eq_cons_iff.mp hothers
    have hholds : complete.Holds top.state x.2 := by
      suffices hsuffices : ∀ {s : Symbol} (tree : Tree s), s = .nonterminal .schemaFile →
          tree.slots i = xs ++ x :: y :: rest → ∃ top, Stack.feed [] (xs.map Prod.fst ++ [x.1]) =
            some top ∧ complete.Holds top.state x.2 by
        obtain ⟨top', htop, hheld⟩ := hsuffices tree rfl hslots
        rw [List.concat_eq_append, htop] at hfeed
        exact Option.some.inj hfeed ▸ hheld
      intro s tree hs hslots
      cases tree with
      | leaf => cases hs
      | node r children =>
        have hr : r.head = .schemaFile := Symbol.nonterminal.inj hs
        have hsite : ⟨0, r.head⟩ ∈ complete.sites :=
          hr ▸ mem_sites.mpr ⟨(Array.getElem?_eq_some_iff.mp start_of_complete).1, .inl ⟨rfl, rfl⟩⟩
        have hitem := holds_of_mem_sites start_of_complete hsite (r := r) rfl
        exact @Forest.exists_feed_slot _ children [] r 0 rfl hitem xs (y :: rest) x hslots
    have hdot : x.2.dot ≠ 0 :=
      tree.dot_ne_zero_of_mem_slots i x (by rw [hslots]; simp)
    rw [hslots, chained_append, Chained, Chained] at h
    rw [Bool.eq_false_iff]
    exact fun haccepts =>
      h.2.2.1 hname k hk (Automaton.mem_keywords_of_accepts hholds hdot haccepts)

/-! ## What lexemes are read as -/

/-- Behind an item some lexemes are read as a nonterminal: however they are placed, a tree of them
stands for a value, such that this value and the item at the end of the tree satisfy `R`. -/
def Nonterminal.Reads (n : Nonterminal) (prev : Item) (ls : List Lexed)
    (R : n.Value → Item → Prop) : Prop :=
  ∀ ts : List Token, ts.map Token.lexed = ls →
    ∃ (tree : Tree (.nonterminal n)) (v : n.Value), tree.tokens = ts ∧ tree.value = .ok v ∧
      ∀ i, Chained prev (tree.slots i) ∧ R v (lastItem prev (tree.slots i))

/-- The lexemes are read as the symbols of a rule from an item `i` of the rule on, and what its action
makes of them satisfies `R`. -/
def Action.Reads {β : Type} : (i prev : Item) → (ss : List Symbol) → Action β ss → List Lexed →
    (β → Item → Prop) → Prop
  | _, prev, [], result, ls, R => ls = [] ∧ ∃ v, result = .ok v ∧ R v prev
  | i, prev, .terminal t :: ss, action, ls, R =>
    ∃ l rest, ls = l :: rest ∧ l.1 = t ∧ prev.Admits l ∧
      ∀ token : Token, token.lexed = l →
        Action.Reads i.advance i.advance ss (action token) rest R
  | i, prev, .nonterminal n :: ss, action, ls, R =>
    ∃ first rest, ls = first ++ rest ∧
      n.Reads prev first fun v last => Action.Reads i.advance last ss (action v) rest R

theorem Nonterminal.Reads.imp {n : Nonterminal} {prev : Item} {ls : List Lexed}
    {R S : n.Value → Item → Prop} (h : n.Reads prev ls R) (hRS : ∀ v last, R v last → S v last) :
    n.Reads prev ls S := by
  intro ts hts
  obtain ⟨tree, v, htokens, hvalue, hslots⟩ := h ts hts
  exact ⟨tree, v, htokens, hvalue, fun i => ⟨(hslots i).1, hRS _ _ (hslots i).2⟩⟩

namespace Action

variable {β : Type} {i prev : Item} {ss : List Symbol} {ls rest : List Lexed} {R : β → Item → Prop}

theorem reads_nil {result : Except Fault β} {v : β} (hv : result = .ok v) (hR : R v prev) :
    Action.Reads i prev [] result [] R :=
  ⟨rfl, v, hv, hR⟩

theorem reads_terminal {t : Terminal} {action : Action β (.terminal t :: ss)} {l : Lexed}
    (ht : l.1 = t) (hadmits : prev.Admits l)
    (h : ∀ token : Token, token.lexed = l → Action.Reads i.advance i.advance ss (action token) rest R) :
    Action.Reads i prev (.terminal t :: ss) action (l :: rest) R :=
  ⟨l, rest, rfl, ht, hadmits, h⟩

theorem reads_part {n : Nonterminal} {action : Action β (.nonterminal n :: ss)}
    {Q : n.Value → Item → Prop} (hpart : n.Reads prev ls Q)
    (h : ∀ v last, Q v last → Action.Reads i.advance last ss (action v) rest R) :
    Action.Reads i prev (.nonterminal n :: ss) action (ls ++ rest) R :=
  ⟨ls, rest, rfl, hpart.imp h⟩

/-- The last part of a rule. -/
theorem reads_last {n : Nonterminal} {action : Action β [.nonterminal n]}
    {Q : n.Value → Item → Prop} (hpart : n.Reads prev ls Q)
    (h : ∀ v last, Q v last → ∃ w, action v = .ok w ∧ R w last) :
    Action.Reads i prev [.nonterminal n] action ls R :=
  ⟨ls, [], (List.append_nil ls).symm, hpart.imp fun v last hv => ⟨rfl, h v last hv⟩⟩

/-- The parts of a rule have trees, one after the other. -/
theorem Reads.exists_forest {action : Action β ss} (h : Action.Reads i prev ss action ls R) :
    ∀ ts : List Token, ts.map Token.lexed = ls →
      ∃ (forest : Forest ss) (v : β), forest.tokens = ts ∧ forest.feed action = .ok v ∧
        Chained prev (forest.slots i) ∧ R v (lastItem prev (forest.slots i)) := by
  induction ss generalizing i prev ls with
  | nil =>
    rintro ts hts
    obtain ⟨rfl, v, hv, hR⟩ := h
    obtain rfl := List.map_eq_nil_iff.mp hts
    refine ⟨.nil, v, rfl, ?_, trivial, hR⟩
    rw [Forest.feed]
    exact hv
  | cons s ss ih =>
    intro ts hts
    cases s with
    | terminal t =>
      obtain ⟨l, rest, rfl, ht, hadmits, hrest⟩ := h
      obtain ⟨token, us, rfl, rfl, hus⟩ := List.map_eq_cons_iff.mp hts
      obtain rfl : token.terminal = t := ht
      obtain ⟨others, v, htokens, hvalue, hchained, hR⟩ := ih (hrest token rfl) us hus
      refine ⟨.cons (.leaf token) others, v, ?_, ?_, ⟨hadmits, hchained⟩, ?_⟩
      · rw [Forest.tokens, Tree.tokens, htokens]
        rfl
      · rw [Forest.feed, Tree.value]
        exact hvalue
      · rw [Forest.slots, lastItem_append]
        exact hR
    | nonterminal n =>
      obtain ⟨first, rest, rfl, hfirst⟩ := h
      obtain ⟨before, behind, rfl, rfl, rfl⟩ := List.map_eq_append_iff.mp hts
      obtain ⟨tree, w, htokens, hvalue, hslots⟩ := hfirst before rfl
      obtain ⟨hchained, hrest⟩ := hslots i
      obtain ⟨others, v, htokens', hvalue', hchained', hR⟩ := ih hrest behind rfl
      refine ⟨.cons tree others, v, ?_, ?_, ?_, ?_⟩
      · rw [Forest.tokens, htokens, htokens']
      · rw [Forest.feed, hvalue]
        exact hvalue'
      · rw [Forest.slots]
        exact chained_append.mpr ⟨hchained, hchained'⟩
      · rw [Forest.slots, lastItem_append]
        exact hR

end Action

/-- What is read as the parts of a rule is read as its nonterminal. -/
theorem Nonterminal.reads_rule {n : Nonterminal} {prev : Item} {ls : List Lexed}
    {R : n.Value → Item → Prop} (k : Fin (rules n).length)
    (h : Action.Reads ⟨⟨n, k⟩, 0⟩ prev (RuleName.symbols ⟨n, k⟩) (RuleName.rule ⟨n, k⟩).action ls R) :
    n.Reads prev ls R := by
  intro ts hts
  obtain ⟨forest, v, htokens, hvalue, hchained, hR⟩ := h.exists_forest ts hts
  refine ⟨.node ⟨n, k⟩ forest, v, ?_, ?_, fun i => ⟨hchained, hR⟩⟩
  · rw [Tree.tokens, htokens]
  · rw [Tree.value]
    exact hvalue

/-- A legible text of the lexemes of a file derives the file. -/
theorem exists_derive_of_reads {cs : List Char} {ls : List Lexed} {prev : Item}
    {R : SchemaFile → Item → Prop} (htext : Spells cs ls)
    (hreads : Nonterminal.schemaFile.Reads prev ls R) :
    ∃ tree file last, derive cs = .ok tree ∧ tree.value = .ok file ∧ R file last := by
  obtain ⟨ts, rfl, hlegible⟩ := htext .start
  obtain ⟨tree, file, rfl, hvalue, hslots⟩ := hreads ts rfl
  obtain ⟨top, hfeed, hend⟩ := tree.exists_feed_accept
  have hclear := tree.clear (hslots prev).1
  exact ⟨tree, file, _, Machine.run_legible hlegible hclear hfeed hend, hvalue, (hslots prev).2⟩

end ProtoSchema
