import ProtoSchema.Proofs.Grammar.Namings
import ProtoSchema.Proofs.Grammar.Traces

/-!
# States in front of names

The state behind a token holds the item behind it (`Tree.holds_states`). In front of the name of a
declaration no keyword is accepted, but for those that a value of an enum may be named by, and for
those that may follow an option or a reserved statement elsewhere (`Automaton.frees_of_accepts`).
Each such statement ends in one state, whatever it stands in, so all of the latter are accepted
there (`Automaton.accepts_of_clashes`) and then refused (`Stack.exists_refuse`). What stands in
front of a name keeps apart from it, or is a keyword that is read wherever it stands
(`Tree.fronted`).
-/

namespace ProtoSchema

open Exploration

mutual

/-- Behind each token the state holds the item behind the token. -/
theorem Tree.holds_states {s : Symbol} :
    (tree : Tree s) → {i : Nat} → {item : Item} → (σ : Scope) → complete.Holds i item →
      item.next? = some s →
        List.Forall₂ (fun j l => complete.Holds j l.item) (tree.states i) (tree.leaves item σ)
  | .leaf token, i, item, σ, hitem, hnext => by
    obtain ⟨j, hj⟩ := exists_target hitem hnext
    rw [Tree.states, Tree.leaves, hj, Option.getD_some]
    exact .cons (complete_sound.holds_of_target hitem hnext hj) .nil
  | .node r children, _, _, σ, hitem, hnext => by
    rw [Tree.states, Tree.leaves]
    exact Forest.holds_states children σ (holds_of_next hitem hnext rfl) rfl

theorem Forest.holds_states {ss : List Symbol} :
    (forest : Forest ss) → {i : Nat} → {item : Item} → (σ : Scope) → complete.Holds i item →
      item.rule.symbols.drop item.dot = ss →
        List.Forall₂ (fun j l => complete.Holds j l.item) (forest.states i) (forest.leaves item σ)
  | .nil, _, _, _, _, _ => by
    rw [Forest.states, Forest.leaves]
    exact .nil
  | .cons (s := s) first others, _, item, σ, hitem, hdrop => by
    have hnext := Item.next?_of_drop hdrop
    obtain ⟨j, hj⟩ := exists_target hitem hnext
    rw [Forest.states, Forest.leaves, hj, Option.getD_some]
    have hfirst := Tree.holds_states first (σ.child item.rule.head s) hitem hnext
    exact List.rel_append hfirst (Forest.holds_states others σ
      (complete_sound.holds_of_target hitem hnext hj) (Item.drop_advance hdrop))

end

namespace Tree

variable {tree : Tree (.nonterminal .schemaFile)} {before behind : List Leaf} {leaf : Leaf}
  {n : Nonterminal}

/-- Behind each token of a file the state holds the item behind the token. -/
theorem holds_words (tree : Tree (.nonterminal .schemaFile)) :
    List.Forall₂ (fun j l => complete.Holds j l.item) (tree.states 0) tree.words := by
  suffices h : ∀ {s : Symbol} (tree : Tree s), s = .nonterminal .schemaFile →
      List.Forall₂ (fun j l => complete.Holds j l.item) (tree.states 0)
        (tree.leaves ⟨⟨.schemaFile, 0⟩, 0⟩ .declaring) from h tree rfl
  rintro s (_ | ⟨r, children⟩) hs
  · cases hs
  · have hr : r.head = .schemaFile := Symbol.nonterminal.inj hs
    have hsite : ⟨0, r.head⟩ ∈ complete.sites :=
      hr ▸ mem_sites.mpr ⟨(Array.getElem?_eq_some_iff.mp start_of_complete).1, .inl ⟨rfl, rfl⟩⟩
    rw [Tree.states, Tree.leaves]
    exact Forest.holds_states children .declaring
      (holds_of_mem_sites start_of_complete hsite (r := r) rfl) rfl

/-- The item behind a token of a file stands behind its terminal. -/
theorem last?_of_mem_words :
    ∀ l ∈ tree.words, l.item.last? = some (.terminal l.token.terminal) := by
  suffices h : ∀ {s : Symbol} (tree : Tree s), s = .nonterminal .schemaFile →
      ∀ l ∈ tree.leaves ⟨⟨.schemaFile, 0⟩, 0⟩ .declaring,
        l.item.last? = some (.terminal l.token.terminal) from h tree rfl
  rintro s (_ | ⟨r, children⟩) hs l hl
  · cases hs
  · rw [Tree.leaves] at hl
    exact Forest.last?_of_mem_leaves children rfl l hl

/-- In front of a name stands one of the items that the declaration tells. -/
theorem exists_front_words (h : tree.words = before ++ leaf :: behind) (hn : leaf.names? = some n) :
    ∃ f ∈ n.fronts, (before.map Leaf.item).getLast? = some f := by
  suffices hall : ∀ {s : Symbol} (tree : Tree s), s = .nonterminal .schemaFile →
      tree.leaves ⟨⟨.schemaFile, 0⟩, 0⟩ .declaring = before ++ leaf :: behind →
        ∃ f ∈ n.fronts, (before.map Leaf.item).getLast?.or none = some f by
    simpa using hall tree rfl h
  rintro s (_ | ⟨r, children⟩) hs hleaves
  · cases hs
  · rw [Tree.leaves] at hleaves
    have hr : r.head = .schemaFile := Symbol.nonterminal.inj hs
    refine Forest.exists_front children rfl (fun s hfirst => ?_) hleaves hn
    refine RuleName.follows_first hfirst fun fs hfs => ?_
    rw [hr] at hfs
    cases hfs

/-- Each token of a file is shifted on a valid stack, from the state behind the token in front. -/
theorem exists_state (h : tree.words = before ++ leaf :: behind) :
    ∃ (stack below : Stack) (js : List Nat) (j : Nat) (ks : List Nat),
      tree.states 0 = js ++ j :: ks ∧ js.length = before.length ∧ complete.Holds j leaf.item ∧
        Stack.Feeds [] (before.map Leaf.token) js stack ∧
          stack.settle (some leaf.token.terminal) = .shift below j := by
  obtain ⟨top, hfeeds, -⟩ := tree.feeds
  rw [tree.tokens_of_words h] at hfeeds
  obtain ⟨js, js', stack, hstates, hfirst, hrest⟩ := hfeeds.exists_append
  cases hrest with
  | @cons _ below _ _ _ j ks hsettle _ =>
    have hlength : js.length = before.length := by simpa using hfirst.length_eq
    have hholds := holds_words tree
    rw [h, hstates] at hholds
    have hdrop := List.forall₂_drop_append _ _ _ hholds
    rw [← hlength, List.drop_left, List.forall₂_cons] at hdrop
    exact ⟨stack, below, js, j, ks, hstates, hlength, hdrop.1, hfirst, hsettle⟩

/-- The state in front of a name holds one of the items that the declaration tells. -/
theorem exists_front_state (h : tree.words = before ++ leaf :: behind) (hn : leaf.names? = some n)
    {js ks : List Nat} {j : Nat} (hstates : tree.states 0 = js ++ j :: ks)
    (hlength : js.length = before.length) : ∃ front ∈ before.getLast?, front.item ∈ n.fronts ∧
      complete.Holds (js.getLastD 0) front.item := by
  obtain ⟨f, hf, hlast⟩ := exists_front_words h hn
  obtain ⟨others, front, rfl⟩ : ∃ others front, before = others ++ [front] := by
    refine (List.eq_nil_or_concat' before).resolve_left ?_
    rintro rfl
    cases hlast
  obtain rfl : front.item = f := by simpa using hlast
  rw [List.append_assoc] at h
  obtain ⟨-, -, js', j', ks', hstates', hlength', hholds, -⟩ := exists_state h
  obtain ⟨rfl, -⟩ : js = js' ++ [j'] ∧ j :: ks = ks' := by
    refine List.append_inj (hstates.symm.trans (hstates'.trans (List.append_cons ..))) ?_
    rw [hlength, List.length_append, List.length_append, hlength']
    rfl
  exact ⟨front, by simp, hf, by rwa [List.getLastD_concat]⟩

end Tree

/-! ## What is accepted in front of a name -/

/-- Whether a keyword may stand somewhere behind an option or a reserved statement that ends at an
item. -/
def Item.Clashes (i : Item) (k : Keyword) : Prop :=
  (i.rule.head = .optionStmt ∨ i.rule.head = .reservedStmt) ∧ i.dot = i.rule.symbols.length ∧
    .keyword k ∈ i.rule.head.nextTerminals

instance (i : Item) (k : Keyword) : Decidable (i.Clashes k) := by
  unfold Item.Clashes
  infer_instance

namespace Nonterminal

/-- The declarations that have a name. -/
def named : List Nonterminal := all.filter fun n => n.namePart?.isSome

theorem mem_named_of_fronts {n : Nonterminal} {f : Item} (h : f ∈ n.fronts) : n ∈ named := by
  cases n <;> first | decide | cases h

end Nonterminal

namespace Keyword

/-- The keywords that open a declaration, right in front of its name. -/
def openers : List Keyword :=
  [kwPackage, kwMessage, kwEnum, kwService, kwGroup, kwOneof, kwRpc]

theorem solitary_of_mem_openers {k : Keyword} (h : k ∈ openers) : k.Solitary := by
  have hall : (openers.all fun k => all.all fun l =>
      !(k.spelling.toList.isPrefixOf l.spelling.toList ||
        l.spelling.toList.isPrefixOf k.spelling.toList) || l == k) = true := by
    decide +kernel
  intro l hl
  have hkl := List.all_eq_true.mp (List.all_eq_true.mp hall k h) l l.mem_all
  simp only [← List.isPrefixOf_iff_prefix, ← Bool.or_eq_true] at hl
  rw [hl, Bool.not_true, Bool.false_or] at hkl
  exact eq_of_beq hkl

end Keyword

/-- Whether a mark, a name or an opening keyword stands in front of an item. -/
def Item.isOpen (i : Item) : Bool :=
  match i.last? with
  | some (.terminal (.mark _)) | some (.terminal .name) => true
  | some (.terminal (.keyword k)) => Keyword.openers.contains k
  | _ => false

theorem Nonterminal.isOpen_fronts : (named.all fun n => n.fronts.all Item.isOpen) = true := by
  decide +kernel

/-- Whether a terminal is a keyword. -/
def Terminal.isKeyword : Terminal → Bool
  | .keyword _ => true
  | _ => false

/-- The terminals that values of enums may be named by. -/
def Terminal.values : List Terminal := [.name, .keyword .kwOption, .keyword .kwReserved]

namespace Kernel

/-- Whether few keywords are accepted behind the items of a kernel that stand in front of names. -/
def isFree (kernel : List Item) : Bool :=
  !((ItemSet.ofKernel kernel).nexts.any Terminal.isKeyword) || Nonterminal.named.all fun n =>
    match kernel.filter n.fronts.contains with
    | [] => true
    | fs => (ItemSet.ofKernel kernel).nexts.all fun t =>
      match t with
      | .keyword k =>
        n == .enumValue && (k == .kwOption || k == .kwReserved || fs.all fun f => f.Clashes k)
      | _ => true

/-- Whether a kernel before which an opening keyword may be read stands behind a mark or behind a
keyword that stands only where a name may stand as well. -/
def isOpened (kernel : List Item) : Bool :=
  !((ItemSet.ofKernel kernel).nexts.any fun t =>
      match t with
      | .keyword k => Keyword.openers.contains k
      | _ => false) ||
    kernel.all fun i =>
      match i.last? with
      | some (.terminal (.mark _)) => true
      | some (.terminal (.keyword k)) => !Keyword.unguarded.contains k
      | some (.terminal _) => false
      | _ => true

/-- Whether no keyword is read behind a rule that the name of a value may follow, and two keywords
at most where values are named. -/
def isStrict (kernel : List Item) : Bool :=
  let s := ItemSet.ofKernel kernel
  (s.finished.all fun r => !Terminal.values.any r.head.nextTerminals.contains ||
    s.shifts.all fun t => !t.isKeyword) &&
    (!s.items.any (fun i => i.rule.head == .enumValueName && i.dot == 0) ||
      s.finished.isEmpty && s.shifts.all fun t => !t.isKeyword || Terminal.values.contains t)

/-- Whether option and reserved statements end in a kernel of their own. -/
def isAlone (kernel : List Item) : Bool :=
  kernel.all fun i =>
    !((i.rule.head == .optionStmt || i.rule.head == .reservedStmt) &&
      i.dot == i.rule.symbols.length) || kernel == [i]

/-- All of this holds of each kernel. It is checked at once, since the items behind a kernel are
costly to find. -/
theorem checked_all :
    (all.all fun kernel => isFree kernel && isOpened kernel && isStrict kernel &&
      isAlone kernel) = true := by
  decide +kernel

variable {kernel : List Item}

theorem checked_of_mem (h : kernel ∈ all) : isFree kernel = true ∧ isOpened kernel = true ∧
    isStrict kernel = true ∧ isAlone kernel = true := by
  have hall := List.all_eq_true.mp checked_all kernel h
  simpa only [Bool.and_eq_true, and_assoc] using hall

end Kernel

/-- An item behind a symbol belongs to the kernel of its set. -/
theorem Exploration.exists_kernel_of_holds {i : Nat} {item : Item} (h : complete.Holds i item)
    (hdot : item.dot ≠ 0) :
    ∃ kernel ∈ Kernel.all, complete.sets[i]? = some (.ofKernel kernel) ∧ item ∈ kernel := by
  obtain ⟨s, hs, hmem⟩ := h
  obtain ⟨hset, hkernel⟩ := kernel_mem_all hs
  refine ⟨s.kernel, hkernel, hset ▸ hs, ?_⟩
  rw [hset] at hmem
  rcases List.mem_append.mp hmem with hmem | hmem
  · exact hmem
  · obtain ⟨m, -, hmem⟩ := List.mem_flatMap.mp hmem
    exact absurd (Item.mem_ofHead.mp hmem).2 hdot

variable {i : Nat} {k : Keyword} {n : Nonterminal} {f : Item}

theorem Item.isOpen_of_mem_fronts (hf : f ∈ n.fronts) : f.isOpen = true :=
  List.all_eq_true.mp
    (List.all_eq_true.mp Nonterminal.isOpen_fronts n (Nonterminal.mem_named_of_fronts hf)) f hf

theorem Item.dot_ne_zero_of_isOpen (h : f.isOpen = true) : f.dot ≠ 0 := by
  intro hdot
  rw [isOpen, last?, hdot] at h
  cases h

/-- In front of the name of a declaration no keyword is read in its place, but in front of a value
of an enum: there the two that a value may be named by, and those that may follow elsewhere what
stands there. -/
theorem Automaton.frees_of_accepts (hf : f ∈ n.fronts) (h : complete.Holds i f)
    (hk : accepts i (.keyword k) = true) :
    n = .enumValue ∧ (k = .kwOption ∨ k = .kwReserved ∨ f.Clashes k) := by
  have hdot := Item.dot_ne_zero_of_isOpen (Item.isOpen_of_mem_fronts hf)
  obtain ⟨kernel, hkernel, hs, hmem⟩ := exists_kernel_of_holds h hdot
  have hnext := mem_nexts_of_accepts hs hk
  have hkeyword : (ItemSet.ofKernel kernel).nexts.any Terminal.isKeyword = true :=
    List.any_eq_true.mpr ⟨_, hnext, rfl⟩
  have hall := (Kernel.checked_of_mem hkernel).1
  rw [Kernel.isFree, hkeyword, Bool.not_true, Bool.false_or] at hall
  have hfree := List.all_eq_true.mp hall n (Nonterminal.mem_named_of_fronts hf)
  have hfilter : f ∈ kernel.filter n.fronts.contains :=
    List.mem_filter.mpr ⟨hmem, List.contains_iff_mem.mpr hf⟩
  split at hfree
  · next hnil =>
    rw [hnil] at hfilter
    cases hfilter
  · have hword := List.all_eq_true.mp hfree _ hnext
    simp only [Bool.and_eq_true, beq_iff_eq, Bool.or_eq_true, List.all_eq_true,
      decide_eq_true_eq, or_assoc] at hword
    exact ⟨hword.1, hword.2.imp_right (Or.imp_right fun hall => hall f hfilter)⟩

/-- A keyword that opens a declaration is accepted right behind marks, and behind keywords that
stand only where a name may stand as well. -/
theorem Automaton.last?_of_accepts_opener (hk : k ∈ Keyword.openers) {t : Terminal}
    (h : complete.Holds i f) (hlast : f.last? = some (.terminal t))
    (haccept : accepts i (.keyword k) = true) :
    (∃ m, t = .mark m) ∨ ∃ l, t = .keyword l ∧ l ∉ Keyword.unguarded := by
  have hdot : f.dot ≠ 0 := by
    intro hdot
    rw [Item.last?, hdot] at hlast
    cases hlast
  obtain ⟨kernel, hkernel, hs, hmem⟩ := exists_kernel_of_holds h hdot
  have hnext := mem_nexts_of_accepts hs haccept
  have hopened := (Kernel.checked_of_mem hkernel).2.1
  rw [Kernel.isOpened, Bool.or_eq_true, Bool.not_eq_true', List.any_eq_false] at hopened
  rcases hopened with hopened | hopened
  · exact absurd (List.contains_iff_mem.mpr hk) (hopened _ hnext)
  · have hf := List.all_eq_true.mp hopened f hmem
    rw [hlast] at hf
    cases t with
    | mark m => exact .inl ⟨m, rfl⟩
    | keyword l =>
      rw [Bool.not_eq_true'] at hf
      exact .inr ⟨l, rfl, fun hl => nomatch (List.contains_iff_mem.mpr hl).symm.trans hf⟩
    | name | int | float | string => cases hf

namespace Tree

variable {tree : Tree (.nonterminal .schemaFile)} {before behind : List Leaf} {leaf : Leaf}

/-- Where a keyword is accepted that opens a declaration, the token in front parts itself from what
follows. -/
theorem parts_of_accepts_opener (h : tree.words = before ++ leaf :: behind) {js ks : List Nat}
    {j : Nat} (hstates : tree.states 0 = js ++ j :: ks) (hlength : js.length = before.length)
    (hk : k ∈ Keyword.openers) (haccept : Automaton.accepts j (.keyword k) = true) :
    leaf.token.Parts (Automaton.accepts (js.getLastD 0)) := by
  obtain ⟨stack, below, js', j', ks', hstates', hlength', hholds, hfeeds, hsettle⟩ :=
    exists_state h
  obtain ⟨rfl, hcons⟩ := List.append_inj (hstates.symm.trans hstates') (hlength.trans hlength'.symm)
  obtain ⟨rfl, rfl⟩ := List.cons.inj hcons
  have hlast := last?_of_mem_words leaf (h ▸ List.mem_append_right _ List.mem_cons_self)
  rcases Automaton.last?_of_accepts_opener hk hholds hlast haccept with hmark | ⟨l, hl, hguarded⟩
  · exact .inl hmark
  · refine .inr ⟨by rw [hl]; rfl, ?_⟩
    by_contra hname
    rw [Bool.not_eq_true] at hname
    refine hguarded (Stack.mem_unguarded_of_shift (hfeeds.valid trivial) (hl ▸ hsettle) ?_)
    rw [hfeeds.state_eq]
    exact hname

/-- The name of a declaration stands apart from the token in front of it, or right behind a keyword
that opens the declaration and stands apart itself. -/
theorem fronted (h : tree.words = before ++ leaf :: behind) (hn : leaf.names? = some n) :
    Lexer.Fronted Automaton.accepts 0 (before.map Leaf.token)
      ((tree.states 0).take before.length) := by
  obtain ⟨f, hf, hlast⟩ := exists_front_words h hn
  obtain ⟨pre, b, rfl⟩ : ∃ pre b, before = pre ++ [b] := by
    refine (List.eq_nil_or_concat' before).resolve_left ?_
    rintro rfl
    cases hlast
  obtain rfl : b.item = f := by simpa using hlast
  rw [List.append_assoc] at h
  obtain ⟨stack, below, js, j, ks, hstates, hlength, -, hfeeds, hsettle⟩ := exists_state h
  have hstate : stack.state = js.getLastD 0 := hfeeds.state_eq
  have htake : (tree.states 0).take (pre ++ [b]).length = js ++ [j] := by
    rw [hstates, List.length_append, ← hlength, List.take_length_add_append]
    rfl
  have haccept := Stack.accepts_of_settle_shift hsettle
  rw [hstate] at haccept
  have hopen := Item.isOpen_of_mem_fronts hf
  rw [Item.isOpen, last?_of_mem_words b (h ▸ List.mem_append_right _ List.mem_cons_self)] at hopen
  rw [htake, List.map_append, List.map_singleton]
  cases hterminal : b.token.terminal with
  | mark m => exact .apart (.inl ⟨m, hterminal⟩)
  | name =>
    rw [hterminal] at haccept
    exact .apart (.inr ⟨by rw [hterminal]; rfl, haccept⟩)
  | keyword k =>
    rw [hterminal] at hopen haccept
    have hk : k ∈ Keyword.openers := List.contains_iff_mem.mp hopen
    cases hname : Automaton.accepts (js.getLastD 0) .name with
    | true => exact .apart (.inr ⟨by rw [hterminal]; rfl, hname⟩)
    | false =>
      refine .glued (Keyword.solitary_of_mem_openers hk) hterminal hname fun hne => ?_
      obtain ⟨front, a, rfl⟩ : ∃ front a, pre = front ++ [a] := by
        refine (List.eq_nil_or_concat' pre).resolve_left ?_
        rintro rfl
        exact hne rfl
      obtain ⟨js', j', rfl⟩ : ∃ js' j', js = js' ++ [j'] := by
        refine (List.eq_nil_or_concat' js).resolve_left ?_
        rintro rfl
        simp at hlength
      rw [List.append_assoc] at h hstates
      refine ⟨front.map Leaf.token, js', a.token, j', by simp, rfl, ?_⟩
      rw [List.getLastD_concat] at haccept
      exact parts_of_accepts_opener h hstates (by simpa using hlength) hk haccept
  | int | float | string =>
    rw [hterminal] at hopen
    cases hopen

end Tree

/-! ## Keywords in place of the names of values -/

namespace Exploration

variable {i j : Nat} {k : Keyword} {u : Terminal}

/-- Where a rule has been read that the name of a value may follow, no keyword leads on. -/
theorem target_keyword_of_finished {r : RuleName} (h : complete.Holds i ⟨r, r.symbols.length⟩)
    (hu : u ∈ Terminal.values) (hfollow : r.head.mayPrecede (some u) = true) :
    complete.target? i (.terminal (.keyword k)) ≠ some j := by
  intro hj
  obtain ⟨s, hs, hr⟩ := h
  obtain ⟨hset, hkernel⟩ := kernel_mem_all hs
  have hstrict := (Kernel.checked_of_mem hkernel).2.2.1
  simp only [Kernel.isStrict, ← hset, Bool.and_eq_true] at hstrict
  have hfinished := List.all_eq_true.mp hstrict.1 r (ItemSet.mem_finished.mpr hr)
  have hany : Terminal.values.any r.head.nextTerminals.contains = true :=
    List.any_eq_true.mpr ⟨u, hu, hfollow⟩
  rw [hany, Bool.not_true, Bool.false_or] at hfinished
  cases List.all_eq_true.mp hfinished _ (mem_shifts_of_target hs hj)

/-- Where a value of an enum may be named, no rule has been read, and two keywords at most lead on.
-/
theorem of_holds_enumValueName {r : RuleName} (hr : r.head = .enumValueName)
    (h : complete.Holds i ⟨r, 0⟩) : (∀ r' : RuleName, ¬ complete.Holds i ⟨r', r'.symbols.length⟩) ∧
      ∀ k j, complete.target? i (.terminal (.keyword k)) = some j →
        .keyword k ∈ Terminal.values := by
  obtain ⟨s, hs, hitem⟩ := h
  obtain ⟨hset, hkernel⟩ := kernel_mem_all hs
  have hstrict := (Kernel.checked_of_mem hkernel).2.2.1
  have hany : s.items.any (fun i => i.rule.head == .enumValueName && i.dot == 0) = true :=
    List.any_eq_true.mpr ⟨_, hitem, by simp [hr]⟩
  simp only [Kernel.isStrict, ← hset, hany, Bool.not_true, Bool.false_or,
    Bool.and_eq_true] at hstrict
  obtain ⟨-, hfinished, hshifts⟩ := hstrict
  refine ⟨fun r' ⟨s', hs', hr'⟩ => ?_, fun k j hj => ?_⟩
  · obtain rfl := Option.some.inj (hs.symm.trans hs')
    have hmem := ItemSet.mem_finished.mpr hr'
    rw [List.isEmpty_iff.mp hfinished] at hmem
    cases hmem
  · have hvalue := List.all_eq_true.mp hshifts _ (mem_shifts_of_target hs hj)
    exact List.contains_iff_mem.mp (by simpa [Terminal.isKeyword] using hvalue)

/-- An item behind a symbol was in front of it before. -/
theorem holds_of_target_of_holds {symbol : Symbol} {r : RuleName} {d : Nat}
    (h : complete.target? i symbol = some j) (hj : complete.Holds j ⟨r, d + 1⟩) :
    complete.Holds i ⟨r, d⟩ := by
  obtain ⟨s, s', hs, hs', hmoved⟩ := complete_sound.mem_kernel_of_target h
  obtain ⟨kernel, -, hkernel, hmem⟩ := exists_kernel_of_holds hj (Nat.succ_ne_zero d)
  obtain rfl := Option.some.inj (hs'.symm.trans hkernel)
  obtain ⟨⟨rule, dot⟩, hitem, -, hadvance⟩ := ItemSet.mem_movedOver.mp ((hmoved _).mp hmem)
  obtain ⟨rfl, hdot⟩ := Item.mk.inj hadvance
  obtain rfl : d = dot := Nat.succ.inj hdot
  exact ⟨s, hs, hitem⟩

end Exploration

namespace Stack

variable {stack below : Stack} {x : Expectation} {j : Nat} {k : Keyword} {u : Terminal}

/-- What a stack is reduced to is the same before all that has it reduced by the same rule. -/
theorem exists_reduce_of_reduceOnce {lower : { s : Stack // s.weight < stack.weight }}
    (h : stack.reduceOnce x = .inr lower) : ∃ r, Automaton.step stack.state x = .reduce r ∧
      ∀ y, Automaton.step stack.state y = .reduce r → stack.settle y = lower.1.settle y := by
  revert h
  fun_cases reduceOnce stack x with
  | case7 r hstep children base hpop hhead k hgoto =>
    rintro ⟨⟩
    exact ⟨r, hstep, fun y hy => settle_of_reduce hy hpop hhead hgoto⟩
  | case1 | case2 | case3 | case4 | case5 | case6 => exact fun h => Sum.inl_ne_inr.elim h

theorem settle_of_refuse (h : Automaton.step stack.state x = .refuse) :
    stack.settle x = .refuse stack.state := by
  rw [settle, reduceOnce, h]

/-- Where a value of an enum is named, all keywords are refused that name no values. -/
theorem exists_refuse (hvalid : stack.Valid) (hu : u ∈ Terminal.values)
    (h : stack.settle (some u) = .shift below j) {r : RuleName} (hr : r.head = .enumValueName)
    (hj : complete.Holds j ⟨r, 1⟩) (hk : .keyword k ∉ Terminal.values) :
    ∃ i, stack.settle (some (.keyword k)) = .refuse i := by
  induction stack using settle.induct (some u) with
  | case1 stack settled hend =>
    rw [settle, hend] at h
    obtain rfl := h
    obtain ⟨rfl, htarget⟩ := step_of_reduceOnce_shift hend
    refine ⟨below.state, settle_of_refuse ?_⟩
    obtain ⟨hfinished, hkeywords⟩ :=
      of_holds_enumValueName hr (holds_of_target_of_holds htarget hj)
    cases hstep : Automaton.step below.state (some (.keyword k)) with
    | shift i => exact (hk (hkeywords k i (Automaton.target_of_step_eq_shift hstep))).elim
    | reduce r' => exact (hfinished r' (Automaton.holds_of_step_eq_reduce hstep)).elim
    | refuse => rfl
  | case2 stack lower hlower ih =>
    rw [settle, hlower] at h
    have hlower' := ih (hvalid.of_reduceOnce hlower) h
    obtain ⟨r', hreduce, hsame⟩ := exists_reduce_of_reduceOnce hlower
    -- one rule at most has been read, so the keyword has the same one reduced or none
    cases hstep : Automaton.step stack.state (some (.keyword k)) with
    | shift i =>
      obtain ⟨site, hfinished, hfollow⟩ := Automaton.exists_finished_of_step_eq_reduce hreduce
      have hhead : r'.head = site.nonterminal := (mem_finished.mp hfinished).2.2.1
      exact (target_keyword_of_finished (Automaton.holds_of_step_eq_reduce hreduce) hu
        (hhead ▸ mayPrecede_of_contains_follow hfollow)
        (Automaton.target_of_step_eq_shift hstep)).elim
    | reduce r'' =>
      obtain rfl := eq_of_holds_finished (Automaton.holds_of_step_eq_reduce hreduce)
        (Automaton.holds_of_step_eq_reduce hstep)
      rwa [hsame _ hstep]
    | refuse => exact ⟨_, settle_of_refuse hstep⟩

end Stack

/-! ## Keywords that follow statements -/

namespace Exploration

variable {i j : Nat} {item : Item} {r : RuleName} {n : Nonterminal}

/-- From where a rule may begin its symbols can be followed. -/
theorem exists_walk (h : complete.Holds i item) :
    ∃ j, complete.walk? i (item.rule.symbols.drop item.dot) = some j := by
  generalize hdrop : item.rule.symbols.drop item.dot = symbols
  induction symbols generalizing i item with
  | nil => exact ⟨i, rfl⟩
  | cons symbol symbols ih =>
    have hnext := Item.next?_of_drop hdrop
    obtain ⟨k, hk⟩ := exists_target h hnext
    obtain ⟨j, hj⟩ := ih (complete_sound.holds_of_target h hnext hk) (Item.drop_advance hdrop)
    exact ⟨j, by rw [walk?, hk, Option.bind_some, hj]⟩

/-- The dot of a rule that may begin somewhere can be moved over its first symbols. -/
theorem exists_holds_dot (h : complete.Holds i ⟨r, 0⟩) {d : Nat} (hd : d ≤ r.symbols.length) :
    ∃ j, complete.Holds j ⟨r, d⟩ := by
  induction d with
  | zero => exact ⟨i, h⟩
  | succ d ih =>
    obtain ⟨j, hj⟩ := ih (Nat.le_of_succ_le hd)
    have hnext : (Item.mk r d).next? = some r.symbols[d] := List.getElem?_eq_getElem hd
    obtain ⟨k, hk⟩ := exists_target hj hnext
    exact ⟨k, complete_sound.holds_of_target hj hnext hk⟩

/-- What may be read first of what comes next behind a symbol begins there as well. -/
theorem holds_of_mem_leftCorners (h : complete.Holds i item) (hdot : item.dot ≠ 0)
    (hnext : item.next? = some (.nonterminal n)) (hr : r.head ∈ n.leftCorners) :
    complete.Holds i ⟨r, 0⟩ := by
  obtain ⟨kernel, -, hs, hmem⟩ := exists_kernel_of_holds h hdot
  refine ⟨_, hs, List.mem_append_right _ (List.mem_flatMap.mpr ⟨r.head, ?_, ?_⟩)⟩
  · exact ItemSet.mem_corners_ofKernel.mpr ⟨item, hmem, n, hnext, hr⟩
  · exact Item.mem_ofHead.mpr ⟨RuleName.mem_ofHead.mpr rfl, rfl⟩

/-- States with the same kernel are the same. -/
theorem eq_of_getElem?_ofKernel {kernel : List Item}
    (hi : complete.sets[i]? = some (.ofKernel kernel))
    (hj : complete.sets[j]? = some (.ofKernel kernel)) : i = j := by
  have hkernels {k : Nat} (hk : complete.sets[k]? = some (.ofKernel kernel)) :
      (complete.sets.toList.map ItemSet.kernel)[k]? = some kernel := by
    rw [List.getElem?_map, Array.getElem?_toList, hk]
    rfl
  exact (List.getElem?_inj (List.getElem?_eq_some_iff.mp (hkernels hi)).1
    complete_listed.nodup).mp ((hkernels hi).trans (hkernels hj).symm)

end Exploration

/-- Each option or reserved statement ends in one state only. -/
theorem Exploration.eq_of_holds_statement {i j : Nat} {r : RuleName}
    (hr : r.head = .optionStmt ∨ r.head = .reservedStmt)
    (h : complete.Holds i ⟨r, r.symbols.length⟩) (h' : complete.Holds j ⟨r, r.symbols.length⟩) :
    i = j := by
  have hdot : r.symbols.length ≠ 0 := by
    refine fun hlength => r.symbols_ne_nil ?_ (List.length_eq_zero_iff.mp hlength)
    rcases hr with hr | hr <;> rw [hr] <;> decide
  have hsingle {kernel : List Item} (hkernel : kernel ∈ Kernel.all)
      (hmem : ⟨r, r.symbols.length⟩ ∈ kernel) : kernel = [⟨r, r.symbols.length⟩] := by
    have hone := List.all_eq_true.mp (Kernel.checked_of_mem hkernel).2.2.2 _ hmem
    rw [← beq_iff_eq, ← beq_iff_eq (a := r.head), ← Bool.or_eq_true] at hr
    rw [hr, beq_self_eq_true, Bool.and_self, Bool.not_true, Bool.false_or] at hone
    exact eq_of_beq hone
  obtain ⟨kernel, hkernel, hs, hmem⟩ := exists_kernel_of_holds h hdot
  obtain ⟨kernel', hkernel', hs', hmem'⟩ := exists_kernel_of_holds h' hdot
  obtain rfl := hsingle hkernel hmem
  obtain rfl := hsingle hkernel' hmem'
  exact eq_of_getElem?_ofKernel hs hs'

namespace Nonterminal

/-- Lists of declarations, with what they list. -/
def repetitions : List (Nonterminal × Nonterminal) :=
  [(.topItems, .topItem), (.messageItems, .messageItem), (.serviceItems, .serviceItem)]

end Nonterminal

theorem Exploration.exists_holds_repetition :
    ∀ p ∈ Nonterminal.repetitions, ∃ i, ∀ r : RuleName, r.head = p.1 → complete.Holds i ⟨r, 0⟩ := by
  have hsite : ⟨0, .schemaFile⟩ ∈ complete.sites :=
    mem_sites.mpr ⟨(Array.getElem?_eq_some_iff.mp start_of_complete).1, .inl ⟨rfl, rfl⟩⟩
  have hfile : complete.Holds 0 ⟨⟨.schemaFile, ⟨2, by decide⟩⟩, 0⟩ :=
    holds_of_mem_sites start_of_complete hsite rfl
  have htop (r : RuleName) (hr : r.head = .topItems) : complete.Holds 0 ⟨r, 0⟩ :=
    holds_of_next hfile rfl hr
  have hitem (r : RuleName) (hr : r.head = .topItem) : complete.Holds 0 ⟨r, 0⟩ :=
    holds_of_next (htop ⟨.topItems, ⟨0, by decide⟩⟩ rfl) rfl hr
  refine List.forall_iff_forall_mem.mp ⟨⟨0, htop⟩, ?_, ?_⟩
  · have hmessage : complete.Holds 0 ⟨⟨.messageDecl, ⟨0, by decide⟩⟩, 0⟩ :=
      holds_of_next (hitem ⟨.topItem, ⟨3, by decide⟩⟩ rfl) rfl rfl
    obtain ⟨i, hi⟩ := exists_holds_dot hmessage (d := 3) (by decide)
    exact ⟨i, fun r hr => holds_of_next hi rfl hr⟩
  · have hservice : complete.Holds 0 ⟨⟨.serviceDecl, ⟨0, by decide⟩⟩, 0⟩ :=
      holds_of_next (hitem ⟨.topItem, ⟨5, by decide⟩⟩ rfl) rfl rfl
    obtain ⟨i, hi⟩ := exists_holds_dot hservice (d := 3) (by decide)
    exact ⟨i, fun r hr => holds_of_next hi rfl hr⟩

namespace Nonterminal

theorem exists_rules_of_repetition : ∀ p ∈ repetitions,
    (∃ r : RuleName, r.head = p.1 ∧ r.symbols = [.nonterminal p.2]) ∧
      ∃ r : RuleName, r.head = p.1 ∧ r.symbols = [.nonterminal p.1, .nonterminal p.2] :=
  List.forall_iff_forall_mem.mp
    ⟨⟨⟨⟨.topItems, ⟨0, by decide⟩⟩, rfl, rfl⟩, ⟨.topItems, ⟨1, by decide⟩⟩, rfl, rfl⟩,
      ⟨⟨⟨.messageItems, ⟨0, by decide⟩⟩, rfl, rfl⟩, ⟨.messageItems, ⟨1, by decide⟩⟩, rfl, rfl⟩,
      ⟨⟨.serviceItems, ⟨0, by decide⟩⟩, rfl, rfl⟩, ⟨.serviceItems, ⟨1, by decide⟩⟩, rfl, rfl⟩

/-- Whether a list that may contain a statement may go on with a keyword. -/
def meets (m : Nonterminal) (k : Keyword) : Bool :=
  repetitions.any fun p =>
    (RuleName.ofHead p.2).any (fun r => r.symbols == [.nonterminal m]) &&
      p.2.leftCorners.any fun n =>
        (RuleName.ofHead n).any fun r => r.symbols.head? == some (.terminal (.keyword k))

theorem meets_of_mem_nextTerminals {m : Nonterminal} {k : Keyword}
    (hm : m = .optionStmt ∨ m = .reservedStmt) (hnext : .keyword k ∈ m.nextTerminals)
    (hk : .keyword k ∉ Terminal.values) : m.meets k = true := by
  have hall : (Keyword.all.all fun k => [optionStmt, reservedStmt].all fun m =>
      !m.nextTerminals.contains (.keyword k) || Terminal.values.contains (.keyword k) ||
        m.meets k) = true := by
    decide +kernel
  have hmeets := List.all_eq_true.mp (List.all_eq_true.mp hall k k.mem_all) m (by simpa using hm)
  simpa [hnext, hk] using hmeets

end Nonterminal

namespace Exploration

variable {p : Nonterminal × Nonterminal} {x : Expectation}

/-- Where a list begins, its items begin. -/
theorem holds_of_repetition (hp : p ∈ Nonterminal.repetitions)
    (h : ∀ r : RuleName, r.head = p.1 → complete.Holds i ⟨r, 0⟩) :
    ⟨i, p.2⟩ ∈ complete.sites ∧ ∀ r : RuleName, r.head = p.2 → complete.Holds i ⟨r, 0⟩ := by
  obtain ⟨⟨one, hone, hsymbols⟩, -⟩ := Nonterminal.exists_rules_of_repetition p hp
  have hnext : (Item.mk one 0).next? = some (.nonterminal p.2) := by
    rw [Item.next?, hsymbols]
    rfl
  exact ⟨mem_sites_of_next (h one hone) hnext, fun r hr => holds_of_next (h one hone) hnext hr⟩

/-- What follows a whole follows the only part of it. -/
theorem contains_follow_of_single {r : RuleName} (hsite : ⟨i, r.head⟩ ∈ complete.sites)
    (hsymbols : r.symbols = [.nonterminal n])
    (hx : (followAt complete.follow ⟨i, r.head⟩).contains x = true) :
    (followAt complete.follow ⟨i, n⟩).contains x = true := by
  refine contains_follow_of_ending hsite (mem_endingWith_iff.mpr ⟨r, rfl, ?_, ?_⟩) hx <;>
    rw [hsymbols] <;> rfl

/-- The items of a list are followed by all that may open an item. -/
theorem contains_follow_of_repetition (hp : p ∈ Nonterminal.repetitions)
    (h : ∀ r : RuleName, r.head = p.1 → complete.Holds i ⟨r, 0⟩) {first : RuleName} {t : Terminal}
    (hfirst : first.head ∈ p.2.leftCorners) (ht : first.symbols.head? = some (.terminal t)) :
    (followAt complete.follow ⟨i, p.2⟩).contains (some t) = true := by
  obtain ⟨⟨one, hone, honeSymbols⟩, more, hmore, hmoreSymbols⟩ :=
    Nonterminal.exists_rules_of_repetition p hp
  have hlist : (Item.mk more 0).next? = some (.nonterminal p.1) := by
    rw [Item.next?, hmoreSymbols]
    rfl
  have hsite := mem_sites_of_next (h more hmore) hlist
  obtain ⟨j, hj⟩ := exists_target (h more hmore) hlist
  -- behind the list another item may begin
  have hmoved := complete_sound.holds_of_target (h more hmore) hlist hj
  have hitem : (Item.mk more 0).advance.next? = some (.nonterminal p.2) := by
    rw [Item.advance, Item.next?, hmoreSymbols]
    rfl
  have hbegins := holds_of_mem_leftCorners hmoved (Nat.succ_ne_zero 0) hitem hfirst
  have hopens : (Item.mk first 0).next? = some (.terminal t) := by
    rw [Item.next?, ← List.head?_eq_getElem?, ht]
  obtain ⟨k, hk⟩ := exists_target hbegins hopens
  have hfile : p.1 ≠ .schemaFile :=
    (by decide : ∀ p ∈ Nonterminal.repetitions, p.1 ≠ .schemaFile) p hp
  have hfollow := contains_follow_of_targets hsite hfile hj hk
  rw [← hone] at hsite hfollow
  exact contains_follow_of_single hsite honeSymbols hfollow

end Exploration

/-- Where an option or a reserved statement ends, all keywords are accepted that may follow it
somewhere. -/
theorem Automaton.accepts_of_clashes {i : Nat} {f : Item} {k : Keyword} (h : complete.Holds i f)
    (hk : f.Clashes k) (hvalue : .keyword k ∉ Terminal.values) :
    accepts i (.keyword k) = true := by
  obtain ⟨hhead, hdot, hnext⟩ := hk
  have hmeets := Nonterminal.meets_of_mem_nextTerminals hhead hnext hvalue
  simp only [Nonterminal.meets, List.any_eq_true, Bool.and_eq_true, beq_iff_eq,
    RuleName.mem_ofHead] at hmeets
  obtain ⟨p, hp, ⟨own, hown, hsymbols⟩, n, hn, first, hfirst, hopens⟩ := hmeets
  -- where a list begins that may contain the statement, the keyword follows the statement
  obtain ⟨b, hb⟩ := exists_holds_repetition p hp
  obtain ⟨hsite, hitems⟩ := holds_of_repetition hp hb
  have hfollow := contains_follow_of_repetition hp hb (hfirst ▸ hn) hopens
  have hafter := contains_follow_of_single (r := own) (hown ▸ hsite) hsymbols (hown ▸ hfollow)
  have hstatement : (Item.mk own 0).next? = some (.nonterminal f.rule.head) := by
    rw [Item.next?, hsymbols]
    rfl
  have hbegins : complete.Holds b ⟨f.rule, 0⟩ := holds_of_next (hitems own hown) hstatement rfl
  -- and the statement ends in the state at hand, wherever it begins
  obtain ⟨j, hwalk⟩ := exists_walk hbegins
  obtain rfl : j = i := eq_of_holds_statement hhead
    (complete_sound.holds_finished hbegins hwalk) (by rwa [← hdot])
  obtain ⟨s, hs, -⟩ := h
  refine accepts_iff.mpr (.inr ⟨(f.rule, ⟨b, f.rule.head⟩), ?_, hafter⟩)
  exact mem_finished.mpr ⟨(Array.getElem?_eq_some_iff.mp hs).1,
    mem_sites_of_next (hitems own hown) hstatement, rfl, hwalk⟩

example : Keyword.all.filter
    (fun k => Item.Clashes ⟨⟨.optionStmt, 0⟩, 5⟩ k ∧ .keyword k ∉ Terminal.values) =
      [.kwExtensions, .kwOptional, .kwRequired, .kwRepeated, .kwPackage, .kwMessage, .kwService,
        .kwImport, .kwExtend, .kwOneof, .kwEnum, .kwMap, .kwRpc] := by decide +kernel

example : Keyword.all.filter
    (fun k => Item.Clashes ⟨⟨.reservedStmt, 0⟩, 3⟩ k ∧ .keyword k ∉ Terminal.values) =
      [.kwExtensions, .kwOptional, .kwRequired, .kwRepeated, .kwMessage, .kwExtend, .kwOneof,
        .kwEnum, .kwMap] := by decide +kernel

end ProtoSchema
