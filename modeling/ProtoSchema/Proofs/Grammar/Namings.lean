import ProtoSchema.Proofs.Grammar.Followers

/-!
# The names that a tree declares

Of the words in a derivation some name what is declared: a message, an enum or a value of one, a
field, a group, a oneof, a service, a method, or a part of the package. Every token of a tree is
listed with the item behind it and with what it names (`Tree.leaves`), and the items in front of the
names are few (`Tree.exists_front`).
-/

namespace ProtoSchema

/-! ## What a token names -/

namespace Nonterminal

/-- The part of a declaration that is its name. -/
def namePart? : Nonterminal → Option Nonterminal
  | .messageDecl | .fieldDecl | .groupDecl | .mapFieldDecl | .oneofDecl | .oneofField | .enumDecl
  | .serviceDecl | .rpcDecl => some .name
  | .enumValue => some .enumValueName
  | .packageStmt => some .fullIdent
  | _ => none

/-- The parts that consist of declarations. -/
def declarations : Nonterminal → List Nonterminal
  | .schemaFile => [.topItems]
  | .topItems => [.topItems, .topItem]
  | .topItem => [.packageStmt, .messageDecl, .enumDecl, .serviceDecl, .extendDecl]
  | .messageDecl | .groupDecl => [.messageItems]
  | .messageItems => [.messageItems, .messageItem]
  | .messageItem =>
    [.fieldDecl, .groupDecl, .mapFieldDecl, .oneofDecl, .messageDecl, .enumDecl, .extendDecl]
  | .oneofDecl => [.oneofItems]
  | .oneofItems => [.oneofItems, .oneofItem]
  | .oneofItem => [.oneofField]
  | .extendDecl => [.extendItems]
  | .extendItems => [.extendItems, .extendItem]
  | .extendItem => [.fieldDecl]
  | .enumDecl => [.enumItems]
  | .enumItems => [.enumItems, .enumItem]
  | .enumItem => [.enumValue]
  | .serviceDecl => [.serviceItems]
  | .serviceItems => [.serviceItems, .serviceItem]
  | .serviceItem => [.rpcDecl]
  | _ => []

end Nonterminal

/-- What a part of a tree has to do with names: it may declare something, it belongs to the name of
a declaration, or it declares nothing. -/
inductive Scope
  | declaring
  | naming (n : Nonterminal)
  | other
  deriving DecidableEq

namespace Scope

/-- The scope of a symbol in a rule of `n`. -/
def child (n : Nonterminal) (s : Symbol) : Scope → Scope
  | declaring =>
    match s with
    | .terminal _ => other
    | .nonterminal m =>
      if n.namePart? = some m then naming n
      else if m ∈ n.declarations then declaring
      else other
  | naming d =>
    match n, s with
    | .name, .terminal _ | .enumValueName, .terminal _ => naming d
    | .fullIdent, .nonterminal .name | .fullIdent, .nonterminal .moreNames
    | .moreNames, .nonterminal .name | .moreNames, .nonterminal .moreNames =>
      if d = .packageStmt then naming d else other
    | _, _ => other
  | other => other

/-- What a token of a scope names. -/
def named? : Scope → Option Nonterminal
  | naming n => some n
  | _ => none

/-- Every scope. -/
def all : List Scope := declaring :: other :: Nonterminal.all.map naming

theorem mem_all (σ : Scope) : σ ∈ all := by
  cases σ with
  | naming n => simp [all, n.mem_all]
  | _ => simp [all]

end Scope

/-- A token of a tree, with the item behind it and with the declaration that it names, if any. -/
structure Leaf where
  token : Token
  item : Item
  names? : Option Nonterminal

mutual

/-- The tokens of a tree that is to be read next behind an item, from left to right. -/
def Tree.leaves (item : Item) (σ : Scope) {s : Symbol} : Tree s → List Leaf
  | .leaf token => [⟨token, item.advance, σ.named?⟩]
  | .node r children => children.leaves ⟨r, 0⟩ σ

/-- The tokens of the trees that are to be read behind an item. -/
def Forest.leaves (item : Item) (σ : Scope) {ss : List Symbol} : Forest ss → List Leaf
  | .nil => []
  | .cons (s := s) first others =>
    first.leaves item (σ.child item.rule.head s) ++ others.leaves item.advance σ

end

/-- The tokens of a file. -/
def Tree.words (tree : Tree (.nonterminal .schemaFile)) : List Leaf :=
  tree.leaves ⟨⟨.schemaFile, 0⟩, 0⟩ .declaring

mutual

theorem Tree.map_token_leaves {s : Symbol} :
    (tree : Tree s) → (item : Item) → (σ : Scope) →
      (tree.leaves item σ).map Leaf.token = tree.tokens
  | .leaf _, _, _ => by rw [Tree.leaves, Tree.tokens, List.map_singleton]
  | .node _ children, _, _ => by
    rw [Tree.leaves, Tree.tokens, children.map_token_leaves]

theorem Forest.map_token_leaves {ss : List Symbol} :
    (forest : Forest ss) → (item : Item) → (σ : Scope) →
      (forest.leaves item σ).map Leaf.token = forest.tokens
  | .nil, _, _ => by rw [Forest.leaves, Forest.tokens, List.map_nil]
  | .cons first others, _, _ => by
    rw [Forest.leaves, Forest.tokens, List.map_append, first.map_token_leaves,
      others.map_token_leaves]

end

theorem Tree.tokens_of_words {tree : Tree (.nonterminal .schemaFile)} {before behind : List Leaf}
    {leaf : Leaf} (h : tree.words = before ++ leaf :: behind) :
    tree.tokens = before.map Leaf.token ++ leaf.token :: behind.map Leaf.token := by
  rw [← tree.map_token_leaves ⟨⟨.schemaFile, 0⟩, 0⟩ .declaring]
  exact (congrArg (List.map Leaf.token) h).trans (by rw [List.map_append, List.map_cons])

/-! ## Items behind tokens -/

theorem Item.next?_of_drop {i : Item} {s : Symbol} {ss : List Symbol}
    (h : i.rule.symbols.drop i.dot = s :: ss) : i.next? = some s := by
  rw [Item.next?, ← List.head?_drop, h, List.head?_cons]

theorem Item.drop_advance {i : Item} {s : Symbol} {ss : List Symbol}
    (h : i.rule.symbols.drop i.dot = s :: ss) : i.advance.rule.symbols.drop i.advance.dot = ss := by
  rw [Item.advance, ← List.tail_drop, h, List.tail_cons]

mutual

/-- The item behind a token stands behind its terminal. -/
theorem Tree.last?_of_mem_leaves {s : Symbol} :
    (tree : Tree s) → {item : Item} → {σ : Scope} → item.next? = some s →
      ∀ l ∈ tree.leaves item σ, l.item.last? = some (.terminal l.token.terminal)
  | .leaf token, _, _, hnext, l, hl => by
    rw [Tree.leaves, List.mem_singleton] at hl
    rw [hl, Item.last?_advance, hnext]
  | .node r children, _, _, _, l, hl => by
    rw [Tree.leaves] at hl
    exact Forest.last?_of_mem_leaves children rfl l hl

theorem Forest.last?_of_mem_leaves {ss : List Symbol} :
    (forest : Forest ss) → {item : Item} → {σ : Scope} →
      item.rule.symbols.drop item.dot = ss →
        ∀ l ∈ forest.leaves item σ, l.item.last? = some (.terminal l.token.terminal)
  | .nil, _, _, _, l, hl => by
    rw [Forest.leaves] at hl
    cases hl
  | .cons first others, _, _, hdrop, l, hl => by
    rw [Forest.leaves, List.mem_append] at hl
    exact hl.elim (Tree.last?_of_mem_leaves first (Item.next?_of_drop hdrop) l)
      (Forest.last?_of_mem_leaves others (Item.drop_advance hdrop) l)

end

namespace Nonterminal

/-- The items behind the last tokens of what `n` derives, looking at most `bound` rules deep. -/
def endsWithin : (bound : Nat) → Nonterminal → List Item
  | 0, _ => []
  | bound + 1, n =>
    (RuleName.ofHead n).flatMap fun r =>
      match r.symbols.getLast? with
      | some (.terminal _) => [⟨r, r.symbols.length⟩]
      | some (.nonterminal m) => endsWithin bound m
      | none => []

/-- The items behind the last tokens of what `n` derives. -/
def ends (n : Nonterminal) : List Item := endsWithin 8 n

end Nonterminal

/-- The items behind the last tokens of what stands in front of the dot. -/
def Item.ends (i : Item) : List Item :=
  match i.last? with
  | some (.terminal _) => [i]
  | some (.nonterminal n) => n.ends
  | none => []

theorem Nonterminal.ends_closed :
    (RuleName.all.all fun r =>
      (Item.mk r r.symbols.length).ends.all r.head.ends.contains) = true := by
  decide +kernel

theorem Nonterminal.mem_ends {r : RuleName} {i : Item}
    (h : i ∈ (Item.mk r r.symbols.length).ends) : i ∈ r.head.ends :=
  List.contains_iff_mem.mp
    (List.all_eq_true.mp (List.all_eq_true.mp ends_closed r r.mem_all) i h)

theorem Item.ends_advance_of_next {i : Item} {n : Nonterminal}
    (h : i.next? = some (.nonterminal n)) : i.advance.ends = n.ends := by
  rw [ends, last?_advance, h]

mutual

/-- Where the last token of a tree stands. -/
theorem Tree.exists_getLast_leaves {s : Symbol} :
    (tree : Tree s) → {item : Item} → (σ : Scope) → item.next? = some s →
      ∃ l ∈ (tree.leaves item σ).getLast?, l.item ∈ item.advance.ends
  | .leaf token, item, σ, hnext => by
    refine ⟨⟨token, item.advance, σ.named?⟩, by rw [Tree.leaves]; rfl, ?_⟩
    rw [Item.ends, Item.last?_advance, hnext]
    exact List.mem_singleton_self _
  | .node r children, item, σ, hnext => by
    have hhead : r.head ≠ .schemaFile := fun h => item.next?_ne_schemaFile (h ▸ hnext)
    obtain ⟨l, hl, hends⟩ := @Forest.exists_getLast_leaves _ children ⟨r, 0⟩ σ rfl
      (r.symbols_ne_nil hhead)
    refine ⟨l, by rwa [Tree.leaves], ?_⟩
    rw [Item.ends_advance_of_next hnext]
    exact Nonterminal.mem_ends hends

theorem Forest.exists_getLast_leaves {ss : List Symbol} :
    (forest : Forest ss) → {item : Item} → (σ : Scope) →
      item.rule.symbols.drop item.dot = ss → ss ≠ [] →
        ∃ l ∈ (forest.leaves item σ).getLast?,
          l.item ∈ (Item.mk item.rule item.rule.symbols.length).ends
  | .nil, _, _, _, hne => absurd rfl hne
  | @Forest.cons _ ss first others, item, σ, hdrop, _ => by
    rw [Forest.leaves]
    by_cases hlast : ss = []
    · subst hlast
      obtain ⟨l, hl, hends⟩ := Tree.exists_getLast_leaves first (σ.child item.rule.head _)
        (Item.next?_of_drop hdrop)
      have hlength := congrArg List.length hdrop
      rw [List.length_drop, List.length_singleton] at hlength
      have hadvance : item.advance = ⟨item.rule, item.rule.symbols.length⟩ := by
        rw [Item.advance, Item.mk.injEq]
        exact ⟨rfl, by omega⟩
      cases others with
      | nil =>
        rw [Forest.leaves, List.append_nil]
        exact ⟨l, hl, hadvance ▸ hends⟩
    · obtain ⟨l, hl, hends⟩ := Forest.exists_getLast_leaves others σ (Item.drop_advance hdrop) hlast
      refine ⟨l, ?_, hends⟩
      rw [List.getLast?_append, hl]
      rfl

end

/-! ## Items in front of names -/

namespace Nonterminal

/-- The items in front of the names of declarations: what stands right in front of the name in a
rule of the declaration, or, in front of a value of an enum, the opening brace or the end of what
stands before it. -/
def fronts : Nonterminal → List Item
  | .messageDecl => (RuleName.ofHead .messageDecl).map (⟨·, 1⟩)
  | .enumDecl => (RuleName.ofHead .enumDecl).map (⟨·, 1⟩)
  | .serviceDecl => (RuleName.ofHead .serviceDecl).map (⟨·, 1⟩)
  | .rpcDecl => (RuleName.ofHead .rpcDecl).map (⟨·, 1⟩)
  | .oneofDecl => (RuleName.ofHead .oneofDecl).map (⟨·, 1⟩)
  | .groupDecl => (RuleName.ofHead .groupDecl).map (⟨·, 2⟩)
  | .mapFieldDecl => (RuleName.ofHead .mapFieldDecl).map (⟨·, 6⟩)
  | .fieldDecl | .oneofField => ends .fullIdent
  | .enumValue => (RuleName.ofHead .enumDecl).map (⟨·, 3⟩) ++ ends .enumItem
  | .packageStmt =>
    [⟨⟨.packageStmt, 0⟩, 1⟩, ⟨⟨.leadingDot, 0⟩, 1⟩, ⟨⟨.moreNames, 0⟩, 1⟩, ⟨⟨.moreNames, 1⟩, 2⟩]
  | _ => []

end Nonterminal

namespace Scope

/-- The items that may stand in front of a symbol of a scope, where they matter to names. -/
def fronts? : Scope → Symbol → Option (List Item)
  | naming _, .nonterminal .moreNames => none
  | naming n, _ => some n.fronts
  | declaring, .nonterminal .enumItems | declaring, .nonterminal .enumItem
  | declaring, .nonterminal .enumValue => some Nonterminal.enumValue.fronts
  | _, _ => none

/-- An item may stand in front of a symbol of a scope. -/
def Follows (σ : Scope) (s : Symbol) (front : Option Item) : Prop :=
  ∀ fs, σ.fronts? s = some fs → ∃ f ∈ fs, front = some f

end Scope

namespace RuleName

variable {σ : Scope} {r : RuleName} {s : Symbol}

/-- The items that may stand in front of a symbol of a rule: those in front of the rule, or those
that the symbol before it ends with. -/
def before? (σ : Scope) (r : RuleName) : (d : Nat) → Option (List Item)
  | 0 => σ.fronts? (.nonterminal r.head)
  | d + 1 => some (Item.mk r (d + 1)).ends

/-- Whether a rule has the right items in front of each of its symbols, if it has them in front of
itself. -/
def keepsFronts (σ : Scope) (r : RuleName) : Bool :=
  (List.range r.symbols.length).all fun d =>
    match r.symbols[d]?.bind fun s => (σ.child r.head s).fronts? s with
    | none => true
    | some fs => (r.before? σ d).any fun gs => gs.all fs.contains

/-- The rules that matter to a scope: those of names, where something is named. -/
def ofScope : Scope → List RuleName
  | .declaring => all
  | .naming _ => [.name, .enumValueName, .fullIdent, .moreNames].flatMap ofHead
  | .other => []

theorem keepsFronts_all : (Scope.all.all fun σ => (ofScope σ).all (keepsFronts σ)) = true := by
  decide +kernel

theorem mem_ofScope {fs : List Item} (h : (σ.child r.head s).fronts? s = some fs) :
    r ∈ ofScope σ := by
  cases σ with
  | declaring => exact r.mem_all
  | other => simp [Scope.child, Scope.fronts?] at h
  | naming d =>
    simp only [ofScope, List.mem_flatMap, mem_ofHead, exists_eq_right']
    cases hhead : r.head <;> simp [hhead, Scope.child, Scope.fronts?] at h ⊢

theorem exists_before {d : Nat} (hs : r.symbols[d]? = some s) {fs : List Item}
    (hfs : (σ.child r.head s).fronts? s = some fs) : ∃ gs, r.before? σ d = some gs ∧ gs ⊆ fs := by
  have h := List.all_eq_true.mp (List.all_eq_true.mp keepsFronts_all σ σ.mem_all) r
    (mem_ofScope hfs)
  have hd := (List.getElem?_eq_some_iff.mp hs).1
  have hfronts := List.all_eq_true.mp h d (List.mem_range.mpr hd)
  rw [hs, Option.bind_some, hfs] at hfronts
  obtain ⟨gs, hgs, hall⟩ := (Option.any_eq_true _ _).mp hfronts
  exact ⟨gs, hgs, fun f hf => List.contains_iff_mem.mp (List.all_eq_true.mp hall f hf)⟩

/-- What stands in front of a rule stands in front of its first symbol. -/
theorem follows_first {front : Option Item} (hs : r.symbols.head? = some s)
    (h : σ.Follows (.nonterminal r.head) front) : (σ.child r.head s).Follows s front := by
  intro fs hfs
  rw [List.head?_eq_getElem?] at hs
  obtain ⟨gs, hgs, hsub⟩ := exists_before hs hfs
  obtain ⟨f, hf, rfl⟩ := h gs hgs
  exact ⟨f, hsub hf, rfl⟩

/-- In front of any other symbol stands what the symbol before it ends with. -/
theorem follows_next {d : Nat} (hs : r.symbols[d + 1]? = some s) {f : Item}
    (hf : f ∈ (Item.mk r (d + 1)).ends) : (σ.child r.head s).Follows s (some f) := by
  intro fs hfs
  obtain ⟨gs, hgs, hsub⟩ := exists_before hs hfs
  obtain rfl := Option.some.inj hgs
  exact ⟨f, hsub hf, rfl⟩

end RuleName

/-- A member of two lists in a row belongs to one of them. -/
theorem exists_of_append_eq_append_cons {α : Type} {as bs before behind : List α} {a : α}
    (h : as ++ bs = before ++ a :: behind) :
    (∃ rest, as = before ++ a :: rest ∧ behind = rest ++ bs) ∨
      ∃ rest, before = as ++ rest ∧ bs = rest ++ a :: behind := by
  rcases List.append_eq_append_iff.mp h with ⟨rest, hbefore, hbs⟩ | ⟨rest, has, hrest⟩
  · exact .inr ⟨rest, hbefore, hbs⟩
  · cases rest with
    | nil => exact .inr ⟨[], by simp [has], by simp [hrest]⟩
    | cons b rest =>
      obtain ⟨rfl, rfl⟩ := List.cons.inj hrest
      exact .inl ⟨rest, has, rfl⟩

mutual

/-- In front of a name stands one of the items that the declaration tells. -/
theorem Tree.exists_front {s : Symbol} :
    (tree : Tree s) → {item : Item} → {σ : Scope} → {front : Option Item} →
      item.next? = some s → σ.Follows s front →
        ∀ {before behind : List Leaf} {leaf : Leaf} {n : Nonterminal},
          tree.leaves item σ = before ++ leaf :: behind → leaf.names? = some n →
            ∃ f ∈ n.fronts, (before.map Leaf.item).getLast?.or front = some f
  | .leaf token, _, σ, front, _, hfollows, before, behind, leaf, n, hleaves, hn => by
    rw [Tree.leaves] at hleaves
    obtain ⟨rfl, rfl, -⟩ : before = [] ∧ leaf = ⟨token, _, σ.named?⟩ ∧ behind = [] := by
      cases before with
      | nil =>
        obtain ⟨hleaf, hbehind⟩ := List.cons.inj hleaves
        exact ⟨rfl, hleaf.symm, hbehind.symm⟩
      | cons => simp at hleaves
    cases σ with
    | naming m =>
      obtain rfl := Option.some.inj hn
      exact hfollows _ rfl
    | declaring | other => cases hn
  | .node r children, item, σ, front, hnext, hfollows, before, behind, leaf, n, hleaves, hn => by
    rw [Tree.leaves] at hleaves
    refine Forest.exists_front children rfl (fun s hs => ?_) hleaves hn
    exact RuleName.follows_first hs hfollows

theorem Forest.exists_front {ss : List Symbol} :
    (forest : Forest ss) → {item : Item} → {σ : Scope} → {front : Option Item} →
      item.rule.symbols.drop item.dot = ss →
        (∀ s ∈ ss.head?, (σ.child item.rule.head s).Follows s front) →
          ∀ {before behind : List Leaf} {leaf : Leaf} {n : Nonterminal},
            forest.leaves item σ = before ++ leaf :: behind → leaf.names? = some n →
              ∃ f ∈ n.fronts, (before.map Leaf.item).getLast?.or front = some f
  | .nil, _, _, _, _, _, before, _, _, _, hleaves, _ => by
    rw [Forest.leaves] at hleaves
    simp at hleaves
  | @Forest.cons s ss first others, item, σ, front, hdrop, hfollows, before, behind, leaf,
      n, hleaves, hn => by
    rw [Forest.leaves] at hleaves
    have hnext := Item.next?_of_drop hdrop
    rcases exists_of_append_eq_append_cons hleaves with ⟨rest, hfirst, -⟩ | ⟨rest, rfl, hothers⟩
    · exact Tree.exists_front first hnext (hfollows s rfl) hfirst hn
    · -- the name is one of the other parts, behind the first
      obtain ⟨l, hl, hends⟩ := first.exists_getLast_leaves (σ.child item.rule.head s) hnext
      have hfollows' : ∀ s' ∈ ss.head?, (σ.child item.rule.head s').Follows s' (some l.item) := by
        intro s' hs'
        refine RuleName.follows_next ?_ hends
        rwa [← Item.drop_advance hdrop, List.head?_drop] at hs'
      obtain ⟨f, hf, hfront⟩ := Forest.exists_front others (Item.drop_advance hdrop) hfollows'
        hothers hn
      refine ⟨f, hf, ?_⟩
      rw [List.map_append, List.getLast?_append, List.getLast?_map (l := first.leaves _ _), hl,
        Option.map_some, ← hfront]
      cases (rest.map Leaf.item).getLast? <;> rfl

end

/-! ## Names are words -/

namespace Scope

/-- Terminals name nothing but in the rules of names, and the values of an enum have a nonterminal
for their names that nothing else has. -/
def Fits (σ : Scope) : Symbol → Prop
  | .terminal _ => σ.named? = none
  | .nonterminal m => ∀ d, σ = naming d → (d = .enumValue ↔ m = .enumValueName)

theorem eq_of_named? {σ : Scope} {n : Nonterminal} (h : σ.named? = some n) : σ = naming n := by
  cases σ with
  | naming d => exact congrArg naming (Option.some.inj h)
  | declaring | other => cases h

theorem named?_child_terminal {m : Nonterminal} (h : m = .name ∨ m = .enumValueName) (σ : Scope)
    {t : Terminal} : (σ.child m (.terminal t)).named? = σ.named? := by
  rcases h with rfl | rfl <;> cases σ <;> rfl

theorem fits_child {m : Nonterminal} (hname : m ≠ .name) (hvalue : m ≠ .enumValueName) (σ : Scope)
    (s : Symbol) : (σ.child m s).Fits s := by
  cases s with
  | terminal t =>
    cases σ with
    | declaring | other => rfl
    | naming d => cases m <;> first | rfl | contradiction
  | nonterminal p =>
    intro d hchild
    cases σ with
    | declaring =>
      simp only [child] at hchild
      split at hchild
      · next hpart =>
        obtain rfl := naming.inj hchild
        cases m <;> simp [Nonterminal.namePart?] at hpart <;> simp [← hpart]
      · split at hchild <;> cases hchild
    | naming d' =>
      simp only [child] at hchild
      -- only in the name of a package a part belongs to the name
      split at hchild <;> first | contradiction | (split at hchild <;> grind)
    | other => cases hchild

end Scope

namespace RuleName

/-- Names are single words. -/
theorem exists_terminal {r : RuleName} (h : r.head = .name ∨ r.head = .enumValueName) :
    ∃ t, r.symbols = [.terminal t] := by
  have hall {m : Nonterminal} (hm : m = .name ∨ m = .enumValueName) :
      ∀ q ∈ rules m, ∃ t, q.symbols = [.terminal t] := by
    rcases hm with rfl | rfl <;> simp [rules]
  exact hall h r.rule (List.getElem_mem _)

end RuleName

/-- The only token of a word. -/
theorem Forest.leaves_terminal {t : Terminal} {ss : List Symbol} (h : ss = [.terminal t])
    (forest : Forest ss) (item : Item) (σ : Scope) : ∃ token : Token, token.terminal = t ∧
      forest.leaves item σ =
        [⟨token, item.advance, (σ.child item.rule.head (.terminal t)).named?⟩] := by
  subst h
  match forest with
  | .cons (.leaf token) .nil =>
    refine ⟨token, rfl, ?_⟩
    rw [leaves, leaves, Tree.leaves]
    rfl

mutual

/-- A name is read by a rule for names, and only the values of an enum have one of their own. -/
theorem Tree.item_of_names {s : Symbol} :
    (tree : Tree s) → {item : Item} → {σ : Scope} → σ.Fits s →
      ∀ l ∈ tree.leaves item σ, ∀ n, l.names? = some n → ∃ r : RuleName, l.item = ⟨r, 1⟩ ∧
        r.symbols = [.terminal l.token.terminal] ∧ (r.head = .name ∨ r.head = .enumValueName) ∧
          (n = .enumValue ↔ r.head = .enumValueName)
  | .leaf token, item, σ, hfits, l, hl, n, hn => by
    rw [Tree.leaves, List.mem_singleton] at hl
    rw [hl] at hn
    cases hfits.symm.trans hn
  | .node r children, item, σ, hfits, l, hl, n, hn => by
    rw [Tree.leaves] at hl
    by_cases hword : r.head = .name ∨ r.head = .enumValueName
    · obtain ⟨t, ht⟩ := RuleName.exists_terminal hword
      obtain ⟨token, rfl, hsingle⟩ := children.leaves_terminal ht ⟨r, 0⟩ σ
      rw [hsingle, List.mem_singleton] at hl
      subst hl
      have hnamed : σ.named? = some n := (σ.named?_child_terminal hword).symm.trans hn
      exact ⟨r, rfl, ht, hword, hfits n (Scope.eq_of_named? hnamed)⟩
    · rw [not_or] at hword
      exact Forest.item_of_names children hword.1 hword.2 l hl n hn

theorem Forest.item_of_names {ss : List Symbol} :
    (forest : Forest ss) → {item : Item} → {σ : Scope} →
      item.rule.head ≠ .name → item.rule.head ≠ .enumValueName →
        ∀ l ∈ forest.leaves item σ, ∀ n, l.names? = some n → ∃ r : RuleName, l.item = ⟨r, 1⟩ ∧
          r.symbols = [.terminal l.token.terminal] ∧
            (r.head = .name ∨ r.head = .enumValueName) ∧
              (n = .enumValue ↔ r.head = .enumValueName)
  | .nil, _, _, _, _, l, hl, _, _ => by
    rw [Forest.leaves] at hl
    cases hl
  | .cons (s := s) first others, item, σ, hname, hvalue, l, hl, n, hn => by
    rw [Forest.leaves, List.mem_append] at hl
    exact hl.elim
      (fun hl => Tree.item_of_names first (Scope.fits_child hname hvalue σ s) l hl n hn)
      (fun hl => @Forest.item_of_names _ others item.advance _ hname hvalue l hl n hn)

end

/-! ## What follows the name of a value -/

namespace RuleName

/-- The name of a value of an enum stands in front of an equals sign. -/
theorem getElem?_succ_of_enumValueName {r : RuleName} {d : Nat}
    (h : r.symbols[d]? = some (.nonterminal .enumValueName)) :
    r.symbols[d + 1]? = some (.terminal (.mark .equal)) := by
  have hall : (all.all fun r => (List.range r.symbols.length).all fun d =>
      r.symbols[d]? != some (.nonterminal .enumValueName) ||
        r.symbols[d + 1]? == some (.terminal (.mark .equal))) = true := by
    decide +kernel
  have hd := List.mem_range.mpr (List.getElem?_eq_some_iff.mp h).1
  have hr := List.all_eq_true.mp (List.all_eq_true.mp hall r r.mem_all) d hd
  rw [h, bne_self_eq_false, Bool.false_or] at hr
  exact eq_of_beq hr

end RuleName

theorem Forest.head?_leaves_terminal {t : Terminal} {ss : List Symbol}
    (forest : Forest (.terminal t :: ss)) (item : Item) (σ : Scope) :
    ∃ l ∈ (forest.leaves item σ).head?, l.token.terminal = t := by
  match forest with
  | .cons (.leaf token) others =>
    rw [leaves, Tree.leaves]
    exact ⟨_, rfl, rfl⟩

mutual

/-- Behind the name of a value of an enum stands an equals sign, unless the name is the whole. -/
theorem Tree.equal_behind {s : Symbol} :
    (tree : Tree s) → {item : Item} → {σ : Scope} → σ.Fits s →
      ∀ {before behind : List Leaf} {leaf : Leaf}, tree.leaves item σ = before ++ leaf :: behind →
        leaf.names? = some .enumValue → s = .nonterminal .enumValueName ∧ behind = [] ∨
          ∃ l ∈ behind.head?, l.token.terminal = .mark .equal
  | .leaf token, item, σ, hfits, before, behind, leaf, hleaves, hn => by
    rw [Tree.leaves] at hleaves
    have hmem : leaf ∈ [Leaf.mk token item.advance σ.named?] :=
      hleaves ▸ List.mem_append_right _ List.mem_cons_self
    rw [List.mem_singleton.mp hmem] at hn
    cases hfits.symm.trans hn
  | .node r children, item, σ, hfits, before, behind, leaf, hleaves, hn => by
    rw [Tree.leaves] at hleaves
    by_cases hword : r.head = .name ∨ r.head = .enumValueName
    · obtain ⟨t, ht⟩ := RuleName.exists_terminal hword
      obtain ⟨token, -, hsingle⟩ := children.leaves_terminal ht ⟨r, 0⟩ σ
      obtain ⟨rfl, hleaf⟩ | ⟨-, hnil⟩ :=
        List.append_eq_singleton_iff.mp (hleaves.symm.trans hsingle)
      · obtain ⟨rfl, rfl⟩ := List.cons.inj hleaf
        have hnamed : σ.named? = some .enumValue := (σ.named?_child_terminal hword).symm.trans hn
        exact .inl ⟨congrArg _ ((hfits _ (Scope.eq_of_named? hnamed)).mp rfl), rfl⟩
      · cases hnil
    · rw [not_or] at hword
      exact .inr (Forest.equal_behind children rfl hword.1 hword.2 hleaves hn)

theorem Forest.equal_behind {ss : List Symbol} :
    (forest : Forest ss) → {item : Item} → {σ : Scope} → item.rule.symbols.drop item.dot = ss →
      item.rule.head ≠ .name → item.rule.head ≠ .enumValueName →
        ∀ {before behind : List Leaf} {leaf : Leaf},
          forest.leaves item σ = before ++ leaf :: behind → leaf.names? = some .enumValue →
            ∃ l ∈ behind.head?, l.token.terminal = .mark .equal
  | .nil, _, _, _, _, _, before, _, _, hleaves, _ => by
    rw [Forest.leaves] at hleaves
    simp at hleaves
  | @Forest.cons s ss first others, item, σ, hdrop, hname, hvalue, before, behind, leaf,
      hleaves, hn => by
    rw [Forest.leaves] at hleaves
    have hdrop' := Item.drop_advance hdrop
    rcases exists_of_append_eq_append_cons hleaves with ⟨rest, hfirst, rfl⟩ | ⟨rest, -, hothers⟩
    · have hfits := Scope.fits_child hname hvalue σ s
      rcases Tree.equal_behind first hfits hfirst hn with ⟨rfl, rfl⟩ | ⟨l, hl, hequal⟩
      · have hnext := RuleName.getElem?_succ_of_enumValueName (Item.next?_of_drop hdrop)
        have hhead : ss.head? = some (.terminal (.mark .equal)) := by
          rw [← hdrop', List.head?_drop]
          exact hnext
        obtain ⟨ss, rfl⟩ := List.head?_eq_some_iff.mp hhead
        exact others.head?_leaves_terminal item.advance σ
      · exact ⟨l, by rw [List.head?_append, hl]; rfl, hequal⟩
    · exact Forest.equal_behind others hdrop' hname hvalue hothers hn

end

end ProtoSchema
