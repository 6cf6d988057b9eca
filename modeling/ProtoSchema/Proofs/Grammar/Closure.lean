import Mathlib
import ProtoSchema.Proofs.Grammar.Exploration
import ProtoSchema.Proofs.Grammar.Lookahead

/-!
# Item sets

A set is reached by reading a symbol, and its kernel are the items right behind that symbol. Nearly
always these are the rules of one nonterminal that begin alike, up to the same place. In a few places
two nonterminals begin alike: where a repetition may go on or end, behind the label of a field or a
group, and behind the two keywords that may name the value of an enum.

The list of these kernels is closed under reading on (`Kernel.mem_all_of_mem_moves`). So it holds
the kernel of every set (`Exploration.kernel_mem_all`), there are fewer sets than steps to explore
them, and an edge leads from every set over every symbol that may be read there
(`Exploration.exists_target`).

A set holds, with nothing read, the rules of every nonterminal that may be read next in it
(`Exploration.holds_of_next`). So the first token of whatever may be read next is accepted where it
begins (`Exploration.exists_target_first`).
-/

namespace ProtoSchema

instance (n : Nonterminal) : NeZero (rules n).length := ⟨by cases n <;> decide⟩

/-- Every rule is listed. -/
theorem RuleName.mem_all (r : RuleName) : r ∈ all :=
  List.mem_flatMap.mpr ⟨r.head, r.head.mem_all, mem_ofHead.mpr rfl⟩

/-- The rules of a nonterminal that begin like the rule of an item, all read up to the same place. -/
def Item.alike (i : Item) : List Item :=
  ((RuleName.ofHead i.rule.head).filter fun r =>
    r.symbols.take i.dot = i.rule.symbols.take i.dot).map fun r => ⟨r, i.dot⟩

/-! ## Kernels -/

namespace Kernel

/-- Rules of two nonterminals that begin alike where both may be read, up to the place where they
do. -/
def forks : List (Item × Item) := [
  -- a repetition behind what stands in front of it, and the same repetition going on
  (⟨⟨.schemaFile, 2⟩, 1⟩, ⟨⟨.topItems, 1⟩, 1⟩),
  (⟨⟨.schemaFile, 0⟩, 2⟩, ⟨⟨.topItems, 1⟩, 1⟩),
  (⟨⟨.fieldOptions, 0⟩, 3⟩, ⟨⟨.moreFieldOptions, 1⟩, 1⟩),
  (⟨⟨.optionName, 0⟩, 2⟩, ⟨⟨.moreOptionNameParts, 1⟩, 1⟩),
  (⟨⟨.messageDecl, 0⟩, 4⟩, ⟨⟨.messageItems, 1⟩, 1⟩),
  (⟨⟨.groupDecl, 2⟩, 7⟩, ⟨⟨.messageItems, 1⟩, 1⟩),
  (⟨⟨.groupDecl, 0⟩, 8⟩, ⟨⟨.messageItems, 1⟩, 1⟩),
  (⟨⟨.oneofDecl, 0⟩, 4⟩, ⟨⟨.oneofItems, 1⟩, 1⟩),
  (⟨⟨.extendDecl, 0⟩, 4⟩, ⟨⟨.extendItems, 1⟩, 1⟩),
  (⟨⟨.numberRanges, 0⟩, 2⟩, ⟨⟨.moreNumberRanges, 1⟩, 1⟩),
  (⟨⟨.reservedNames, 0⟩, 2⟩, ⟨⟨.moreReservedNames, 1⟩, 1⟩),
  (⟨⟨.enumDecl, 0⟩, 4⟩, ⟨⟨.enumItems, 1⟩, 1⟩),
  (⟨⟨.serviceDecl, 0⟩, 4⟩, ⟨⟨.serviceItems, 1⟩, 1⟩),
  (⟨⟨.rpcBody, 1⟩, 2⟩, ⟨⟨.rpcItems, 2⟩, 1⟩),
  (⟨⟨.strings, 0⟩, 1⟩, ⟨⟨.stringRun, 1⟩, 1⟩),
  (⟨⟨.aggregate, 0⟩, 2⟩, ⟨⟨.aggregateFields, 1⟩, 1⟩),
  (⟨⟨.aggregateList, 0⟩, 3⟩, ⟨⟨.moreAggregateValues, 1⟩, 1⟩),
  (⟨⟨.fullIdent, 2⟩, 2⟩, ⟨⟨.moreNames, 1⟩, 1⟩),
  (⟨⟨.fullIdent, 0⟩, 3⟩, ⟨⟨.moreNames, 1⟩, 1⟩),
  -- a field and a group behind their label
  (⟨⟨.fieldDecl, 0⟩, 1⟩, ⟨⟨.groupDecl, 0⟩, 1⟩),
  -- statements of an enum and values that are named like them
  (⟨⟨.optionStmt, 0⟩, 1⟩, ⟨⟨.enumValueName, 1⟩, 1⟩),
  (⟨⟨.reservedStmt, 0⟩, 1⟩, ⟨⟨.enumValueName, 2⟩, 1⟩)]

/-- The kernels with rules of two nonterminals. -/
def joint : List (List Item) := forks.map fun (i, j) => i.alike ++ j.alike

/-- The kernels with rules of one nonterminal. -/
def plain : List (List Item) :=
  RuleName.all.flatMap fun r => (List.range r.symbols.length).map fun d => Item.alike ⟨r, d + 1⟩

/-- Every kernel: that of the start and those behind a symbol. -/
def all : List (List Item) := Item.ofHead .schemaFile :: (joint ++ plain)

/-- Whether a list is one of the kernels behind a symbol, which its first item tells. -/
def isListed : List Item → Bool
  | [] => false
  | i :: is =>
    decide (0 < i.dot ∧ i.dot ≤ i.rule.symbols.length ∧ i.alike = i :: is) || joint.contains (i :: is)

theorem mem_all_of_isListed {kernel : List Item} (h : isListed kernel = true) : kernel ∈ all := by
  cases kernel with
  | nil => cases h
  | cons i is =>
    simp only [isListed, Bool.or_eq_true, decide_eq_true_eq, List.contains_iff_mem] at h
    refine List.mem_cons_of_mem _ (List.mem_append.mpr ?_)
    rcases h with ⟨hpos, hle, halike⟩ | hjoint
    · refine .inr (List.mem_flatMap.mpr ⟨i.rule, i.rule.mem_all, List.mem_map.mpr ?_⟩)
      refine ⟨i.dot - 1, List.mem_range.mpr (by omega), ?_⟩
      rw [← halike, Nat.sub_add_cancel hpos]
    · exact .inl hjoint

theorem isListed_moves :
    (all.all fun kernel => (ItemSet.ofKernel kernel).moves.all fun move => isListed move.2) = true := by
  decide +kernel

/-- Reading a symbol leads from a kernel to a kernel. -/
theorem mem_all_of_mem_moves {kernel : List Item} (h : kernel ∈ all) {move : Symbol × List Item}
    (hmove : move ∈ (ItemSet.ofKernel kernel).moves) : move.2 ∈ all :=
  mem_all_of_isListed (List.all_eq_true.mp (List.all_eq_true.mp isListed_moves kernel h) move hmove)

theorem length_all : all.length = 419 := by decide +kernel

end Kernel

/-! ## Every set has been explored -/

namespace Exploration

/-- A kernel that is located is found in one set only. -/
theorem nodup_locate {sets : Array ItemSet} (h : (sets.toList.map ItemSet.kernel).Nodup)
    (kernel : List Item) : ((locate sets kernel).1.toList.map ItemSet.kernel).Nodup := by
  unfold locate
  split
  · exact h
  · next hnone =>
    rw [Array.toList_push, List.map_append, List.map_singleton, List.nodup_append]
    refine ⟨h, List.nodup_singleton _, ?_⟩
    rintro _ hmem _ hlast rfl
    obtain ⟨s, hs, hfirst⟩ := List.mem_map.mp hmem
    have hkernel : s.kernel = kernel := hfirst.trans (List.mem_singleton.mp hlast)
    have hdiffer := Array.findIdx?_eq_none_iff.mp hnone s (Array.mem_toList_iff.mp hs)
    rw [hkernel, ItemSet.sameKernel_self] at hdiffer
    cases hdiffer

theorem nodup_foldl_addEdge (moves : List (Symbol × List Item))
    (found : Array ItemSet × Array (Symbol × Nat))
    (h : (found.1.toList.map ItemSet.kernel).Nodup) :
    ((moves.foldl addEdge found).1.toList.map ItemSet.kernel).Nodup := by
  induction moves generalizing found with
  | nil => exact h
  | cons move moves ih => exact ih _ (nodup_locate h move.2)

/-- The sets are those of kernels, and no two of them have the same. -/
structure Listed (e : Exploration) : Prop where
  nodup : (e.sets.toList.map ItemSet.kernel).Nodup
  listed : ∀ s ∈ e.sets, s = .ofKernel s.kernel ∧ s.kernel ∈ Kernel.all

theorem Listed.expand {e : Exploration} (h : e.Listed) (i : Nat) : (e.expand i).Listed := by
  cases hs : e.sets[i]? with
  | none => rwa [expand_of_none hs]
  | some s =>
    rw [expand_of_some hs]
    refine ⟨nodup_foldl_addEdge s.moves _ h.nodup, fun t ht => ?_⟩
    obtain ⟨-, -, hmem⟩ := foldl_addEdge s.moves (e.sets, #[])
    rcases hmem t ht with ht | ⟨move, hmove, rfl⟩
    · exact h.listed t ht
    · obtain ⟨hset, hkernel⟩ := h.listed s (Array.mem_of_getElem? hs)
      rw [hset] at hmove
      exact ⟨rfl, Kernel.mem_all_of_mem_moves hkernel hmove⟩

theorem listed_foldl_expand {e : Exploration} (h : e.Listed) (is : List Nat) :
    (is.foldl expand e).Listed := by
  induction is generalizing e with
  | nil => exact h
  | cons i is ih => exact ih (h.expand i)

theorem complete_listed : complete.Listed := by
  unfold complete
  refine listed_foldl_expand ⟨by simp, fun s hs => ?_⟩ _
  obtain rfl : s = .start := by simpa using hs
  exact ⟨rfl, List.mem_cons_self⟩

/-- Every set is the set of a kernel. -/
theorem kernel_mem_all {i : Nat} {s : ItemSet} (h : complete.sets[i]? = some s) :
    s = .ofKernel s.kernel ∧ s.kernel ∈ Kernel.all :=
  complete_listed.listed s (Array.mem_of_getElem? h)

theorem size_sets_le : complete.sets.size ≤ bound := by
  have hsub : complete.sets.toList.map ItemSet.kernel ⊆ Kernel.all := by
    intro kernel hkernel
    obtain ⟨s, hs, rfl⟩ := List.mem_map.mp hkernel
    exact (complete_listed.listed s (Array.mem_toList_iff.mp hs)).2
  have hle := (List.subperm_of_subset complete_listed.nodup hsub).length_le
  rw [List.length_map, Array.length_toList, Kernel.length_all] at hle
  exact hle.trans (by decide)

/-- All sets have been expanded. -/
theorem size_edges_complete : complete.edges.size = complete.sets.size := by
  have h := (sound_foldl_range bound).2
  have hle := size_sets_le
  unfold complete at hle ⊢
  rw [h, Nat.min_eq_right hle]

theorem Leads.exists_lookup_edges {sets : Array ItemSet} {moves : List (Symbol × List Item)}
    {edges : List (Symbol × Nat)} (h : List.Forall₂ (Leads sets) moves edges) {symbol : Symbol}
    {kernel : List Item} (hkernel : moves.lookup symbol = some kernel) :
    ∃ j, edges.lookup symbol = some j := by
  induction h with
  | nil => cases hkernel
  | @cons move edge _ _ hleads _ ih =>
    obtain ⟨label, target⟩ := edge
    obtain ⟨_, first⟩ := move
    obtain rfl : label = _ := hleads.1
    rw [List.lookup_cons] at hkernel ⊢
    split at hkernel
    · exact ⟨target, rfl⟩
    · exact ih hkernel

/-- Over every symbol that may be read in a set an edge leads on. -/
theorem exists_target {i : Nat} {item : Item} {symbol : Symbol} (hitem : complete.Holds i item)
    (hnext : item.next? = some symbol) : ∃ j, complete.target? i symbol = some j := by
  obtain ⟨s, hs, hmem⟩ := hitem
  have hi : i < complete.edges.size := by
    rw [size_edges_complete]
    exact (Array.getElem?_eq_some_iff.mp hs).1
  have hedges := Array.getElem?_eq_getElem hi
  obtain ⟨s', hs', hleads⟩ := complete_sound.edges hedges
  obtain rfl := Option.some.inj (hs.symm.trans hs')
  have hmoved : item.advance ∈ s.movedOver symbol := ItemSet.mem_movedOver.mpr ⟨item, hmem, hnext, rfl⟩
  rw [target?, hedges, Option.getD_some]
  cases hlookup : s.moves.lookup symbol with
  | none =>
    rw [← ItemSet.getD_lookup_moves, hlookup] at hmoved
    cases hmoved
  | some kernel => exact Leads.exists_lookup_edges hleads hlookup

end Exploration

/-! ## Closed sets -/

namespace Nonterminal

/-- A nonterminal is a left corner of itself, and what begins a left corner is one too. -/
theorem leftCorners_closed : ∀ n ∈ all, n ∈ n.leftCorners ∧
    ∀ m ∈ n.leftCorners, ∀ first ∈ m.firstNonterminals, first ∈ n.leftCorners := by
  decide +kernel

theorem mem_leftCorners_self (n : Nonterminal) : n ∈ n.leftCorners :=
  (leftCorners_closed n n.mem_all).1

theorem mem_leftCorners_of_first {n m first : Nonterminal} (hm : m ∈ n.leftCorners)
    (hfirst : first ∈ m.firstNonterminals) : first ∈ n.leftCorners :=
  (leftCorners_closed n n.mem_all).2 m hm first hfirst

theorem lookup_leftCornerTable (n : Nonterminal) :
    leftCornerTable.lookup n = some n.leftCorners := by
  suffices h : ∀ ns : List Nonterminal, n ∈ ns →
      (ns.map fun m => (m, m.leftCorners)).lookup n = some n.leftCorners from h all n.mem_all
  intro ns hn
  induction ns with
  | nil => cases hn
  | cons m ns ih =>
    rw [List.map_cons, List.lookup_cons]
    by_cases hm : n = m
    · simp [hm]
    · rw [beq_eq_false_iff_ne.mpr hm]
      exact ih ((List.mem_cons.mp hn).resolve_left hm)

theorem mem_firstNonterminals {n first : Nonterminal} {r : RuleName} (hr : r.head = n)
    (hfirst : r.symbols.head? = some (.nonterminal first)) : first ∈ n.firstNonterminals := by
  refine List.mem_filterMap.mpr ⟨⟨r, 0⟩, Item.mem_ofHead.mpr ⟨RuleName.mem_ofHead.mpr hr, rfl⟩, ?_⟩
  rw [Item.nextNonterminal?, Item.next?, ← List.head?_eq_getElem?, hfirst]

end Nonterminal

/-! ## Rules -/

/-- Only a whole file may be empty. -/
theorem RuleName.symbols_ne_nil (r : RuleName) (h : r.head ≠ .schemaFile) : r.symbols ≠ [] := by
  obtain ⟨head, index⟩ := r
  revert index
  cases head <;> first | exact absurd rfl h | decide

/-- No rule has a whole file in it. -/
theorem RuleName.schemaFile_notMem (r : RuleName) : .nonterminal .schemaFile ∉ r.symbols := by
  obtain ⟨head, index⟩ := r
  revert index
  cases head <;> decide

theorem Item.nextNonterminal?_eq_some {i : Item} {n : Nonterminal} :
    i.nextNonterminal? = some n ↔ i.next? = some (.nonterminal n) := by
  unfold nextNonterminal?
  split
  · next m hm => rw [hm, Option.some.injEq, Option.some.injEq, Symbol.nonterminal.injEq]
  · next hne => exact ⟨nofun, fun h => absurd h (hne n)⟩

theorem Item.next?_ne_schemaFile (i : Item) : i.next? ≠ some (.nonterminal .schemaFile) :=
  fun h => i.rule.schemaFile_notMem (List.mem_of_getElem? h)

namespace ItemSet

theorem mem_corners_ofKernel {kernel : List Item} {n : Nonterminal} :
    n ∈ (ofKernel kernel).corners ↔
      ∃ i ∈ kernel, ∃ m, i.next? = some (.nonterminal m) ∧ n ∈ m.leftCorners := by
  simp only [ofKernel, List.mem_eraseDups, List.mem_flatMap, List.mem_filterMap,
    Nonterminal.lookup_leftCornerTable, Option.getD_some, Item.nextNonterminal?_eq_some]
  constructor
  · rintro ⟨m, ⟨i, hi, hm⟩, hn⟩
    exact ⟨i, hi, m, hm, hn⟩
  · rintro ⟨i, hi, m, hm, hn⟩
    exact ⟨m, ⟨i, hi, hm⟩, hn⟩

/-- A nonterminal that may be read next in a set is a corner of it. -/
theorem mem_corners_of_next {kernel : List Item} {i : Item} (hi : i ∈ (ofKernel kernel).items)
    {n : Nonterminal} (hnext : i.next? = some (.nonterminal n)) : n ∈ (ofKernel kernel).corners := by
  rcases List.mem_append.mp hi with hkernel | hcorner
  · exact mem_corners_ofKernel.mpr ⟨i, hkernel, n, hnext, n.mem_leftCorners_self⟩
  · obtain ⟨m, hm, hi⟩ := List.mem_flatMap.mp hcorner
    obtain ⟨j, hj, first, hfirst, hmem⟩ := mem_corners_ofKernel.mp hm
    obtain ⟨hrule, hdot⟩ := Item.mem_ofHead.mp hi
    rw [Item.next?, hdot, ← List.head?_eq_getElem?] at hnext
    have hbegins := Nonterminal.mem_firstNonterminals (RuleName.mem_ofHead.mp hrule) hnext
    exact mem_corners_ofKernel.mpr
      ⟨j, hj, first, hfirst, Nonterminal.mem_leftCorners_of_first hmem hbegins⟩

end ItemSet

namespace Exploration

theorem start_of_complete : complete.sets[0]? = some .start :=
  opening_extends.sets ((extends_expand _ 0).sets rfl)

variable {i j : Nat} {item : Item} {n : Nonterminal}

/-- What may be read next in a set begins there. -/
theorem mem_sites_of_next (hitem : complete.Holds i item)
    (hnext : item.next? = some (.nonterminal n)) : ⟨i, n⟩ ∈ complete.sites := by
  obtain ⟨s, hs, hmem⟩ := hitem
  have hset := (kernel_mem_all hs).1
  rw [hset] at hmem
  refine mem_sites.mpr ⟨(Array.getElem?_eq_some_iff.mp hs).1, .inr ?_⟩
  rw [hs, Option.map_some, Option.getD_some, hset]
  exact ItemSet.mem_corners_of_next hmem hnext

/-- A set holds all rules of what may be read next in it. -/
theorem holds_of_next (hitem : complete.Holds i item)
    (hnext : item.next? = some (.nonterminal n)) {r : RuleName} (hr : r.head = n) :
    complete.Holds i ⟨r, 0⟩ :=
  holds_of_mem_sites start_of_complete (mem_sites_of_next hitem hnext) hr

/-- Where an edge leads on over a nonterminal, that may be read next. -/
theorem exists_next_of_target {symbol : Symbol} (h : complete.target? i symbol = some j) :
    ∃ item, complete.Holds i item ∧ item.next? = some symbol ∧ complete.Holds j item.advance := by
  obtain ⟨s, t, hs, ht, hkernel⟩ := complete_sound.mem_kernel_of_target h
  -- no kernel is empty, so some item has been moved
  have hne : t.kernel ≠ [] := by
    have hmem := (kernel_mem_all ht).2
    intro hnil
    rw [hnil] at hmem
    exact absurd hmem (by decide +kernel)
  obtain ⟨moved, hmoved⟩ := List.exists_mem_of_ne_nil _ hne
  obtain ⟨item, hitem, hnext, rfl⟩ := ItemSet.mem_movedOver.mp ((hkernel moved).mp hmoved)
  exact ⟨item, ⟨s, hs, hitem⟩, hnext, t, ht, List.mem_append_left _ hmoved⟩

mutual

/-- The first token of what may be read next leads on. -/
theorem exists_target_first {s : Symbol} :
    (tree : Tree s) → {item : Item} → complete.Holds i item → item.next? = some s →
      ∃ t ts, tree.tokens = t :: ts ∧ ∃ j, complete.target? i (.terminal t.terminal) = some j
  | .leaf token, _, hitem, hnext => ⟨token, [], rfl, exists_target hitem hnext⟩
  | .node r children, item, hitem, hnext => by
    have hhead : r.head ≠ .schemaFile := fun h => item.next?_ne_schemaFile (h ▸ hnext)
    rw [Tree.tokens]
    exact exists_target_first_forest children (holds_of_next hitem hnext rfl) rfl
      (r.symbols_ne_nil hhead)

theorem exists_target_first_forest {ss : List Symbol} :
    (forest : Forest ss) → {item : Item} → complete.Holds i item →
      item.rule.symbols.drop item.dot = ss → ss ≠ [] →
        ∃ t ts, forest.tokens = t :: ts ∧ ∃ j, complete.target? i (.terminal t.terminal) = some j
  | .nil, _, _, _, hne => absurd rfl hne
  | .cons (s := s) first others, item, hitem, hsymbols, _ => by
    have hnext : item.next? = some s := by
      rw [Item.next?, ← List.head?_drop, hsymbols, List.head?_cons]
    obtain ⟨t, ts, htokens, htarget⟩ := exists_target_first first hitem hnext
    exact ⟨t, ts ++ others.tokens, by rw [Forest.tokens, htokens, List.cons_append], htarget⟩

end

end Exploration

end ProtoSchema
