import ProtoSchema.Grammar.Automaton
import Mathlib.Data.List.Nodup
import Mathlib.Data.List.Infix
import Mathlib.Data.List.Forall2
import Mathlib.Data.List.Perm.Subperm

/-!
# Item sets and the edges between them

Exploring starts from one set and expands the sets in their order, so that nothing that is known of
the first sets is ever lost (`Exploration.Extends`). An edge over a symbol leads to exactly the
items whose dot has moved over that symbol (`Exploration.Sound`): whoever follows the symbols of a
rule from a set that holds the rule arrives where the rule has been read
(`Exploration.Sound.holds_of_walk`).
-/

namespace ProtoSchema

namespace Item

theorem mem_ofHead {i : Item} {n : Nonterminal} :
    i ∈ ofHead n ↔ i.rule ∈ RuleName.ofHead n ∧ i.dot = 0 := by
  obtain ⟨rule, dot⟩ := i
  simp [ofHead, eq_comm]

theorem advance_injective : Function.Injective advance := by
  rintro ⟨r, d⟩ ⟨r', d'⟩ h
  simpa [advance] using h

end Item

namespace RuleName

@[simp]
theorem mem_ofHead {r : RuleName} {n : Nonterminal} : r ∈ ofHead n ↔ r.head = n := by
  obtain ⟨head, index⟩ := r
  simp only [ofHead, List.mem_map, List.mem_finRange, true_and]
  constructor
  · rintro ⟨i, hi⟩
    exact (congrArg RuleName.head hi).symm
  · rintro rfl
    exact ⟨index, rfl⟩

theorem nodup_ofHead (n : Nonterminal) : (ofHead n).Nodup :=
  (List.nodup_finRange _).map fun _ _ h => by simpa using h

end RuleName

namespace ItemSet

/-! ## Moves -/

/-- The items of a set behind whose dot a symbol stands, with the dot moved over it. -/
def movedOver (s : ItemSet) (symbol : Symbol) : List Item :=
  (s.items.filter (·.next? = some symbol)).map Item.advance

theorem mem_movedOver {s : ItemSet} {symbol : Symbol} {i : Item} :
    i ∈ s.movedOver symbol ↔ ∃ j ∈ s.items, j.next? = some symbol ∧ i = j.advance := by
  simp [movedOver, and_assoc, eq_comm]

theorem getD_lookup_insertMove (moves : List (Symbol × List Item)) (symbol other : Symbol)
    (item : Item) :
    ((insertMove moves symbol item).lookup other).getD [] =
      (moves.lookup other).getD [] ++ if other = symbol then [item] else [] := by
  induction moves with
  | nil =>
    by_cases h : other = symbol
    · simp [insertMove, h]
    · simp [insertMove, List.lookup_cons, h, beq_eq_false_iff_ne.mpr h]
  | cons move moves ih =>
    obtain ⟨s, kernel⟩ := move
    by_cases hs : s = symbol <;> by_cases h : other = s
    · simp [insertMove, hs, h]
    · simp [insertMove, hs, List.lookup_cons, hs ▸ h, beq_eq_false_iff_ne.mpr (hs ▸ h)]
    · simp [insertMove, hs, h]
    · simp [insertMove, hs, List.lookup_cons, beq_eq_false_iff_ne.mpr h, ih]

/-- Adds the move of an item over the symbol behind its dot. -/
def addMove (moves : List (Symbol × List Item)) (item : Item) : List (Symbol × List Item) :=
  match item.next? with
  | some symbol => insertMove moves symbol item.advance
  | none => moves

/-- A set moves over a symbol to all items whose dot can be moved over it. -/
theorem getD_lookup_moves (s : ItemSet) (symbol : Symbol) :
    (s.moves.lookup symbol).getD [] = s.movedOver symbol := by
  -- to what has been found so far the rest of the items adds its own moves
  suffices h : ∀ (items : List Item) (moves : List (Symbol × List Item)),
      ((items.foldl addMove moves).lookup symbol).getD [] =
      (moves.lookup symbol).getD [] ++
        (items.filter (·.next? = some symbol)).map Item.advance from h s.items []
  intro items
  induction items with
  | nil => simp
  | cons item items ih =>
    intro moves
    rw [List.foldl_cons, ih]
    cases hnext : item.next? with
    | none => simp [addMove, hnext]
    | some next =>
      have hadd : addMove moves item = insertMove moves next item.advance := by
        simp [addMove, hnext]
      rw [hadd, getD_lookup_insertMove]
      by_cases h : symbol = next <;> simp [hnext, h, eq_comm]

theorem insertMove_sublist {moves : List (Symbol × List Item)} {seen : List Item}
    (h : ∀ move ∈ moves, move.2.Sublist seen) (symbol : Symbol) (item : Item) :
    ∀ move ∈ insertMove moves symbol item, move.2.Sublist (seen ++ [item]) := by
  induction moves with
  | nil => simp [insertMove]
  | cons first moves ih =>
    rw [List.forall_mem_cons] at h
    have hseen : seen.Sublist (seen ++ [item]) := List.sublist_append_left _ _
    unfold insertMove
    split
    · refine List.forall_mem_cons.mpr ⟨h.1.append (List.Sublist.refl _), fun move hmove => ?_⟩
      exact (h.2 move hmove).trans hseen
    · exact List.forall_mem_cons.mpr ⟨h.1.trans hseen, ih h.2⟩

/-- Whatever a set moves to consists of its items with the dot moved. -/
theorem sublist_of_mem_moves (s : ItemSet) :
    ∀ move ∈ s.moves, move.2.Sublist (s.items.map Item.advance) := by
  suffices h : ∀ (items : List Item) (moves : List (Symbol × List Item)) (seen : List Item),
      (∀ move ∈ moves, move.2.Sublist seen) →
        ∀ move ∈ items.foldl addMove moves, move.2.Sublist (seen ++ items.map Item.advance) from
    h s.items [] [] (List.forall_mem_nil _)
  intro items
  induction items with
  | nil =>
    intro moves seen h
    simpa using h
  | cons item items ih =>
    intro moves seen h
    rw [List.foldl_cons, List.map_cons, ← List.singleton_append, ← List.append_assoc]
    refine ih _ _ ?_
    unfold addMove
    split
    · exact insertMove_sublist h _ _
    · exact fun move hmove => (h move hmove).trans (List.sublist_append_left _ _)

/-! ## Sets without repetition -/

theorem nodup_eraseDups : (ns : List Nonterminal) → ns.eraseDups.Nodup
  | [] => List.nodup_nil
  | n :: ns => by
    rw [List.eraseDups_cons, List.nodup_cons]
    refine ⟨?_, nodup_eraseDups (ns.filter fun m => !m == n)⟩
    simp [List.mem_eraseDups]
  termination_by ns => ns.length
  decreasing_by exact Nat.lt_succ_of_le (List.length_filter_le _ _)

/-- A set of items that have all been read into holds nothing twice. -/
theorem nodup_items_ofKernel {kernel : List Item} (h : kernel.Nodup)
    (hdot : ∀ i ∈ kernel, 0 < i.dot) : (ofKernel kernel).items.Nodup := by
  refine List.nodup_append.mpr ⟨h, ?_, ?_⟩
  · refine List.nodup_flatMap.mpr ⟨fun n _ => (RuleName.nodup_ofHead n).map ?_, ?_⟩
    · intro r r' hr
      simpa using hr
    · refine (nodup_eraseDups _).imp ?_
      intro n m hne i hn hm
      rw [Item.mem_ofHead, RuleName.mem_ofHead] at hn hm
      exact hne (hn.1.symm.trans hm.1)
  · rintro i hi _ hmem rfl
    obtain ⟨n, -, hn⟩ := List.mem_flatMap.mp hmem
    exact absurd (Item.mem_ofHead.mp hn).2 (hdot i hi).ne'

theorem nodup_items_start : start.items.Nodup := by decide +kernel

theorem sameKernel_self (kernel : List Item) : sameKernel kernel kernel = true := by
  simp [sameKernel]

/-- Kernels that are found to be the same have the same items, unless one is listed twice. -/
theorem mem_iff_of_sameKernel {a b : List Item} (h : sameKernel a b = true) (ha : a.Nodup)
    (i : Item) : i ∈ a ↔ i ∈ b := by
  simp only [sameKernel, Bool.and_eq_true, beq_iff_eq, List.all_eq_true, List.contains_iff_mem] at h
  have hsub : a.Subperm b := List.subperm_of_subset ha h.2
  exact (hsub.perm_of_length_le h.1.ge).mem_iff

/-- What a set moves to lists nothing twice either. -/
theorem nodup_items_of_mem_moves {s : ItemSet} (h : s.items.Nodup) {move : Symbol × List Item}
    (hmove : move ∈ s.moves) : (ofKernel move.2).items.Nodup := by
  have hsub := s.sublist_of_mem_moves move hmove
  refine nodup_items_ofKernel ((h.map Item.advance_injective).sublist hsub) fun i hi => ?_
  obtain ⟨j, -, rfl⟩ := List.mem_map.mp (hsub.subset hi)
  exact Nat.succ_pos _

end ItemSet

/-! ## Exploring -/

namespace Exploration

/-- A later stage of exploring: all that was known is known. -/
structure Extends (e later : Exploration) : Prop where
  sets : ∀ {i : Nat} {s}, e.sets[i]? = some s → later.sets[i]? = some s
  edges : ∀ {i : Nat} {edges}, e.edges[i]? = some edges → later.edges[i]? = some edges

namespace Extends

variable {e later last : Exploration}

theorem refl (e : Exploration) : e.Extends e := ⟨id, id⟩

theorem trans (h : e.Extends later) (h' : later.Extends last) : e.Extends last :=
  ⟨fun hs => h'.sets (h.sets hs), fun hedges => h'.edges (h.edges hedges)⟩

/-- An edge that is known stays. -/
theorem target? (h : e.Extends later) {i j : Nat} {symbol : Symbol}
    (hj : e.target? i symbol = some j) : later.target? i symbol = some j := by
  unfold Exploration.target? at hj ⊢
  cases hedges : e.edges[i]? with
  | none =>
    rw [hedges] at hj
    cases hj
  | some edges => rwa [h.edges hedges, ← hedges]

end Extends

/-! ### Locating a kernel -/

theorem getElem?_locate {sets : Array ItemSet} {i : Nat} {s : ItemSet} (h : sets[i]? = some s)
    (kernel : List Item) : (locate sets kernel).1[i]? = some s := by
  unfold locate
  split
  · exact h
  · rw [Array.getElem?_push, if_neg, h]
    exact (Array.getElem?_eq_some_iff.mp h).1.ne

theorem exists_located (sets : Array ItemSet) (kernel : List Item) :
    ∃ s, (locate sets kernel).1[(locate sets kernel).2]? = some s ∧
      ItemSet.sameKernel s.kernel kernel = true := by
  unfold locate
  split
  · next i hi =>
    obtain ⟨hlt, hsame, -⟩ := Array.findIdx?_eq_some_iff_getElem.mp hi
    exact ⟨_, Array.getElem?_eq_getElem hlt, hsame⟩
  · exact ⟨_, Array.getElem?_push_size, ItemSet.sameKernel_self kernel⟩

theorem mem_locate {sets : Array ItemSet} {kernel : List Item} {s : ItemSet}
    (h : s ∈ (locate sets kernel).1) : s ∈ sets ∨ s = .ofKernel kernel := by
  unfold locate at h
  split at h
  · exact .inl h
  · exact Array.mem_push.mp h

/-! ### Expanding a set -/

/-- Adds the edge of a move. -/
def addEdge (found : Array ItemSet × Array (Symbol × Nat)) (move : Symbol × List Item) :
    Array ItemSet × Array (Symbol × Nat) :=
  ((locate found.1 move.2).1, found.2.push (move.1, (locate found.1 move.2).2))

theorem expand_of_some {e : Exploration} {i : Nat} {s : ItemSet} (h : e.sets[i]? = some s) :
    e.expand i = ⟨(s.moves.foldl addEdge (e.sets, #[])).1,
      e.edges.push (s.moves.foldl addEdge (e.sets, #[])).2.toList⟩ := by
  simp only [expand, h]
  rfl

theorem expand_of_none {e : Exploration} {i : Nat} (h : e.sets[i]? = none) : e.expand i = e := by
  simp only [expand, h]

/-- An edge leads over the symbol of a move to a set of the kernel of that move. -/
def Leads (sets : Array ItemSet) (move : Symbol × List Item) (edge : Symbol × Nat) : Prop :=
  edge.1 = move.1 ∧ ∃ s, sets[edge.2]? = some s ∧ ItemSet.sameKernel s.kernel move.2 = true

/-- Adding the edges of some moves keeps all sets, adds one edge for each move, and adds no sets but
those of the moves. -/
theorem foldl_addEdge (moves : List (Symbol × List Item))
    (found : Array ItemSet × Array (Symbol × Nat)) :
    (∀ {i : Nat} {s}, found.1[i]? = some s → (moves.foldl addEdge found).1[i]? = some s) ∧
    (∃ new, (moves.foldl addEdge found).2.toList = found.2.toList ++ new ∧
      List.Forall₂ (Leads (moves.foldl addEdge found).1) moves new) ∧
    ∀ s ∈ (moves.foldl addEdge found).1,
      s ∈ found.1 ∨ ∃ move ∈ moves, s = .ofKernel move.2 := by
  induction moves generalizing found with
  | nil => exact ⟨id, ⟨[], by simp, .nil⟩, fun s hs => .inl hs⟩
  | cons move moves ih =>
    obtain ⟨hkeep, ⟨new, hnew, hleads⟩, hmem⟩ := ih (addEdge found move)
    refine ⟨fun hs => hkeep (getElem?_locate hs move.2),
      ⟨(move.1, (locate found.1 move.2).2) :: new, ?_, .cons ?_ hleads⟩, fun s hs => ?_⟩
    · rw [List.foldl_cons, hnew, addEdge, Array.toList_push, List.append_assoc,
        List.singleton_append]
    · obtain ⟨s, hs, hsame⟩ := exists_located found.1 move.2
      exact ⟨rfl, s, hkeep hs, hsame⟩
    · rcases hmem s hs with hs | ⟨other, hother, rfl⟩
      · rcases mem_locate hs with hs | rfl
        · exact .inl hs
        · exact .inr ⟨move, List.mem_cons_self, rfl⟩
      · exact .inr ⟨other, List.mem_cons_of_mem _ hother, rfl⟩

theorem extends_expand (e : Exploration) (i : Nat) : e.Extends (e.expand i) := by
  cases h : e.sets[i]? with
  | none =>
    rw [expand_of_none h]
    exact .refl e
  | some s =>
    rw [expand_of_some h]
    refine ⟨(foldl_addEdge s.moves (e.sets, #[])).1, fun {k edges} hedges => ?_⟩
    rw [Array.getElem?_push, if_neg, hedges]
    exact (Array.getElem?_eq_some_iff.mp hedges).1.ne

/-- Nothing is listed twice in a set, and the edges that are known are those of the moves of their
set. -/
structure Sound (e : Exploration) : Prop where
  nodup : ∀ s ∈ e.sets, s.items.Nodup
  edges : ∀ {i : Nat} {edges}, e.edges[i]? = some edges →
    ∃ s, e.sets[i]? = some s ∧ List.Forall₂ (Leads e.sets) s.moves edges

/-- Expanding the first set whose edges are not known is sound. -/
theorem Sound.expand {e : Exploration} (h : e.Sound) {i : Nat} (hi : e.edges.size = i) :
    (e.expand i).Sound := by
  cases hs : e.sets[i]? with
  | none => rwa [expand_of_none hs]
  | some s =>
    rw [expand_of_some hs]
    obtain ⟨hkeep, ⟨new, hnew, hleads⟩, hmem⟩ := foldl_addEdge s.moves (e.sets, #[])
    refine ⟨fun t ht => ?_, fun {k edges} hedges => ?_⟩
    · rcases hmem t ht with ht | ⟨move, hmove, rfl⟩
      · exact h.nodup t ht
      · exact ItemSet.nodup_items_of_mem_moves (h.nodup s (Array.mem_of_getElem? hs)) hmove
    · rw [Array.getElem?_push] at hedges
      split at hedges
      · next hk =>
        obtain rfl := Option.some.inj hedges
        refine ⟨s, hkeep ?_, ?_⟩
        · rw [hk, hi, hs]
        · rw [hnew]
          exact hleads
      · obtain ⟨t, ht, hforall⟩ := h.edges hedges
        refine ⟨t, hkeep ht, hforall.imp ?_⟩
        rintro move edge ⟨hsymbol, u, hu, hsame⟩
        exact ⟨hsymbol, u, hkeep hu, hsame⟩

theorem size_edges_expand {e : Exploration} {i : Nat} (h : e.edges.size = min i e.sets.size) :
    (e.expand i).edges.size = min (i + 1) (e.expand i).sets.size := by
  cases hs : e.sets[i]? with
  | none =>
    have := Array.getElem?_eq_none_iff.mp hs
    rw [expand_of_none hs]
    omega
  | some s =>
    have hi := (Array.getElem?_eq_some_iff.mp hs).1
    have hkept := (Array.getElem?_eq_some_iff.mp ((e.extends_expand i).sets hs)).1
    rw [expand_of_some hs] at hkept ⊢
    rw [Array.size_push, h, Nat.min_eq_left hi.le, Nat.min_eq_left (Nat.succ_le_of_lt hkept)]

/-! ### Following edges -/

/-- An item belongs to the set of a number. -/
def Holds (e : Exploration) (i : Nat) (item : Item) : Prop :=
  ∃ s, e.sets[i]? = some s ∧ item ∈ s.items

theorem Leads.exists_lookup {sets : Array ItemSet} {moves : List (Symbol × List Item)}
    {edges : List (Symbol × Nat)} (h : List.Forall₂ (Leads sets) moves edges) {symbol : Symbol}
    {j : Nat} (hj : edges.lookup symbol = some j) :
    ∃ kernel s, moves.lookup symbol = some kernel ∧ sets[j]? = some s ∧
      ItemSet.sameKernel s.kernel kernel = true := by
  induction h with
  | nil => cases hj
  | @cons move edge _ _ hleads _ ih =>
    obtain ⟨hsymbol, s, hs, hsame⟩ := hleads
    obtain ⟨label, target⟩ := edge
    obtain ⟨_, kernel⟩ := move
    obtain rfl : label = _ := hsymbol
    rw [List.lookup_cons] at hj ⊢
    split at hj
    · obtain rfl := Option.some.inj hj
      exact ⟨kernel, s, rfl, hs, hsame⟩
    · exact ih hj

namespace Sound

variable {e : Exploration} (h : e.Sound) {i j : Nat}
include h

/-- An edge over a symbol leads to the items whose dot has moved over it. -/
theorem mem_kernel_of_target {symbol : Symbol} (hj : e.target? i symbol = some j) :
    ∃ s t, e.sets[i]? = some s ∧ e.sets[j]? = some t ∧
      ∀ item, item ∈ t.kernel ↔ item ∈ s.movedOver symbol := by
  unfold Exploration.target? at hj
  cases hedges : e.edges[i]? with
  | none =>
    rw [hedges] at hj
    cases hj
  | some edges =>
    rw [hedges] at hj
    obtain ⟨s, hs, hforall⟩ := h.edges hedges
    obtain ⟨kernel, t, hkernel, ht, hsame⟩ := Leads.exists_lookup hforall hj
    have hnodup : t.kernel.Nodup := (h.nodup t (Array.mem_of_getElem? ht)).of_append_left
    refine ⟨s, t, hs, ht, fun item => ?_⟩
    rw [ItemSet.mem_iff_of_sameKernel hsame hnodup, ← ItemSet.getD_lookup_moves, hkernel,
      Option.getD_some]

theorem holds_of_target {item : Item} {symbol : Symbol} (hitem : e.Holds i item)
    (hnext : item.next? = some symbol) (hj : e.target? i symbol = some j) :
    e.Holds j item.advance := by
  obtain ⟨s, t, hs, ht, hkernel⟩ := h.mem_kernel_of_target hj
  obtain ⟨_, hs', hmem⟩ := hitem
  obtain rfl := Option.some.inj (hs'.symm.trans hs)
  refine ⟨t, ht, List.mem_append_left _ ((hkernel _).mpr ?_)⟩
  exact ItemSet.mem_movedOver.mpr ⟨item, hmem, hnext, rfl⟩

/-- Following the symbols behind the dot of an item moves the dot over them. -/
theorem holds_of_walk {symbols : List Symbol} {item : Item} (hitem : e.Holds i item)
    (hsymbols : symbols <+: item.rule.symbols.drop item.dot) (hj : e.walk? i symbols = some j) :
    e.Holds j ⟨item.rule, item.dot + symbols.length⟩ := by
  induction symbols generalizing i item with
  | nil =>
    obtain rfl := Option.some.inj hj
    exact hitem
  | cons symbol symbols ih =>
    obtain ⟨k, hk, hj⟩ := Option.bind_eq_some_iff.mp hj
    obtain ⟨rest, hrest⟩ := hsymbols
    have hnext : item.next? = some symbol := by
      rw [Item.next?, ← List.head?_drop, ← hrest]
      rfl
    have hbehind : symbols <+: item.advance.rule.symbols.drop item.advance.dot := by
      refine ⟨rest, ?_⟩
      rw [Item.advance, ← List.tail_drop, ← hrest]
      rfl
    have := ih (h.holds_of_target hitem hnext hk) hbehind hj
    rwa [Item.advance, Nat.add_right_comm] at this

/-- Following the symbols of a rule from where it may begin leads to where it has been read. -/
theorem holds_finished {r : RuleName} (hitem : e.Holds i ⟨r, 0⟩)
    (hj : e.walk? i r.symbols = some j) : e.Holds j ⟨r, r.symbols.length⟩ := by
  simpa using h.holds_of_walk hitem (List.prefix_refl _) hj

end Sound

/-! ### All sets -/

theorem extends_foldl_expand (e : Exploration) (is : List Nat) : e.Extends (is.foldl expand e) := by
  induction is generalizing e with
  | nil => exact .refl e
  | cons i is ih => exact (e.extends_expand i).trans (ih (e.expand i))

/-- What is known once the start has been expanded. -/
def opening : Exploration := expand ⟨#[.start], #[]⟩ 0

theorem opening_extends : opening.Extends complete := by
  unfold complete bound
  rw [List.range_succ_eq_map, List.foldl_cons]
  exact extends_foldl_expand _ _

/-- Exploring in the order of the sets is sound throughout. -/
theorem sound_foldl_range (count : Nat) :
    ((List.range count).foldl expand ⟨#[.start], #[]⟩).Sound ∧
      ((List.range count).foldl expand ⟨#[.start], #[]⟩).edges.size =
        min count ((List.range count).foldl expand ⟨#[.start], #[]⟩).sets.size := by
  induction count with
  | zero =>
    refine ⟨⟨?_, ?_⟩, by simp⟩
    · simp [ItemSet.nodup_items_start]
    · intro i edges hedges
      simp at hedges
  | succ count ih =>
    obtain ⟨hsound, hsize⟩ := ih
    rw [List.range_succ, List.foldl_append, List.foldl_cons, List.foldl_nil]
    refine ⟨?_, size_edges_expand hsize⟩
    cases hs : ((List.range count).foldl expand ⟨#[.start], #[]⟩).sets[count]? with
    | none => rwa [expand_of_none hs]
    | some s =>
      have hcount := (Array.getElem?_eq_some_iff.mp hs).1
      exact hsound.expand (by omega)

theorem complete_sound : complete.Sound := by
  unfold complete
  exact (sound_foldl_range bound).1

end Exploration

end ProtoSchema
