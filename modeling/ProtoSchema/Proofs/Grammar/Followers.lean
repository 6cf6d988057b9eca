import ProtoSchema.Proofs.Grammar.Closure
import ProtoSchema.Proofs.Grammar.Steps

/-!
# What may follow a nonterminal

What follows a nonterminal follows whatever ends it. No nonterminal ends with itself, not even by
way of others, so every nonterminal has a depth below those that it ends (`Nonterminal.depth`), and a
round of inheriting settles the sites of one more depth. Far fewer rounds than are allowed settle
all of them: what follows at a site follows at every site that ends there
(`Exploration.contains_follow_of_ending`).

For each nonterminal the terminals that may follow it anywhere in a file are listed
(`Nonterminal.nextTerminals`), and so are the nonterminals that may end a file. The lookaheads of
the automaton stay within this (`Exploration.mayPrecede_of_contains_follow`).

This is already enough to tell all steps of the automaton apart (`Kernel.isDecided_all`): in no set
have two rules been read, and where one has been read nothing can be shifted that may follow it. So
the automaton has no conflicts, and every rule that has been read is reduced before whatever follows
where it began (`Automaton.step_of_finished`).
-/

namespace ProtoSchema

/-! ## Depths -/

/-- How many nonterminals may at most be ended by a nonterminal, one inside the other. -/
def Nonterminal.depth : Nonterminal → Nat
  | .topItems | .dialectStmt | .fieldOption | .moreOptionNameParts | .messageItem | .oneofItem
  | .extendItem | .moreNumberRanges | .moreReservedNames | .enumItem | .serviceItem
  | .aggregateField => 1
  | .topItem | .optionNamePart | .fieldDecl | .groupDecl | .mapFieldDecl | .oneofDecl | .oneofField
  | .extensionsStmt | .reservedStmt | .numberRange | .enumValue | .rpcDecl | .aggregateValue => 2
  | .importStmt | .packageStmt | .optionStmt | .extensionName | .messageDecl | .extendDecl
  | .enumDecl | .serviceDecl | .rpcBody | .constant | .signedInt | .aggregateList => 3
  | .number | .strings | .aggregate | .fullIdent => 4
  | .stringRun | .moreNames => 5
  | .name => 6
  | _ => 0

/-- Whether what ends a rule is deeper than what the rule makes up. -/
def RuleName.endsDeeper (r : RuleName) : Bool :=
  match r.symbols.getLast? with
  | some (.nonterminal n) => r.head.depth < n.depth
  | _ => true

theorem RuleName.endsDeeper_eq_true (r : RuleName) : r.endsDeeper = true := by
  obtain ⟨head, index⟩ := r
  revert index
  cases head <;> decide

/-- The last nonterminal of a rule is deeper than what the rule makes up. -/
theorem RuleName.depth_lt (r : RuleName) {n : Nonterminal}
    (h : r.symbols.getLast? = some (.nonterminal n)) : r.head.depth < n.depth := by
  have hends := r.endsDeeper_eq_true
  simpa only [endsDeeper, h, decide_eq_true_eq] using hends

namespace Exploration

variable {e : Exploration} {follow : Follow} {edges : List (Site × List Site)}

theorem mem_endingWith_iff {s t : Site} :
    t ∈ e.endingWith s ↔ ∃ r : RuleName, r.head = s.nonterminal ∧
      r.symbols.getLast? = some (.nonterminal t.nonterminal) ∧
        e.walk? s.state r.symbols.dropLast = some t.state := by
  simp only [endingWith, List.mem_filterMap, RuleName.mem_ofHead]
  refine exists_congr fun r => and_congr_right fun _ => ?_
  split
  · next n hlast =>
    rw [hlast, Option.map_eq_some_iff]
    obtain ⟨i, m⟩ := t
    constructor
    · rintro ⟨j, hj, heq⟩
      obtain ⟨rfl, rfl⟩ := Site.mk.inj heq
      exact ⟨rfl, hj⟩
    · rintro ⟨hm, hj⟩
      obtain rfl : n = m := by simpa using hm
      exact ⟨i, hj, rfl⟩
  · next hne => exact ⟨fun h => absurd h (by simp), fun h => absurd h.1 (hne _)⟩

/-! ## One edge -/

theorem size_foldl_inherit (edges : List (Site × List Site)) (follow : Follow) :
    (edges.foldl inherit follow).size = follow.size := by
  induction edges generalizing follow with
  | nil => rfl
  | cons edge edges ih => rw [List.foldl_cons, ih, size_inherit]

/-- Inheriting adds to the targets of an edge what follows at its source, and nothing else. -/
theorem contains_inherit_iff {source s : Site} {targets : List Site} {x : Expectation} :
    (followAt (inherit follow (source, targets)) s).contains x = true ↔
      (followAt follow s).contains x = true ∨
        s ∈ targets ∧ s.index < follow.size ∧ (followAt follow source).contains x = true := by
  constructor
  · induction targets generalizing follow with
    | nil => exact .inl
    | cons first targets ih =>
      intro h
      -- the first target has taken over what follows at the source, which is left as it was
      have hfirst : ∀ t, (followAt (follow.setIfInBounds first.index
          ((followAt follow first).union (followAt follow source))) t).contains x = true →
            (followAt follow t).contains x = true ∨
              t = first ∧ t.index < follow.size ∧ (followAt follow source).contains x = true := by
        intro t ht
        by_cases htf : first = t
        · subst htf
          by_cases hlt : first.index < follow.size
          · rw [followAt_setIfInBounds_self hlt, ExpectationSet.contains_union, Bool.or_eq_true] at ht
            exact ht.imp_right fun hx => ⟨rfl, hlt, hx⟩
          · rw [Array.setIfInBounds_eq_of_size_le (Nat.le_of_not_lt hlt)] at ht
            exact .inl ht
        · rw [followAt_setIfInBounds_ne htf] at ht
          exact .inl ht
      rcases ih h with hs | ⟨hmem, hlt, hsource⟩
      · exact (hfirst s hs).imp_right fun ⟨hs, hlt, hx⟩ => ⟨hs ▸ List.mem_cons_self, hlt, hx⟩
      · rw [Array.size_setIfInBounds] at hlt
        have hx := (hfirst source hsource).elim id (·.2.2)
        exact .inr ⟨List.mem_cons_of_mem _ hmem, hlt, hx⟩
  · rintro (h | ⟨hmem, hlt, h⟩)
    · exact le_inherit _ _ _ _ h
    · exact contains_inherit hmem hlt h

/-! ## One round -/

/-- What follows at the sites above a depth has reached all sites that end there. -/
def Follow.SettledAbove (follow : Follow) (edges : List (Site × List Site)) (depth : Nat) : Prop :=
  ∀ edge ∈ edges, edge.1.nonterminal.depth < depth → ∀ t ∈ edge.2, ∀ x,
    (followAt follow edge.1).contains x = true → (followAt follow t).contains x = true

/-- Edges lead down. -/
def Descends (edges : List (Site × List Site)) : Prop :=
  ∀ edge ∈ edges, ∀ t ∈ edge.2, edge.1.nonterminal.depth < t.nonterminal.depth

variable (hedges : Descends edges) {depth : Nat}
include hedges

/-- A part of a round does not change what is settled already. -/
theorem contains_foldl_inherit_of_settled (hsettled : follow.SettledAbove edges depth)
    {some : List (Site × List Site)} (hsome : some ⊆ edges) {s : Site}
    (hs : s.nonterminal.depth ≤ depth) (x : Expectation) :
    (followAt (some.foldl inherit follow) s).contains x = true ↔
      (followAt follow s).contains x = true := by
  refine ⟨?_, le_foldl_inherit some follow s x⟩
  induction some generalizing follow s x with
  | nil => exact id
  | cons edge some ih =>
    rw [List.cons_subset] at hsome
    have hkept : ∀ t : Site, t.nonterminal.depth ≤ depth → ∀ x,
        (followAt (inherit follow edge) t).contains x = true →
          (followAt follow t).contains x = true := by
      intro t ht x hx
      rcases contains_inherit_iff.mp hx with hx | ⟨hmem, -, hx⟩
      · exact hx
      · have hlt := hedges edge hsome.1 t hmem
        exact hsettled edge hsome.1 (by omega) t hmem x hx
    intro h
    refine hkept s hs x (ih (fun other hother hdepth t ht y hy => ?_) hsome.2 hs x h)
    have hy := hkept other.1 hdepth.le y hy
    exact le_inherit _ _ t y (hsettled other hother hdepth t ht y hy)

/-- A round settles one more depth. -/
theorem Follow.SettledAbove.round (hsettled : follow.SettledAbove edges depth)
    (hbound : ∀ edge ∈ edges, ∀ t ∈ edge.2, t.index < follow.size) :
    Follow.SettledAbove (edges.foldl inherit follow) edges (depth + 1) := by
  intro edge hedge hdepth t ht x hx
  rw [contains_foldl_inherit_of_settled hedges hsettled (List.Subset.refl _) (by omega)] at hx
  exact contains_foldl_inherit hedge ht (hbound edge hedge t ht) hx

/-- Settling settles a depth in every round, and if it ends early it has settled all of them. -/
theorem Follow.SettledAbove.settle (hsettled : follow.SettledAbove edges depth)
    (hbound : ∀ edge ∈ edges, ∀ t ∈ edge.2, t.index < follow.size) (rounds : Nat) :
    Follow.SettledAbove (Exploration.settle rounds edges follow) edges (depth + rounds) := by
  induction rounds generalizing follow depth with
  | zero => exact hsettled
  | succ rounds ih =>
    have hround := hsettled.round hedges hbound
    rw [Exploration.settle]
    split
    · next hsame =>
      rw [hsame] at hround
      have hall : ∀ more, follow.SettledAbove edges (depth + 1 + more) := by
        intro more
        induction more with
        | zero => exact hround
        | succ more ih =>
          have := ih.round hedges hbound
          rwa [hsame] at this
      have := hall rounds
      rwa [Nat.add_right_comm] at this
    · have := ih hround (by simpa only [size_foldl_inherit] using hbound)
      rwa [Nat.add_right_comm] at this

omit hedges

/-! ## All rounds -/

theorem walk_lt {i j : Nat} {symbols : List Symbol} (hi : i < complete.sets.size)
    (h : complete.walk? i symbols = some j) : j < complete.sets.size := by
  induction symbols generalizing i with
  | nil => exact Option.some.inj h ▸ hi
  | cons symbol symbols ih =>
    obtain ⟨k, hk, h⟩ := Option.bind_eq_some_iff.mp h
    obtain ⟨-, t, -, ht, -⟩ := complete_sound.mem_kernel_of_target hk
    exact ih (Array.getElem?_eq_some_iff.mp ht).1 h

/-- The edges along which is inherited. -/
def inheritance (e : Exploration) : List (Site × List Site) := e.sites.map fun s => (s, e.endingWith s)

theorem descends_inheritance : Descends e.inheritance := by
  intro edge hedge t ht
  obtain ⟨s, -, rfl⟩ := List.mem_map.mp hedge
  obtain ⟨r, hr, hlast, -⟩ := mem_endingWith_iff.mp ht
  exact hr ▸ r.depth_lt hlast

/-- What follows at a site follows at the sites whose nonterminal ends there. -/
theorem contains_follow_of_ending {s t : Site} (hs : s ∈ complete.sites)
    (ht : t ∈ complete.endingWith s) {x : Expectation}
    (hx : (followAt complete.follow s).contains x = true) :
    (followAt complete.follow t).contains x = true := by
  have hbound : ∀ edge ∈ complete.inheritance, ∀ t ∈ edge.2, t.index < complete.reading.size := by
    intro edge hedge t ht
    obtain ⟨s, hs, rfl⟩ := List.mem_map.mp hedge
    obtain ⟨r, -, -, hwalk⟩ := mem_endingWith_iff.mp ht
    rw [size_reading]
    exact Site.index_lt (walk_lt (mem_sites.mp hs).1 hwalk)
  have hfirst : complete.reading.SettledAbove complete.inheritance 0 :=
    fun edge _ hdepth => absurd hdepth (Nat.not_lt_zero _)
  have hsettled := hfirst.settle descends_inheritance hbound bound
  have hdepth : s.nonterminal.depth < 0 + bound := by
    cases s.nonterminal <;> decide
  rw [follow_eq_settle] at hx ⊢
  exact hsettled _ (List.mem_map_of_mem hs) hdepth t ht x hx

end Exploration

/-! ## Members of sets -/

namespace ExpectationSet

theorem mem_all (x : Expectation) : x ∈ all := by
  cases x with
  | none => exact List.mem_cons_self
  | some t => exact List.mem_cons_of_mem _ (List.mem_map_of_mem t.mem_all)

/-- Every expectation has a bit of its own. -/
theorem index_injective : Function.Injective index := by
  have h : ∀ x ∈ all, ∀ y ∈ all, index x = index y → x = y := by decide +kernel
  exact fun x y => h x (mem_all x) y (mem_all y)

theorem contains_singleton_iff {x y : Expectation} :
    (singleton x).contains y = true ↔ y = x := by
  rw [← index_injective.eq_iff]
  simp [contains, singleton, Nat.testBit_one_eq_true_iff_self_eq_zero]
  omega

theorem contains_ofList_iff {xs : List Expectation} {x : Expectation} :
    (ofList xs).contains x = true ↔ x ∈ xs := by
  rw [ofList, contains_foldl_union singleton xs empty x]
  simp [contains_singleton_iff]

end ExpectationSet

/-! ## Followers -/

namespace Terminal

/-- What opens an item of a file. -/
def ofFile : List Terminal :=
  [.mark .semicolon, .keyword .kwImport, .keyword .kwPackage, .keyword .kwOption,
   .keyword .kwMessage, .keyword .kwEnum, .keyword .kwService, .keyword .kwExtend]

/-- What opens a type. -/
def ofType : List Terminal := [.name, .mark .dot]

/-- What opens an item of an extend block. -/
def ofExtend : List Terminal :=
  ofType ++ [.mark .semicolon, .keyword .kwOptional, .keyword .kwRequired, .keyword .kwRepeated]

/-- What opens an item of a message. -/
def ofMessage : List Terminal :=
  ofExtend ++ [.keyword .kwMap, .keyword .kwOneof, .keyword .kwMessage, .keyword .kwEnum,
    .keyword .kwExtend, .keyword .kwExtensions, .keyword .kwReserved, .keyword .kwOption]

/-- What opens a constant, apart from a list. -/
def ofConstant : List Terminal :=
  ofType ++ [.int, .float, .string, .mark .minus, .mark .plus, .mark .lbrace]

/-- What may stand behind a full name. -/
def behindIdent : List Terminal :=
  [.name, .mark .rparen, .mark .comma, .mark .semicolon, .mark .greater, .mark .lbracket,
   .mark .rbracket, .mark .lbrace, .mark .rbrace]

end Terminal

namespace Nonterminal

open Terminal in
/-- The terminals that may stand behind a nonterminal. -/
def nextTerminals : Nonterminal → List Terminal
  | .schemaFile => []
  | .topItems | .topItem | .dialectStmt | .importStmt | .packageStmt | .serviceDecl => ofFile
  | .importModifier => [.string]
  | .optionStmt => .keyword .kwRpc :: .mark .rbrace :: (ofFile ++ ofMessage)
  | .fieldOptions => [.mark .semicolon, .mark .lbrace]
  | .moreFieldOptions | .fieldOption | .moreAggregateValues => [.mark .comma, .mark .rbracket]
  | .optionName | .enumValueName => [.mark .equal]
  | .moreOptionNameParts | .optionNamePart | .extensionName => [.mark .dot, .mark .equal]
  | .messageDecl | .extendDecl | .enumDecl => .mark .rbrace :: (ofFile ++ ofMessage)
  | .messageItems | .messageItem | .fieldDecl | .groupDecl | .mapFieldDecl | .oneofDecl
  | .extensionsStmt | .reservedStmt => .mark .rbrace :: ofMessage
  | .fieldLabel => .keyword .kwGroup :: ofType
  | .fieldNumber => [.mark .semicolon, .mark .lbracket, .mark .lbrace]
  | .oneofItems | .oneofItem | .oneofField =>
    .mark .semicolon :: .mark .rbrace :: .keyword .kwOption :: ofType
  | .extendItems | .extendItem => .mark .rbrace :: ofExtend
  | .numberRanges => [.mark .semicolon, .mark .lbracket]
  | .moreNumberRanges | .numberRange => [.mark .comma, .mark .semicolon, .mark .lbracket]
  | .reservedNames => [.mark .semicolon]
  | .moreReservedNames => [.mark .comma, .mark .semicolon]
  | .enumItems | .enumItem | .enumValue =>
    [.name, .mark .semicolon, .mark .rbrace, .keyword .kwOption, .keyword .kwReserved]
  | .serviceItems | .serviceItem | .rpcDecl | .rpcBody =>
    [.mark .semicolon, .mark .rbrace, .keyword .kwOption, .keyword .kwRpc]
  | .rpcType => [.mark .rparen]
  | .streamMark => ofType
  | .rpcItems => [.mark .semicolon, .mark .rbrace, .keyword .kwOption]
  | .constant | .number | .strings | .aggregate | .aggregateValue | .aggregateList =>
    [.name, .mark .comma, .mark .semicolon, .mark .lbracket, .mark .rbracket, .mark .rbrace]
  | .sign => [.name, .int, .float]
  | .signedInt => [.mark .comma, .mark .semicolon, .mark .lbracket, .keyword .kwTo]
  | .stringRun =>
    [.name, .string, .mark .comma, .mark .semicolon, .mark .lbracket, .mark .rbracket,
     .mark .rbrace]
  | .aggregateFields | .aggregateField => [.name, .mark .lbracket, .mark .rbrace]
  | .aggregateKey => .mark .colon :: .mark .lbracket :: ofConstant
  | .fullIdent => behindIdent
  | .leadingDot => [.name]
  | .moreNames => .mark .dot :: behindIdent
  | .name =>
    .mark .colon :: .mark .equal :: .mark .lparen :: (ofConstant ++ behindIdent)

/-- The nonterminals behind which a file may end. -/
def lastOfFile : List Nonterminal :=
  [.schemaFile, .topItems, .topItem, .dialectStmt, .importStmt, .packageStmt, .optionStmt,
   .messageDecl, .enumDecl, .serviceDecl, .extendDecl]

/-- Whether a nonterminal may stand in front of a terminal, or of the end of the input. -/
def mayPrecede (n : Nonterminal) : Expectation → Bool
  | none => lastOfFile.contains n
  | some t => n.nextTerminals.contains t

end Nonterminal

/-- Whether what may follow a rule's nonterminal may follow the last part of the rule. -/
def RuleName.handsOn (r : RuleName) : Bool :=
  match r.symbols.getLast? with
  | some (.nonterminal n) => ExpectationSet.all.all fun x => !r.head.mayPrecede x || n.mayPrecede x
  | _ => true

theorem RuleName.handsOn_all : (all.all RuleName.handsOn) = true := by decide +kernel

/-- What may follow the whole of a rule may follow its last part. -/
theorem RuleName.mayPrecede_last {r : RuleName} {n : Nonterminal} {x : Expectation}
    (hlast : r.symbols.getLast? = some (.nonterminal n)) (h : r.head.mayPrecede x = true) :
    n.mayPrecede x = true := by
  have hr := List.all_eq_true.mp handsOn_all r r.mem_all
  rw [handsOn, hlast] at hr
  simpa [h] using List.all_eq_true.mp hr x (ExpectationSet.mem_all x)

namespace Item

/-- The symbol in front of the dot. -/
def last? (i : Item) : Option Symbol :=
  match i.dot with
  | 0 => none
  | d + 1 => i.rule.symbols[d]?

theorem last?_advance (i : Item) : i.advance.last? = i.next? := rfl

/-- Whether all of the rule has been read. -/
def isFinished (i : Item) : Bool := i.dot = i.rule.symbols.length

end Item

namespace ItemSet

/-- The rules that have been read. -/
def finished (s : ItemSet) : List RuleName := (s.items.filter Item.isFinished).map Item.rule

/-- The terminals that may be read next. -/
def shifts (s : ItemSet) : List Terminal :=
  s.items.filterMap fun i =>
    match i.next? with
    | some (.terminal t) => some t
    | _ => none

theorem mem_finished {s : ItemSet} {r : RuleName} :
    r ∈ s.finished ↔ ⟨r, r.symbols.length⟩ ∈ s.items := by
  simp only [finished, List.mem_map, List.mem_filter, Item.isFinished, decide_eq_true_eq]
  constructor
  · rintro ⟨i, ⟨hmem, hdot⟩, rfl⟩
    exact hdot ▸ hmem
  · exact fun h => ⟨_, ⟨h, rfl⟩, rfl⟩

theorem mem_shifts {s : ItemSet} {t : Terminal} :
    t ∈ s.shifts ↔ ∃ i ∈ s.items, i.next? = some (.terminal t) := by
  simp only [shifts, List.mem_filterMap]
  refine exists_congr fun i => and_congr_right fun _ => ?_
  split
  · next u hu => rw [hu, Option.some.injEq, Option.some.injEq, Symbol.terminal.injEq]
  · next hne => exact ⟨nofun, fun h => absurd h (hne t)⟩

end ItemSet

namespace Kernel

/-- Whether everything that may be read behind the nonterminal in front of the dot may follow it. -/
def isForeseen (kernel : List Item) : Bool :=
  let s := ItemSet.ofKernel kernel
  s.items.all fun i =>
    match i.last? with
    | some (.nonterminal n) => s.shifts.all n.nextTerminals.contains
    | _ => true

theorem isForeseen_all : (all.all isForeseen) = true := by decide +kernel

/-- Whether one rule at most has been read and nothing that may follow it can be shifted. -/
def isDecided (kernel : List Item) : Bool :=
  let s := ItemSet.ofKernel kernel
  match s.finished with
  | [] => true
  | [r] => s.shifts.all fun t => !r.head.nextTerminals.contains t
  | _ => false

theorem isDecided_all : (all.all isDecided) = true := by decide +kernel

end Kernel

namespace Exploration

variable {i j : Nat} {x : Expectation}

/-! ## Edges -/

theorem exists_target_of_mem_edges {symbol : Symbol} {k : Nat}
    (h : (symbol, k) ∈ complete.edges[i]?.getD []) : ∃ j, complete.target? i symbol = some j := by
  rw [← Option.isSome_iff_exists, Option.isSome_iff_ne_none]
  intro hnone
  exact absurd rfl (bne_iff_ne.mp (List.lookup_eq_none_iff.mp hnone _ h))

/-- What leads on from a set may be read there. -/
theorem mem_shifts_of_target {s : ItemSet} {t : Terminal} (hs : complete.sets[i]? = some s)
    (h : complete.target? i (.terminal t) = some j) : t ∈ s.shifts := by
  obtain ⟨item, ⟨s', hs', hitem⟩, hnext, -⟩ := exists_next_of_target h
  obtain rfl := Option.some.inj (hs.symm.trans hs')
  exact ItemSet.mem_shifts.mpr ⟨item, hitem, hnext⟩

/-- What leads on behind a nonterminal may follow it. -/
theorem mayPrecede_of_targets {n : Nonterminal} {t : Terminal} {k : Nat}
    (hj : complete.target? i (.nonterminal n) = some j)
    (hk : complete.target? j (.terminal t) = some k) : n.mayPrecede (some t) = true := by
  obtain ⟨item, -, hnext, s, hs, hmem⟩ := exists_next_of_target hj
  obtain ⟨hset, hkernel⟩ := kernel_mem_all hs
  have hforeseen := List.all_eq_true.mp Kernel.isForeseen_all s.kernel hkernel
  simp only [Kernel.isForeseen, ← hset] at hforeseen
  have hitem := List.all_eq_true.mp hforeseen _ hmem
  rw [Item.last?_advance, hnext] at hitem
  exact List.all_eq_true.mp hitem t (mem_shifts_of_target hs hk)

/-! ## Lookaheads -/

/-- Whatever has been found to follow at a site may follow the site's nonterminal. -/
def Follow.Possible (follow : Follow) : Prop :=
  ∀ s x, (followAt follow s).contains x = true → s.nonterminal.mayPrecede x = true

/-- Only sites have been given anything that follows. -/
theorem mem_sites_of_contains_reading {s : Site}
    (h : (followAt complete.reading s).contains x = true) : s ∈ complete.sites := by
  suffices hfold : ∀ (sites : List Site) (follow : Follow),
      (followAt (sites.foldl (fun (follow : Follow) s =>
        follow.setIfInBounds s.index (complete.readsBehind s)) follow) s).contains x = true →
        s ∈ sites ∨ (followAt follow s).contains x = true by
    refine (hfold complete.sites _ h).resolve_right fun hempty => ?_
    unfold followAt at hempty
    rw [Array.getElem?_replicate] at hempty
    split at hempty <;> simp at hempty
  intro sites
  induction sites with
  | nil => exact fun follow h => .inr h
  | cons first sites ih =>
    intro follow h
    by_cases hfirst : first = s
    · exact .inl (hfirst ▸ List.mem_cons_self)
    · rcases ih _ h with hs | hs
      · exact .inl (List.mem_cons_of_mem _ hs)
      · rw [followAt_setIfInBounds_ne hfirst] at hs
        exact .inr hs

theorem possible_reading : Follow.Possible complete.reading := by
  intro s x h
  rw [followAt_reading (mem_sites_of_contains_reading h), readsBehind] at h
  split at h
  · next hfile =>
    obtain rfl := ExpectationSet.contains_singleton_iff.mp h
    rw [hfile]
    rfl
  · split at h
    · simp at h
    · next j hj =>
      obtain ⟨⟨symbol, k⟩, hedge, hx⟩ :=
        List.mem_filterMap.mp (ExpectationSet.contains_ofList_iff.mp h)
      cases symbol with
      | terminal t =>
        obtain rfl := Option.some.inj hx
        obtain ⟨k', hk'⟩ := exists_target_of_mem_edges hedge
        exact mayPrecede_of_targets hj hk'
      | nonterminal n => cases hx

theorem Follow.Possible.inherit {follow : Follow} (h : follow.Possible) (s : Site) :
    Follow.Possible (Exploration.inherit follow (s, complete.endingWith s)) := by
  intro t x ht
  rcases contains_inherit_iff.mp ht with ht | ⟨hmem, -, hs⟩
  · exact h t x ht
  · obtain ⟨r, hr, hlast, -⟩ := mem_endingWith_iff.mp hmem
    exact RuleName.mayPrecede_last hlast (hr ▸ h s x hs)

theorem Follow.Possible.round {follow : Follow} (h : follow.Possible) (sites : List Site) :
    Follow.Possible ((sites.map fun s => (s, complete.endingWith s)).foldl Exploration.inherit
      follow) := by
  induction sites generalizing follow with
  | nil => exact h
  | cons s sites ih => exact ih (h.inherit s)

theorem Follow.Possible.settle {follow : Follow} (h : follow.Possible) (rounds : Nat) :
    Follow.Possible (Exploration.settle rounds complete.inheritance follow) := by
  induction rounds generalizing follow with
  | zero => exact h
  | succ rounds ih =>
    rw [Exploration.settle]
    split
    · exact h
    · exact ih (h.round complete.sites)

/-- Whatever follows at a site may follow the site's nonterminal. -/
theorem mayPrecede_of_contains_follow {s : Site}
    (h : (followAt complete.follow s).contains x = true) : s.nonterminal.mayPrecede x = true :=
  possible_reading.settle bound s x h

/-! ## Finished rules -/

/-- In no set have two rules been read. -/
theorem eq_of_holds_finished {r r' : RuleName} (h : complete.Holds i ⟨r, r.symbols.length⟩)
    (h' : complete.Holds i ⟨r', r'.symbols.length⟩) : r' = r := by
  obtain ⟨s, hs, hr⟩ := h
  obtain ⟨s', hs', hr'⟩ := h'
  obtain rfl := Option.some.inj (hs.symm.trans hs')
  obtain ⟨hset, hkernel⟩ := kernel_mem_all hs
  have hdecided := List.all_eq_true.mp Kernel.isDecided_all s.kernel hkernel
  simp only [Kernel.isDecided, ← hset] at hdecided
  have hr := ItemSet.mem_finished.mpr hr
  have hr' := ItemSet.mem_finished.mpr hr'
  split at hdecided
  · next hnone => simp [hnone] at hr
  · next hone =>
    rw [hone, List.mem_singleton] at hr hr'
    exact hr'.trans hr.symm
  · cases hdecided

/-- Where a rule has been read, nothing leads on that may follow it. -/
theorem target_eq_none_of_finished {r : RuleName} {t : Terminal}
    (h : complete.Holds i ⟨r, r.symbols.length⟩) (ht : r.head.mayPrecede (some t) = true) :
    complete.target? i (.terminal t) = none := by
  rw [Option.eq_none_iff_forall_ne_some]
  intro j hj
  obtain ⟨s, hs, hr⟩ := h
  obtain ⟨hset, hkernel⟩ := kernel_mem_all hs
  have hdecided := List.all_eq_true.mp Kernel.isDecided_all s.kernel hkernel
  simp only [Kernel.isDecided, ← hset] at hdecided
  have hr := ItemSet.mem_finished.mpr hr
  split at hdecided
  · next hnone => simp [hnone] at hr
  · next hone =>
    rw [hone, List.mem_singleton] at hr
    have hshift := List.all_eq_true.mp hdecided t (mem_shifts_of_target hs hj)
    rw [← hr, Bool.not_eq_true'] at hshift
    exact nomatch ht.symm.trans hshift
  · cases hdecided

end Exploration

namespace Automaton

open Exploration

variable {i : Nat}

/-- A rule that has been read is reduced before whatever follows where it began. -/
theorem step_of_finished {next : Expectation} {r : RuleName} {s : Site}
    (hfinished : (r, s) ∈ complete.finished[i]?.getD [])
    (hfollow : (followAt complete.follow s).contains next = true) :
    step i next = .reduce r := by
  have hholds := complete_sound.holds_of_mem_finished start_of_complete hfinished
  have hhead : r.head = s.nonterminal := (mem_finished.mp hfinished).2.2.1
  have hnext := hhead ▸ mayPrecede_of_contains_follow hfollow
  refine step_eq_reduce (fun t ht => ?_) hfinished hfollow fun r' h' =>
    eq_of_holds_finished hholds h'
  exact target_eq_none_of_finished hholds (ht ▸ hnext)

/-- A state accepts what leads on and what follows the rule that has been read there. -/
theorem accepts_iff {t : Terminal} :
    accepts i t = true ↔ (∃ j, complete.target? i (.terminal t) = some j) ∨
      ∃ f ∈ complete.finished[i]?.getD [],
        (followAt complete.follow f.2).contains (some t) = true := by
  constructor
  · intro h
    cases hs : complete.sets[i]? with
    | none =>
      rw [accepts, state_of_none hs] at h
      simp at h
    | some s =>
      rw [accepts, state_eq hs, stateOf, ExpectationSet.contains_foldl_union] at h
      rcases h with h | ⟨⟨r, set⟩, hset, hcontains⟩
      · obtain ⟨⟨symbol, k⟩, hedge, hsymbol⟩ :=
          List.mem_filterMap.mp (ExpectationSet.contains_ofList_iff.mp h)
        cases symbol with
        | terminal u =>
          obtain rfl := Option.some.inj (Option.some.inj hsymbol)
          exact .inl (exists_target_of_mem_edges hedge)
        | nonterminal n => cases hsymbol
      · obtain ⟨site, hfinished, hfollow⟩ := (contains_of_mem_reductionsOf hset _).mp hcontains
        exact .inr ⟨(r, site), hfinished, hfollow⟩
  · rintro (⟨j, hj⟩ | ⟨⟨r, site⟩, hfinished, hfollow⟩)
    · exact accepts_of_target hj
    · have hi := Array.getElem?_eq_getElem (mem_finished.mp hfinished).1
      obtain ⟨set, hset⟩ := exists_mem_reductionsOf.mpr ⟨site, hfinished⟩
      rw [accepts, state_eq hi, stateOf, ExpectationSet.contains_foldl_union]
      exact .inr ⟨(r, set), hset,
        (contains_of_mem_reductionsOf hset _).mpr ⟨site, hfinished, hfollow⟩⟩

end Automaton

end ProtoSchema
