import ProtoSchema.Proofs.Grammar.Acceptance

/-!
# What a state accepts

The states on the stack are those that the symbols on it lead to (`Stack.Valid`). So a state accepts
whatever leads on behind the reductions that are made before a token is shifted
(`Stack.accepts_of_settle_edge`): what is refused before the reductions is refused behind them.

Where one lexeme could be read as two terminals, the longer of which is not accepted, little is
accepted behind the shorter one (`Kernel.isCautious_all`).
-/

namespace ProtoSchema

open Exploration

/-! ## Valid stacks -/

namespace Stack

/-- Every state on the stack is the one that the symbol in front of it leads to. -/
def Valid : Stack → Prop
  | [] => True
  | f :: fs => complete.target? (state fs) f.symbol = some f.state ∧ Valid fs

variable {stack below : Stack} {x : Expectation} {t : Terminal} {j : Nat}

/-- The symbols of the upper part of a valid stack lead from the lower part to the top. -/
theorem Valid.walk {upper : List Frame} (h : Valid (upper ++ below)) :
    Valid below ∧ complete.walk? below.state (upper.reverse.map Frame.symbol) =
      some (state (upper ++ below)) := by
  induction upper with
  | nil => exact ⟨h, rfl⟩
  | cons f upper ih =>
    obtain ⟨hbelow, hwalk⟩ := ih h.2
    have htarget : complete.target? (state (upper ++ below)) f.symbol = some f.state := h.1
    refine ⟨hbelow, ?_⟩
    rw [List.reverse_cons, List.map_append, walk_append, hwalk, Option.bind_some,
      List.map_singleton, walk?, htarget]
    rfl

/-- What is popped is the upper part of the stack. -/
theorem exists_upper_of_pop? {r : RuleName} {children : Forest r.symbols}
    (h : stack.pop? r = some (children, below)) :
    ∃ upper : List Frame, stack = upper ++ below ∧
      upper.reverse.map Frame.symbol = r.symbols := by
  obtain ⟨forest, hforest, heq⟩ := Option.map_eq_some_iff.mp h
  obtain ⟨-, rfl⟩ := Prod.mk.inj heq
  exact ⟨_, (List.take_append_drop _ _).symm, Forest.map_symbol_of_ofFrames? hforest⟩

theorem Valid.of_pop? (hvalid : stack.Valid) {r : RuleName} {children : Forest r.symbols}
    (h : stack.pop? r = some (children, below)) :
    below.Valid ∧ complete.walk? below.state r.symbols = some stack.state := by
  obtain ⟨upper, rfl, hsymbols⟩ := exists_upper_of_pop? h
  exact hsymbols ▸ hvalid.walk

theorem target_of_goto? {i : Nat} {n : Nonterminal} (h : Automaton.goto? i n = some j) :
    complete.target? i (.nonterminal n) = some j := by
  cases hs : complete.sets[i]? with
  | none =>
    rw [Automaton.goto?, Automaton.state_of_none hs] at h
    cases h
  | some s => rwa [← Automaton.goto?_eq hs]

/-- What a reduction leaves. -/
theorem exists_of_reduceOnce {lower : { s : Stack // s.weight < stack.weight }}
    (h : stack.reduceOnce x = .inr lower) :
    ∃ (r : RuleName) (children : Forest r.symbols) (base : Stack) (k : Nat),
      r.head ≠ .schemaFile ∧ stack.pop? r = some (children, base) ∧
        complete.target? base.state (.nonterminal r.head) = some k ∧
          lower.1 = ⟨k, _, .node r children⟩ :: base := by
  revert h
  fun_cases reduceOnce stack x with
  | case7 r hstep children base hpop hhead k hgoto =>
    rintro ⟨⟩
    exact ⟨r, children, base, k, hhead, hpop, target_of_goto? hgoto, rfl⟩
  | case1 | case2 | case3 | case4 | case5 | case6 => exact fun h => Sum.inl_ne_inr.elim h

theorem Valid.of_reduceOnce (hvalid : stack.Valid)
    {lower : { s : Stack // s.weight < stack.weight }} (h : stack.reduceOnce x = .inr lower) :
    lower.1.Valid := by
  obtain ⟨r, children, base, k, -, hpop, htarget, hlower⟩ := exists_of_reduceOnce h
  rw [hlower]
  exact ⟨htarget, (hvalid.of_pop? hpop).1⟩

theorem step_of_reduceOnce_shift (h : stack.reduceOnce (some t) = .inl (.shift below j)) :
    below = stack ∧ complete.target? stack.state (.terminal t) = some j := by
  revert h
  fun_cases reduceOnce stack (some t) with
  | case1 target hstep =>
    intro h
    obtain ⟨rfl, rfl⟩ := Settled.shift.inj (Sum.inl.inj h)
    exact ⟨rfl, Automaton.target_of_step_eq_shift hstep⟩
  | case7 => exact fun h => Sum.inr_ne_inl.elim h
  | case2 | case3 | case4 | case5 | case6 => exact fun h => by cases h

/-- Settling leaves a valid stack, on which the token leads on. -/
theorem Valid.of_settle (hvalid : stack.Valid) (h : stack.settle (some t) = .shift below j) :
    below.Valid ∧ complete.target? below.state (.terminal t) = some j := by
  induction stack using settle.induct (some t) with
  | case1 stack settled hend =>
    rw [settle, hend] at h
    obtain rfl := h
    obtain ⟨rfl, htarget⟩ := step_of_reduceOnce_shift hend
    exact ⟨hvalid, htarget⟩
  | case2 stack lower hlower ih =>
    rw [settle, hlower] at h
    exact ih (hvalid.of_reduceOnce hlower) h

/-! ## Reductions before a shift -/

/-- A reduction on a valid stack where something follows what is reduced. -/
def ReducesBefore (stack : Stack) (u : Terminal) : Prop :=
  ∃ (r : RuleName) (children : Forest r.symbols) (base : Stack),
    r.head ≠ .schemaFile ∧ stack.pop? r = some (children, base) ∧
      ⟨base.state, r.head⟩ ∈ complete.sites ∧
        (followAt complete.follow ⟨base.state, r.head⟩).contains (some u) = true

/-- Whatever leads on when a token is shifted follows what is reduced before. -/
theorem eq_or_reducesBefore (hvalid : stack.Valid) (h : stack.settle (some t) = .shift below j)
    {u : Terminal} {k : Nat} (hu : complete.target? below.state (.terminal u) = some k) :
    stack = below ∨ stack.ReducesBefore u := by
  induction stack using settle.induct (some t) with
  | case1 stack settled hend =>
    rw [settle, hend] at h
    obtain rfl := h
    exact .inl (step_of_reduceOnce_shift hend).1.symm
  | case2 stack lower hlower ih =>
    rw [settle, hlower] at h
    have hlast := ih (hvalid.of_reduceOnce hlower) h
    have hlowerValid := hvalid.of_reduceOnce hlower
    obtain ⟨r, children, base, i, hhead, hpop, htarget, heq⟩ := exists_of_reduceOnce hlower
    obtain ⟨item, hitem, hnext, -⟩ := exists_next_of_target htarget
    have hsite := mem_sites_of_next hitem hnext
    refine .inr ⟨r, children, base, hhead, hpop, hsite, ?_⟩
    rw [heq] at hlast hlowerValid
    rcases hlast with hbelow | ⟨r', children', base', hhead', hpop', hsite', hfollow⟩
    · -- the token is shifted behind this reduction
      rw [← hbelow] at hu
      exact contains_follow_of_targets hsite hhead htarget hu
    · -- the next reduction ends with what this one made
      refine contains_follow_of_ending hsite' ?_ hfollow
      obtain ⟨upper, hstack, hsymbols⟩ := exists_upper_of_pop? hpop'
      cases upper with
      | nil => exact absurd hsymbols.symm (r'.symbols_ne_nil hhead')
      | cons f upper =>
        obtain ⟨rfl, rfl⟩ := List.cons.inj hstack
        rw [List.reverse_cons, List.map_append, List.map_singleton] at hsymbols
        refine mem_endingWith (r := r') rfl ?_ ?_
        · rw [← hsymbols, List.getLast?_concat]
        · rw [← hsymbols, List.dropLast_concat]
          exact (hlowerValid.2.walk).2

/-- A state accepts whatever leads on behind the reductions that are made before a token. -/
theorem accepts_of_settle_edge (hvalid : stack.Valid) (h : stack.settle (some t) = .shift below j)
    {u : Terminal} {k : Nat} (hu : complete.target? below.state (.terminal u) = some k) :
    Automaton.accepts stack.state u = true := by
  rcases eq_or_reducesBefore hvalid h hu with rfl | ⟨r, children, base, -, hpop, hsite, hfollow⟩
  · exact Automaton.accepts_of_target hu
  · have hwalk := (hvalid.of_pop? hpop).2
    have hlt := walk_lt (mem_sites.mp hsite).1 hwalk
    have hfinished := mem_finished.mpr ⟨hlt, hsite, rfl, hwalk⟩
    exact Automaton.accepts_iff.mpr (.inr ⟨_, hfinished, hfollow⟩)

end Stack

/-! ## What may be accepted -/

namespace ItemSet

/-- The terminals that may be read next or follow what has been read. -/
def nexts (s : ItemSet) : List Terminal :=
  s.shifts ++ s.finished.flatMap fun r => r.head.nextTerminals

theorem mem_nexts {s : ItemSet} {t : Terminal} :
    t ∈ s.nexts ↔ (∃ i ∈ s.items, i.next? = some (.terminal t)) ∨
      ∃ r : RuleName, ⟨r, r.symbols.length⟩ ∈ s.items ∧ t ∈ r.head.nextTerminals := by
  simp only [nexts, List.mem_append, mem_shifts, List.mem_flatMap, mem_finished]

/-- Closed sets of the same kernel items have the same items. -/
theorem mem_items_congr {a b : List Item} (h : ∀ i, i ∈ a ↔ i ∈ b) (i : Item) :
    i ∈ (ofKernel a).items ↔ i ∈ (ofKernel b).items := by
  simp only [items, ofKernel, List.mem_append, List.mem_flatMap, List.mem_eraseDups,
    List.mem_filterMap, h]

theorem mem_nexts_congr {a b : List Item} (h : ∀ i, i ∈ a ↔ i ∈ b) (t : Terminal) :
    t ∈ (ofKernel a).nexts ↔ t ∈ (ofKernel b).nexts := by
  simp only [mem_nexts, mem_items_congr h]

end ItemSet

/-- A state accepts nothing but what may be read next or follow what has been read. -/
theorem Automaton.mem_nexts_of_accepts {i : Nat} {s : ItemSet} {t : Terminal}
    (hs : complete.sets[i]? = some s) (h : accepts i t = true) : t ∈ s.nexts := by
  rcases accepts_iff.mp h with ⟨j, hj⟩ | ⟨⟨r, site⟩, hfinished, hfollow⟩
  · exact List.mem_append_left _ (mem_shifts_of_target hs hj)
  · obtain ⟨s', hs', hmem⟩ := complete_sound.holds_of_mem_finished start_of_complete hfinished
    obtain rfl := Option.some.inj (hs.symm.trans hs')
    have hhead : r.head = site.nonterminal := (mem_finished.mp hfinished).2.2.1
    have hprecede := hhead ▸ mayPrecede_of_contains_follow hfollow
    refine ItemSet.mem_nexts.mpr (.inr ⟨r, hmem, ?_⟩)
    exact List.contains_iff_mem.mp hprecede

/-- The terminal that competes with another for its lexemes, and what may be accepted behind the
other where its rival is not: a number may go on behind its digits or open with a point, and a word
behind a keyword. -/
def Terminal.rival? : Terminal → Option (Terminal × List Terminal)
  | .int => some (.float,
      [.mark .comma, .mark .semicolon, .mark .lbracket, .mark .lbrace, .keyword .kwTo])
  | .mark .dot => some (.float, [.name, .mark .lparen])
  | .keyword _ => some (.name, Terminal.all.erase .float)
  | _ => none

/-- Whether little is accepted behind each terminal whose rival cannot be read. -/
def Kernel.isCautious (kernel : List Item) : Bool :=
  let s := ItemSet.ofKernel kernel
  s.shifts.all fun t =>
    match t.rival? with
    | none => true
    | some (rival, nexts) =>
      s.shifts.contains rival ||
        (ItemSet.ofKernel (s.movedOver (.terminal t))).nexts.all nexts.contains

theorem Kernel.isCautious_all : (all.all isCautious) = true := by decide +kernel

/-- Where the rival of a terminal leads nowhere, little is accepted behind the terminal. -/
theorem Automaton.mem_of_accepts_target {i j : Nat} {t rival u : Terminal} {nexts : List Terminal}
    (ht : complete.target? i (.terminal t) = some j) (hrival : t.rival? = some (rival, nexts))
    (hnone : ∀ k, complete.target? i (.terminal rival) ≠ some k) (h : accepts j u = true) :
    u ∈ nexts := by
  obtain ⟨s, s', hs, hs', hmoved⟩ := complete_sound.mem_kernel_of_target ht
  obtain ⟨hset, hkernel⟩ := kernel_mem_all hs
  have hcautious := List.all_eq_true.mp Kernel.isCautious_all s.kernel hkernel
  simp only [Kernel.isCautious, ← hset] at hcautious
  have hall := List.all_eq_true.mp hcautious t (mem_shifts_of_target hs ht)
  rw [hrival, Bool.or_eq_true] at hall
  have hmem := mem_nexts_of_accepts hs' h
  rw [(kernel_mem_all hs').1, ItemSet.mem_nexts_congr hmoved] at hmem
  rcases hall with hall | hall
  · obtain ⟨item, hitem, hnext⟩ := ItemSet.mem_shifts.mp (List.contains_iff_mem.mp hall)
    obtain ⟨k, hk⟩ := exists_target ⟨s, hs, hitem⟩ hnext
    exact absurd hk (hnone k)
  · exact List.contains_iff_mem.mp (List.all_eq_true.mp hall u hmem)

/-- Where the rival of a terminal is not accepted, little is accepted behind the terminal. -/
theorem Stack.mem_of_accepts_shift {stack below : Stack} {j : Nat} {t rival u : Terminal}
    {nexts : List Terminal} (hvalid : stack.Valid) (h : stack.settle (some t) = .shift below j)
    (hrival : t.rival? = some (rival, nexts)) (hnone : Automaton.accepts stack.state rival = false)
    (hu : Automaton.accepts j u = true) : u ∈ nexts := by
  refine Automaton.mem_of_accepts_target (hvalid.of_settle h).2 hrival (fun k hk => ?_) hu
  cases (accepts_of_settle_edge hvalid h hk).symm.trans hnone

/-! ## Keywords without names -/

/-- The keywords that stand somewhere where no name may stand. All others stand only where a name
may stand as well. -/
def Keyword.unguarded : List Keyword :=
  [kwSyntax, kwImport, kwPublic, kwWeak, kwPackage, kwOption, kwMessage, kwEnum, kwService,
   kwExtend, kwGroup, kwTo, kwMax, kwRpc, kwReturns]

/-- Whether names are read next or only unguarded keywords are. -/
def Kernel.isGuarded (kernel : List Item) : Bool :=
  let s := ItemSet.ofKernel kernel
  s.shifts.contains .name ||
    Keyword.all.all fun k => Keyword.unguarded.contains k || !s.shifts.contains (.keyword k)

theorem Kernel.isGuarded_all : (all.all isGuarded) = true := by decide +kernel

/-- A keyword that is shifted where names are not accepted is an unguarded one. -/
theorem Stack.mem_unguarded_of_shift {stack below : Stack} {j : Nat} {k : Keyword}
    (hvalid : stack.Valid) (h : stack.settle (some (.keyword k)) = .shift below j)
    (hname : Automaton.accepts stack.state .name = false) : k ∈ Keyword.unguarded := by
  have htarget := (hvalid.of_settle h).2
  obtain ⟨s, s', hs, -, -⟩ := complete_sound.mem_kernel_of_target htarget
  obtain ⟨hset, hkernel⟩ := kernel_mem_all hs
  have hguarded := List.all_eq_true.mp Kernel.isGuarded_all s.kernel hkernel
  simp only [Kernel.isGuarded, ← hset, Bool.or_eq_true] at hguarded
  rcases hguarded with hguarded | hguarded
  · obtain ⟨item, hitem, hnext⟩ := ItemSet.mem_shifts.mp (List.contains_iff_mem.mp hguarded)
    obtain ⟨i, hi⟩ := exists_target ⟨s, hs, hitem⟩ hnext
    cases (accepts_of_settle_edge hvalid h hi).symm.trans hname
  · have hshifts := List.contains_iff_mem.mpr (mem_shifts_of_target hs htarget)
    have hk := List.all_eq_true.mp hguarded k k.mem_all
    rw [hshifts, Bool.not_true, Bool.or_false] at hk
    exact List.contains_iff_mem.mp hk

end ProtoSchema
