import ProtoSchema.Grammar.Machine
import ProtoSchema.Proofs.Grammar.Closure

/-!
# Steps of the machine

The steps of the automaton in terms of the item sets: an edge over the next terminal is shifted
(`Automaton.step_of_target`), and whatever is reduced has been read
(`Automaton.holds_of_step_eq_reduce`). Settling and running the machine follow these steps.
-/

namespace ProtoSchema

namespace Exploration

/-- A lookahead is what follows at the sites from which the rule is finished. -/
theorem contains_of_mem_reductionsOf {follow : Follow} {finished : List (RuleName × Site)}
    {r : RuleName} {set : ExpectationSet} (h : (r, set) ∈ reductionsOf follow finished)
    (x : Expectation) :
    set.contains x = true ↔ ∃ s, (r, s) ∈ finished ∧ (followAt follow s).contains x = true := by
  obtain ⟨r', -, heq⟩ := List.mem_map.mp h
  obtain ⟨rfl, rfl⟩ := Prod.mk.inj heq
  rw [ExpectationSet.contains_foldl_union]
  simp

theorem exists_mem_reductionsOf {follow : Follow} {finished : List (RuleName × Site)}
    {r : RuleName} :
    (∃ set, (r, set) ∈ reductionsOf follow finished) ↔ ∃ s, (r, s) ∈ finished := by
  simp [reductionsOf, List.mem_eraseDups]

end Exploration

/-! ## Steps of a state -/

/-- What to do in a state on the next token. -/
def State.step (s : State) (next : Expectation) : Automaton.Step :=
  match next.bind fun t => s.edges.lookup (.terminal t) with
  | some j => .shift j
  | none =>
    match s.reductions.find? fun r => r.2.contains next with
    | some (r, _) => .reduce r
    | none => .refuse

theorem State.exists_of_step_eq_reduce {s : State} {next : Expectation} {r : RuleName}
    (h : s.step next = .reduce r) : ∃ set, (r, set) ∈ s.reductions ∧ set.contains next = true := by
  unfold step at h
  split at h
  · cases h
  · split at h
    · next r' set hfind =>
      obtain rfl := Automaton.Step.reduce.inj h
      have hnext := List.find?_some hfind
      exact ⟨set, List.mem_of_find?_eq_some hfind, hnext⟩
    · cases h

/-- Where there is nothing to shift and one rule only that may be reduced, it is reduced before
whatever its lookahead contains. -/
theorem State.step_eq_reduce {s : State} {next : Expectation} {r : RuleName} {set : ExpectationSet}
    (hshift : (next.bind fun t => s.edges.lookup (.terminal t)) = none)
    (hset : (r, set) ∈ s.reductions) (hnext : set.contains next = true)
    (honly : ∀ f ∈ s.reductions, f.1 = r) : s.step next = .reduce r := by
  have hfound : (s.reductions.find? fun f => f.2.contains next).isSome :=
    List.find?_isSome.mpr ⟨_, hset, hnext⟩
  obtain ⟨⟨r', set'⟩, hfind⟩ := Option.isSome_iff_exists.mp hfound
  have hr : r' = r := honly _ (List.mem_of_find?_eq_some hfind)
  rw [step, hshift]
  simp only [hfind, hr]

namespace Automaton

open Exploration

theorem step_eq (i : Nat) (next : Expectation) : step i next = (state i).step next := rfl

theorem state_eq {i : Nat} {s : ItemSet} (h : complete.sets[i]? = some s) :
    state i = stateOf s (complete.edges[i]?.getD [])
      (reductionsOf complete.follow (complete.finished[i]?.getD [])) := by
  obtain ⟨hi, rfl⟩ := Array.getElem?_eq_some_iff.mp h
  unfold state states Exploration.states
  simp [hi]

theorem state_of_none {i : Nat} (h : complete.sets[i]? = none) :
    state i = ⟨⟨[], []⟩, [], [], .empty⟩ := by
  have hi := Array.getElem?_eq_none_iff.mp h
  unfold state states Exploration.states
  simp [Nat.not_lt.mpr hi]

theorem edges_eq {i : Nat} {s : ItemSet} (h : complete.sets[i]? = some s) :
    (state i).edges = complete.edges[i]?.getD [] := by
  rw [state_eq h, stateOf]

theorem goto?_eq {i : Nat} {s : ItemSet} (h : complete.sets[i]? = some s) (n : Nonterminal) :
    goto? i n = complete.target? i (.nonterminal n) := by
  rw [goto?, edges_eq h, target?]

/-- Edges leave known sets only. -/
theorem exists_set_of_target {i j : Nat} {symbol : Symbol}
    (h : complete.target? i symbol = some j) : ∃ s, complete.sets[i]? = some s := by
  obtain ⟨s, -, hs, -⟩ := complete_sound.mem_kernel_of_target h
  exact ⟨s, hs⟩

/-- An edge over the next terminal is shifted. -/
theorem step_of_target {i j : Nat} {t : Terminal} (h : complete.target? i (.terminal t) = some j) :
    step i (some t) = .shift j := by
  obtain ⟨s, hs⟩ := exists_set_of_target h
  rw [target?, ← edges_eq hs] at h
  rw [step_eq, State.step, Option.bind_some, h]

theorem accepts_of_target {i j : Nat} {t : Terminal}
    (h : complete.target? i (.terminal t) = some j) : accepts i t = true := by
  obtain ⟨s, hs⟩ := exists_set_of_target h
  rw [accepts, state_eq hs, stateOf, ExpectationSet.contains_foldl_union]
  refine .inl (ExpectationSet.contains_ofList (List.mem_filterMap.mpr ⟨(.terminal t, j), ?_, rfl⟩))
  obtain ⟨before, behind, hedges, -⟩ := List.lookup_eq_some_iff.mp h
  rw [hedges]
  exact List.mem_append_right _ List.mem_cons_self

/-- A rule is reduced before what follows at a site from which it is finished. -/
theorem exists_finished_of_step_eq_reduce {i : Nat} {next : Expectation} {r : RuleName}
    (h : step i next = .reduce r) :
    ∃ s, (r, s) ∈ complete.finished[i]?.getD [] ∧
      (followAt complete.follow s).contains next = true := by
  rw [step_eq] at h
  obtain ⟨set, hset, hnext⟩ := State.exists_of_step_eq_reduce h
  cases hs : complete.sets[i]? with
  | none =>
    rw [state_of_none hs] at hset
    cases hset
  | some s =>
    rw [state_eq hs] at hset
    exact (contains_of_mem_reductionsOf hset next).mp hnext

/-- Whatever is reduced has been read. -/
theorem holds_of_step_eq_reduce {i : Nat} {next : Expectation} {r : RuleName}
    (h : step i next = .reduce r) : complete.Holds i ⟨r, r.symbols.length⟩ := by
  obtain ⟨s, hfinished, -⟩ := exists_finished_of_step_eq_reduce h
  exact complete_sound.holds_of_mem_finished start_of_complete hfinished

/-- Where one rule only has been read, it is reduced before what follows it. -/
theorem step_eq_reduce {i : Nat} {next : Expectation} {r : RuleName} {s : Site}
    (hshift : ∀ t, next = some t → complete.target? i (.terminal t) = none)
    (hfinished : (r, s) ∈ complete.finished[i]?.getD [])
    (hfollow : (followAt complete.follow s).contains next = true)
    (honly : ∀ r', complete.Holds i ⟨r', r'.symbols.length⟩ → r' = r) :
    step i next = .reduce r := by
  have hi := Array.getElem?_eq_getElem (mem_finished.mp hfinished).1
  obtain ⟨set, hset⟩ : ∃ set, (r, set) ∈ reductionsOf complete.follow _ :=
    exists_mem_reductionsOf.mpr ⟨s, hfinished⟩
  have hnext := (contains_of_mem_reductionsOf hset next).mpr ⟨s, hfinished, hfollow⟩
  rw [step_eq]
  refine State.step_eq_reduce ?_ ?_ hnext ?_
  · cases next with
    | none => rfl
    | some t =>
      rw [Option.bind_some, edges_eq hi]
      exact hshift t rfl
  · rw [state_eq hi]
    exact hset
  · rintro ⟨r', set'⟩ hf
    rw [state_eq hi] at hf
    obtain ⟨s', hs'⟩ := exists_mem_reductionsOf.mp ⟨set', hf⟩
    exact honly r' (complete_sound.holds_of_mem_finished start_of_complete hs')

end Automaton

/-! ## Settling the stack -/

namespace Stack

variable {stack below : Stack} {next : Expectation}

theorem settle_of_shift {j : Nat} (h : Automaton.step stack.state next = .shift j) :
    stack.settle next = .shift stack j := by
  rw [settle, reduceOnce, h]

theorem reduceOnce_of_accept {r : RuleName} {children : Forest r.symbols}
    (h : Automaton.step stack.state none = .reduce r) (hpop : stack.pop? r = some (children, []))
    (hr : r.head = .schemaFile) :
    stack.reduceOnce none = .inl (.accept (hr ▸ .node r children)) := by
  fun_cases reduceOnce stack none with
  | case1 target hstep => cases hstep.symm.trans h
  | case2 hstep => cases hstep.symm.trans h
  | case3 r' hstep hnone =>
    obtain rfl := Automaton.Step.reduce.inj (hstep.symm.trans h)
    cases hnone.symm.trans hpop
  | case4 r' hstep children' below' hsome hhead hend =>
    obtain rfl := Automaton.Step.reduce.inj (hstep.symm.trans h)
    obtain ⟨rfl, -⟩ := Prod.mk.inj (Option.some.inj (hsome.symm.trans hpop))
    rfl
  | case5 r' hstep children' below' hsome hhead hend =>
    obtain rfl := Automaton.Step.reduce.inj (hstep.symm.trans h)
    obtain ⟨-, rfl⟩ := Prod.mk.inj (Option.some.inj (hsome.symm.trans hpop))
    exact absurd ⟨rfl, rfl⟩ hend
  | case6 r' hstep children' below' hsome hhead
  | case7 r' hstep children' below' hsome hhead =>
    obtain rfl := Automaton.Step.reduce.inj (hstep.symm.trans h)
    exact absurd hr hhead

theorem settle_of_accept {r : RuleName} {children : Forest r.symbols}
    (h : Automaton.step stack.state none = .reduce r) (hpop : stack.pop? r = some (children, []))
    (hr : r.head = .schemaFile) : stack.settle none = .accept (hr ▸ .node r children) := by
  rw [settle, reduceOnce_of_accept h hpop hr]

theorem reduceOnce_of_reduce {r : RuleName} {children : Forest r.symbols} {j : Nat}
    (h : Automaton.step stack.state next = .reduce r)
    (hpop : stack.pop? r = some (children, below)) (hr : r.head ≠ .schemaFile)
    (hgoto : Automaton.goto? below.state r.head = some j) :
    ∃ hlt, stack.reduceOnce next = .inr ⟨⟨j, _, .node r children⟩ :: below, hlt⟩ := by
  fun_cases reduceOnce stack next with
  | case1 target hstep => cases hstep.symm.trans h
  | case2 hstep => cases hstep.symm.trans h
  | case3 r' hstep hnone =>
    obtain rfl := Automaton.Step.reduce.inj (hstep.symm.trans h)
    cases hnone.symm.trans hpop
  | case4 r' hstep children' below' hsome hhead hend
  | case5 r' hstep children' below' hsome hhead hend =>
    obtain rfl := Automaton.Step.reduce.inj (hstep.symm.trans h)
    exact absurd hhead hr
  | case6 r' hstep children' below' hsome hhead hnone =>
    obtain rfl := Automaton.Step.reduce.inj (hstep.symm.trans h)
    obtain ⟨-, rfl⟩ := Prod.mk.inj (Option.some.inj (hsome.symm.trans hpop))
    cases hnone.symm.trans hgoto
  | case7 r' hstep children' below' hsome hhead target hfound =>
    obtain rfl := Automaton.Step.reduce.inj (hstep.symm.trans h)
    obtain ⟨rfl, rfl⟩ := Prod.mk.inj (Option.some.inj (hsome.symm.trans hpop))
    obtain rfl := Option.some.inj (hfound.symm.trans hgoto)
    exact ⟨_, rfl⟩

theorem settle_of_reduce {r : RuleName} {children : Forest r.symbols} {j : Nat}
    (h : Automaton.step stack.state next = .reduce r)
    (hpop : stack.pop? r = some (children, below)) (hr : r.head ≠ .schemaFile)
    (hgoto : Automaton.goto? below.state r.head = some j) :
    stack.settle next = settle (⟨j, _, .node r children⟩ :: below) next := by
  obtain ⟨hlt, hstep⟩ := reduceOnce_of_reduce h hpop hr hgoto
  rw [settle, hstep]

end Stack

namespace Machine

variable {c behind : Cursor} {stack : Stack} {last : Position}

/-- A token that is shifted. -/
theorem run_of_shift {t : Token} {below : Stack} {target : Nat}
    (hnext : Lexer.next (Automaton.accepts stack.state) c = .token t behind)
    (hsettle : stack.settle (some t.terminal) = .shift below target) :
    run c stack last = run behind (⟨target, _, .leaf t⟩ :: below) t.position := by
  rw [run]
  split
  · next t' behind' hnext' =>
    obtain ⟨rfl, rfl⟩ := Lexer.Scan.token.inj (hnext'.symm.trans hnext)
    simp only [hsettle]
  · next hnext' => cases hnext'.symm.trans hnext
  · next hnext' => cases hnext'.symm.trans hnext

/-- The end of a text that is accepted. -/
theorem run_of_accept {tree : Tree (.nonterminal .schemaFile)}
    (hnext : Lexer.next (Automaton.accepts stack.state) c = .finished behind)
    (hsettle : stack.settle none = .accept tree) : run c stack last = .ok tree := by
  rw [run]
  split
  · next hnext' => cases hnext'.symm.trans hnext
  · simp only [hsettle]
  · next hnext' => cases hnext'.symm.trans hnext

end Machine

end ProtoSchema
