import ProtoSchema.Proofs.Grammar.Closure
import ProtoSchema.Proofs.Grammar.Derivation

/-!
# Outcomes of trees

A tree has a value or a fault. Whatever every rule of the grammar makes sure of, given the tokens
that its parts derive and the values of these parts, is true of every tree (`Tree.outcome`): of its
value, and of the place and sort of its fault, which belongs to the tokens of one nonterminal in it.

Some tokens can only be derived by way of a few nonterminals (`Tree.avoids`).
-/

namespace ProtoSchema

/-- A nonterminal derives some tokens. -/
def Nonterminal.Derives (n : Nonterminal) (us : List Token) : Prop :=
  ∃ part : Tree (.nonterminal n), part.tokens = us

/-! ## Values and faults -/

/-- What a symbol stands for, given the tokens that it derives: a token of its terminal, or something
that satisfies `Q`. -/
def Symbol.Stands (Q : (n : Nonterminal) → List Token → n.Value → Prop) :
    (s : Symbol) → List Token → s.Value → Prop
  | .terminal t, us, token => us = [token] ∧ token.terminal = t ∧ token.lexeme ∈ t.language
  | .nonterminal n, us, v => n.Derives us ∧ Q n us v

/-- An action ends with a result that `R` relates to the tokens of its parts, behind those from
before, if the parts satisfy `Q`. -/
def Action.Ends (Q : (n : Nonterminal) → List Token → n.Value → Prop) {β : Type}
    (R : List Token → Except Fault β → Prop) :
    (ss : List Symbol) → Action β ss → List Token → Prop
  | [], result, before => R before result
  | s :: ss, action, before =>
    ∀ us v, s.Stands Q us v → Action.Ends Q R ss (action v) (before ++ us)

/-- What is to be true of the result of a rule: its value satisfies `Q`, and its fault `E`. -/
def Nonterminal.Outcome (Q : (n : Nonterminal) → List Token → n.Value → Prop)
    (E : Nonterminal → List Token → Fault → Prop) (n : Nonterminal) (us : List Token)
    (result : Except Fault n.Value) : Prop :=
  (∀ v, result = .ok v → Q n us v) ∧ ∀ fault, result = .error fault → E n us fault

/-- A fault that belongs to the tokens of a part of some tokens. -/
def Fault.Inside (E : Nonterminal → List Token → Fault → Prop) (ts : List Token) (fault : Fault) :
    Prop :=
  ∃ n before us behind, ts = before ++ us ++ behind ∧ n ≠ .schemaFile ∧ n.Derives us ∧ E n us fault

/-- A fault that belongs to the tokens of a symbol, or to those of a part of them. -/
def Symbol.Fails (E : Nonterminal → List Token → Fault → Prop) (s : Symbol) (ts : List Token)
    (fault : Fault) : Prop :=
  (∃ n, s = .nonterminal n ∧ n.Derives ts ∧ E n ts fault) ∨ fault.Inside E ts

variable {Q : (n : Nonterminal) → List Token → n.Value → Prop}
  {E : Nonterminal → List Token → Fault → Prop}

theorem Fault.Inside.append {ts : List Token} {fault : Fault} (h : fault.Inside E ts)
    (first last : List Token) : fault.Inside E (first ++ ts ++ last) := by
  obtain ⟨n, before, us, behind, rfl, hn, hus, hfault⟩ := h
  exact ⟨n, first ++ before, us, behind ++ last, by simp, hn, hus, hfault⟩

/-- The fault of a symbol in a rule lies inside what the rule derives. -/
theorem Symbol.Fails.inside {s : Symbol} {ts : List Token} {fault : Fault} (h : s.Fails E ts fault)
    (hs : s ≠ .nonterminal .schemaFile) : fault.Inside E ts := by
  rcases h with ⟨n, rfl, hts, hfault⟩ | h
  · exact ⟨n, [], ts, [], by simp, fun hn => hs (congrArg _ hn), hts, hfault⟩
  · exact h

mutual

/-- What every rule makes sure of is true of every tree. -/
theorem Tree.outcome
    (h : ∀ r : RuleName, Action.Ends Q (r.head.Outcome Q E) r.symbols r.rule.action [])
    {s : Symbol} : (tree : Tree s) → (∀ t ∈ tree.tokens, t.lexeme ∈ t.terminal.language) →
      (∀ v, tree.value = .ok v → s.Stands Q tree.tokens v) ∧
        ∀ fault, tree.value = .error fault → s.Fails E tree.tokens fault
  | .leaf token, htokens => by
    rw [Tree.value, Tree.tokens] at *
    refine ⟨fun v hv => ?_, nofun⟩
    obtain rfl := Except.ok.inj hv
    exact ⟨rfl, rfl, htokens token (List.mem_singleton_self _)⟩
  | .node r children, htokens => by
    have hderives : r.head.Derives children.tokens := ⟨.node r children, by rw [Tree.tokens]⟩
    rw [Tree.value, Tree.tokens] at *
    have hparts : ∀ s ∈ r.symbols, s ≠ .nonterminal .schemaFile :=
      fun s hs heq => r.schemaFile_notMem (heq ▸ hs)
    rcases Forest.outcome h children htokens hparts (h r) with hresult | ⟨fault, hfault, hinside⟩
    · rw [List.nil_append] at hresult
      refine ⟨fun v hv => ⟨hderives, hresult.1 v hv⟩, fun fault hfault => ?_⟩
      exact .inl ⟨r.head, rfl, hderives, hresult.2 fault hfault⟩
    · rw [hfault]
      exact ⟨nofun, fun fault' hfault' => .inr (Except.error.inj hfault' ▸ hinside)⟩

theorem Forest.outcome
    (h : ∀ r : RuleName, Action.Ends Q (r.head.Outcome Q E) r.symbols r.rule.action [])
    {ss : List Symbol} {β : Type} {R : List Token → Except Fault β → Prop} :
    (forest : Forest ss) → (∀ t ∈ forest.tokens, t.lexeme ∈ t.terminal.language) →
      (∀ s ∈ ss, s ≠ .nonterminal .schemaFile) → {action : Action β ss} →
        {before : List Token} → Action.Ends Q R ss action before →
          R (before ++ forest.tokens) (forest.feed action) ∨
            ∃ fault, forest.feed action = .error fault ∧ fault.Inside E forest.tokens
  | .nil, _, _, action, before, haction => by
    rw [Forest.feed, Forest.tokens, List.append_nil]
    exact .inl haction
  | .cons first others, htokens, hss, action, before, haction => by
    simp only [Forest.tokens, List.mem_append, or_imp, forall_and] at htokens
    rw [List.forall_mem_cons] at hss
    have hfirst := Tree.outcome h first htokens.1
    rw [Forest.feed, Forest.tokens]
    cases hvalue : first.value with
    | error fault =>
      have hinside := (hfirst.2 fault hvalue).inside hss.1
      exact .inr ⟨fault, rfl, by simpa using hinside.append [] others.tokens⟩
    | ok v =>
      have hrest := Forest.outcome h others htokens.2 hss.2 (haction _ v (hfirst.1 v hvalue))
      rw [← List.append_assoc]
      refine hrest.imp_right ?_
      rintro ⟨fault, hfault, hinside⟩
      exact ⟨fault, hfault, by simpa using hinside.append first.tokens []⟩

end

/-! ## Tokens of few nonterminals -/

namespace Symbol

/-- Whether a symbol derives a terminal only by way of some nonterminals. -/
def avoids (t : Terminal) (ways : List Nonterminal) : Symbol → Bool
  | .terminal u => u != t
  | .nonterminal n => !ways.contains n

end Symbol

/-- Whether a terminal stands in the rules of some nonterminals only, and these nonterminals stand in
no other rules. -/
def RuleName.confines (t : Terminal) (ways : List Nonterminal) (r : RuleName) : Bool :=
  ways.contains r.head || r.symbols.all (Symbol.avoids t ways)

mutual

/-- What avoids some nonterminals has no tokens that are confined to them. -/
theorem Tree.avoids {t : Terminal} {ways : List Nonterminal}
    (h : ∀ r : RuleName, r.confines t ways = true) {s : Symbol} :
    (tree : Tree s) → s.avoids t ways = true → ∀ token ∈ tree.tokens, token.terminal ≠ t
  | .leaf token, hs, u, hu => by
    obtain rfl := List.mem_singleton.mp hu
    simpa [Symbol.avoids] using hs
  | .node r children, hs, u, hu => by
    rw [Tree.tokens] at hu
    have hr := h r
    rw [Symbol.avoids, Bool.not_eq_true'] at hs
    rw [RuleName.confines, hs, Bool.false_or, List.all_eq_true] at hr
    exact Forest.avoids h children hr u hu

theorem Forest.avoids {t : Terminal} {ways : List Nonterminal}
    (h : ∀ r : RuleName, r.confines t ways = true) {ss : List Symbol} :
    (forest : Forest ss) → (∀ s ∈ ss, s.avoids t ways = true) →
      ∀ token ∈ forest.tokens, token.terminal ≠ t
  | .nil, _, u, hu => by cases hu
  | .cons first others, hss, u, hu => by
    rw [List.forall_mem_cons] at hss
    rw [Forest.tokens, List.mem_append] at hu
    exact hu.elim (Tree.avoids h first hss.1 u) (Forest.avoids h others hss.2 u)

end

mutual

/-- A terminal that only opens what is confined to some nonterminals is the first token or none. -/
theorem Tree.tail_avoids {t : Terminal} {ways : List Nonterminal}
    (h : ∀ r : RuleName, r.confines t ways = true)
    (htail : ∀ r : RuleName, r.symbols.tail.all (Symbol.avoids t ways) = true) {s : Symbol} :
    (tree : Tree s) → ∀ token ∈ tree.tokens.tail, token.terminal ≠ t
  | .leaf token, u, hu => by cases hu
  | .node r children, u, hu => by
    rw [Tree.tokens] at hu
    exact Forest.tail_avoids h htail children (List.all_eq_true.mp (htail r)) u hu

theorem Forest.tail_avoids {t : Terminal} {ways : List Nonterminal}
    (h : ∀ r : RuleName, r.confines t ways = true)
    (htail : ∀ r : RuleName, r.symbols.tail.all (Symbol.avoids t ways) = true) {ss : List Symbol} :
    (forest : Forest ss) → (∀ s ∈ ss.tail, s.avoids t ways = true) →
      ∀ token ∈ forest.tokens.tail, token.terminal ≠ t
  | .nil, _, u, hu => by cases hu
  | .cons first others, hss, u, hu => by
    have hothers := Forest.avoids h others hss u
    rw [Forest.tokens] at hu
    cases hfirst : first.tokens with
    | nil =>
      rw [hfirst, List.nil_append] at hu
      exact hothers (List.mem_of_mem_tail hu)
    | cons v vs =>
      have hvs := Tree.tail_avoids h htail first u
      rw [hfirst, List.cons_append, List.tail_cons, List.mem_append] at hu
      rw [hfirst, List.tail_cons] at hvs
      exact hu.elim hvs hothers

end

/-- A nonterminal that avoids others derives no token that is confined to them. -/
theorem Nonterminal.Derives.avoids {n : Nonterminal} {us : List Token} (hus : n.Derives us)
    {t : Terminal} {ways : List Nonterminal} (h : ∀ r : RuleName, r.confines t ways = true)
    (hn : ways.contains n = false) : ∀ token ∈ us, token.terminal ≠ t := by
  obtain ⟨part, rfl⟩ := hus
  exact part.avoids h (by rw [Symbol.avoids, hn, Bool.not_false])

end ProtoSchema
