import ProtoSchema.Proofs.Grammar.Derivation
import ProtoSchema.Proofs.Schema.Accepted
import ProtoSchema.Proofs.Schema.Entries

/-!
# Aggregates in schema text

An aggregate is derived from entries, and an entry from a key and a value (`Tree.exists_key_value`).
A value is a list just if it opens with a bracket (`Tree.aggregateValue_cases`), and then its values
are those between the brackets. So the text of an aggregate tells its entries, and what they leave
in it is what is kept of them (`Tree.aggregate_keeps`). This holds of every aggregate, also of one
inside of another.
-/

namespace ProtoSchema

open Forest (exists_fed feed_nil outermost_cons outermost_nil)

/-! ## Constants -/

namespace Constant

/-- A constant is no list. -/
def IsPlain (c : Constant) : Prop := c.value.isList = false

theorem isPlain_of_ofInt {sign : Sign} {t : Token} {c : Constant} (h : ofInt sign t = .ok c) :
    c.IsPlain := by
  rw [ofInt] at h
  cases hvalue : t.intValue with
  | error e =>
    rw [hvalue] at h
    cases h
  | ok i =>
    rw [hvalue] at h
    obtain rfl := Except.ok.inj h
    rfl

theorem isPlain_ofSignedWord (sign : Sign) (t : Token) : (ofSignedWord sign t).IsPlain := by
  rw [ofSignedWord, IsPlain]
  simp only
  split
  · rfl
  · split <;> rfl

end Constant

/-- The constants among the values of nonterminals are no lists. -/
def Nonterminal.Plain : (n : Nonterminal) → n.Value → Prop
  | .number | .aggregate | .constant => Constant.IsPlain
  | _ => fun _ => True

theorem Rule.isPlain_of_mem {n : Nonterminal} :
    ∀ r ∈ rules n, Action.Yields (fun _ _ => True) Nonterminal.Plain n.Plain r.symbols r.action := by
  cases n with
  | number =>
    refine List.forall_iff_forall_mem.mp ⟨?_, ?_, ?_, ?_, ?_⟩
    · exact fun _ _ _ _ _ => Constant.isPlain_of_ofInt
    · exact fun _ _ _ => Constant.isPlain_of_ofInt
    · exact fun _ _ _ _ _ h => Except.ok.inj h ▸ rfl
    · exact fun _ _ _ h => Except.ok.inj h ▸ rfl
    · exact fun _ _ _ _ _ h => Except.ok.inj h ▸ Constant.isPlain_ofSignedWord _ _
  | aggregate =>
    refine List.forall_iff_forall_mem.mp ⟨?_, ?_⟩
    · exact fun _ _ _ _ _ _ _ h => Except.ok.inj h ▸ rfl
    · exact fun _ _ _ _ _ h => Except.ok.inj h ▸ rfl
  | constant =>
    refine List.forall_iff_forall_mem.mp ⟨?_, ?_, ?_, ?_⟩
    · exact fun _ hc _ h => Except.ok.inj h ▸ hc
    · exact fun _ _ _ h => Except.ok.inj h ▸ rfl
    · exact fun _ _ _ h => Except.ok.inj h ▸ rfl
    · exact fun _ hc _ h => Except.ok.inj h ▸ hc
  | _ => exact fun r _ => Action.yields_of_all (fun _ => trivial) r.symbols r.action

namespace Tree

/-- The text of a derivation opens with a bracket. -/
def Bracketed {s : Symbol} (tree : Tree s) : Prop :=
  ∃ token others, tree.tokens = token :: others ∧ token.terminal = .mark .lbracket

/-- Derivations have some values, one each. -/
def Values {n : Nonterminal} (trees : List (Tree (.nonterminal n))) (vs : List n.Value) : Prop :=
  List.Forall₂ (fun tree v => tree.value = .ok v) trees vs

/-! ## Entries -/

theorem outermost_aggregateKey (tree : Tree (.part .aggregateKey)) :
    tree.outermost .aggregateValue = [] := by
  have hclosed : Closed [.aggregateKey, .fullIdent, .leadingDot, .moreNames, .name] := by
    unfold Closed
    decide
  exact outermost_of_closed hclosed (by decide) tree (by decide)

/-- Behind a key, derivations stand for an entry of this key with the value of one of them. -/
def Gives (val : Tree (.part .aggregateValue)) {ss : List Symbol} (forest : Forest ss)
    (action : Action (String × Value) ss) (key : String) : Prop :=
  forest.outermost .aggregateValue = [val] ∧
    ∀ p, forest.feed action = .ok p → ∃ v, val.value = .ok v ∧ p = (key, v)

section

variable {t : Terminal} (mark : Tree (.terminal t)) (val : Tree (.part .aggregateValue))
  (key : String)

theorem gives_last : Gives val (.cons val .nil) (fun v => .ok (key, v)) key := by
  refine ⟨by simp [outermost_cons, outermost_self, outermost_nil], fun p h => ?_⟩
  obtain ⟨v, hv, hfeed⟩ := exists_fed h
  exact ⟨v, hv, (Except.ok.inj ((feed_nil _).symm.trans hfeed)).symm⟩

theorem gives_marked :
    Gives val (.cons val (.cons mark .nil)) (fun v _ => .ok (key, v)) key := by
  refine ⟨by simp [outermost_cons, outermost_self, outermost_token, outermost_nil], fun p h => ?_⟩
  obtain ⟨v, hv, hfeed⟩ := exists_fed h
  obtain ⟨_, -, hfeed⟩ := exists_fed hfeed
  exact ⟨v, hv, (Except.ok.inj ((feed_nil _).symm.trans hfeed)).symm⟩

variable {val key} in
theorem gives_behind {ss : List Symbol} {forest : Forest ss}
    {action : Action (String × Value) (.terminal t :: ss)}
    (h : ∀ token, Gives val forest (action token) key) : Gives val (.cons mark forest) action key := by
  obtain ⟨token, -, hvalue⟩ := mark.exists_token
  refine ⟨by rw [outermost_cons, outermost_token, List.nil_append, (h token).1], fun p hfeed => ?_⟩
  obtain ⟨token, -, hfeed⟩ := exists_fed hfeed
  exact (h token).2 p hfeed

end

/-- The first key of an entry and its value. -/
theorem exists_key_value {tree : Tree (.part .aggregateField)} {key : String} {v : Value}
    (h : tree.value = .ok (key, v)) :
    ∃ k val, (tree.parts .aggregateKey).head? = some k ∧ k.value = .ok key ∧
      tree.parts .aggregateValue = [val] ∧ val.value = .ok v := by
  have hentry {ss : List Symbol} {first : Tree (.part .aggregateKey)} {others : Forest ss}
      {val : Tree (.part .aggregateValue)}
      {action : Action (String × Value) (.part .aggregateKey :: ss)}
      (hparts : ∀ n, tree.parts n = (Forest.cons first others).outermost n)
      (hvalue : tree.value = (Forest.cons first others).feed action)
      (hothers : ∀ key, Gives val others (action key) key) :
      ∃ k val, (tree.parts .aggregateKey).head? = some k ∧ k.value = .ok key ∧
        tree.parts .aggregateValue = [val] ∧ val.value = .ok v := by
    obtain ⟨k, hk, hfeed⟩ := exists_fed (hvalue.symm.trans h)
    obtain ⟨w, hw, heq⟩ := (hothers k).2 _ hfeed
    obtain ⟨rfl, rfl⟩ := Prod.mk.inj heq
    refine ⟨first, val, ?_, hk, ?_, hw⟩
    · rw [hparts, outermost_cons, outermost_self]
      rfl
    · rw [hparts, outermost_cons, outermost_aggregateKey, List.nil_append, (hothers key).1]
  obtain ⟨i, children, -, hvalue, hparts, -⟩ := tree.exists_rule
  match i, children, hvalue, hparts with
  | ⟨0, _⟩, .cons _ (.cons colon (.cons val (.cons comma .nil))), hvalue, hparts =>
    exact hentry hparts hvalue fun key => gives_behind colon fun _ => gives_marked comma val key
  | ⟨1, _⟩, .cons _ (.cons colon (.cons val (.cons semicolon .nil))), hvalue, hparts =>
    exact hentry hparts hvalue fun key => gives_behind colon fun _ => gives_marked semicolon val key
  | ⟨2, _⟩, .cons _ (.cons colon (.cons val .nil)), hvalue, hparts =>
    exact hentry hparts hvalue fun key => gives_behind colon fun _ => gives_last val key
  | ⟨3, _⟩, .cons _ (.cons val (.cons comma .nil)), hvalue, hparts =>
    exact hentry hparts hvalue (gives_marked comma val)
  | ⟨4, _⟩, .cons _ (.cons val (.cons semicolon .nil)), hvalue, hparts =>
    exact hentry hparts hvalue (gives_marked semicolon val)
  | ⟨5, _⟩, .cons _ (.cons val .nil), hvalue, hparts => exact hentry hparts hvalue (gives_last val)

theorem values_aggregateFields {tree : Tree (.part .aggregateFields)} {ps : List (String × Value)}
    (h : tree.value = .ok ps) : Values (tree.parts .aggregateField) ps := by
  induction hsize : sizeOf tree using Nat.strongRecOn generalizing tree ps with
  | ind size ih =>
    obtain ⟨i, children, -, hvalue, hparts, hlt⟩ := tree.exists_rule
    match i, children, hvalue, hparts .aggregateField, hlt with
    | ⟨0, _⟩, .cons field .nil, hvalue, hparts, _ =>
      obtain ⟨p, hp, hfeed⟩ := exists_fed (hvalue.symm.trans h)
      obtain rfl := Except.ok.inj ((feed_nil _).symm.trans hfeed)
      have hfield : (Forest.cons field .nil).outermost .aggregateField = [field] := by
        simp [outermost_cons, outermost_self, outermost_nil]
      rw [hparts.trans hfield]
      exact .cons hp .nil
    | ⟨1, _⟩, .cons fields (.cons field .nil), hvalue, hparts, hlt =>
      obtain ⟨ps, hps, hfeed⟩ := exists_fed (hvalue.symm.trans h)
      obtain ⟨p, hp, hfeed⟩ := exists_fed hfeed
      obtain rfl := Except.ok.inj ((feed_nil _).symm.trans hfeed)
      have hfields : (Forest.cons fields (.cons field .nil)).outermost .aggregateField =
          fields.parts .aggregateField ++ [field] := by
        simp [outermost_cons, outermost_self, outermost_nil, outermost_of_ne]
      rw [hparts.trans hfields]
      have hshort : sizeOf fields < size := hsize ▸ (Forest.sizeOf_first_lt fields _).trans hlt
      exact List.rel_append (ih _ hshort hps rfl) (.cons hp .nil)

/-- An aggregate is what is kept of its entries. -/
theorem exists_aggregateFields {tree : Tree (.part .aggregate)} {c : Constant}
    (h : tree.value = .ok c) :
    ∃ ps, Values (tree.parts .aggregateField) ps ∧ c = .ofEntries ps := by
  obtain ⟨i, children, -, hvalue, hparts, -⟩ := tree.exists_rule
  match i, children, hvalue, hparts .aggregateField with
  | ⟨0, _⟩, .cons opening (.cons fields (.cons closing .nil)), hvalue, hparts =>
    obtain ⟨_, -, hfeed⟩ := exists_fed (hvalue.symm.trans h)
    obtain ⟨ps, hps, hfeed⟩ := exists_fed hfeed
    obtain ⟨_, -, hfeed⟩ := exists_fed hfeed
    obtain rfl := Except.ok.inj ((feed_nil _).symm.trans hfeed)
    have hfields : (Forest.cons opening (.cons fields (.cons closing .nil))).outermost
        .aggregateField = fields.parts .aggregateField := by
      simp [outermost_cons, outermost_token, outermost_nil, outermost_of_ne]
    refine ⟨ps, ?_, rfl⟩
    rw [hparts.trans hfields]
    exact values_aggregateFields hps
  | ⟨1, _⟩, .cons opening (.cons closing .nil), hvalue, hparts =>
    obtain ⟨_, -, hfeed⟩ := exists_fed (hvalue.symm.trans h)
    obtain ⟨_, -, hfeed⟩ := exists_fed hfeed
    obtain rfl := Except.ok.inj ((feed_nil _).symm.trans hfeed)
    have hnone : (Forest.cons opening (.cons closing .nil)).outermost .aggregateField = [] := by
      simp [outermost_cons, outermost_token, outermost_nil]
    refine ⟨[], ?_, rfl⟩
    rw [hparts.trans hnone]
    exact .nil

/-! ## Values -/

theorem not_bracketed_constant (tree : Tree (.part .constant)) : ¬ tree.Bracketed := by
  have havoids : Avoids (.mark .lbracket) [.constant, .number, .sign, .fullIdent, .leadingDot, .name,
      .strings, .stringRun, .aggregate] := by
    unfold Avoids
    decide
  rintro ⟨token, others, htokens, hbracket⟩
  obtain ⟨token', others', htokens', hne⟩ := opens_of_avoids havoids tree (by decide)
  obtain ⟨rfl, -⟩ := List.cons.inj (htokens.symm.trans htokens')
  exact hne hbracket

theorem isList_constant {tree : Tree (.part .constant)} {c : Constant} (h : tree.value = .ok c) :
    c.value.isList = false :=
  tree.satisfies_value (fun r => Rule.isPlain_of_mem r.rule (List.getElem_mem _))
    (fun _ _ => trivial) c h

theorem values_moreAggregateValues {tree : Tree (.part .moreAggregateValues)} {vs : List Value}
    (h : tree.value = .ok vs) : Values (tree.parts .aggregateValue) vs := by
  induction hsize : sizeOf tree using Nat.strongRecOn generalizing tree vs with
  | ind size ih =>
    obtain ⟨i, children, -, hvalue, hparts, hlt⟩ := tree.exists_rule
    match i, children, hvalue, hparts .aggregateValue, hlt with
    | ⟨0, _⟩, .cons comma (.cons last .nil), hvalue, hparts, _ =>
      obtain ⟨_, -, hfeed⟩ := exists_fed (hvalue.symm.trans h)
      obtain ⟨v, hv, hfeed⟩ := exists_fed hfeed
      obtain rfl := Except.ok.inj ((feed_nil _).symm.trans hfeed)
      have hlast : (Forest.cons comma (.cons last .nil)).outermost .aggregateValue = [last] := by
        simp [outermost_cons, outermost_token, outermost_self, outermost_nil]
      rw [hparts.trans hlast]
      exact .cons hv .nil
    | ⟨1, _⟩, .cons more (.cons comma (.cons last .nil)), hvalue, hparts, hlt =>
      obtain ⟨ws, hws, hfeed⟩ := exists_fed (hvalue.symm.trans h)
      obtain ⟨_, -, hfeed⟩ := exists_fed hfeed
      obtain ⟨v, hv, hfeed⟩ := exists_fed hfeed
      obtain rfl := Except.ok.inj ((feed_nil _).symm.trans hfeed)
      have hlast : (Forest.cons more (.cons comma (.cons last .nil))).outermost .aggregateValue =
          more.parts .aggregateValue ++ [last] := by
        simp [outermost_cons, outermost_token, outermost_self, outermost_nil, outermost_of_ne]
      rw [hparts.trans hlast]
      have hshort : sizeOf more < size := hsize ▸ (Forest.sizeOf_first_lt more _).trans hlt
      exact List.rel_append (ih _ hshort hws rfl) (.cons hv .nil)

/-- What stands in brackets opens with one, and is the list of the values in the brackets. -/
theorem values_aggregateList {tree : Tree (.part .aggregateList)} {v : Value}
    (h : tree.value = .ok v) :
    tree.Bracketed ∧ ∃ vs, v = .list vs ∧ Values (tree.parts .aggregateValue) vs := by
  obtain ⟨i, children, htokens, hvalue, hparts, -⟩ := tree.exists_rule
  have hopens {ss : List Symbol} {opening : Tree (.mark .lbracket)} {others : Forest ss}
      (htokens : tree.tokens = (Forest.cons opening others).tokens) : tree.Bracketed := by
    obtain ⟨token, hterminal, hfirst, -⟩ := Forest.feed_token (β := Unit) opening others
    exact ⟨token, others.tokens, htokens.trans hfirst, hterminal⟩
  match i, children, htokens, hvalue, hparts .aggregateValue with
  | ⟨0, _⟩, .cons opening (.cons first (.cons more (.cons closing .nil))), htokens, hvalue, hparts =>
    obtain ⟨_, -, hfeed⟩ := exists_fed (hvalue.symm.trans h)
    obtain ⟨w, hw, hfeed⟩ := exists_fed hfeed
    obtain ⟨ws, hws, hfeed⟩ := exists_fed hfeed
    obtain ⟨_, -, hfeed⟩ := exists_fed hfeed
    obtain rfl := Except.ok.inj ((feed_nil _).symm.trans hfeed)
    have hitems : (Forest.cons opening (.cons first (.cons more (.cons closing .nil)))).outermost
        .aggregateValue = first :: more.parts .aggregateValue := by
      simp [outermost_cons, outermost_token, outermost_self, outermost_nil, outermost_of_ne]
    refine ⟨hopens htokens, w :: ws, rfl, ?_⟩
    rw [hparts.trans hitems]
    exact .cons hw (values_moreAggregateValues hws)
  | ⟨1, _⟩, .cons opening (.cons first (.cons closing .nil)), htokens, hvalue, hparts =>
    obtain ⟨_, -, hfeed⟩ := exists_fed (hvalue.symm.trans h)
    obtain ⟨w, hw, hfeed⟩ := exists_fed hfeed
    obtain ⟨_, -, hfeed⟩ := exists_fed hfeed
    obtain rfl := Except.ok.inj ((feed_nil _).symm.trans hfeed)
    have hitems : (Forest.cons opening (.cons first (.cons closing .nil))).outermost
        .aggregateValue = [first] := by
      simp [outermost_cons, outermost_token, outermost_self, outermost_nil]
    refine ⟨hopens htokens, [w], rfl, ?_⟩
    rw [hparts.trans hitems]
    exact .cons hw .nil
  | ⟨2, _⟩, .cons opening (.cons closing .nil), htokens, hvalue, hparts =>
    obtain ⟨_, -, hfeed⟩ := exists_fed (hvalue.symm.trans h)
    obtain ⟨_, -, hfeed⟩ := exists_fed hfeed
    obtain rfl := Except.ok.inj ((feed_nil _).symm.trans hfeed)
    have hitems : (Forest.cons opening (.cons closing .nil)).outermost .aggregateValue = [] := by
      simp [outermost_cons, outermost_token, outermost_nil]
    refine ⟨hopens htokens, [], rfl, ?_⟩
    rw [hparts.trans hitems]
    exact .nil

/-- A value is a list just if it opens with a bracket. -/
theorem aggregateValue_cases {tree : Tree (.part .aggregateValue)} {v : Value}
    (h : tree.value = .ok v) :
    (¬ tree.Bracketed ∧ v.isList = false) ∨
      tree.Bracketed ∧ ∃ vs, v = .list vs ∧ Values (tree.parts .aggregateValue) vs := by
  have hbracketed {s : Symbol} {child : Tree s} (htokens : tree.tokens = child.tokens) :
      tree.Bracketed ↔ child.Bracketed := by
    rw [Bracketed, htokens, ← Bracketed]
  obtain ⟨i, children, htokens, hvalue, hparts, -⟩ := tree.exists_rule
  match i, children, htokens, hvalue, hparts .aggregateValue with
  | ⟨0, _⟩, .cons constant .nil, htokens, hvalue, _ =>
    obtain ⟨c, hc, hfeed⟩ := exists_fed (hvalue.symm.trans h)
    obtain rfl := Except.ok.inj ((feed_nil _).symm.trans hfeed)
    rw [hbracketed (htokens.trans (Forest.tokens_singleton constant))]
    exact .inl ⟨constant.not_bracketed_constant, isList_constant hc⟩
  | ⟨1, _⟩, .cons list .nil, htokens, hvalue, hparts =>
    obtain ⟨w, hw, hfeed⟩ := exists_fed (hvalue.symm.trans h)
    obtain rfl := Except.ok.inj ((feed_nil _).symm.trans hfeed)
    have hitems : (Forest.cons list .nil).outermost .aggregateValue =
        list.parts .aggregateValue := by
      simp [outermost_cons, outermost_nil, outermost_of_ne]
    rw [hbracketed (htokens.trans (Forest.tokens_singleton list)), hparts.trans hitems]
    exact .inr (values_aggregateList hw)

end Tree

/-! ## Aggregates -/

/-- An entry is written as a derivation: its key comes first, and then its value or, behind a
bracket, its values. -/
def Entry.WrittenAs (field : Tree (.part .aggregateField)) (e : Entry) : Prop :=
  ∃ k val, (field.parts .aggregateKey).head? = some k ∧ k.value = .ok e.key ∧
    field.parts .aggregateValue = [val] ∧ (val.Bracketed ↔ e.isBracket = true) ∧
    if e.isBracket then Tree.Values (val.parts .aggregateValue) e.values
    else Tree.Values [val] e.values

theorem Tree.Values.unique {n : Nonterminal} {trees : List (Tree (.nonterminal n))}
    {vs ws : List n.Value} (hvs : Values trees vs) (hws : Values trees ws) : vs = ws :=
  List.right_unique_forall₂' (fun _ _ _ hv hw => Except.ok.inj (hv.symm.trans hw)) hvs hws

/-- A derivation writes one entry only. -/
theorem Entry.WrittenAs.unique {field : Tree (.part .aggregateField)} {e e' : Entry}
    (h : e.WrittenAs field) (h' : e'.WrittenAs field) : e = e' := by
  obtain ⟨k, val, hk, hkey, hval, hbracket, hvalues⟩ := h
  obtain ⟨k', val', hk', hkey', hval', hbracket', hvalues'⟩ := h'
  obtain rfl := Option.some.inj (hk.symm.trans hk')
  obtain rfl := List.singleton_inj.mp (hval.symm.trans hval')
  have hkeys := Except.ok.inj (hkey.symm.trans hkey')
  have hbrackets := hbracket.symm.trans hbracket'
  cases e with
  | single key v hv =>
    cases e' with
    | single key' v' hv' =>
      obtain rfl : key = key' := hkeys
      obtain rfl := List.singleton_inj.mp (hvalues.unique hvalues')
      rfl
    | bracket => cases hbrackets.mpr rfl
  | bracket key vs =>
    cases e' with
    | single => cases hbrackets.mp rfl
    | bracket key' vs' =>
      obtain rfl : key = key' := hkeys
      obtain rfl : vs = vs' := hvalues.unique hvalues'
      rfl

/-- The entries of an aggregate, in the order of the text. -/
def Tree.Writes (tree : Tree (.part .aggregate)) (es : List Entry) : Prop :=
  List.Forall₂ (fun field (e : Entry) => e.WrittenAs field) (tree.parts .aggregateField) es

theorem Tree.exists_entry {field : Tree (.part .aggregateField)} {p : String × Value}
    (h : field.value = .ok p) : ∃ e : Entry, e.WrittenAs field ∧ (e.key, e.value) = p := by
  obtain ⟨k, val, hk, hkey, hval, hv⟩ := exists_key_value h
  rcases aggregateValue_cases hv with ⟨hplain, hlist⟩ | ⟨hbracket, vs, hlist, hvs⟩
  · refine ⟨.single p.1 p.2 hlist, ⟨k, val, hk, hkey, hval, ?_, .cons hv .nil⟩, rfl⟩
    exact iff_of_false hplain Bool.false_ne_true
  · refine ⟨.bracket p.1 vs, ⟨k, val, hk, hkey, hval, iff_of_true hbracket rfl, hvs⟩, ?_⟩
    rw [Entry.value, ← hlist, Entry.key]

theorem Tree.exists_entries {fields : List (Tree (.part .aggregateField))}
    {ps : List (String × Value)} (h : Values fields ps) :
    ∃ es : List Entry, List.Forall₂ (fun field e => e.WrittenAs field) fields es ∧
      es.map (fun e => (e.key, e.value)) = ps := by
  induction h with
  | nil => exact ⟨[], .nil, rfl⟩
  | cons hp _ ih =>
    obtain ⟨e, he, rfl⟩ := exists_entry hp
    obtain ⟨es, hes, rfl⟩ := ih
    exact ⟨e :: es, .cons he hes, rfl⟩

theorem Constant.ofEntries_map (es : List Entry) :
    (ofEntries (es.map fun e => (e.key, e.value))).value = .aggregate (Entry.kept es) := by
  rw [ofEntries, List.foldl_map]
  rfl

/-- An aggregate has some entries, and keeps one value for each key of them. Where a key receives two
values or more, the value kept for it is the list of them in the order of the text just if no entry
of the key behind the first one is written in brackets. A list that is kept has a list in it just if
brackets stand in the brackets of the first entry, or a later entry of the key is written in
brackets. -/
theorem Tree.aggregate_keeps (tree : Tree (.part .aggregate)) {c : Constant}
    (h : tree.value = .ok c) :
    ∃ (es : List Entry) (kept : List (String × Value)),
      tree.Writes es ∧ (∀ es', tree.Writes es' → es = es') ∧
      c.value = .aggregate kept ∧ (kept.map Prod.fst).Nodup ∧
      (∀ key, (∀ e ∈ es, e.key ≠ key) → kept.lookup key = none) ∧
      ∀ key first later, es.filter (·.key = key) = first :: later →
        ∃ v, kept.lookup key = some v ∧
          (2 ≤ (Entry.received (first :: later)).length →
            (v = .list (Entry.received (first :: later)) ↔
              ∀ e ∈ later, e.isBracket = false)) ∧
          ∀ items, v = .list items →
            ((∃ w ∈ items, w.isList = true) ↔
              (∃ w ∈ first.values, w.isList = true) ∨ ∃ e ∈ later, e.isBracket = true) := by
  obtain ⟨ps, hps, rfl⟩ := exists_aggregateFields h
  obtain ⟨es, hes, rfl⟩ := exists_entries hps
  refine ⟨es, _, hes, fun es' hes' => ?_, Constant.ofEntries_map es, Entry.nodup_keys_kept es, ?_, ?_⟩
  · exact List.right_unique_forall₂' (fun _ _ _ he he' => he.unique he') hes hes'
  · intro key hkey
    have hnone : es.filter (·.key = key) = [] := by simpa using hkey
    rw [Entry.lookup_kept, hnone, Entry.gather]
  · intro key first later hkey
    have hlookup := Entry.lookup_kept es key
    rw [hkey] at hlookup
    obtain ⟨v, hv⟩ : ∃ v, Entry.gather (first :: later) = some v := by
      cases later <;> exact ⟨_, rfl⟩
    refine ⟨v, hlookup.trans hv, fun hmany => ?_, ?_⟩
    · rw [← Entry.gather_eq_received_iff hmany, hv, Option.some_inj]
    · rintro items rfl
      exact Entry.nested_iff hv

/-! ### A value and then brackets -/

namespace Sample

/-- The lexemes of an option with two entries of one key, the second of them in brackets. -/
def bracketLexemes : List Lexed :=
  [(.keyword .kwOption, ['o', 'p', 't', 'i', 'o', 'n']), (.name, ['o']), (.mark .equal, ['=']),
    (.mark .lbrace, ['\x7b']), (.name, ['k']), (.mark .colon, [':']), (.int, ['1']),
    (.name, ['k']), (.mark .colon, [':']), (.mark .lbracket, ['[']), (.int, ['2']),
    (.mark .comma, [',']), (.int, ['3']), (.mark .rbracket, [']']), (.mark .rbrace, ['\x7d']),
    (.mark .semicolon, [';'])]

/-- An integer as the value of an entry. -/
def itemAt (digits : List Char) (column : Nat) : Tree (.part .aggregateValue) :=
  .node ⟨.aggregateValue, 0⟩ (.cons (.node ⟨.constant, 0⟩ (.cons (.node ⟨.number, 1⟩
    (.cons (leafAt .int digits column) .nil)) .nil)) .nil)

/-- The key `k`. -/
def keyAt (column : Nat) : Tree (.part .aggregateKey) :=
  .node ⟨.aggregateKey, 0⟩ (.cons (wordAt ['k'] column) .nil)

/-- An entry of this key. -/
def entryAt (column : Nat) (value : Tree (.part .aggregateValue)) : Tree (.part .aggregateField) :=
  .node ⟨.aggregateField, 2⟩ (.cons (keyAt column)
    (.cons (leafAt (.mark .colon) [':'] (column + 2)) (.cons value .nil)))

/-- Two integers in brackets. -/
def pairValue : Tree (.part .aggregateValue) :=
  .node ⟨.aggregateValue, 1⟩ (.cons (.node ⟨.aggregateList, 0⟩
    (.cons (leafAt (.mark .lbracket) ['['] 24) (.cons (itemAt ['2'] 26)
      (.cons (.node ⟨.moreAggregateValues, 0⟩ (.cons (leafAt (.mark .comma) [','] 28)
        (.cons (itemAt ['3'] 30) .nil)))
          (.cons (leafAt (.mark .rbracket) [']'] 32) .nil))))) .nil)

/-- The aggregate of this option. -/
def bracketAggregate : Tree (.part .aggregate) :=
  let first : Tree (.part .aggregateFields) :=
    .node ⟨.aggregateFields, 0⟩ (.cons (entryAt 14 (itemAt ['1'] 18)) .nil)
  .node ⟨.aggregate, 0⟩ (.cons (leafAt (.mark .lbrace) ['\x7b'] 12)
    (.cons (.node ⟨.aggregateFields, 1⟩ (.cons first (.cons (entryAt 20 pairValue) .nil)))
      (.cons (leafAt (.mark .rbrace) ['\x7d'] 34) .nil)))

/-- The tree of a file with this option. -/
def bracketTree : Tree (.nonterminal .schemaFile) :=
  let name : Tree (.part .optionName) :=
    .node ⟨.optionName, 1⟩ (.cons (.node ⟨.optionNamePart, 0⟩ (.cons (wordAt ['o'] 8) .nil)) .nil)
  .node .bareFile (.cons (.node .firstItem (.cons (.node ⟨.topItem, 2⟩
    (.cons (.node ⟨.optionStmt, 0⟩ (.cons (leafAt (.keyword .kwOption) ['o', 'p', 't', 'i', 'o', 'n'] 1)
      (.cons name (.cons (leafAt (.mark .equal) ['='] 10)
        (.cons (.node ⟨.constant, 3⟩ (.cons bracketAggregate .nil))
          (.cons (leafAt (.mark .semicolon) [';'] 36) .nil)))))) .nil)) .nil)) .nil)

/-- What the aggregate keeps. -/
def bracketConstant : Constant :=
  ⟨.aggregate [("k", .list [.int 1, .list [.int 2, .int 3]])], none⟩

end Sample

theorem Sample.writtenAs_entryAt {column : Nat} {val : Tree (.part .aggregateValue)} {e : Entry}
    (hkey : (keyAt column).value = .ok e.key) (hbracket : val.Bracketed ↔ e.isBracket = true)
    (hvalues : if e.isBracket then Tree.Values (val.parts .aggregateValue) e.values
      else Tree.Values [val] e.values) : e.WrittenAs (entryAt column val) :=
  ⟨keyAt column, val, rfl, hkey, (Tree.gives_behind (leafAt (.mark .colon) [':'] (column + 2))
    fun _ => Tree.gives_last val e.key).1, hbracket, hvalues⟩

theorem Sample.bracketAggregate_writes :
    bracketAggregate.Writes [.single "k" (.int 1) rfl, .bracket "k" [.int 2, .int 3]] := by
  have hitem (digits : List Char) (column : Nat) : ¬ (itemAt digits column).Bracketed := by
    rintro ⟨token, others, htokens, hbracket⟩
    have hint : token.terminal = .int := (congrArg Token.terminal (List.cons.inj htokens).1).symm
    cases hint.symm.trans hbracket
  have hpair : pairValue.Bracketed := ⟨⟨.mark .lbracket, ['['], ⟨1, 24⟩⟩, _, rfl, rfl⟩
  have hfirst : (keyAt 14).value = .ok "k" := by with_unfolding_all rfl
  have hsecond : (keyAt 20).value = .ok "k" := by with_unfolding_all rfl
  have hone : Tree.Values [itemAt ['1'] 18] [.int 1] :=
    .cons (by with_unfolding_all rfl) .nil
  have hmany : Tree.Values [itemAt ['2'] 26, itemAt ['3'] 30] [.int 2, .int 3] :=
    .cons (by with_unfolding_all rfl) (.cons (by with_unfolding_all rfl) .nil)
  exact .cons (writtenAs_entryAt hfirst (iff_of_false (hitem _ _) Bool.false_ne_true) hone)
    (.cons (writtenAs_entryAt hsecond (iff_of_true hpair rfl) hmany) .nil)

theorem Tree.aggregate_keeps_sample :
    Sample.bracketAggregate.value = .ok Sample.bracketConstant ∧
      ∃ kept, Sample.bracketConstant.value = .aggregate kept ∧
        ∃ v, kept.lookup "k" = some v ∧ v ≠ .list [.int 1, .int 2, .int 3] := by
  have hvalue : Sample.bracketAggregate.value = .ok Sample.bracketConstant := by
    with_unfolding_all rfl
  obtain ⟨es, kept, -, hunique, hkept, -, -, hkeys⟩ :=
    Sample.bracketAggregate.aggregate_keeps hvalue
  obtain rfl := hunique _ Sample.bracketAggregate_writes
  obtain ⟨v, hv, hmany, -⟩ := hkeys "k" (.single "k" (.int 1) rfl) [.bracket "k" [.int 2, .int 3]] rfl
  refine ⟨hvalue, kept, hkept, v, hv, fun h => ?_⟩
  have hplain := (hmany (by decide)).mp h
  exact absurd (hplain _ (List.mem_singleton_self _)) (by decide)

/-- One value and then two in brackets are not kept as the list of the three. -/
theorem SchemaFile.parse_bracketLexemes :
    ∃ file, SchemaFile.parse (Text.ofString "a.proto") (Lexed.spaced Sample.bracketLexemes) =
        .ok file ∧
      file.options.map (·.value) = [Sample.bracketConstant] ∧
      Sample.bracketConstant.value ≠ .aggregate [("k", .list [.int 1, .int 2, .int 3])] := by
  have hvalue : Sample.bracketTree.value = .ok ⟨"", .proto2, none, [], [], [], [], [],
      [⟨"o", Sample.bracketConstant, ⟨1, 8⟩⟩]⟩ := by
    with_unfolding_all rfl
  refine ⟨_, SchemaFile.parse_spaced_tree (by decide) (by decide) hvalue rfl _, rfl, ?_⟩
  simp [Sample.bracketConstant]

end ProtoSchema
