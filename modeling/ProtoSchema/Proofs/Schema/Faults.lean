import ProtoSchema.Proofs.Grammar.Outcome
import ProtoSchema.Proofs.Token.Literal

/-!
# Faults of derived files

A file that the grammar derives has no value for three reasons only: a string literal has a bad
escape, the dialect that it states is unknown, or it names a second package
(`Tree.isStated_or_isFaulty`). Each is reported at the token that is to blame.
-/

namespace ProtoSchema

namespace Token

/-- The literals that state the dialect of a file: those behind the first two tokens. -/
def dialectLiterals? : List Token → Option (List Token)
  | first :: _ :: ts =>
    if first.terminal = .keyword .kwSyntax then some (ts.takeWhile (·.terminal = .string)) else none
  | _ => none

/-- The first names behind the keywords that state a package. -/
def packageNames : List Token → List Token
  | [] => []
  | t :: ts =>
    if t.terminal = .keyword .kwPackage then
      (ts.find? (·.terminal = .name)).toList ++ packageNames ts
    else packageNames ts

/-- The dialect that some tokens state in front, or the default. -/
def IsStated (tokens : List Token) (d : Dialect) : Prop :=
  match dialectLiterals? tokens with
  | none => d = .proto2
  | some literals =>
    ∃ name, ByteString.ofTokens literals = .ok name ∧ Dialect.ofName? (.ofBytes name.bytes) = some d

/-- The faults of the tokens of a file: a bad escape of a literal, an unknown dialect at the first
of its literals, a second package at its name. -/
def IsFaulty (tokens : List Token) (fault : Fault) : Prop :=
  (∃ t ∈ tokens, t.terminal = .string ∧ ∃ e, unescape t.lexeme = .error e ∧ e ≠ .unfinished ∧
    fault = ⟨.badEscape e, t.position⟩) ∨
  (∃ first others name, dialectLiterals? tokens = some (first :: others) ∧
    ByteString.ofTokens (first :: others) = .ok name ∧
      Dialect.ofName? (.ofBytes name.bytes) = none ∧
        fault = ⟨.unknownDialect (.ofBytes name.bytes), first.position⟩) ∨
  ∃ first second others, packageNames tokens = first :: second :: others ∧
    fault = ⟨.secondPackage, second.position⟩

/-! ## Keywords of files -/

theorem dialectLiterals?_eq_none {us : List Token}
    (h : ∀ t ∈ us, t.terminal ≠ .keyword .kwSyntax) : dialectLiterals? us = none := by
  fun_cases dialectLiterals? us with
  | case1 first second ts hfirst => exact absurd hfirst (h first List.mem_cons_self)
  | case2 | case3 => rfl

theorem exists_of_dialectLiterals? {us literals : List Token}
    (h : dialectLiterals? us = some literals) :
    ∃ first others, us = first :: others ∧ first.terminal = .keyword .kwSyntax := by
  revert h
  fun_cases dialectLiterals? us with
  | case1 first second ts hfirst => exact fun _ => ⟨first, second :: ts, rfl, hfirst⟩
  | case2 | case3 => exact nofun

/-- The literals end in front of the mark that closes the statement. -/
theorem dialectLiterals?_statement {first equal last : Token} {literals : List Token}
    (hfirst : first.terminal = .keyword .kwSyntax)
    (hliterals : ∀ t ∈ literals, t.terminal = .string)
    (hlast : last.terminal = .mark .semicolon) (behind : List Token) :
    dialectLiterals? (first :: equal :: (literals ++ last :: behind)) = some literals := by
  rw [dialectLiterals?, if_pos hfirst, List.takeWhile_append_of_pos (by simpa using hliterals),
    List.takeWhile_cons_of_neg (by simp [hlast]), List.append_nil]

theorem packageNames_append {us : List Token}
    (h : ∀ t ∈ us, t.terminal ≠ .keyword .kwPackage) (vs : List Token) :
    packageNames (us ++ vs) = packageNames vs := by
  induction us with
  | nil => rfl
  | cons u us ih =>
    rw [List.forall_mem_cons] at h
    rw [List.cons_append, packageNames, if_neg h.1, ih h.2]

/-- A statement of a package has the name that stands first in it. -/
theorem packageNames_statement {first last name : Token} {us : List Token}
    (hfirst : first.terminal = .keyword .kwPackage)
    (hus : ∀ t ∈ us, t.terminal ≠ .keyword .kwPackage) (hlast : last.terminal = .mark .semicolon)
    (hname : us.find? (·.terminal = .name) = some name) (behind : List Token) :
    packageNames (first :: (us ++ last :: behind)) = name :: packageNames behind := by
  have hbehind : packageNames (last :: behind) = packageNames behind := by
    rw [packageNames, if_neg (by simp [hlast])]
  rw [packageNames, if_pos hfirst, packageNames_append hus, hbehind, List.find?_append, hname]
  rfl

end Token

/-- Only files have statements of a dialect. -/
theorem RuleName.confines_kwSyntax (r : RuleName) :
    r.confines (.keyword .kwSyntax) [.schemaFile, .dialectStmt] = true := by
  obtain ⟨head, index⟩ := r
  revert index
  cases head <;> decide

/-- The keyword of a dialect opens whatever it stands in. -/
theorem RuleName.tail_avoids_kwSyntax (r : RuleName) :
    r.symbols.tail.all
      (Symbol.avoids (.keyword .kwSyntax) [.schemaFile, .dialectStmt]) = true := by
  obtain ⟨head, index⟩ := r
  revert index
  cases head <;> decide

/-- Only files have statements of a package. -/
theorem RuleName.confines_kwPackage (r : RuleName) :
    r.confines (.keyword .kwPackage) [.schemaFile, .topItems, .topItem, .packageStmt] = true := by
  obtain ⟨head, index⟩ := r
  revert index
  cases head <;> decide

/-! ## What the parts of a file make sure of -/

open Token

namespace Nonterminal

/-- How the value of a nonterminal goes with its tokens, as far as it matters for faults. -/
def Tells : (n : Nonterminal) → List Token → n.Value → Prop
  | .stringRun, us, ts =>
    ts = us ∧ us ≠ [] ∧ ∀ t ∈ us, t.terminal = .string ∧ t.lexeme ∈ Lexeme.strings
  | .strings, us, b =>
    us ≠ [] ∧ (∀ t ∈ us, t.terminal = .string) ∧ ByteString.ofTokens us = .ok b
  | .dialectStmt, us, d => ∃ literals name,
      (∀ behind, dialectLiterals? (us ++ behind) = some literals) ∧
        ByteString.ofTokens literals = .ok name ∧ Dialect.ofName? (.ofBytes name.bytes) = some d
  | .name, us, i => ∃ t, us = [t] ∧ t.terminal = .name ∧ t.position = i.position
  | .leadingDot, us, _ => ∃ t, us = [t] ∧ t.terminal = .mark .dot
  | .fullIdent, us, i => ∃ t, us.find? (·.terminal = .name) = some t ∧ t.position = i.position
  | .packageStmt, us, i => ∃ t, (∀ behind, packageNames (us ++ behind) = t :: packageNames behind) ∧
      t.position = i.position
  | .topItem, us, i => ∃ ts, (∀ behind, packageNames (us ++ behind) = ts ++ packageNames behind) ∧
      ts.map position = (i.package?.map Ident.position).toList
  | .topItems, us, is => ∃ ts, (∀ behind, packageNames (us ++ behind) = ts ++ packageNames behind) ∧
      ts.map position = (is.filterMap TopItem.package?).map Ident.position
  | .schemaFile, us, f => IsStated us f.dialect ∧ (packageNames us).length ≤ 1
  | _, _, _ => True

/-- The faults of the nonterminals that have any of their own. -/
def Faulty : Nonterminal → List Token → Fault → Prop
  | .strings, us, fault => ∃ t ∈ us, t.terminal = .string ∧
      ∃ e, unescape t.lexeme = .error e ∧ e ≠ .unfinished ∧ fault = ⟨.badEscape e, t.position⟩
  | .dialectStmt, us, fault => ∃ first others name,
      (∀ behind, dialectLiterals? (us ++ behind) = some (first :: others)) ∧
        ByteString.ofTokens (first :: others) = .ok name ∧
          Dialect.ofName? (.ofBytes name.bytes) = none ∧
            fault = ⟨.unknownDialect (.ofBytes name.bytes), first.position⟩
  | .schemaFile, us, fault => ∃ first second others,
      packageNames us = first :: second :: others ∧ fault = ⟨.secondPackage, second.position⟩
  | _, _, _ => False

end Nonterminal

open Nonterminal (Tells Faulty)

/-- A rule tells what it should of its value, or has a fault of its own. -/
abbrev Rule.Tells {n : Nonterminal} (r : Rule n) : Prop :=
  Action.Ends Nonterminal.Tells (n.Outcome Nonterminal.Tells Faulty) r.symbols r.action []

/-! ### Literals -/

/-- An integer token has a value. -/
theorem Token.exists_intValue {t : Token} (h : t.lexeme ∈ (Terminal.int).language) :
    ∃ n : Nat, t.intValue = .ok (n : Int) := by
  obtain ⟨n, hn⟩ := exists_parseInt h
  exact ⟨n, by rw [intValue, hn]; rfl⟩

theorem Token.map_intValue_ne_error {β : Type} {t : Token}
    (h : t.lexeme ∈ (Terminal.int).language) (f : Int → β) {fault : Fault} :
    t.intValue.map f ≠ .error fault := by
  obtain ⟨n, hn⟩ := exists_intValue h
  rw [hn]
  nofun

/-- Tokens have no bytes together only if one of them has none. -/
theorem Token.exists_of_mapM_bytes {us : List Token} {fault : Fault}
    (h : us.mapM bytes = .error fault) : ∃ t ∈ us, t.bytes = .error fault := by
  induction us with
  | nil => cases h
  | cons t us ih =>
    rw [List.mapM_cons] at h
    cases ht : t.bytes with
    | error e =>
      rw [ht] at h
      obtain rfl := Except.error.inj h
      exact ⟨t, List.mem_cons_self, ht⟩
    | ok b =>
      rw [ht] at h
      cases hrest : us.mapM bytes with
      | error e =>
        simp only [hrest, bind, Except.bind] at h
        obtain ⟨u, hu, hbytes⟩ := ih (hrest.trans h)
        exact ⟨u, List.mem_cons_of_mem _ hu, hbytes⟩
      | ok bs =>
        simp only [hrest, bind, Except.bind] at h
        cases h

/-- Literals fail together only if one of them has a bad escape. -/
theorem Token.exists_of_ofTokens {us : List Token} {fault : Fault}
    (h : ByteString.ofTokens us = .error fault) :
    ∃ t ∈ us, ∃ e, unescape t.lexeme = .error e ∧ fault = ⟨.badEscape e, t.position⟩ := by
  unfold ByteString.ofTokens at h
  cases hparts : us.mapM bytes with
  | ok parts =>
    rw [hparts] at h
    cases h
  | error e =>
    rw [hparts] at h
    obtain rfl := Except.error.inj h
    obtain ⟨t, ht, hbytes⟩ := exists_of_mapM_bytes hparts
    unfold bytes at hbytes
    cases hvalue : unescape t.lexeme with
    | ok bs =>
      rw [hvalue] at hbytes
      cases hbytes
    | error escape =>
      rw [hvalue] at hbytes
      exact ⟨t, ht, escape, hvalue, (Except.error.inj hbytes).symm⟩

theorem ByteString.position_ofTokens {first : Token} {others : List Token} {b : ByteString}
    (h : ofTokens (first :: others) = .ok b) : b.position = first.position := by
  unfold ofTokens at h
  cases hparts : (first :: others).mapM Token.bytes with
  | error e =>
    rw [hparts] at h
    cases h
  | ok parts =>
    rw [hparts] at h
    obtain rfl := Except.ok.inj h
    rfl

/-! ### Packages -/

/-- Two lists of items name the packages of both. -/
theorem Nonterminal.Tells.append {us vs : List Token} {is js : List TopItem}
    (his : topItems.Tells us is) (hjs : topItems.Tells vs js) :
    topItems.Tells (us ++ vs) (is ++ js) := by
  obtain ⟨ts, hts, hpositions⟩ := his
  obtain ⟨ts', hts', hpositions'⟩ := hjs
  refine ⟨ts ++ ts', fun behind => ?_, ?_⟩
  · rw [List.append_assoc, hts, hts', List.append_assoc]
  · rw [List.map_append, hpositions, hpositions', List.filterMap_append, List.map_append]

theorem Nonterminal.tells_topItems_singleton {us : List Token} {i : TopItem}
    (h : topItem.Tells us i) : topItems.Tells us [i] := by
  obtain ⟨ts, hts, hpositions⟩ := h
  refine ⟨ts, hts, ?_⟩
  rw [hpositions]
  cases hi : i.package? <;> simp [hi]

/-- A nonterminal in which no package can be stated names none. -/
theorem Nonterminal.tells_topItem_of_derives {n : Nonterminal} {us : List Token} {i : TopItem}
    (hus : n.Derives us)
    (hn : [schemaFile, topItems, topItem, packageStmt].contains n = false)
    (hi : i.package? = none) : topItem.Tells us i := by
  have havoids := hus.avoids RuleName.confines_kwPackage hn
  exact ⟨[], fun behind => packageNames_append havoids behind, by rw [hi]; rfl⟩

/-- A file of some items states its dialect in front of them, and has no second package. -/
theorem Nonterminal.outcome_ofItems {us vs : List Token} {d : Dialect} {is : List TopItem}
    (hstated : Token.IsStated (us ++ vs) d) (hus : ∀ t ∈ us, t.terminal ≠ .keyword .kwPackage)
    (his : topItems.Tells vs is) :
    schemaFile.Outcome Tells Faulty (us ++ vs) (SchemaFile.ofItems d is) := by
  obtain ⟨ts, hts, hpositions⟩ := his
  have hnames : packageNames (us ++ vs) = ts := by
    rw [packageNames_append hus]
    simpa [packageNames] using hts []
  have hlength := congrArg List.length hpositions
  simp only [List.length_map] at hlength
  unfold SchemaFile.ofItems
  split
  · next first second others hpackages =>
    refine ⟨nofun, fun fault hfault => ?_⟩
    obtain rfl := Except.error.inj hfault
    rw [hpackages] at hpositions
    obtain ⟨t, ts', rfl, -, hpositions⟩ := List.map_eq_cons_iff.mp hpositions
    obtain ⟨t', ts'', rfl, hsecond, -⟩ := List.map_eq_cons_iff.mp hpositions
    exact ⟨t, t', ts'', hnames, by rw [hsecond]⟩
  · next packages hne =>
    refine ⟨fun f hf => ?_, nofun⟩
    obtain rfl := Except.ok.inj hf
    refine ⟨hstated, ?_⟩
    rw [hnames, hlength]
    rcases hpackages : is.filterMap TopItem.package? with _ | ⟨first, _ | ⟨second, others⟩⟩
    · simp
    · simp
    · exact absurd hpackages (hne first second others)

theorem Token.isStated_of_avoids {us : List Token}
    (h : ∀ t ∈ us, t.terminal ≠ .keyword .kwSyntax) : IsStated us .proto2 := by
  rw [IsStated, dialectLiterals?_eq_none h]

theorem Token.isStated_append {us : List Token} {d : Dialect}
    (h : Nonterminal.dialectStmt.Tells us d) (vs : List Token) : IsStated (us ++ vs) d := by
  obtain ⟨literals, name, hliterals, hname, hd⟩ := h
  rw [IsStated, hliterals]
  exact ⟨name, hname, hd⟩

/-! ### Rules -/

namespace Nonterminal

theorem tells_stringRun : ∀ r ∈ rules stringRun, r.Tells := by
  refine List.forall_iff_forall_mem.mp ⟨?_, ?_⟩
  · rintro _ t ⟨rfl, hterminal, hlexeme⟩
    refine ⟨fun ts hts => ?_, nofun⟩
    obtain rfl := Except.ok.inj hts
    exact ⟨rfl, List.cons_ne_nil _ _, by simpa using ⟨hterminal, hlexeme⟩⟩
  · rintro us _ ⟨-, rfl, -, hall⟩ _ t ⟨rfl, hterminal, hlexeme⟩
    refine ⟨fun ts hts => ?_, nofun⟩
    obtain rfl := Except.ok.inj hts
    refine ⟨rfl, by simp, fun u hu => ?_⟩
    rcases List.mem_append.mp hu with hu | hu
    · exact hall u hu
    · obtain rfl := List.mem_singleton.mp hu
      exact ⟨hterminal, hlexeme⟩

theorem tells_strings : ∀ r ∈ rules strings, r.Tells := by
  refine List.forall_iff_forall_mem.mp ?_
  rintro us _ ⟨-, rfl, hne, hus⟩
  refine ⟨fun b hb => ⟨hne, fun t ht => (hus t ht).1, hb⟩, fun fault h => ?_⟩
  obtain ⟨t, ht, e, he, rfl⟩ := exists_of_ofTokens h
  obtain ⟨hterminal, hlexeme⟩ := hus t ht
  have hescape : e ≠ .unfinished := by
    rintro rfl
    exact unescape_ne_unfinished hlexeme he
  exact ⟨t, ht, hterminal, e, he, hescape, rfl⟩

theorem tells_fieldNumber : ∀ r ∈ rules fieldNumber, r.Tells := by
  refine List.forall_iff_forall_mem.mp ?_
  rintro _ t ⟨rfl, -, ht⟩
  exact ⟨fun _ _ => trivial, fun _ h => absurd h (map_intValue_ne_error ht _)⟩

theorem tells_number : ∀ r ∈ rules number, r.Tells := by
  refine List.forall_iff_forall_mem.mp ⟨?_, ?_, ?_, ?_, ?_⟩
  · rintro _ s - _ t ⟨rfl, -, ht⟩
    exact ⟨fun _ _ => trivial, fun _ h => absurd h (map_intValue_ne_error ht _)⟩
  · rintro _ t ⟨rfl, -, ht⟩
    exact ⟨fun _ _ => trivial, fun _ h => absurd h (map_intValue_ne_error ht _)⟩
  · exact fun _ _ _ _ _ _ => ⟨fun _ _ => trivial, nofun⟩
  · exact fun _ _ _ => ⟨fun _ _ => trivial, nofun⟩
  · exact fun _ _ _ _ _ _ => ⟨fun _ _ => trivial, nofun⟩

theorem tells_signedInt : ∀ r ∈ rules signedInt, r.Tells := by
  refine List.forall_iff_forall_mem.mp ⟨?_, ?_⟩
  · rintro _ minus - _ t ⟨rfl, -, ht⟩
    exact ⟨fun _ _ => trivial, fun _ h => absurd h (map_intValue_ne_error ht _)⟩
  · rintro _ t ⟨rfl, -, ht⟩
    obtain ⟨i, hi⟩ := exists_intValue ht
    exact ⟨fun _ _ => trivial, fun _ h => nomatch hi.symm.trans h⟩

theorem tells_name : ∀ r ∈ rules name, r.Tells := by
  refine List.forall_iff_forall_mem.mp ?_
  rintro _ t ⟨rfl, ht, -⟩
  refine ⟨fun i hi => ?_, nofun⟩
  obtain rfl := Except.ok.inj hi
  exact ⟨t, rfl, ht, rfl⟩

theorem tells_leadingDot : ∀ r ∈ rules leadingDot, r.Tells := by
  refine List.forall_iff_forall_mem.mp ?_
  rintro _ t ⟨rfl, ht, -⟩
  exact ⟨fun _ _ => ⟨t, rfl, ht⟩, nofun⟩

theorem tells_fullIdent : ∀ r ∈ rules fullIdent, r.Tells := by
  have hplain {us : List Token} {n : Ident} (h : Nonterminal.name.Tells us n) (vs : List Token)
      {i : Ident} (hi : i.position = n.position) : Nonterminal.fullIdent.Tells (us ++ vs) i := by
    obtain ⟨t, rfl, ht, hposition⟩ := h
    exact ⟨t, by simp [ht], hposition.trans hi.symm⟩
  have hdotted {ds us : List Token} {n : Ident} (hds : Nonterminal.leadingDot.Tells ds ())
      (h : Nonterminal.name.Tells us n) (vs : List Token) {i : Ident}
      (hi : i.position = n.position) : Nonterminal.fullIdent.Tells (ds ++ us ++ vs) i := by
    obtain ⟨d, rfl, hd⟩ := hds
    obtain ⟨t, ht, hposition⟩ := hplain h vs hi
    exact ⟨t, by simpa [hd] using ht, hposition⟩
  refine List.forall_iff_forall_mem.mp ⟨?_, ?_, ?_, ?_⟩
  · rintro ds ⟨⟩ ⟨-, hds⟩ us n ⟨-, hn⟩ vs ns -
    refine ⟨fun i hi => ?_, nofun⟩
    obtain rfl := Except.ok.inj hi
    exact hdotted hds hn vs rfl
  · rintro ds ⟨⟩ ⟨-, hds⟩ us n ⟨-, hn⟩
    refine ⟨fun i hi => ?_, nofun⟩
    obtain rfl := Except.ok.inj hi
    simpa using hdotted (i := n.absolute) hds hn [] rfl
  · rintro us n ⟨-, hn⟩ vs ns -
    refine ⟨fun i hi => ?_, nofun⟩
    obtain rfl := Except.ok.inj hi
    exact hplain hn vs rfl
  · rintro us n ⟨-, hn⟩
    refine ⟨fun i hi => ?_, nofun⟩
    obtain rfl := Except.ok.inj hi
    simpa using hplain hn [] rfl

theorem tells_packageStmt : ∀ r ∈ rules packageStmt, r.Tells := by
  refine List.forall_iff_forall_mem.mp ?_
  rintro _ first ⟨rfl, hfirst, -⟩ us p ⟨hus, t, ht, hposition⟩ _ last ⟨rfl, hlast, -⟩
  refine ⟨fun q hq => ?_, nofun⟩
  obtain rfl := Except.ok.inj hq
  have havoids := hus.avoids RuleName.confines_kwPackage rfl
  refine ⟨t, fun behind => ?_, hposition⟩
  simpa using packageNames_statement hfirst havoids hlast ht behind

theorem tells_topItem : ∀ r ∈ rules topItem, r.Tells := by
  have hother {n : Nonterminal} {us : List Token} {i : TopItem} (hus : n.Derives us)
      (hn : [Nonterminal.schemaFile, .topItems, .topItem, .packageStmt].contains n = false)
      (hi : i.package? = none) :
      Nonterminal.topItem.Outcome Nonterminal.Tells Nonterminal.Faulty us (.ok i) := by
    refine ⟨fun j hj => ?_, nofun⟩
    obtain rfl := Except.ok.inj hj
    exact Nonterminal.tells_topItem_of_derives hus hn hi
  refine List.forall_iff_forall_mem.mp ⟨?_, ?_, ?_, ?_, ?_, ?_, ?_, ?_⟩
  · exact fun us i h => hother h.1 rfl rfl
  · rintro us p ⟨-, t, ht, hposition⟩
    refine ⟨fun j hj => ?_, nofun⟩
    obtain rfl := Except.ok.inj hj
    exact ⟨[t], ht, congrArg (fun q => [q]) hposition⟩
  · exact fun us i h => hother h.1 rfl rfl
  · exact fun us i h => hother h.1 rfl rfl
  · exact fun us i h => hother h.1 rfl rfl
  · exact fun us i h => hother h.1 rfl rfl
  · exact fun us i h => hother h.1 rfl rfl
  · rintro _ t ⟨rfl, ht, -⟩
    refine ⟨fun j hj => ?_, nofun⟩
    obtain rfl := Except.ok.inj hj
    exact ⟨[], fun behind => packageNames_append (by simp [ht]) behind, rfl⟩

theorem tells_topItems : ∀ r ∈ rules topItems, r.Tells := by
  refine List.forall_iff_forall_mem.mp ⟨?_, ?_⟩
  · rintro us i ⟨-, hi⟩
    refine ⟨fun is his => ?_, nofun⟩
    obtain rfl := Except.ok.inj his
    exact Nonterminal.tells_topItems_singleton hi
  · rintro us is ⟨-, his⟩ vs i ⟨-, hi⟩
    refine ⟨fun js hjs => ?_, nofun⟩
    obtain rfl := Except.ok.inj hjs
    exact his.append (Nonterminal.tells_topItems_singleton hi)

theorem tells_dialectStmt : ∀ r ∈ rules dialectStmt, r.Tells := by
  refine List.forall_iff_forall_mem.mp ?_
  rintro _ first ⟨rfl, hfirst, -⟩ _ equal ⟨rfl, -, -⟩ literals name ⟨-, hne, hliterals, hname⟩ _
    last ⟨rfl, hlast, -⟩
  have hstatement (behind : List Token) :
      dialectLiterals? (([] ++ [first] ++ [equal] ++ literals ++ [last]) ++ behind) =
        some literals := by
    have hread : dialectLiterals? (first :: equal :: (literals ++ last :: behind)) = some literals :=
      dialectLiterals?_statement hfirst hliterals hlast behind
    simpa using hread
  unfold Nonterminal.Outcome Dialect.ofBytes
  cases hd : Dialect.ofName? (.ofBytes name.bytes) with
  | some d =>
    refine ⟨fun d' hd' => ?_, by simp only [hd]; exact nofun⟩
    simp only [hd, Except.ok.injEq] at hd'
    exact ⟨literals, name, hstatement, hname, hd' ▸ hd⟩
  | none =>
    refine ⟨by simp only [hd]; exact nofun, fun fault hfault => ?_⟩
    simp only [hd, Except.error.injEq] at hfault
    obtain ⟨t, ts, rfl⟩ := List.exists_cons_of_ne_nil hne
    refine ⟨t, ts, name, hstatement, hname, hd, ?_⟩
    rw [← hfault, ByteString.position_ofTokens hname]

theorem tells_schemaFile : ∀ r ∈ rules schemaFile, r.Tells := by
  have hempty : Nonterminal.topItems.Tells [] [] := ⟨[], fun _ => rfl, rfl⟩
  have hpackage {us : List Token} (hus : Nonterminal.dialectStmt.Derives us) :
      ∀ t ∈ us, t.terminal ≠ .keyword .kwPackage :=
    hus.avoids RuleName.confines_kwPackage rfl
  refine List.forall_iff_forall_mem.mp ⟨?_, ?_, ?_, ?_⟩
  · rintro us d ⟨hus, hd⟩ vs is ⟨-, his⟩
    exact Nonterminal.outcome_ofItems (isStated_append hd vs) (hpackage hus) his
  · rintro us d ⟨hus, hd⟩
    have hresult := Nonterminal.outcome_ofItems (isStated_append hd []) (hpackage hus) hempty
    rwa [List.append_nil] at hresult
  · rintro vs is ⟨hvs, his⟩
    have hstated := isStated_of_avoids (hvs.avoids RuleName.confines_kwSyntax rfl)
    exact Nonterminal.outcome_ofItems hstated (List.forall_mem_nil _) his
  · have hstated := isStated_of_avoids (List.forall_mem_nil _)
    exact Nonterminal.outcome_ofItems hstated (List.forall_mem_nil _) hempty

end Nonterminal

/-- Every rule tells what it should of its value, or has a fault of its own. -/
theorem Rule.tells_of_mem {n : Nonterminal} : ∀ r ∈ rules n, r.Tells := by
  cases n with
  | stringRun => exact Nonterminal.tells_stringRun
  | strings => exact Nonterminal.tells_strings
  | fieldNumber => exact Nonterminal.tells_fieldNumber
  | number => exact Nonterminal.tells_number
  | signedInt => exact Nonterminal.tells_signedInt
  | name => exact Nonterminal.tells_name
  | leadingDot => exact Nonterminal.tells_leadingDot
  | fullIdent => exact Nonterminal.tells_fullIdent
  | packageStmt => exact Nonterminal.tells_packageStmt
  | topItem => exact Nonterminal.tells_topItem
  | topItems => exact Nonterminal.tells_topItems
  | dialectStmt => exact Nonterminal.tells_dialectStmt
  | schemaFile => exact Nonterminal.tells_schemaFile
  | _ =>
    simp [rules, Rule.Tells, Action.Ends, Nonterminal.Outcome, Nonterminal.Tells]

/-- A file has a value, with the dialect that is stated in front and one package at most, or a fault
at the token that is to blame. -/
theorem Tree.isStated_or_isFaulty (tree : Tree (.nonterminal .schemaFile))
    (htokens : ∀ t ∈ tree.tokens, t.lexeme ∈ t.terminal.language) :
    (∀ f, tree.value = .ok f →
      Token.IsStated tree.tokens f.dialect ∧ (packageNames tree.tokens).length ≤ 1) ∧
        ∀ fault, tree.value = .error fault → Token.IsFaulty tree.tokens fault := by
  obtain ⟨hvalue, hfault⟩ :=
    tree.outcome (fun r => Rule.tells_of_mem r.rule (List.getElem_mem _)) htokens
  refine ⟨fun f hf => (hvalue f hf).2, fun fault h => ?_⟩
  obtain ⟨n, hn, -, hfaulty⟩ | ⟨n, before, us, behind, htree, hn, -, hfaulty⟩ := hfault fault h
  · obtain rfl := Symbol.nonterminal.inj hn
    exact .inr (.inr hfaulty)
  · cases n with
    | strings =>
      obtain ⟨t, ht, hblame⟩ := hfaulty
      exact .inl ⟨t, by simp [htree, ht], hblame⟩
    | dialectStmt =>
      obtain ⟨first, others, name, hliterals, hname, hd, rfl⟩ := hfaulty
      -- the statement opens with a keyword that stands nowhere but in front
      have hbefore : before = [] := by
        by_contra hne
        obtain ⟨t, ts, rfl⟩ := List.exists_cons_of_ne_nil hne
        obtain ⟨key, others', hus, hkey⟩ := exists_of_dialectLiterals? (hliterals [])
        rw [List.append_nil] at hus
        refine tree.tail_avoids RuleName.confines_kwSyntax RuleName.tail_avoids_kwSyntax key ?_ hkey
        simp [htree, hus]
      refine .inr (.inl ⟨first, others, name, ?_, hname, hd, rfl⟩)
      rw [htree, hbefore, List.nil_append, hliterals]
    | schemaFile => exact absurd rfl hn
    | _ => exact hfaulty.elim

end ProtoSchema
