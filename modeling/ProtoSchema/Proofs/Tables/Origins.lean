import ProtoSchema.Proofs.Tables.Sources

/-!
# Where fields and map entries come from

Which fields of a message keep its rules is told by its declaration alone (`MessageDecl.accepted`).
Every field that has been entered is one of these, or else the key or the value of a map field that
is; and every map entry was entered right before such a map field (`MapBlock.StandsIn`). Nothing is
nested in a map entry. Each step of declaring keeps this (`Traced`), whatever is dropped.

For this, declaring is taken apart once: it enters messages and enums into messages that have a
declaration in the files, each enum as the first of its name there, and the fields of each message
together, by the rules of its declaration. What each of these keeps (`Enduring`, and `Lasting` where
the declaration of an enum does not matter) holds after any files were declared (`Enduring.ofFiles`).
-/

namespace ProtoSchema

/-! ## Induction along declarations -/

namespace Linker

variable {files : List SchemaFile} {l l' : Linker} {P : Linker → Prop} {file : FileScope}
variable {scope : String} {parent : Option Nat} {n : Nat}

/-- Messages and enums that are nested are nested in a message which has a declaration. -/
def IsDeclared (files : List SchemaFile) (l : Linker) (parent : Option Nat) : Prop :=
  ∀ p ∈ parent, ∃ d, DeclaredAs files l.sources p d

/-- `e` is the declaration of an enum: the first of its name in its file, or in the declaration of the
message around it. -/
inductive EnumDeclaredAs (files : List SchemaFile) (sources : List MessageSource) (file : FileScope)
    (name : String) : Option Nat → EnumDecl → Prop
  | top {f : SchemaFile} {e : EnumDecl} (hf : f ∈ files) (hfile : f.scope = file)
    (he : f.enums.find? (·.name = name) = some e) : EnumDeclaredAs files sources file name none e
  | nested {outer : Nat} {m : MessageDecl} {e : EnumDecl} (hm : DeclaredAs files sources outer m)
    (he : m.enums.find? (·.name = name) = some e) :
    EnumDeclaredAs files sources file name (some outer) e

/-- The enums that are declared in the message at place `parent`, or else in a file. -/
def EnumsIn (files : List SchemaFile) (sources : List MessageSource) (file : FileScope) :
    Option Nat → List EnumDecl → Prop
  | none, es => ∃ f ∈ files, f.scope = file ∧ f.enums = es
  | some outer, es => ∃ m, DeclaredAs files sources outer m ∧ m.enums = es

/-- A property of linkers that is kept by whatever declaring the files does. An enum that can be
declared is the first of its name where it stands, and the fields of a message come behind all that is
nested in it. -/
structure Enduring (files : List SchemaFile) (P : Linker → Prop) : Prop where
  idle : ∀ {l l'}, Idle l l' → P l → P l'
  enum : ∀ {l} file scope parent (e : EnumDecl), IsDeclared files l parent →
    (l.definition? (Dotted.join scope e.name) = none →
      EnumDeclaredAs files l.sources file e.name parent e) → P l →
    P (l.declareEnum file scope parent e)
  message : ∀ {l} file scope parent (m : MessageDecl), IsDeclared files l parent → P l →
    P (l.enterMessage file scope parent m.name false m.extensionRanges)
  fields : ∀ {l} file scope owner (m : MessageDecl), DeclaredAs files l.sources owner m →
    l.inventory.Encloses file scope (some owner) →
    (∀ x ∈ m.messages, (l.definition? (Dotted.join scope x.name)).isSome) → P l →
    P (l.declareFields file owner scope ⟨scope, m.reservedRanges, m.reservedNames, []⟩ m.fields)

/-- A property of linkers that is kept by whatever declaring the files does, which enums ever it
declares. -/
structure Lasting (files : List SchemaFile) (P : Linker → Prop) : Prop where
  idle : ∀ {l l'}, Idle l l' → P l → P l'
  enum : ∀ {l} file scope parent (e : EnumDecl), IsDeclared files l parent → P l →
    P (l.declareEnum file scope parent e)
  message : ∀ {l} file scope parent (m : MessageDecl), IsDeclared files l parent → P l →
    P (l.enterMessage file scope parent m.name false m.extensionRanges)
  fields : ∀ {l} file scope owner (m : MessageDecl), DeclaredAs files l.sources owner m →
    l.inventory.Encloses file scope (some owner) → P l →
    P (l.declareFields file owner scope ⟨scope, m.reservedRanges, m.reservedNames, []⟩ m.fields)

theorem IsDeclared.grow (h : IsDeclared files l parent) (hgrows : Grows n l l') :
    IsDeclared files l' parent := by
  intro p hp
  obtain ⟨d, hd⟩ := h p hp
  exact ⟨d, hd.mono hgrows.sources⟩

theorem Grows.encloses (h : Grows n l l') (hl : l.inventory.Encloses file scope parent) :
    l'.inventory.Encloses file scope parent := by
  cases parent with
  | none => exact hl
  | some place =>
    obtain ⟨m, hm, hfacts⟩ := hl
    obtain ⟨added, hadded⟩ := h.messages
    refine ⟨m, ?_, hfacts⟩
    rw [← hadded, List.getElem?_append_left (List.getElem?_eq_some_iff.mp hm).1, hm]

theorem EnumsIn.isDeclared {es : List EnumDecl} (h : EnumsIn files l.sources file parent es) :
    IsDeclared files l parent := by
  rintro p rfl
  exact h.imp fun d hd => hd.1

theorem EnumsIn.grow {es : List EnumDecl} (h : EnumsIn files l.sources file parent es)
    (hgrows : Grows n l l') : EnumsIn files l'.sources file parent es := by
  cases parent with
  | none => exact h
  | some outer =>
    obtain ⟨m, hm, hes⟩ := h
    exact ⟨m, hm.mono hgrows.sources, hes⟩

/-- The first enum of a name is what an enum of this name is declared as. -/
theorem EnumsIn.declaredAs {before behind : List EnumDecl} {e : EnumDecl}
    (h : EnumsIn files l.sources file parent (before ++ e :: behind))
    (hbefore : ∀ x ∈ before, x.name ≠ e.name) :
    EnumDeclaredAs files l.sources file e.name parent e := by
  have hfind : (before ++ e :: behind).find? (·.name = e.name) = some e := by
    have hnone : before.find? (·.name = e.name) = none := by simpa using hbefore
    simp [List.find?_append, hnone]
  cases parent with
  | none =>
    obtain ⟨f, hf, hfile, hes⟩ := h
    exact .top hf hfile (hes ▸ hfind)
  | some outer =>
    obtain ⟨m, hm, hes⟩ := h
    exact .nested hm (hes ▸ hfind)

theorem EnumDeclaredAs.grow {name : String} {e : EnumDecl}
    (h : EnumDeclaredAs files l.sources file name parent e) (hgrows : Grows n l l') :
    EnumDeclaredAs files l'.sources file name parent e := by
  cases h with
  | top hf hfile he => exact .top hf hfile he
  | nested hm he => exact .nested (hm.mono hgrows.sources) he

/-- Behind an enum its name is taken. -/
theorem isSome_definition?_declareEnum (l : Linker) (file : FileScope) (scope : String)
    (parent : Option Nat) (e : EnumDecl) :
    ((l.declareEnum file scope parent e).definition? (Dotted.join scope e.name)).isSome := by
  cases hfree : l.definition? (Dotted.join scope e.name) with
  | none =>
    obtain ⟨rs, -, heq⟩ := declareEnum_of_free file parent e hfree
    rw [heq, Option.isSome_iff_ne_none, ne_eq, definition?_eq_none, not_not]
    simp
  | some old =>
    have hgrows := (spares_declareEnum l file scope parent e).grows 0
    exact hgrows.isSome_definition? (by rw [hfree, Option.isSome_some])

/-- Behind the messages of a message or file their names are taken; `before` are those before. -/
theorem Sourced.isSome_definition?_declareMessages (hsourced : Sourced files l)
    (before ms : List MessageDecl)
    (hbefore : ∀ m ∈ before, (l.definition? (Dotted.join scope m.name)).isSome)
    (hin : DeclaredIn files l.sources file parent (before ++ ms)) :
    ∀ m ∈ before ++ ms, ((l.declareMessages file scope parent ms).definition?
      (Dotted.join scope m.name)).isSome := by
  induction ms generalizing l before with
  | nil =>
    rw [Linker.declareMessages, List.append_nil]
    exact hbefore
  | cons m ms ih =>
    rw [Linker.declareMessages, List.append_cons]
    obtain ⟨hsourced', hgrows, hsome⟩ := Sourced.declareMessage l hsourced file scope parent m
      (declaredAs_of_free hbefore hin)
    obtain ⟨hbefore', hin'⟩ := hgrows.next hbefore hsome hin
    exact ih hsourced' (before ++ [m]) hbefore' hin'

namespace Enduring

variable (h : Enduring files P)
include h

/-- The enums of a message or file are declared behind each other; `before` are those before. -/
theorem declareEnums (hl : P l) (before es : List EnumDecl)
    (hbefore : ∀ e ∈ before, (l.definition? (Dotted.join scope e.name)).isSome)
    (hin : EnumsIn files l.sources file parent (before ++ es)) :
    P (es.foldl (fun l e => l.declareEnum file scope parent e) l) := by
  induction es generalizing l before with
  | nil => exact hl
  | cons e es ih =>
    have hgrows := (spares_declareEnum l file scope parent e).grows 0
    have hdeclared (hfree : l.definition? (Dotted.join scope e.name) = none) :
        EnumDeclaredAs files l.sources file e.name parent e := by
      refine hin.declaredAs fun x hx hname => ?_
      have hsome := hbefore x hx
      rw [hname, hfree] at hsome
      cases hsome
    have hbefore' : ∀ x ∈ before ++ [e], ((l.declareEnum file scope parent e).definition?
        (Dotted.join scope x.name)).isSome :=
      List.forall_mem_append.mpr ⟨fun x hx => hgrows.isSome_definition? (hbefore x hx),
        List.forall_mem_singleton.mpr (isSome_definition?_declareEnum ..)⟩
    have hin' := hin.grow hgrows
    rw [List.append_cons] at hin'
    exact ih (h.enum file scope parent e hin.isDeclared hdeclared hl) (before ++ [e]) hbefore' hin'

/-- What a message holds is declared behind it. -/
theorem declareBody {place : Nat} {m : MessageDecl} (hsourced : Sourced files l) (hl : P l)
    (hm : DeclaredAs files l.sources place m)
    (hinside : l.inventory.Encloses file scope (some place))
    (hnested : ∀ l', Sourced files l' → P l' → DeclaredAs files l'.sources place m →
      P (l'.declareMessages file scope (some place) m.messages)) :
    P (l.declareBody file scope place m) := by
  let l₁ := m.enums.foldl (fun l e => l.declareEnum file scope (some place) e) l
  let l₂ := l₁.declareMessages file scope (some place) m.messages
  have hspares : Spares l l₁ := .foldl (fun l e => spares_declareEnum l file _ _ e) l m.enums
  have hm₁ : DeclaredAs files l₁.sources place m := hm.mono (hspares.grows 0).sources
  have hl₁ : P l₁ := h.declareEnums hl [] m.enums (by simp) ⟨m, hm, rfl⟩
  obtain ⟨-, hgrows⟩ := Sourced.declareMessages l₁ (hsourced.spare hspares) file scope (some place)
    [] m.messages (by simp) ⟨m, hm₁, rfl⟩
  have hl₂ : P l₂ := hnested l₁ (hsourced.spare hspares) hl₁ hm₁
  have htaken : ∀ x ∈ m.messages, (l₂.definition? (Dotted.join scope x.name)).isSome :=
    (hsourced.spare hspares).isSome_definition?_declareMessages [] m.messages (by simp)
      ⟨m, hm₁, rfl⟩
  have hfields := h.fields file scope place m (hm₁.mono hgrows.sources)
    (hgrows.encloses ((hspares.grows 0).encloses hinside)) htaken hl₂
  exact h.idle (.foldl (fun l e => idle_declareExtend l file scope e) _ m.extendBlocks) hfields

end Enduring

mutual

theorem Enduring.declareMessage (h : Enduring files P) (l : Linker) (hsourced : Sourced files l)
    (hl : P l) (file : FileScope) (scope : String) (parent : Option Nat)
    (hparent : IsDeclared files l parent) : (m : MessageDecl) →
      (l.definition? (Dotted.join scope m.name) = none → DeclaredAs files
        (l.sources ++ [⟨m.name, file.name, parent, false⟩]) l.messages.size m) →
      P (l.declareMessage file scope parent m)
  | ⟨name, fields, messages, enums, extendBlocks, oneofs, options, extensionRanges,
      reservedRanges, reservedNames, position⟩, hdeclared => by
    let m : MessageDecl := ⟨name, fields, messages, enums, extendBlocks, oneofs, options,
      extensionRanges, reservedRanges, reservedNames, position⟩
    rcases declareMessage_cases l file scope parent m with ⟨hfree, heq⟩ | ⟨-, p, heq⟩
    · rw [heq]
      let entered := l.enterMessage file scope parent name false extensionRanges
      have hentered : Sourced files entered :=
        hsourced.enterMessage (fun _ => ⟨m, hdeclared hfree, rfl⟩) (by simp)
      have hm : DeclaredAs files entered.sources l.messages.size m := by
        have hsources : entered.sources = l.sources ++ [⟨name, file.name, parent, false⟩] := by
          simp [entered, sources, MessageHeader.source]
        exact hsources ▸ hdeclared hfree
      exact h.declareBody hentered (h.message file scope parent m hparent hl) hm
        (encloses_enterMessage l file scope parent name false extensionRanges)
        fun l' hsourced' hl' hm' =>
          Enduring.declareMessages h l' hsourced' hl' file _ _ [] messages (by simp) ⟨m, hm', rfl⟩
    · rw [heq]
      exact h.idle (idle_report ..) hl

theorem Enduring.declareMessages (h : Enduring files P) (l : Linker) (hsourced : Sourced files l)
    (hl : P l) (file : FileScope) (scope : String) (parent : Option Nat)
    (before : List MessageDecl) : (ms : List MessageDecl) →
      (∀ m ∈ before, (l.definition? (Dotted.join scope m.name)).isSome) →
      DeclaredIn files l.sources file parent (before ++ ms) →
      P (l.declareMessages file scope parent ms)
  | [], _, _ => by
    rw [Linker.declareMessages]
    exact hl
  | m :: ms, hbefore, hin => by
    rw [Linker.declareMessages]
    have hparent : IsDeclared files l parent := by
      rintro p rfl
      exact hin.imp fun d hd => hd.1
    have hdeclared : l.definition? (Dotted.join scope m.name) = none → DeclaredAs files
        (l.sources ++ [⟨m.name, file.name, parent, false⟩]) l.messages.size m :=
      declaredAs_of_free hbefore hin
    obtain ⟨hsourced', hgrows, hsome⟩ :=
      Sourced.declareMessage l hsourced file scope parent m hdeclared
    obtain ⟨hbefore', hin'⟩ := hgrows.next hbefore hsome hin
    have hm := Enduring.declareMessage h l hsourced hl file scope parent hparent m hdeclared
    exact Enduring.declareMessages h _ hsourced' hm file scope parent (before ++ [m]) ms hbefore'
      hin'

end

namespace Enduring

variable (h : Enduring files P)
include h

/-- Declaring one of the files keeps what lasts. -/
theorem declare (hsourced : Sourced files l) (hl : P l) {f : SchemaFile} (hf : f ∈ files) :
    P (l.declare f) := by
  have hstart := idle_start l f.scope
  have hmessages := h.declareMessages _ (hsourced.spare hstart.toSpares) (h.idle hstart hl) f.scope
    f.scope.package none [] f.messages (by simp) ⟨f, hf, rfl, rfl⟩
  have henums : P (f.enums.foldl (fun l e => l.declareEnum f.scope f.scope.package none e) _) :=
    h.declareEnums hmessages [] f.enums (by simp) ⟨f, hf, rfl, rfl⟩
  have hextends := Idle.foldl (fun l e => idle_declareExtend l f.scope f.scope.package e)
    (f.enums.foldl (fun l e => l.declareEnum f.scope f.scope.package none e)
      (((l.addFile f.scope).declarePackage f.scope).declareMessages f.scope f.scope.package none
        f.messages)) f.extendBlocks
  exact h.idle (hextends.trans (.foldl (fun l s => idle_declareService l f.scope s) _ f.services))
    henums

/-- What lasts, and holds where nothing is declared, holds after some of the files were declared. -/
theorem ofFiles_subset (hempty : P empty) {fs : List SchemaFile} (hfs : fs ⊆ files) :
    Sourced files (Linker.ofFiles fs) ∧ P (Linker.ofFiles fs) := by
  induction fs using List.reverseRecOn with
  | nil => exact ⟨.empty, hempty⟩
  | append_singleton fs f ih =>
    obtain ⟨hsourced, hl⟩ := ih fun g hg => hfs (by simp [hg])
    have hf : f ∈ files := hfs (by simp)
    rw [ofFiles_append_singleton]
    exact ⟨hsourced.declare hf, h.declare hsourced hl hf⟩

/-- What lasts, and holds where nothing is declared, holds after any files were declared. -/
theorem ofFiles (hempty : P empty) : P (ofFiles files) :=
  (h.ofFiles_subset hempty (List.Subset.refl files)).2

end Enduring

/-- What lasts, and holds where nothing is declared, holds after any files were declared. -/
theorem Lasting.ofFiles (h : Lasting files P) (hempty : P empty) : P (ofFiles files) :=
  Enduring.ofFiles ⟨h.idle, fun file scope parent e hparent _ => h.enum file scope parent e hparent,
    h.message, fun file scope owner m hm hinside _ => h.fields file scope owner m hm hinside⟩ hempty

end Linker

/-! ## The fields that keep the rules -/

/-- The fields that break no rule, where each takes its name and number from those behind it. -/
def FieldRules.accepted (rules : FieldRules) : List FieldDecl → List FieldDecl
  | [] => []
  | f :: fs =>
    match rules.problem? f with
    | some _ => rules.accepted fs
    | none => f :: (rules.take f).accepted fs

/-- The fields of a message, which has a full name, that keep its rules. Of these no more than map
fields can be dropped. -/
def MessageDecl.accepted (m : MessageDecl) (fullName : String) : List FieldDecl :=
  FieldRules.accepted ⟨fullName, m.reservedRanges, m.reservedNames, []⟩ m.fields

theorem FieldRules.accepted_subset (rules : FieldRules) (fs : List FieldDecl) :
    rules.accepted fs ⊆ fs := by
  induction fs generalizing rules with
  | nil => simp [accepted]
  | cons f fs ih =>
    rw [accepted]
    cases rules.problem? f with
    | some p => exact List.subset_cons_of_subset f (ih rules)
    | none => exact List.cons_subset_cons f (ih (rules.take f))

/-- The fields that keep the rules have different names, which were not taken before. -/
theorem FieldRules.nodup_accepted (rules : FieldRules) (fs : List FieldDecl) :
    ((rules.accepted fs).map (·.name)).Nodup ∧
      ∀ f ∈ rules.accepted fs, f.name ∉ rules.taken.map (·.2) := by
  induction fs generalizing rules with
  | nil => simp [accepted]
  | cons f fs ih =>
    rw [accepted]
    cases hproblem : rules.problem? f with
    | some p => exact ih rules
    | none =>
      obtain ⟨hnodup, hfree⟩ := ih (rules.take f)
      have htake : (rules.take f).taken.map (·.2) = rules.taken.map (·.2) ++ [f.name] := by
        simp [take]
      simp only [htake, List.mem_append, List.mem_singleton, not_or] at hfree
      refine ⟨?_, List.forall_mem_cons.mpr ⟨name_notMem hproblem, fun g hg => (hfree g hg).1⟩⟩
      rw [List.map_cons, List.nodup_cons]
      refine ⟨fun hmem => ?_, hnodup⟩
      obtain ⟨g, hg, hname⟩ := List.mem_map.mp hmem
      exact (hfree g hg).2 hname

/-- A field that keeps the rules is told by its name. -/
theorem MessageDecl.eq_of_accepted {m : MessageDecl} {fullName : String} {f g : FieldDecl}
    (hf : f ∈ m.accepted fullName) (hg : g ∈ m.accepted fullName) (h : f.name = g.name) : f = g :=
  List.inj_on_of_nodup_map (FieldRules.nodup_accepted _ _).1 hf hg h

/-! ## Where fields come from -/

namespace Linker

variable {files : List SchemaFile} {l l' : Linker} {file : FileScope} {scope : String}
variable {parent : Option Nat} {n k i : Nat} {f : FieldDecl}

/-- The declaration of the message at place `i` has a field that keeps its rules. -/
def Accepts (files : List SchemaFile) (l : Linker) (i : Nat) (f : FieldDecl) : Prop :=
  ∃ m d, l.inventory.messages[i]? = some m ∧ DeclaredAs files l.sources i d ∧
    f ∈ d.accepted m.fullName

/-- At place `k` a field of the message at place `owner` has been entered. -/
def FieldAt (l : Linker) (k owner : Nat) (f : FieldDecl) : Prop :=
  ∃ e, l.inventory.fields[k]? = some e ∧ e.owner = some owner ∧ e.decl = f

/-- What a map field makes: the message for its entries at place `entry`, with the key at place
`first` of the fields and the value behind it; and then the field itself. -/
structure MapBlock where
  owner : Nat
  entry : Nat
  first : Nat
  field : FieldDecl
  key : String
  value : String
  position : Position

/-- All of a map field that keeps the rules of its message has been entered. -/
structure MapBlock.StandsIn (files : List SchemaFile) (l : Linker) (b : MapBlock) : Prop where
  shape : b.field.shape = .map b.key b.value b.position
  accepted : Accepts files l b.owner b.field
  entry : ∃ m, l.inventory.messages[b.owner]? = some m ∧
    l.inventory.messages[b.entry]? = some ⟨MapEntry.name b.field.name,
      Dotted.join m.fullName (MapEntry.name b.field.name), m.file, some b.owner, true, []⟩
  key : l.FieldAt b.first b.entry (keyField b.field b.key)
  value : l.FieldAt (b.first + 1) b.entry (valueField b.field b.value b.position)
  field : l.FieldAt (b.first + 2) b.owner (mapField b.field)

/-- What the field at place `k` comes from. -/
inductive ComesFrom (files : List SchemaFile) (l : Linker) (k : Nat) : Prop
  | plain {i : Nat} {f : FieldDecl} (haccepted : Accepts files l i f) (hmap : f.isMap = false)
    (hfield : l.FieldAt k i f) : ComesFrom files l k
  | map {b : MapBlock} (hb : b.StandsIn files l) (hk : k = b.first + 2) : ComesFrom files l k
  | key {b : MapBlock} (hb : b.StandsIn files l) (hk : k = b.first) : ComesFrom files l k
  | value {b : MapBlock} (hb : b.StandsIn files l) (hk : k = b.first + 1) : ComesFrom files l k

/-- Every field and every map entry is known to come from somewhere, and what is nested is nested in
messages that have a declaration. -/
structure Traced (files : List SchemaFile) (l : Linker) : Prop where
  fields : ∀ k < l.inventory.fields.length, ComesFrom files l k
  entries : ∀ j m, l.inventory.messages[j]? = some m → m.isMapEntry = true →
    ∃ b : MapBlock, b.StandsIn files l ∧ b.entry = j
  messages : ∀ m ∈ l.inventory.messages, IsDeclared files l m.parent
  enums : ∀ e ∈ l.inventory.enums, IsDeclared files l e.parent

/-! ## What is entered stays -/

namespace Grows

variable (h : Grows n l l')
include h

theorem getElem?_messages {m : MessageHeader} (hm : l.inventory.messages[i]? = some m) :
    l'.inventory.messages[i]? = some m :=
  (List.prefix_iff_getElem?.mp h.messages i (List.getElem?_eq_some_iff.mp hm).1).trans
    ((List.getElem?_eq_getElem _).symm.trans hm)

theorem getElem?_fields {e : FieldEntry} (he : l.inventory.fields[k]? = some e) :
    l'.inventory.fields[k]? = some e := by
  obtain ⟨added, hadded, -⟩ := h.fields
  rw [hadded, List.getElem?_append_left (List.getElem?_eq_some_iff.mp he).1, he]

theorem accepts (hf : Accepts files l i f) : Accepts files l' i f := by
  obtain ⟨m, d, hm, hd, hmem⟩ := hf
  exact ⟨m, d, h.getElem?_messages hm, hd.mono h.sources, hmem⟩

theorem fieldAt (hf : l.FieldAt k i f) : l'.FieldAt k i f := by
  obtain ⟨e, he, hfacts⟩ := hf
  exact ⟨e, h.getElem?_fields he, hfacts⟩

theorem standsIn {b : MapBlock} (hb : b.StandsIn files l) : b.StandsIn files l' := by
  obtain ⟨m, hm, hentry⟩ := hb.entry
  exact ⟨hb.shape, h.accepts hb.accepted, ⟨m, h.getElem?_messages hm, h.getElem?_messages hentry⟩,
    h.fieldAt hb.key, h.fieldAt hb.value, h.fieldAt hb.field⟩

theorem comesFrom (hk : ComesFrom files l k) : ComesFrom files l' k := by
  cases hk with
  | plain haccepted hmap hfield => exact .plain (h.accepts haccepted) hmap (h.fieldAt hfield)
  | map hb hk => exact .map (h.standsIn hb) hk
  | key hb hk => exact .key (h.standsIn hb) hk
  | value hb hk => exact .value (h.standsIn hb) hk

end Grows

/-! ## Every step keeps track -/

namespace Traced

theorem empty : Traced files empty := by
  constructor <;> simp [Linker.empty, inventory]

/-- Only what is added has to be traced. -/
theorem grow (h : Traced files l) (hgrows : Grows n l l')
    (hfields : ∀ k, l.inventory.fields.length ≤ k → k < l'.inventory.fields.length →
      ComesFrom files l' k)
    (hmessages : ∀ j m, l.inventory.messages.length ≤ j → l'.inventory.messages[j]? = some m →
      IsDeclared files l' m.parent ∧
        (m.isMapEntry = true → ∃ b : MapBlock, b.StandsIn files l' ∧ b.entry = j))
    (henums : ∀ e ∈ l'.inventory.enums, e ∈ l.inventory.enums ∨ IsDeclared files l' e.parent) :
    Traced files l' := by
  -- a message is an old one, which is traced already, or has been added
  have hcases {j : Nat} {m : MessageHeader} (hm : l'.inventory.messages[j]? = some m) :
      l.inventory.messages[j]? = some m ∨ l.inventory.messages.length ≤ j := by
    by_cases hj : j < l.inventory.messages.length
    · have hold := List.getElem?_eq_getElem hj
      rw [hgrows.getElem?_messages hold] at hm
      exact .inl (hold.trans hm)
    · exact .inr (Nat.not_lt.mp hj)
  refine ⟨fun k hk => ?_, fun j m hm hentry => ?_, fun m hm => ?_, fun e he => ?_⟩
  · by_cases hold : k < l.inventory.fields.length
    · exact hgrows.comesFrom (h.fields k hold)
    · exact hfields k (Nat.not_lt.mp hold) hk
  · rcases hcases hm with hold | hnew
    · obtain ⟨b, hb, hj⟩ := h.entries j m hold hentry
      exact ⟨b, hgrows.standsIn hb, hj⟩
    · exact (hmessages j m hnew hm).2 hentry
  · obtain ⟨j, hj⟩ := List.mem_iff_getElem?.mp hm
    rcases hcases hj with hold | hnew
    · exact (h.messages m (List.mem_of_getElem? hold)).grow hgrows
    · exact (hmessages j m hnew hj).1
  · rcases henums e he with hold | hnew
    · exact (h.enums e hold).grow hgrows
    · exact hnew

/-- Nothing has to be traced where neither messages nor fields are added. -/
theorem spare (h : Traced files l) (hspares : Spares l l')
    (henums : ∀ e ∈ l'.inventory.enums, e ∈ l.inventory.enums ∨ IsDeclared files l' e.parent) :
    Traced files l' := by
  refine h.grow (hspares.grows 0) (fun k hle hlt => ?_) (fun j m hle hm => ?_) henums
  · rw [hspares.fields] at hlt
    exact absurd hlt (Nat.not_lt.mpr hle)
  · rw [hspares.messages] at hm
    exact absurd (List.getElem?_eq_some_iff.mp hm).1 (Nat.not_lt.mpr hle)

theorem idle (h : Traced files l) (hidle : Idle l l') : Traced files l' :=
  h.spare hidle.toSpares fun _ he => .inl (hidle.enums ▸ he)

theorem declareEnum (h : Traced files l) (hparent : IsDeclared files l parent) (e : EnumDecl) :
    Traced files (l.declareEnum file scope parent e) := by
  have hspares := spares_declareEnum l file scope parent e
  refine h.spare hspares fun x hx => ?_
  cases hfree : l.definition? (Dotted.join scope e.name) with
  | none =>
    obtain ⟨rs, -, heq⟩ := declareEnum_of_free file parent e hfree
    simp only [heq, inventory_enterEnum, inventory_noteAll, List.mem_append,
      List.mem_singleton] at hx
    rcases hx with hx | rfl
    · exact .inl hx
    · exact .inr (hparent.grow (hspares.grows 0))
  | some old =>
    obtain ⟨p, heq⟩ := declareEnum_of_taken file parent e hfree
    rw [heq] at hx
    exact .inl hx

theorem enterMessage (h : Traced files l) (hparent : IsDeclared files l parent) (name : String)
    (extensionRanges : List NumberRange) :
    Traced files (l.enterMessage file scope parent name false extensionRanges) := by
  have hgrows := Grows.enterMessage l file scope parent name false extensionRanges 0
  refine h.grow hgrows (fun k hle hlt => ?_) (fun j m hle hm => ?_) (fun e he => ?_)
  · rw [inventory_enterMessage] at hlt
    exact absurd hlt (Nat.not_lt.mpr hle)
  · rw [inventory_enterMessage] at hm
    simp only [List.getElem?_append_right hle, List.getElem?_singleton,
      Option.ite_none_right_eq_some, Option.some.injEq] at hm
    obtain ⟨-, rfl⟩ := hm
    exact ⟨hparent.grow hgrows, by simp⟩
  · rw [inventory_enterMessage] at he
    exact .inl he

/-- A field that keeps the rules and is no map is traced to itself. -/
theorem addField (h : Traced files l) (haccepted : Accepts files l i f) (hmap : f.isMap = false) :
    Traced files (l.addField file i scope f) := by
  have hgrows := Grows.addField l file scope f (le_refl i)
  refine h.grow hgrows (fun k hle hlt => ?_) (fun j m hle hm => ?_) (fun e he => ?_)
  · have hfield : (l.addField file i scope f).FieldAt k i f := by
      simp only [inventory_addField, List.length_append, List.length_singleton] at hlt
      obtain rfl : k = l.inventory.fields.length := by omega
      exact ⟨_, by rw [inventory_addField, List.getElem?_concat_length], rfl, rfl⟩
    exact .plain (hgrows.accepts haccepted) hmap hfield
  · rw [inventory_addField] at hm
    exact absurd (List.getElem?_eq_some_iff.mp hm).1 (Nat.not_lt.mpr hle)
  · rw [inventory_addField] at he
    exact .inl he

/-- A map field whose entry message can be declared makes all that it stands for. -/
theorem addMap (h : Traced files l) (haccepted : Accepts files l i f) {key value : String}
    {position : Position} (hshape : f.shape = .map key value position)
    (hinside : l.inventory.Encloses file scope (some i)) :
    let entryName := Dotted.join scope (MapEntry.name f.name)
    let entered := l.enterMessage file scope (some i) (MapEntry.name f.name) true []
    Traced files (((entered.addField file l.messages.size entryName (keyField f key)).addField file
      l.messages.size entryName (valueField f value position)).addField file i scope
        (mapField f)) := by
  intro entryName entered
  let withKey := entered.addField file l.messages.size entryName (keyField f key)
  let withValue := withKey.addField file l.messages.size entryName (valueField f value position)
  let l' := withValue.addField file i scope (mapField f)
  let n := l.inventory.fields.length
  let b : MapBlock := ⟨i, l.messages.size, n, f, key, value, position⟩
  have hgrows : Grows 0 l l' :=
    (((Grows.enterMessage ..).trans (.addField _ _ _ _ (Nat.zero_le _))).trans
      (.addField _ _ _ _ (Nat.zero_le _))).trans (.addField _ _ _ _ (Nat.zero_le _))
  have hmessages : l'.inventory.messages = l.inventory.messages ++
      [⟨MapEntry.name f.name, entryName, file, some i, true, []⟩] := by
    simp [l', withValue, withKey, entered, inventory_addField, entryName]
  have henums : l'.inventory.enums = l.inventory.enums := by
    simp [l', withValue, withKey, entered, inventory_addField]
  have hfields : l'.inventory.fields = l.inventory.fields ++
      [{ (keyField f key).entry file entryName with owner := some l.messages.size },
        { (valueField f value position).entry file entryName with owner := some l.messages.size },
        { (mapField f).entry file scope with owner := some i }] := by
    simp only [l', withValue, withKey, entered, inventory_addField, inventory_enterMessage,
      List.append_assoc, List.singleton_append]
    rfl
  have hb : b.StandsIn files l' := by
    obtain ⟨m, hm, rfl, rfl⟩ := hinside
    refine ⟨hshape, hgrows.accepts haccepted, ⟨m, hgrows.getElem?_messages hm, ?_⟩, ?_, ?_, ?_⟩
    · simp [hmessages, b, entryName, ← length_messages_inventory]
    all_goals simp [FieldAt, hfields, b, n, FieldDecl.entry]
  refine h.grow hgrows (fun k hle hlt => ?_) (fun j m hle hm => ?_) (fun e he => .inl (henums ▸ he))
  · rw [hfields, List.length_append] at hlt
    have hk : k = n ∨ k = n + 1 ∨ k = n + 2 := by
      simp only [List.length_cons, List.length_nil] at hlt
      omega
    rcases hk with rfl | rfl | rfl
    · exact .key hb rfl
    · exact .value hb rfl
    · exact .map hb rfl
  · rw [show _ = _ from hmessages, List.getElem?_append_right hle, List.getElem?_singleton,
      Option.ite_none_right_eq_some, Option.some.injEq] at hm
    obtain ⟨hj, rfl⟩ := hm
    obtain ⟨-, d, -, hd, -⟩ := hgrows.accepts haccepted
    refine ⟨?_, fun _ => ⟨b, hb, ?_⟩⟩
    · rintro p ⟨⟩
      exact ⟨d, hd⟩
    · rw [length_messages_inventory] at hle hj
      exact (Nat.le_antisymm (Nat.sub_eq_zero_iff_le.mp hj) hle).symm

/-- The fields of a message are declared by its rules. -/
theorem declareFields (h : Traced files l) (rules : FieldRules) (fs : List FieldDecl)
    (haccepted : ∀ f ∈ rules.accepted fs, Accepts files l i f)
    (hinside : l.inventory.Encloses file scope (some i)) :
    Traced files (l.declareFields file i scope rules fs) := by
  induction fs generalizing l rules with
  | nil => exact h
  | cons f fs ih =>
    rw [declareFields_cons]
    unfold declareField
    rw [FieldRules.accepted] at haccepted
    cases hproblem : rules.problem? f with
    | some p =>
      rw [hproblem] at haccepted
      have hgrows := (idle_report l file (some f.position) p).grows 0
      exact ih (h.idle (idle_report ..)) rules (fun g hg => hgrows.accepts (haccepted g hg)) hinside
    | none =>
      rw [hproblem] at haccepted
      obtain ⟨hf, hfs⟩ := List.forall_mem_cons.mp haccepted
      have hplain (hmap : f.isMap = false) : Traced files
          ((l.addField file i scope f).declareFields file i scope (rules.take f) fs) := by
        have hgrows := Grows.addField l file scope f (le_refl i)
        exact ih (h.addField hf hmap) _ (fun g hg => hgrows.accepts (hfs g hg))
          (hgrows.encloses hinside)
      cases hshape : f.shape with
      | named | group => exact hplain (by simp [FieldDecl.isMap, hshape])
      | map key value position =>
        rcases declareMapEntry_cases l file i scope f key value position with
          ⟨-, heq⟩ | ⟨-, p, heq⟩
        · simp only [heq]
          have hgrows : Grows 0 l _ :=
            (((Grows.enterMessage l file scope (some i) (MapEntry.name f.name) true [] 0).trans
              (.addField _ file (Dotted.join scope (MapEntry.name f.name)) (keyField f key)
                (Nat.zero_le l.messages.size))).trans
              (.addField _ file (Dotted.join scope (MapEntry.name f.name))
                (valueField f value position) (Nat.zero_le l.messages.size))).trans
              (.addField _ file scope (mapField f) (Nat.zero_le i))
          exact ih (h.addMap hf hshape hinside) _ (fun g hg => hgrows.accepts (hfs g hg))
            (hgrows.encloses hinside)
        · simp only [heq]
          have hgrows := (idle_report l file (some f.position) p).grows 0
          exact ih (h.idle (idle_report ..)) _ (fun g hg => hgrows.accepts (hfs g hg)) hinside

end Traced

/-- Whatever declaring the files does, fields and map entries stay traced. -/
theorem lasting_traced (files : List SchemaFile) : Lasting files (Traced files) where
  idle hidle hl := hl.idle hidle
  enum _ _ _ e hparent hl := hl.declareEnum hparent e
  message _ _ _ m hparent hl := hl.enterMessage hparent m.name m.extensionRanges
  fields _ _ _ m hm hinside hl := by
    refine hl.declareFields _ m.fields (fun f hf => ?_) hinside
    obtain ⟨h, hh, rfl, -⟩ := hinside
    exact ⟨h, m, hh, hm, hf⟩

theorem traced_ofFiles (files : List SchemaFile) : Traced files (ofFiles files) :=
  (lasting_traced files).ofFiles .empty

end Linker

end ProtoSchema
