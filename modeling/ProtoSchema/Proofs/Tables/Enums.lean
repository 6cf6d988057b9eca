import ProtoSchema.Proofs.Linker.Founded
import ProtoSchema.Proofs.Linker.Stages
import ProtoSchema.Proofs.Pool.Accessors
import ProtoSchema.Proofs.Schema.Accepted
import ProtoSchema.Proofs.Tables.Maps

/-!
# Enums in linked tables

The values of an enum are taken in the order of their declaration, and a value is dropped just if it
breaks a rule beside the values that were kept before it (`EnumDecl.Sifts`). The record of an enum has
the kept values, an index of their names and an index of their numbers, which leads to the first value
of a number, and a pool answers by these (`Linker.enums_faithful_of_link`).
-/

namespace ProtoSchema

/-! ## Sifting -/

namespace EnumDecl

variable {e : EnumDecl} {values kept : List EnumValueDecl} {v : EnumValueDecl} {fullName : String}

/-- An option lets several values have one number. -/
def AllowsAlias (e : EnumDecl) : Prop :=
  ∃ o ∈ e.options, o.name = "allow_alias" ∧ o.value.value = .ident "true"

/-- Why a value is dropped where `kept` are the values that were kept before it. -/
inductive Bars (e : EnumDecl) (kept : List EnumValueDecl) (v : EnumValueDecl) : Prop
  | name (h : ∃ w ∈ kept, w.name = v.name) : Bars e kept v
  | range (h : ¬ (-2 ^ 31 ≤ v.number ∧ v.number ≤ 2 ^ 31 - 1)) : Bars e kept v
  | reservedNumber (h : ∃ r ∈ e.reservedRanges, r.first ≤ v.number ∧
      v.number ≤ r.last.getD (2 ^ 31 - 1)) : Bars e kept v
  | reservedName (h : Text.ofString v.name ∈ e.reservedNames) : Bars e kept v
  | number (h : ∃ w ∈ kept, w.number = v.number) (hforbidden : ¬ e.AllowsAlias) : Bars e kept v

/-- Of some values, in the order of their declaration, those are kept that nothing bars. -/
inductive Sifts (e : EnumDecl) : (values kept : List EnumValueDecl) → Prop
  | nil : Sifts e [] []
  | keep {values kept : List EnumValueDecl} {v : EnumValueDecl} (h : Sifts e values kept) (hv : ¬ e.Bars kept v) :
    Sifts e (values ++ [v]) (kept ++ [v])
  | drop {values kept : List EnumValueDecl} {v : EnumValueDecl} (h : Sifts e values kept) (hv : e.Bars kept v) :
    Sifts e (values ++ [v]) kept

theorem allowsAlias_iff : e.allowsAlias = true ↔ e.AllowsAlias := by
  have hflag (x : Value) : (x.flag? == some true) = true ↔ x = .ident "true" := by
    rw [beq_iff_eq]
    constructor
    · intro h
      unfold Value.flag? at h
      split at h
      · rfl
      · simp at h
      · cases h
    · rintro rfl
      rfl
  simp only [allowsAlias, AllowsAlias, List.any_eq_true, Bool.and_eq_true, beq_iff_eq, hflag]

/-- No rule is broken just if nothing bars a value. -/
theorem problem?_eq_none_iff_not_bars : e.problem? fullName kept v = none ↔ ¬ e.Bars kept v := by
  have hreserved : NumberRange.anyContains e.reservedRanges maxEnumNumber v.number = false ↔
      ¬ ∃ r ∈ e.reservedRanges, r.first ≤ v.number ∧ v.number ≤ r.last.getD (2 ^ 31 - 1) := by
    rw [← Bool.not_eq_true, not_iff_not]
    simp only [NumberRange.anyContains, List.any_eq_true, decide_eq_true_eq]
    rfl
  have hnamed : e.reservedNames.contains (Text.ofString v.name) = false ↔
      Text.ofString v.name ∉ e.reservedNames := by
    simp
  rw [problem?_eq_none_iff, hreserved, hnamed, allowsAlias_iff, List.mem_map, List.mem_map]
  constructor
  · rintro ⟨hname, hrange, hreservedNumber, hreservedName, hnumber⟩ hbars
    cases hbars with
    | name h => exact hname h
    | range h => exact h hrange
    | reservedNumber h => exact hreservedNumber h
    | reservedName h => exact hreservedName h
    | number h hforbidden => exact hnumber.elim hforbidden fun hfree => hfree h
  · intro hfree
    refine ⟨fun h => hfree (.name h), not_not.mp fun h => hfree (.range h),
      fun h => hfree (.reservedNumber h), fun h => hfree (.reservedName h), ?_⟩
    by_contra h
    rw [not_or, not_not] at h
    exact hfree (.number h.2 h.1)

/-- What keeps the rules is what is left by sifting. -/
theorem Sifts.accepted (h : e.Sifts values kept) (vs : List EnumValueDecl) :
    e.Sifts (values ++ vs) (e.accepted fullName kept vs) := by
  induction vs generalizing values kept with
  | nil => simpa [EnumDecl.accepted] using h
  | cons v vs ih =>
    rw [EnumDecl.accepted, List.append_cons]
    cases hproblem : e.problem? fullName kept v with
    | none => exact ih (h.keep (problem?_eq_none_iff_not_bars.mp hproblem))
    | some p =>
      have hbars : e.Bars kept v := by
        by_contra hfree
        rw [problem?_eq_none_iff_not_bars.mpr hfree] at hproblem
        cases hproblem
      exact ih (h.drop hbars)

/-- Sifting leaves one list of values. -/
theorem Sifts.unique {kept' : List EnumValueDecl} (h : e.Sifts values kept)
    (h' : e.Sifts values kept') : kept = kept' := by
  induction h generalizing kept' with
  | nil =>
    generalize hnil : ([] : List EnumValueDecl) = vs at h'
    cases h' with
    | nil => rfl
    | keep | drop => simp at hnil
  | @keep _ _ v _ hv ih =>
    generalize hlast : _ ++ [v] = vs at h'
    cases h' with
    | nil => simp at hlast
    | keep h' _ =>
      obtain ⟨rfl, heq⟩ := List.append_inj' hlast rfl
      rw [ih h', heq]
    | drop h' hv' =>
      obtain ⟨rfl, heq⟩ := List.append_inj' hlast rfl
      obtain rfl := List.singleton_inj.mp heq
      exact absurd (ih h' ▸ hv') hv
  | @drop _ _ v _ hv ih =>
    generalize hlast : _ ++ [v] = vs at h'
    cases h' with
    | nil => simp at hlast
    | keep h' hv' =>
      obtain ⟨rfl, heq⟩ := List.append_inj' hlast rfl
      obtain rfl := List.singleton_inj.mp heq
      exact absurd (ih h' ▸ hv) hv'
    | drop h' _ =>
      obtain ⟨rfl, -⟩ := List.append_inj' hlast rfl
      exact ih h'

/-- Without an option for it, no two values that are kept have one number. -/
theorem Sifts.nodup_numbers (h : e.Sifts values kept) (hforbidden : ¬ e.AllowsAlias) :
    (kept.map (·.number)).Nodup := by
  induction h with
  | nil => exact List.nodup_nil
  | keep _ hv ih =>
    refine nodup_map_append_singleton ih fun hmem => hv (.number ?_ hforbidden)
    simpa using hmem
  | drop _ _ ih => exact ih

end EnumDecl

/-! ## Records -/

/-- The place of the first of the kept values of an enum that is sought. -/
def EnumRecord.firstPlace? (r : EnumRecord) (kept : List EnumValueDecl)
    (sought : EnumValueDecl → Bool) : Option Nat :=
  (kept.findIdx? sought).bind (r.values[·]?)

namespace Tables

/-- `d` is the declaration of an enum, and stands in `scope`: it is the first of its name in a file,
whose package is the scope, or in the declaration of the message around the enum. -/
inductive EnumStandsIn (t : Tables) (files : List SchemaFile) (r : EnumRecord) :
    String → EnumDecl → Prop
  | file {f : SchemaFile} {d : EnumDecl} (hparent : r.parent = none) (hf : f ∈ files)
    (hname : f.name = r.file) (hd : f.enums.find? (·.name = r.name) = some d) :
    EnumStandsIn t files r (f.package.getD "") d
  | message {i : Nat} {outer : MessageRecord} {m : MessageDecl} {d : EnumDecl}
    (hparent : r.parent = some i) (houter : t.messages[i]? = some outer)
    (hm : DeclaredAs files (t.messages.toList.map MessageRecord.source) i m)
    (hd : m.enums.find? (·.name = r.name) = some d) : EnumStandsIn t files r outer.fullName d

/-- The record at place `i` is that of an enum with the declaration `d` in `scope`, of whose values
`kept` are left. -/
structure EnumFaithful (t : Tables) (files : List SchemaFile) (i : Nat) (r : EnumRecord)
    (scope : String) (d : EnumDecl) (kept : List EnumValueDecl) : Prop where
  declared : t.EnumStandsIn files r scope d
  fullName : r.fullName = Dotted.join scope r.name
  sifted : d.Sifts d.values kept
  records : r.values.map (t.enumValues[·]?) =
    kept.map fun v => some ⟨v.name, Dotted.join scope v.name, v.number, i⟩
  names : (kept.map (·.name)).Nodup
  numbers : ¬ d.AllowsAlias → (kept.map (·.number)).Nodup
  byName : r.valuesByName.entries = (kept.map (·.name)).zip r.values
  findName : ∀ name, r.valuesByName.find? name = r.firstPlace? kept (·.name = name)
  findNumber : ∀ number, r.valuesByNumber.find? number = r.firstPlace? kept (·.number = number)

end Tables

/-- What a pool answers about the enum at place `i`, of whose values `kept` are left: under a number
and under a name it finds the first value. -/
structure Pool.FindsFirst (t : FileTree) (p : Pool) (i : Nat) (r : EnumRecord)
    (kept : List EnumValueDecl) : Prop where
  byNumber : ∀ number, (Pool.enumValueByNumber (p.handleAt .enum i) number).on t p =
    (.ok ((r.firstPlace? kept (·.number = number)).map (p.handleAt .enumValue)), p)
  byName : ∀ name, (Pool.enumValueByName (p.handleAt .enum i) name).on t p =
    (.ok ((r.firstPlace? kept (·.name = name)).map (p.handleAt .enumValue)), p)

section

variable {κ : Type} [DecidableEq κ]

/-- The first entry of a key in a numbered list stands where the first item of the key does. -/
theorem find?_zipIdx_key {α : Type} (g : α → κ) (xs : List α) (n : Nat) (key : κ) :
    (((xs.zipIdx n).map fun x => (g x.1, x.2)).find? (·.1 = key)).map Prod.snd =
      (xs.findIdx? (g · = key)).bind ((List.range' n xs.length)[·]?) := by
  induction xs generalizing n with
  | nil => rfl
  | cons x xs ih =>
    rw [List.zipIdx_cons, List.map_cons, List.findIdx?_cons]
    by_cases hx : g x = key
    · simp [hx]
    · rw [List.find?_cons_of_neg (by simpa using hx), ih (n + 1), if_neg (by simpa using hx),
        List.length_cons, List.range'_succ, Option.bind_map]
      rfl

/-- Where no key is mentioned twice, the last mention is the first. -/
theorem Index.find?_ofLast_eq_find? {entries : List (κ × Nat)}
    (h : (entries.map Prod.fst).Nodup) (key : κ) :
    (ofLast entries).find? key = (entries.find? (·.1 = key)).map Prod.snd := by
  ext place
  rw [find?_ofLast_eq_some h, find?_key_eq_some h]

end

namespace Linker

variable {files : List SchemaFile} {l l' : Linker} {t : Tables} {i : Nat}

/-! ## Declarations -/

/-- Every enum has a declaration, and has the values of it that keep the rules. -/
def Sifted (files : List SchemaFile) (l : Linker) : Prop :=
  ∀ e ∈ l.inventory.enums, ∃ d, EnumDeclaredAs files l.sources e.file e.name e.parent d ∧
    e.values = d.accepted e.fullName [] d.values

theorem Sifted.grow (h : Sifted files l) {n : Nat} (hgrows : Grows n l l')
    (henums : l'.inventory.enums = l.inventory.enums) : Sifted files l' := by
  intro e he
  obtain ⟨d, hd, hvalues⟩ := h e (henums ▸ he)
  exact ⟨d, hd.grow hgrows, hvalues⟩

/-- Declaring a field leaves the enums alone. -/
theorem enums_declareField (l : Linker) (file : FileScope) (owner : Nat) (scope : String)
    (rules : FieldRules) (f : FieldDecl) :
    (l.declareField file owner scope rules f).inventory.enums = l.inventory.enums := by
  unfold declareField
  cases rules.problem? f with
  | some p => rfl
  | none =>
    cases f.shape with
    | named | group => simp [inventory_addField]
    | map key value position =>
      rcases declareMapEntry_cases l file owner scope f key value position with
        ⟨-, heq⟩ | ⟨-, p, heq⟩
      · simp [heq, inventory_addField]
      · simp only [heq]
        rfl

/-- What declaring fields adds comes behind what there is, and is no enum. -/
theorem grows_declareField (l : Linker) (file : FileScope) (owner : Nat) (scope : String)
    (rules : FieldRules) (f : FieldDecl) :
    Grows 0 l (l.declareField file owner scope rules f) := by
  unfold declareField
  cases rules.problem? f with
  | some p => exact (idle_report ..).grows 0
  | none =>
    cases f.shape with
    | named | group => exact .addField l file scope f (Nat.zero_le owner)
    | map key value position =>
      rcases declareMapEntry_cases l file owner scope f key value position with
        ⟨-, heq⟩ | ⟨-, p, heq⟩
      · simp only [heq]
        exact (((Grows.enterMessage ..).trans (.addField _ _ _ _ (Nat.zero_le _))).trans
          (.addField _ _ _ _ (Nat.zero_le _))).trans (.addField _ _ _ _ (Nat.zero_le _))
      · simp only [heq]
        exact (idle_report ..).grows 0

/-- Whatever declaring the files does, enums have the values that keep the rules of the first
declaration of their name. -/
theorem enduring_sifted (files : List SchemaFile) : Enduring files (Sifted files) where
  idle hidle hl := hl.grow (hidle.grows 0) hidle.enums
  enum {l} file scope parent e _ hdeclared hl := by
    have hgrows := (spares_declareEnum l file scope parent e).grows 0
    cases hfree : l.definition? (Dotted.join scope e.name) with
    | none =>
      obtain ⟨rs, -, heq⟩ := declareEnum_of_free file parent e hfree
      rw [heq] at hgrows ⊢
      intro x hx
      simp only [inventory_enterEnum, inventory_noteAll, List.mem_append,
        List.mem_singleton] at hx
      rcases hx with hx | rfl
      · obtain ⟨d, hd, hvalues⟩ := hl x hx
        exact ⟨d, hd.grow hgrows, hvalues⟩
      · exact ⟨e, (hdeclared hfree).grow hgrows, rfl⟩
    | some old =>
      obtain ⟨p, heq⟩ := declareEnum_of_taken file parent e hfree
      rw [heq]
      exact hl.grow ((idle_report ..).grows 0) (idle_report ..).enums
  message file scope parent m _ hl :=
    hl.grow (.enterMessage _ _ _ _ _ _ _ 0) (by simp)
  fields {l} file scope owner m hm hinside htaken hl := by
    clear hm hinside htaken
    generalize (⟨scope, m.reservedRanges, m.reservedNames, []⟩ : FieldRules) = rules
    induction m.fields generalizing l rules with
    | nil => exact hl
    | cons f fs ih =>
      rw [declareFields_cons]
      exact ih (hl.grow (grows_declareField ..) (enums_declareField ..)) _

theorem sifted_ofFiles (files : List SchemaFile) : Sifted files (ofFiles files) :=
  (enduring_sifted files).ofFiles (by simp [Sifted, inventory, empty])

/-! ## Records of enums -/

theorem find?_valuesByNumber (first : Nat) (e : EnumEntry) (number : Int) :
    (enumRecord first e).valuesByNumber.find? number =
      (enumRecord first e).firstPlace? e.values (·.number = number) := by
  rw [EnumRecord.firstPlace?, values_enumRecord]
  exact (Index.find?_ofFirst ..).trans (find?_zipIdx_key (·.number) e.values first number)

theorem nodup_keys_valuesByName {first : Nat} {e : EnumEntry}
    (h : (e.values.map (·.name)).Nodup) :
    (((e.values.zipIdx first).map fun v => (v.1.name, v.2)).map Prod.fst).Nodup := by
  have hkeys : ((e.values.zipIdx first).map fun v => (v.1.name, v.2)).map Prod.fst =
      e.values.map (·.name) := by
    rw [List.map_map]
    change (e.values.zipIdx first).map (EnumValueDecl.name ∘ Prod.fst) = _
    rw [← List.map_map, List.zipIdx_map_fst]
  rwa [hkeys]

theorem find?_valuesByName {first : Nat} {e : EnumEntry} (h : (e.values.map (·.name)).Nodup)
    (name : String) :
    (enumRecord first e).valuesByName.find? name =
      (enumRecord first e).firstPlace? e.values (·.name = name) := by
  rw [EnumRecord.firstPlace?, values_enumRecord]
  exact (Index.find?_ofLast_eq_find? (nodup_keys_valuesByName h) name).trans
    (find?_zipIdx_key (·.name) e.values first name)

theorem entries_valuesByName {first : Nat} {e : EnumEntry} (h : (e.values.map (·.name)).Nodup) :
    (enumRecord first e).valuesByName.entries =
      (e.values.map (·.name)).zip (enumRecord first e).values := by
  rw [values_enumRecord]
  refine (Index.entries_ofLast (nodup_keys_valuesByName h)).trans ?_
  rw [List.zipIdx_eq_zip_range', List.zip_map_left]
  rfl

/-- An enum of files that were read is named by a word. -/
theorem EnumDeclaredAs.isWord {sources : List MessageSource} {file : FileScope} {name : String}
    {parent : Option Nat} {d : EnumDecl} (h : EnumDeclaredAs files sources file name parent d)
    (hread : ∀ f ∈ files, f.IsRead) : Dotted.IsWord name := by
  have hworded (f : SchemaFile) (hf : f ∈ files) : f.Worded := by
    obtain ⟨text, hparse⟩ := hread f hf
    exact SchemaFile.worded_of_parse hparse
  have hname {es : List EnumDecl} (hes : ∀ e ∈ es, e.Worded)
      (hd : es.find? (·.name = name) = some d) : Dotted.IsWord name := by
    have hsame : d.name = name := by simpa using List.find?_some hd
    exact hsame ▸ (hes d (List.mem_of_find?_eq_some hd)).name
  cases h with
  | top hf _ hd => exact hname (hworded _ hf).enums hd
  | nested hm hd =>
    exact hname (hm.forall fun f hf => (hworded f hf).messages).self.enums hd

/-- The scope of an enum is that of its record, where the records of messages have the full names of
the messages. -/
theorem EnumDeclaredAs.standsIn {e : EnumEntry} {d : EnumDecl} {scope : String} (first : Nat)
    (h : EnumDeclaredAs files l.sources e.file e.name e.parent d)
    (hinside : l.inventory.Encloses e.file scope e.parent)
    (hsources : t.messages.toList.map MessageRecord.source = l.sources)
    (hmessages : ∀ (i : Nat) (m : MessageHeader), l.inventory.messages[i]? = some m →
      ∃ r : MessageRecord, t.messages[i]? = some r ∧ r.fullName = m.fullName) :
    t.EnumStandsIn files (enumRecord first e) scope d := by
  obtain ⟨name, fullName, file, parent, values⟩ := e
  cases h with
  | top hf hfile hd =>
    obtain rfl : scope = file.package := hinside
    subst hfile
    exact .file rfl hf rfl hd
  | nested hm hd =>
    obtain ⟨m, houter, rfl, -⟩ := hinside
    obtain ⟨r, hr, hname⟩ := hmessages _ m houter
    rw [← hname]
    exact .message rfl hr (hsources ▸ hm) hd

/-- The records of messages are those of the messages that were declared. -/
theorem records_of_link (hlink : l.link = (l', .ok t)) :
    t.messages.toList.map MessageRecord.source = l.sources ∧
      ∀ (i : Nat) (m : MessageHeader), l.inventory.messages[i]? = some m →
        ∃ r : MessageRecord, t.messages[i]? = some r ∧ r.fullName = m.fullName := by
  have hmessages := (alike_of_link hlink).inventory_messages
  obtain ⟨attached, l₁, hstages⟩ := exists_stages_of_link hlink
  refine ⟨hstages.sources.trans (congrArg (List.map _) hmessages), fun i m hm => ?_⟩
  rw [← hmessages] at hm
  obtain ⟨x, hx, rfl⟩ : ∃ x, l'.messages[i]? = some x ∧ x.header = m := by
    simpa [inventory] using hm
  obtain ⟨r, hr, hrecorded⟩ := hstages.exists_record hx
  exact ⟨r, hr, hrecorded.fullName⟩

/-- The values of an enum have records at its places. -/
theorem map_values_enumRecord {e : EnumEntry} (he : l.enums[i]? = some e) :
    (enumRecord (l.firstValuePlace i) e).values.map (l.valueRecords[·]?) =
      e.values.map fun v =>
        some ⟨v.name, Dotted.join (Dotted.enclosing e.fullName) v.name, v.number, i⟩ := by
  rw [values_enumRecord]
  apply List.ext_getElem?
  intro k
  rw [List.getElem?_map, List.getElem?_map]
  rcases hv : e.values[k]? with _ | v
  · simp [List.getElem?_eq_none_iff.mp hv]
  · simp [(List.getElem?_eq_some_iff.mp hv).1, getElem?_valueRecords he hv]

end Linker

namespace Pool

variable {t : FileTree} {p : Pool} {ts : Tables} {i : Nat} {r : EnumRecord}

theorem on_handle? (kind : RecordKind) (place : Option Nat) :
    (handle? kind place).on t p = (.ok (place.map (p.handleAt kind)), p) := by
  cases place <;> rfl

section

variable (hopen : ¬ p.isClosed) (hlinked : p.linked = some ts) (hr : ts.enums[i]? = some r)
include hopen hlinked hr

theorem on_enum : (enum (p.handleAt .enum i)).on t p = (.ok r, p) := by
  obtain ⟨hlt, rfl⟩ := Array.getElem?_eq_some_iff.mp hr
  rw [enum, on_map, on_locate hopen hlinked]
  simp [located, handleAt, recordAt?_of_lt hlt, Except.map]

theorem findsFirst_of_find? {kept : List EnumValueDecl}
    (hname : ∀ name, r.valuesByName.find? name = r.firstPlace? kept (·.name = name))
    (hnumber : ∀ number, r.valuesByNumber.find? number = r.firstPlace? kept (·.number = number)) :
    p.FindsFirst t i r kept := by
  constructor
  · intro number
    rw [enumValueByNumber, on_bind, on_enum hopen hlinked hr]
    exact (on_handle? ..).trans (by rw [hnumber])
  · intro name
    rw [enumValueByName, on_bind, on_enum hopen hlinked hr]
    exact (on_handle? ..).trans (by rw [hname])

end

end Pool

namespace Linker

variable {files : List SchemaFile} {l : Linker} {t : Tables} {i : Nat}

/-- Whatever files that were read are declared: when linking gives tables, each enum has those values
of its declaration that nothing bars, in their order; its indexes lead to the first value of a name
and of a number; and this is what an open pool with these tables finds. -/
theorem enums_faithful_of_link (hread : ∀ f ∈ files, f.IsRead)
    (hlink : (ofFiles files).link = (l, .ok t)) {r : EnumRecord} (hr : t.enums[i]? = some r) :
    ∃ scope d kept, t.EnumFaithful files i r scope d kept ∧
      ∀ (tree : FileTree) (p : Pool), ¬ p.isClosed → p.linked = some t →
        p.FindsFirst tree i r kept := by
  obtain ⟨henums, hvalues⟩ := enums_of_link hlink
  obtain ⟨hsources, hmessages⟩ := records_of_link hlink
  have hrecord := hr
  rw [henums, List.getElem?_toArray, getElem?_enumRecords, Option.map_eq_some_iff] at hrecord
  obtain ⟨e, he, rfl⟩ := hrecord
  have hmem : e ∈ (ofFiles files).inventory.enums :=
    Array.mem_toList_iff.mpr (Array.mem_of_getElem? he)
  obtain ⟨d, hd, hkept⟩ := sifted_ofFiles files e hmem
  obtain ⟨scope, hinside, hname⟩ := (nested_ofFiles files).enums e hmem
  have hscope : Dotted.enclosing e.fullName = scope := by
    rw [hname]
    exact Dotted.enclosing_join (Dotted.point_notMem_of_isPart (hd.isWord hread).isPart)
  have hsifted : d.Sifts d.values e.values := hkept ▸ EnumDecl.Sifts.nil.accepted d.values
  have hnames : (e.values.map (·.name)).Nodup := nodup_values_ofFiles files e hmem
  have hrecords := map_values_enumRecord he
  rw [hscope] at hrecords
  have hfaithful : t.EnumFaithful files i (enumRecord ((ofFiles files).firstValuePlace i) e) scope d
      e.values := {
    declared := hd.standsIn _ hinside hsources hmessages
    fullName := hname
    sifted := hsifted
    records := by simpa [hvalues] using hrecords
    names := hnames
    numbers := hsifted.nodup_numbers
    byName := entries_valuesByName hnames
    findName := find?_valuesByName hnames
    findNumber := find?_valuesByNumber _ e }
  exact ⟨scope, d, e.values, hfaithful, fun tree p hopen hlinked =>
    Pool.findsFirst_of_find? hopen hlinked hr hfaithful.findName hfaithful.findNumber⟩

end Linker

/-! ## A file with an enum -/

namespace Sample

/-- The lexemes of a file with an enum that lets several values have one number. -/
def enumLexemes : List Lexed :=
  [(.keyword .kwEnum, ['e', 'n', 'u', 'm']), (.name, ['E']), (.mark .lbrace, ['\x7b']),
    (.keyword .kwOption, ['o', 'p', 't', 'i', 'o', 'n']),
    (.name, ['a', 'l', 'l', 'o', 'w', '_', 'a', 'l', 'i', 'a', 's']), (.mark .equal, ['=']),
    (.name, ['t', 'r', 'u', 'e']), (.mark .semicolon, [';']), (.name, ['A']), (.mark .equal, ['=']),
    (.int, ['0']), (.mark .semicolon, [';']), (.name, ['B']), (.mark .equal, ['=']), (.int, ['0']),
    (.mark .semicolon, [';']), (.name, ['A']), (.mark .equal, ['=']), (.int, ['1']),
    (.mark .semicolon, [';']), (.mark .rbrace, ['\x7d'])]

/-- The tree of this file. -/
def enumTree : Tree (.nonterminal .schemaFile) :=
  let name : Tree (.part .optionName) := .node ⟨.optionName, 1⟩ (.cons (.node ⟨.optionNamePart, 0⟩
    (.cons (wordAt ['a', 'l', 'l', 'o', 'w', '_', 'a', 'l', 'i', 'a', 's'] 17) .nil)) .nil)
  let option : Tree (.part .enumItem) := .node ⟨.enumItem, 1⟩ (.cons (.node ⟨.optionStmt, 0⟩
    (.cons (leafAt (.keyword .kwOption) ['o', 'p', 't', 'i', 'o', 'n'] 10) (.cons name
      (.cons (leafAt (.mark .equal) ['='] 29)
        (.cons (.node ⟨.constant, 1⟩ (.cons (typeAt ['t', 'r', 'u', 'e'] 31) .nil))
          (.cons (leafAt (.mark .semicolon) [';'] 36) .nil)))))) .nil)
  let value (name number : List Char) (column : Nat) : Tree (.part .enumItem) :=
    .node ⟨.enumItem, 0⟩ (.cons (.node ⟨.enumValue, 1⟩
      (.cons (.node ⟨.enumValueName, 0⟩ (.cons (leafAt .name name column) .nil))
        (.cons (leafAt (.mark .equal) ['='] (column + 2))
          (.cons (.node ⟨.signedInt, 1⟩ (.cons (leafAt .int number (column + 4)) .nil))
            (.cons (leafAt (.mark .semicolon) [';'] (column + 6)) .nil))))) .nil)
  let items (before : Tree (.part .enumItems)) (item : Tree (.part .enumItem)) :
      Tree (.part .enumItems) := .node ⟨.enumItems, 1⟩ (.cons before (.cons item .nil))
  let values := items (items (items (.node ⟨.enumItems, 0⟩ (.cons option .nil))
    (value ['A'] ['0'] 38)) (value ['B'] ['0'] 46)) (value ['A'] ['1'] 54)
  .node .bareFile (.cons (.node .firstItem (.cons (.node ⟨.topItem, 4⟩
    (.cons (.node ⟨.enumDecl, 0⟩ (.cons (leafAt (.keyword .kwEnum) ['e', 'n', 'u', 'm'] 1)
      (.cons (wordAt ['E'] 6) (.cons (leafAt (.mark .lbrace) ['\x7b'] 8) (.cons values
        (.cons (leafAt (.mark .rbrace) ['\x7d'] 62) .nil)))))) .nil)) .nil)) .nil)

/-- The file with this enum. -/
def enumFile (name : Text) : SchemaFile :=
  let value (name : String) (number : Int) (column : Nat) : EnumValueDecl :=
    ⟨name, number, [], ⟨1, column⟩⟩
  ⟨name, .proto2, none, [], [], [⟨"E", [value "A" 0 38, value "B" 0 46, value "A" 1 54],
    [⟨"allow_alias", ⟨.ident "true", some ⟨1, 31⟩⟩, ⟨1, 17⟩⟩], [], [], ⟨1, 6⟩⟩], [], [], []⟩

end Sample

theorem SchemaFile.parse_enumLexemes (name : Text) :
    SchemaFile.parse name (Lexed.spaced Sample.enumLexemes) = .ok (Sample.enumFile name) := by
  have hvalue : Sample.enumTree.value = .ok (Sample.enumFile "") := by
    with_unfolding_all rfl
  exact parse_spaced_tree (by decide) (by decide) hvalue rfl name

/-- An enum with two values of one number and a repeated name. -/
theorem Linker.enums_faithful_of_link_sample :
    (∀ f ∈ [Sample.enumFile "a.proto"], f.IsRead) ∧
      ∃ l t r, (ofFiles [Sample.enumFile "a.proto"]).link = (l, .ok t) ∧ t.enums[0]? = some r ∧
        r.values.length = 2 ∧ ∃ scope d kept,
          t.EnumFaithful [Sample.enumFile "a.proto"] 0 r scope d kept ∧
            ∀ (tree : FileTree) (p : Pool), ¬ p.isClosed → p.linked = some t →
              p.FindsFirst tree 0 r kept := by
  have hread : ∀ f ∈ [Sample.enumFile "a.proto"], f.IsRead := by
    simpa using ⟨_, SchemaFile.parse_enumLexemes "a.proto"⟩
  obtain ⟨l, t, hlink⟩ := exists_tables (l := ofFiles [Sample.enumFile "a.proto"])
    (by decide +kernel)
  have hvalues : ((ofFiles [Sample.enumFile "a.proto"]).link.2.toOption.bind fun t =>
      (t.enums[0]?).map (·.values.length)) = some 2 := by
    decide +kernel
  rw [hlink] at hvalues
  obtain ⟨r, hr, hlength⟩ := Option.map_eq_some_iff.mp hvalues
  exact ⟨hread, l, t, r, hlink, hr, hlength, enums_faithful_of_link hread hlink hr⟩

end ProtoSchema
