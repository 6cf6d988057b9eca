import ProtoSchema.Proofs.Descriptor.Writable
import ProtoSchema.Proofs.Linker.Entered
import ProtoSchema.Proofs.Linker.Linked
import ProtoSchema.Proofs.Linker.Passes
import ProtoSchema.Proofs.Tables.Dialects
import ProtoSchema.Proofs.Text.Utf8

/-!
# Defaults in tables

A default is in the record of a field only if the declaration of the field has a literal for it that
suits the type: an integer within the bounds of the type, a flag, a string that is UTF-8, bytes, or
the name of one of the values of the field's enum (`Tables.Suits`). The field is neither in a file of
the newer dialect nor repeated, and its type is a scalar or an enum (`suits_of_link`). Names of files
play no part in this.
-/

namespace ProtoSchema

/-! ## The bytes of strings -/

namespace Utf8

/-- The bytes of a character are its UTF-8 bytes. -/
theorem encodeChar_eq (c : Char) : encodeChar c = String.utf8EncodeChar c := by
  have hc : c.val.toNat < 0x110000 := by
    rcases toNat_cases c with h | h
    · exact Nat.lt_trans h (by decide)
    · exact h.2
  unfold encodeChar encodeCodePoint String.utf8EncodeChar
  rw [show c.toNat = c.val.toNat from rfl]
  generalize c.val.toNat = n at hc
  have hbyte {m m' : Nat} {bs bs' : List UInt8} (h : m = m') (hrest : bs = bs') :
      m.toUInt8 :: bs = UInt8.ofNat m' :: bs' := congrArg₂ List.cons (congrArg UInt8.ofNat h) hrest
  simp only
  split_ifs
  any_goals omega
  · rfl
  · exact hbyte (by omega) (hbyte (by omega) rfl)
  · exact hbyte (by omega) (hbyte (by omega) (hbyte (by omega) rfl))
  · exact hbyte (by omega) (hbyte (by omega) (hbyte (by omega) (hbyte (by omega) rfl)))

theorem toByteArray_encode (s : String) : (encode s.toList).toByteArray = s.toUTF8 := by
  have hencode : encode s.toList = s.toList.flatMap String.utf8EncodeChar :=
    congrArg (s.toList.flatMap ·) (funext encodeChar_eq)
  rw [hencode, show s.toUTF8 = (String.ofList s.toList).toByteArray by simp [String.toUTF8],
    String.toByteArray_ofList]
  rfl

end Utf8

/-- Characters are the units of a text without stray bytes. -/
theorem Text.eq_ofChars {text : Text} {cs : List Char} (h : text.chars? = some cs) :
    text = ofChars cs := by
  obtain ⟨units⟩ := text
  unfold chars? at h
  simp only at h
  rw [ofChars, mk.injEq]
  induction units generalizing cs with
  | nil =>
    obtain rfl := Option.some.inj h
    rfl
  | cons u units ih =>
    rw [List.mapM_cons] at h
    obtain ⟨c, hc, hrest⟩ := Option.bind_eq_some_iff.mp h
    obtain ⟨cs', hcs', hcons⟩ := Option.bind_eq_some_iff.mp hrest
    obtain rfl := Option.some.inj hcons
    cases u with
    | stray b => cases hc
    | char c' =>
      obtain rfl := Option.some.inj hc
      rw [List.map_cons, ih hcs']

/-- The UTF-8 bytes of the string of a text are the bytes of the text. -/
theorem Text.toUTF8_of_toString? {text : Text} {s : String} (h : text.toString? = some s) :
    s.toUTF8 = text.toBytes.toByteArray := by
  obtain ⟨cs, hcs, rfl⟩ := Option.map_eq_some_iff.mp h
  rw [eq_ofChars hcs, ← Utf8.toByteArray_encode, String.toList_ofList, ofChars, toBytes,
    List.flatMap_map]
  rfl

/-! ## Literals and defaults -/

/-- A place among the values of an enum is that of the only value with a name. -/
structure Tables.IsValueNamed (t : Tables) (enum : Nat) (name : String) (place : Nat) : Prop where
  value : ∃ e v, t.enums[enum]? = some e ∧ place ∈ e.values ∧ t.enumValues[place]? = some v ∧
    v.name = name ∧ v.enum = enum
  only : ∀ e, t.enums[enum]? = some e → ∀ other ∈ e.values, ∀ v,
    t.enumValues[other]? = some v → v.name = name → other = place

/-- A literal is an integer between two bounds, and the default is this integer. -/
def Value.SpellsInt (literal : Value) (low high : Int) (d : DefaultValue) : Prop :=
  ∃ i, literal = .int i ∧ d = .int i ∧ low ≤ i ∧ i < high

/-- What the default of a record is, going by the type of the record and the literal. -/
def Tables.Suits (t : Tables) (r : FieldRecord) (literal : Value) (d : DefaultValue) : Prop :=
  match r.type with
  | .int32 | .sint32 | .sfixed32 => literal.SpellsInt (-2 ^ 31) (2 ^ 31) d
  | .int64 | .sint64 | .sfixed64 => literal.SpellsInt (-2 ^ 63) (2 ^ 63) d
  | .uint32 | .fixed32 => literal.SpellsInt 0 (2 ^ 32) d
  | .uint64 | .fixed64 => literal.SpellsInt 0 (2 ^ 64) d
  | .float | .double => ∃ x, d = .float x
  | .bool => literal = .ident "true" ∧ d = .bool true ∨ literal = .ident "false" ∧ d = .bool false
  | .string => ∃ text s, literal = .string text ∧ d = .string s ∧
    s.toUTF8 = text.toBytes.toByteArray
  | .bytes => ∃ text, literal = .string text ∧ d = .bytes text.toBytes
  | .enum => ∃ name enum place, literal = .ident name ∧ d = .enumValue place ∧
    r.enumType = some enum ∧ t.IsValueNamed enum name place
  | .unresolved | .message | .group => False

/-! ## Conversions -/

namespace Value

variable {literal : Value} {d : DefaultValue}

theorem spellsInt_of_integerDefault {type : FieldType} {low high : Int}
    (h : literal.integerDefault type low high = .ok d) : literal.SpellsInt low (high + 1) d := by
  rw [integerDefault.eq_def] at h
  split at h
  · next i =>
    split at h
    · next hbounds => exact ⟨i, rfl, (Except.ok.inj h).symm, hbounds.1, by omega⟩
    · cases h
  · cases h

theorem exists_of_boolDefault (h : literal.boolDefault = .ok d) :
    literal = .ident "true" ∧ d = .bool true ∨ literal = .ident "false" ∧ d = .bool false := by
  unfold boolDefault at h
  split at h
  · next b hflag =>
    obtain rfl := Except.ok.inj h
    unfold flag? at hflag
    split at hflag
    · obtain rfl := Option.some.inj hflag
      exact .inl ⟨rfl, rfl⟩
    · obtain rfl := Option.some.inj hflag
      exact .inr ⟨rfl, rfl⟩
    · cases hflag
  · cases h

theorem exists_of_stringDefault (h : literal.stringDefault = .ok d) :
    ∃ text s, literal = .string text ∧ d = .string s ∧ s.toUTF8 = text.toBytes.toByteArray := by
  rw [stringDefault.eq_def] at h
  split at h
  · next text =>
    split at h
    · next s hs => exact ⟨text, s, rfl, (Except.ok.inj h).symm, Text.toUTF8_of_toString? hs⟩
    · cases h
  · cases h

theorem exists_of_bytesDefault (h : literal.bytesDefault = .ok d) :
    ∃ text, literal = .string text ∧ d = .bytes text.toBytes := by
  rw [bytesDefault.eq_def] at h
  split at h
  · next text => exact ⟨text, rfl, (Except.ok.inj h).symm⟩
  · cases h

end Value

/-! ## Enums -/

/-- The values of an enum that keep its rules have different names. -/
theorem EnumDecl.nodup_accepted (e : EnumDecl) (fullName : String)
    {accepted : List EnumValueDecl} (h : (accepted.map (·.name)).Nodup)
    (values : List EnumValueDecl) :
    ((e.accepted fullName accepted values).map (·.name)).Nodup := by
  induction values generalizing accepted with
  | nil => exact h
  | cons v vs ih =>
    rw [EnumDecl.accepted]
    cases hproblem : e.problem? fullName accepted v with
    | some p => exact ih h
    | none =>
      refine ih (nodup_map_append_singleton h fun hmem => ?_)
      obtain ⟨w, hw, hname⟩ := List.mem_map.mp hmem
      have htaken : accepted.any (·.name = v.name) :=
        List.any_eq_true.mpr ⟨w, hw, decide_eq_true hname⟩
      rw [problem?, if_pos htaken] at hproblem
      cases hproblem

namespace Linker

variable {l l' : Linker} {t : Tables} {files : List SchemaFile}

/-- What holds of a linker that knows nothing, and is kept by adding a file and by every step, holds
of a linker that any files were declared to. -/
theorem ofFiles_steps {P : Linker → Prop} (hempty : P empty)
    (hfile : ∀ l file, P l → P (l.addFile file))
    (hstep : ∀ l l' file, Step (fun _ => True) file l l' → P l → P l') (files : List SchemaFile) :
    P (ofFiles files) := by
  induction files using List.reverseRecOn with
  | nil => exact hempty
  | append_singleton files f ih =>
    have hsteps : Steps (fun _ => True) f.scope ((ofFiles files).addFile f.scope)
        ((ofFiles files).declare f) :=
      steps_declare (ofFiles files) f (fun _ => trivial)
        (MessageDecl.forallIn_of_all (fun _ => trivial) f.messages)
    rw [ofFiles_append_singleton]
    generalize (ofFiles files).declare f = l' at hsteps ⊢
    induction hsteps with
    | refl => exact hfile _ _ ih
    | tail _ hs ihs => exact hstep _ _ _ hs ihs

theorem nodup_values_ofFiles (files : List SchemaFile) :
    ∀ e ∈ (ofFiles files).inventory.enums, (e.values.map (·.name)).Nodup := by
  refine ofFiles_steps (P := fun l => ∀ e ∈ l.inventory.enums, (e.values.map (·.name)).Nodup)
    (by simp [inventory, empty]) ?_ (fun l l' file hstep hl => ?_) files
  · exact fun l file hl => hl
  cases hstep with
  | enum scope parent e =>
    rw [inventory_enterEnum]
    refine List.forall_mem_append.mpr ⟨hl, ?_⟩
    exact List.forall_mem_singleton.mpr (@EnumDecl.nodup_accepted e _ [] List.nodup_nil e.values)
  | note | package | message | field | extend | service | method => simpa using hl

/-- Linking gives the records of the enums that were declared. -/
theorem enums_of_link (h : l.link = (l', .ok t)) :
    t.enums = l.enumRecords.toArray ∧ t.enumValues = l.valueRecords.toArray := by
  have henums : l'.enums = l.enums := by
    have halike := l.alike_link
    rw [h] at halike
    exact halike.enums
  have htables : ∃ fields methods, l'.tables fields methods = .ok t := by
    unfold link at h
    simp only at h
    split at h
    · cases (Prod.mk.inj h).2
    · obtain ⟨rfl, htables⟩ := Prod.mk.inj h
      exact ⟨_, _, htables⟩
  obtain ⟨fields, methods, htables⟩ := htables
  have hplaces : l'.firstValuePlace = l.firstValuePlace := by
    funext enum
    rw [firstValuePlace, firstValuePlace, henums]
  unfold tables at htables
  cases hmessages : l'.messages.toList.mapM (messageRecord fields.toArray) with
  | error e =>
    rw [hmessages] at htables
    cases htables
  | ok rs =>
    rw [hmessages] at htables
    obtain rfl := Except.ok.inj htables
    refine ⟨?_, ?_⟩
    · simp only [enumRecords, henums, hplaces]
    · simp only [valueRecords, henums]

/-- The place that a name leads to in an enum is that of the only value with this name. -/
theorem isValueNamed_of_link (h : l.link = (l', .ok t))
    (hnodup : ∀ e ∈ l.inventory.enums, (e.values.map (·.name)).Nodup) {i k : Nat} {e : EnumEntry}
    {v : EnumValueDecl} (he : l.enums[i]? = some e) (hv : e.values[k]? = some v) :
    t.IsValueNamed i v.name (l.firstValuePlace i + k) := by
  obtain ⟨henums, hvalues⟩ := enums_of_link h
  have hrecord : t.enums[i]? = some (enumRecord (l.firstValuePlace i) e) := by
    rw [henums, List.getElem?_toArray, getElem?_enumRecords, he, Option.map_some]
  have hplace {k : Nat} {v : EnumValueDecl} (hv : e.values[k]? = some v) :
      t.enumValues[l.firstValuePlace i + k]? =
        some ⟨v.name, Dotted.join (Dotted.enclosing e.fullName) v.name, v.number, i⟩ := by
    rw [hvalues, List.getElem?_toArray, getElem?_valueRecords he hv]
  have hin {p : Nat} : p ∈ (enumRecord (l.firstValuePlace i) e).values ↔
      ∃ k < e.values.length, p = l.firstValuePlace i + k := by
    rw [values_enumRecord, List.mem_range']
    simp
  obtain ⟨hk, rfl⟩ := List.getElem?_eq_some_iff.mp hv
  refine ⟨⟨_, _, hrecord, hin.mpr ⟨k, hk, rfl⟩, hplace hv, rfl, rfl⟩, fun e' he' p hp v' hv' hname => ?_⟩
  obtain rfl := Option.some.inj (hrecord.symm.trans he')
  obtain ⟨k', hk', rfl⟩ := hin.mp hp
  obtain rfl := Option.some.inj ((hplace (List.getElem?_eq_getElem hk')).symm.trans hv')
  have hnames := hnodup e (Array.mem_toList_iff.mpr (Array.mem_of_getElem? he))
  have hsame : k' = k := by
    have hlt : k < (e.values.map (·.name)).length := by simpa using hk
    have hlt' : k' < (e.values.map (·.name)).length := by simpa using hk'
    have heq : (e.values.map (·.name))[k'] = (e.values.map (·.name))[k] := by simpa using hname
    exact hnames.getElem_inj_iff.mp heq
  rw [hsame]

/-! ## Records -/

/-- A default is found by converting a literal, and suits the type that the field is linked to. -/
theorem suits_of_default? (h : l.link = (l', .ok t))
    (hnodup : ∀ e ∈ l.inventory.enums, (e.values.map (·.name)).Nodup) {f : FieldEntry}
    {d : DefaultValue} (hd : l.default? f = some d) (extensionScope : Option String) :
    f.file.dialect ≠ .proto3 ∧ f.label ≠ .repeated ∧ ∃ o, f.decl.option? "default" = some o ∧
      t.Suits (l.fieldRecord f extensionScope) o.value.value d := by
  obtain ⟨hdialect, hlabel, o, ho, hconvert⟩ := convertDefault_of_default? hd
  obtain ⟨hunresolved, hmessage, hgroup⟩ := type_of_default? hd
  refine ⟨hdialect, hlabel, o, ho, ?_⟩
  have htype : (l.fieldRecord f extensionScope).type = f.link.type := rfl
  unfold Tables.Suits
  rw [htype]
  unfold convertDefault at hconvert
  cases hkind : f.link.type with
  | unresolved => exact hunresolved hkind
  | message => exact hmessage hkind
  | group => exact hgroup hkind
  | int32 | sint32 | sfixed32 | int64 | sint64 | sfixed64 | uint32 | fixed32 | uint64 | fixed64 =>
    simp only [hkind, FieldType.integerRange?, mapError_eq_ok] at hconvert
    exact Value.spellsInt_of_integerDefault hconvert
  | float | double =>
    simp only [hkind, FieldType.integerRange?] at hconvert
    exact exists_float_of_floatDefault hconvert
  | bool =>
    simp only [hkind, FieldType.integerRange?, mapError_eq_ok] at hconvert
    exact Value.exists_of_boolDefault hconvert
  | string =>
    simp only [hkind, FieldType.integerRange?, mapError_eq_ok] at hconvert
    exact Value.exists_of_stringDefault hconvert
  | bytes =>
    simp only [hkind, FieldType.integerRange?, mapError_eq_ok] at hconvert
    exact Value.exists_of_bytesDefault hconvert
  | enum =>
    simp only [hkind, FieldType.integerRange?, mapError_eq_ok] at hconvert
    obtain ⟨i, e, k, v, henum, he, hv, hliteral, rfl⟩ := exists_of_enumDefault_eq_ok hconvert
    exact ⟨v.name, i, _, hliteral, rfl, henum, isValueNamed_of_link h hnodup he hv⟩

/-- Every record of a field is made from a field that one of the files declares, as the passes of
linking have left it. -/
theorem exists_declared_of_link (h : (ofFiles files).link = (l', .ok t)) {i : Nat} {r : FieldRecord}
    (hr : t.fields[i]? = some r) :
    ∃ f ∈ files, ∃ e e', f.Declares e r.extensionScope ∧ e.Follows e' ∧
      r = (ofFiles files).fieldRecord e' r.extensionScope := by
  have houtline (f : SchemaFile) : f.outline.Fresh f.scope fun _ => True :=
    SchemaFile.outline_fresh (fun _ _ _ _ _ _ => ⟨trivial, trivial, trivial⟩)
      ⟨MessageDecl.forallIn_of_all (fun _ => ⟨fun _ _ => trivial, fun _ _ _ _ => trivial⟩) f.messages,
        fun _ _ _ _ => trivial⟩
  obtain ⟨fields, extensions, htables, -, hfields, hextensions, -⟩ := exists_members_of_link h
  rw [htables, List.getElem?_toArray] at hr
  rcases List.mem_append.mp (List.mem_of_getElem? hr) with hmem | hmem
  · obtain ⟨e', he', rfl⟩ := List.mem_map.mp hmem
    obtain ⟨e, he, hfollows⟩ := exists_of_forall₂ hfields e' he'
    obtain ⟨f, hf, hdeclared⟩ := exists_file_of_mem_fields (Array.mem_toList_iff.mp he)
    exact ⟨f, hf, e, e', ⟨((houtline f).fields _ hdeclared).file, .inl ⟨rfl, hdeclared⟩⟩, hfollows,
      rfl⟩
  · obtain ⟨e', he', rfl⟩ := List.mem_map.mp hmem
    obtain ⟨x, hx, hfollows⟩ := hextensions e' he'
    obtain ⟨f, hf, hdeclared⟩ := exists_file_of_mem_extensions hx
    have hscope : e'.scope = x.field.scope := by
      obtain ⟨link, owner, rfl⟩ := hfollows.same
      rfl
    exact ⟨f, hf, x.field, e', ⟨((houtline f).extensions _ hdeclared).file,
      .inr ⟨congrArg some hscope, x, hdeclared, rfl⟩⟩, hfollows, rfl⟩

/-- A record with a default is made from a field that a file of the older dialect declares with a
literal for it, the field is not repeated, and the default suits it. -/
theorem suits_of_link (h : (ofFiles files).link = (l', .ok t)) {i : Nat} {r : FieldRecord}
    (hr : t.fields[i]? = some r) {d : DefaultValue} (hd : r.default = some d) :
    ∃ f ∈ files, ∃ e o, f.Declares e r.extensionScope ∧ r.IsOf e ∧
      e.decl.option? "default" = some o ∧ f.dialect = .proto2 ∧ r.label ≠ .repeated ∧
      t.Suits r o.value.value d := by
  obtain ⟨f, hf, e, e', hdeclares, hfollows, hrecord⟩ := exists_declared_of_link h hr
  have hdefault : (ofFiles files).default? e' = some d := by
    rw [hrecord] at hd
    exact hd
  obtain ⟨hdialect, hlabel, o, ho, hsuits⟩ :=
    suits_of_default? h (nodup_values_ofFiles files) hdefault r.extensionScope
  rw [← hrecord] at hsuits
  obtain ⟨link, owner, rfl⟩ := hfollows.same
  have hfile : e.file.dialect = f.dialect := congrArg FileScope.dialect hdeclares.1
  refine ⟨f, hf, e, o, hdeclares, hrecord ▸ ⟨rfl, rfl, rfl, rfl⟩, ho, ?_, hrecord ▸ hlabel, hsuits⟩
  cases hproto : f.dialect with
  | proto2 => rfl
  | proto3 => exact absurd (hfile.trans hproto) hdialect

end Linker

end ProtoSchema
