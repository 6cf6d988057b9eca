import ProtoSchema.Proofs.Linker.Dropped
import ProtoSchema.Proofs.Linker.Holders
import ProtoSchema.Proofs.Linker.Outcome
import ProtoSchema.Proofs.Tables.Numbers

/-!
# Dropped declarations leave no trace

The tables of some files are those of the files without whatever was dropped from them. There is one
exception, and it shows: the name and number of a map field that was dropped for its entry message
stay taken. So wherever a name or number is refused, the tables have a member that it belongs to, or
such a map field was reported (`traceless`).
-/

namespace ProtoSchema

/-- The message with a full name keeps a field of a name and number. -/
def Tables.KeepsField (t : Tables) (message name : String) (number : Nat) : Prop :=
  ∃ (i k : Nat) (m : MessageRecord) (f : FieldRecord), t.messages[i]? = some m ∧
    m.fullName = message ∧ k ∈ m.fields ∧ t.fields[k]? = some f ∧ f.name = name ∧ f.number = number

/-- The message with a full name keeps a field or extension of a full name and number. -/
def Tables.KeepsMember (t : Tables) (message fullName : String) (number : Nat) : Prop :=
  ∃ (i k : Nat) (m : MessageRecord) (f : FieldRecord), t.messages[i]? = some m ∧
    m.fullName = message ∧ k ∈ m.fields ++ m.extensions ∧ t.fields[k]? = some f ∧
      f.fullName = fullName ∧ f.number = number

/-- If a report is that a name or number is taken, the tables keep what it belongs to, or a map field
has been dropped that it belonged to. -/
structure Tables.Accounts (t : Tables) (reports : List Report) (r : Report) : Prop where
  fieldNumber : ∀ number message holder,
    r.problem = .link (.fieldNumberTaken number message holder) →
      t.KeepsField message holder number ∨ Linker.MapFieldDropped reports r.file message holder
  fieldName : ∀ name message, r.problem = .link (.fieldNameTaken name message) →
    (∃ number, t.KeepsField message name number) ∨
      Linker.MapFieldDropped reports r.file message name
  extensionNumber : ∀ number message holder,
    r.problem = .link (.extensionNumberTaken number message holder) →
      t.KeepsMember message holder number

namespace Linker

variable {l l' : Linker} {files : List SchemaFile}

/-! ## What tables keep -/

/-- The tables keep every field. -/
theorem HasField.keepsField {message name : String} {number : Nat}
    (h : l.HasField message name number) : l.linkedTables.KeepsField message name number := by
  obtain ⟨i, m, f, hm, hmessage, hf, howner, hname, hnumber⟩ := h
  obtain ⟨k, hk⟩ := List.mem_iff_getElem?.mp hf
  refine ⟨i, k, l.linkedMessage i m, l.fieldRecord (l.linked f) none,
    getElem?_linkedTables_message hm, hmessage, ?_, ?_, hname, hnumber⟩
  · exact mem_findIdxs.mpr ⟨f, hk, decide_eq_true howner⟩
  · exact getElem?_linkedTables_field hk

/-- The tables keep every member that belongs to a message. -/
theorem keepsMember_of_mem {f : FieldEntry} (hf : f ∈ l.members) {i : Nat} {m : MessageHeader}
    (hm : l.inventory.messages[i]? = some m) (howner : f.owner = some i) :
    l.linkedTables.KeepsMember m.fullName f.fullName f.decl.number := by
  rw [← map_fst_scopedMembers] at hf
  obtain ⟨⟨f, extensionScope⟩, hmem, rfl⟩ := List.mem_map.mp hf
  obtain ⟨k, hk⟩ := List.mem_iff_getElem?.mp hmem
  have hrecord : l.memberRecords[k]? = some (l.fieldRecord (l.linked f) extensionScope) := by
    simp [memberRecords_eq, hk]
  refine ⟨i, k, l.linkedMessage i m, l.fieldRecord (l.linked f) extensionScope,
    getElem?_linkedTables_message hm, rfl, ?_, ?_, rfl, rfl⟩
  · rw [members_linkedMessage]
    exact mem_findIdxs.mpr ⟨_, hrecord, decide_eq_true howner⟩
  · simpa [linkedTables] using hrecord

/-! ## What linking notes -/

theorem isClash_of_mem_referenceNotes {scope name : String} {file : FileScope}
    {position : Option Position} {r : Report} (hr : r ∈ l.referenceNotes scope name file position) :
    r.isClash = false := by
  unfold referenceNotes missing at hr
  split at hr
  · simp at hr
  · obtain rfl := List.mem_singleton.mp hr
    split <;> rfl

theorem isClash_of_mem_typeNotes {f : FieldEntry} {r : Report} (hr : r ∈ l.typeNotes f) :
    r.isClash = false := by
  unfold typeNotes at hr
  split at hr
  · simp at hr
  · split at hr
    · exact isClash_of_mem_referenceNotes hr
    · split at hr
      · simp at hr
      · obtain rfl := List.mem_singleton.mp hr
        rfl

theorem isClash_of_mem_methodNotes {m : MethodEntry} {r : Report} (hr : r ∈ l.methodNotes m) :
    r.isClash = false := by
  have hend {type : String} (hr : r ∈ l.methodEndNotes m type) : r.isClash = false := by
    unfold methodEndNotes at hr
    split at hr
    · exact isClash_of_mem_referenceNotes hr
    · split_ifs at hr
      · simp at hr
      · obtain rfl := List.mem_singleton.mp hr
        rfl
  rcases List.mem_append.mp hr with hr | hr
  · exact hend hr
  · exact hend hr

theorem isClash_of_mem_optionNotes {f : FieldEntry} {r : Report} (hr : r ∈ l.optionNotes f) :
    r.isClash = false := by
  rcases List.mem_append.mp hr with hr | hr
  · unfold defaultNotes at hr
    split at hr
    · simp at hr
    · split at hr
      · obtain rfl := List.mem_singleton.mp hr
        rfl
      · simp at hr
  · unfold packedNotes at hr
    split_ifs at hr
    · simp at hr
    · split at hr
      · simp at hr
      · split at hr
        · simp at hr
        · obtain rfl := List.mem_singleton.mp hr
          rfl

/-- A linking that ends with tables has noted everything there is to note. -/
theorem Coherent.reports_of_link (hl : l.Coherent) {t : Tables} (h : l.link = (l', .ok t)) :
    l'.reports = l.reports ++ l.linkNotes := by
  obtain ⟨hstops, hends⟩ := hl.link_outcome
  have hwithin : ∀ f ∈ l.members, ¬ f.BeyondDoubles := by
    intro f hf hbeyond
    have hfails := hstops ⟨f, hf, hbeyond⟩
    rw [h] at hfails
    cases hfails
  have hreports := (hends hwithin).2
  rwa [h] at hreports

/-- A report is of something else than a clash, or of an extension whose number a member that is kept
has. -/
def Grounded (l : Linker) (r : Report) : Prop :=
  r.isClash = false ∨ ∃ number message holder,
    r.problem = .link (.extensionNumberTaken number message holder) ∧
      l.linkedTables.KeepsMember message holder number

theorem grounded_of_mem_extensionNotes {members : List FieldEntry} {e : ExtensionEntry} {r : Report}
    (hmembers : members ⊆ l.members) (hr : r ∈ l.extensionNotes members e) : l.Grounded r := by
  unfold extensionNotes at hr
  simp only at hr
  split at hr
  · exact .inl (isClash_of_mem_referenceNotes hr)
  · split at hr
    · next place m _ hplace =>
      have hm : l.inventory.messages[place]? = some m := by
        obtain ⟨place', -, hm⟩ := Option.bind_eq_some_iff.mp hplace
        obtain ⟨m', hm', heq⟩ := Option.map_eq_some_iff.mp hm
        cases heq
        exact hm'
      split_ifs at hr
      · split at hr
        · next holder hholder =>
          obtain rfl := List.mem_singleton.mp hr
          have hhas := List.find?_some hholder
          simp only [Bool.decide_and, Bool.and_eq_true, decide_eq_true_eq] at hhas
          have hkept := keepsMember_of_mem (hmembers (List.mem_of_find?_eq_some hholder)) hm
            hhas.1
          exact .inr ⟨_, _, _, rfl, hhas.2 ▸ hkept⟩
        · simp at hr
      · obtain rfl := List.mem_singleton.mp hr
        exact .inl rfl
    · obtain rfl := List.mem_singleton.mp hr
      exact .inl rfl

theorem grounded_of_mem_attachingNotes {members : List FieldEntry} {es : List ExtensionEntry}
    {r : Report} (hmembers : members ++ l.attachedTo members es ⊆ l.members)
    (hr : r ∈ l.attachingNotes members es) : l.Grounded r := by
  induction es generalizing members with
  | nil => simp [attachingNotes] at hr
  | cons e es ih =>
    rw [attachedTo] at hmembers
    rcases List.mem_append.mp hr with hr | hr
    · exact grounded_of_mem_extensionNotes (fun f hf => hmembers (List.mem_append_left _ hf)) hr
    · cases howner : l.extensionOwner? members e with
      | none =>
        rw [howner] at hmembers hr
        exact ih hmembers hr
      | some owner =>
        rw [howner] at hmembers hr
        refine ih ?_ hr
        simpa using hmembers

/-- Linking notes no clash but of extensions with members that are kept. -/
theorem grounded_of_mem_linkNotes {r : Report} (hr : r ∈ l.linkNotes) : l.Grounded r := by
  simp only [linkNotes, followNotes, List.mem_append, List.mem_flatMap] at hr
  rcases hr with (((⟨f, -, hr⟩ | hr) | ⟨f, -, hr⟩) | ⟨m, -, hr⟩) | ⟨f, -, hr⟩
  · exact .inl (isClash_of_mem_typeNotes hr)
  · exact grounded_of_mem_attachingNotes (List.Subset.refl _) hr
  · exact .inl (isClash_of_mem_typeNotes hr)
  · exact .inl (isClash_of_mem_methodNotes hr)
  · exact .inl (isClash_of_mem_optionNotes hr)

/-! ## No trace -/

theorem Held.accounted {file : Text} {message name : String} {number : Nat}
    (h : l.Held file message name number) {reports : List Report} (hreports : l.reports <+: reports) :
    l.linkedTables.KeepsField message name number ∨ MapFieldDropped reports file message name := by
  rcases h with hfield | ⟨r, hr, hdropped⟩
  · exact .inl hfield.keepsField
  · exact .inr ⟨r, hreports.subset hr, hdropped⟩

theorem Warranted.accounts {r : Report} (h : Warranted l r) {reports : List Report}
    (hreports : l.reports <+: reports) : l.linkedTables.Accounts reports r := by
  refine ⟨fun number message holder hproblem => ?_, fun name message hproblem => ?_,
    fun number message holder hproblem => absurd hproblem (h.extension number message holder)⟩
  · exact (h.number number message holder hproblem).accounted hreports
  · obtain ⟨number, hheld⟩ := h.name name message hproblem
    exact (hheld.accounted hreports).imp_left fun hkept => ⟨number, hkept⟩

theorem Grounded.accounts {r : Report} (h : l.Grounded r) (reports : List Report) :
    l.linkedTables.Accounts reports r := by
  rcases h with hother | ⟨number, message, holder, hproblem, hkept⟩
  · constructor <;> intros <;> simp_all [Report.isClash]
  · refine ⟨?_, ?_, ?_⟩
    · simp [hproblem]
    · simp [hproblem]
    · intro number' message' holder' hproblem'
      rw [hproblem] at hproblem'
      cases hproblem'
      exact hkept

/-- Whatever files of different names are declared: without a declaration that is dropped from them
the files give the same tables, unless it is a map field whose name or number is used again. A name
or number is refused as taken only if a member of the message that the tables keep has it, or such a
map field. -/
theorem traceless (hnames : (files.map (·.name)).Nodup) :
    (∀ files', Drops files files' → (ofFiles files').link.2 = (ofFiles files).link.2) ∧
    ∀ l t, (ofFiles files).link = (l, .ok t) → ∀ r ∈ l.reports, t.Accounts l.reports r := by
  have hcoherent := coherent_ofFiles hnames
  refine ⟨fun files' hdrops => ?_, fun l t hlink r hr => ?_⟩
  · have hnames' : (files'.map (·.name)).Nodup := hdrops.map_name_eq ▸ hnames
    have hcoherent' := coherent_ofFiles hnames'
    rw [← hcoherent.link_quiet, ← hcoherent'.link_quiet, hdrops.quiet_eq]
  · obtain ⟨rfl, -⟩ := hcoherent.eq_linkedTables hlink
    have hreports := hcoherent.reports_of_link hlink
    rw [hreports] at hr
    rcases List.mem_append.mp hr with hr | hr
    · refine (warranted_ofFiles files hr).accounts ?_
      rw [hreports]
      exact List.prefix_append _ _
    · exact (grounded_of_mem_linkNotes hr).accounts _

/-- The message `Shape` of the third file is dropped, as the first file has one of this name. -/
theorem traceless_sample :
    (ofFiles [Sample.shapes, Sample.drawing, { Sample.again with
      messages := [Sample.message "Line" [Sample.field "from" 1 "Shape"]] }]).link.2 =
        (ofFiles [Sample.shapes, Sample.drawing, Sample.again]).link.2 := by
  let shape := Sample.message "Shape" [Sample.field "x" 1 "int32"]
  let l := ((ofFiles [Sample.shapes, Sample.drawing]).addFile Sample.again.scope).declarePackage
    Sample.again.scope
  have htaken : (l.definition? (Dotted.join Sample.again.scope.package shape.name)).isSome := by
    decide +kernel
  rcases declareMessage_cases l Sample.again.scope Sample.again.scope.package none shape with
    ⟨hfree, -⟩ | ⟨-, p, hreport⟩
  · exact absurd hfree (Option.isSome_iff_ne_none.mp htaken)
  · refine (traceless (by decide +kernel)).1 _ ?_
    exact .later _ (.later _ (.here [] (DropsInFile.message (DropsMessage.whole _ hreport))))

end Linker

namespace Sample

/-- A message with two map fields whose entry messages have one name, and a field with the number of
the second. -/
def maps : SchemaFile :=
  { shapes with
    name := Text.ofString "maps.proto"
    package := none
    messages := [message "M" [⟨"foo", 1, .map "string" "int32" ⟨1, 1⟩, none, [], none, ⟨1, 1⟩⟩,
      ⟨"Foo", 2, .map "string" "int32" ⟨1, 1⟩, none, [], none, ⟨1, 1⟩⟩, field "x" 2 "int32"]] }

/-- The same message without the second map field. -/
def mapsWithoutSecond : SchemaFile :=
  { maps with
    messages := [message "M" [⟨"foo", 1, .map "string" "int32" ⟨1, 1⟩, none, [], none, ⟨1, 1⟩⟩,
      field "x" 2 "int32"]] }

end Sample

namespace Linker

/-- The second map field is dropped, and with it the tables have one field less than without it: its
number is refused, although no field has it. -/
theorem dropped_map_field_traced :
    (ofFiles [Sample.maps]).reports.map (·.problem) =
      [.link (.alreadyDefined "M.FooEntry" (some (Text.ofString "maps.proto"))),
        .link (.fieldNumberTaken 2 "M" "Foo")] ∧
    (ofFiles [Sample.maps]).link.2.toOption.map (·.fields.toList.map (·.fullName)) =
      some ["M.FooEntry.key", "M.FooEntry.value", "M.foo"] ∧
    (ofFiles [Sample.mapsWithoutSecond]).link.2.toOption.map (·.fields.toList.map (·.fullName)) =
      some ["M.FooEntry.key", "M.FooEntry.value", "M.foo", "M.x"] := by
  decide +kernel

end Linker

end ProtoSchema
