import ProtoSchema.Proofs.Linker.Forgetting
import ProtoSchema.Proofs.Linker.Meaning
import ProtoSchema.Proofs.Name.Words
import ProtoSchema.Proofs.Tables.Integrity

/-!
# The innermost match

Once all files have been declared, references are resolved one by one, and files are linked, in
whatever order (`Served`). None of this changes what names stand for, and what is remembered of what
files see stays right (`Serves`). So a reference always gets the same answer (`Answer`): the first of
its full names that stands for something seen; or nothing and one note, which names the file of the
first of its full names that stands for anything, or says that there is none (`resolve_innermost`).
-/

namespace ProtoSchema

/-! ## The names that are tried -/

namespace Dotted

/-- The full names that a reference may stand for: without the point in front if it has one, and
otherwise behind each leading part of the scope, from the whole scope down to nothing. -/
def outward (scope name : String) : List String :=
  if IsPointed name then [String.ofList name.toList.tail]
  else (scopeWords scope).inits.reverse.map fun ws =>
    if ws = [] then name else ofWords ws ++ "." ++ name

theorem openings_eq_inits {α : Type} (xs : List α) : openings xs = xs.inits.reverse := by
  rw [openings, List.map_reverse]
  congr 1
  refine List.ext_getElem (by simp) fun i hi hi' => ?_
  simp

theorem candidates_eq_outward (scope name : String) :
    candidates scope name = outward scope name := by
  unfold candidates outward
  split
  · next rest hname =>
    have hpoint : IsPointed name := by simp [IsPointed, hname]
    rw [if_pos hpoint, hname, List.tail_cons]
  · next hname =>
    have hpoint : ¬ IsPointed name := fun h => by
      obtain ⟨rest, hrest⟩ := List.head?_eq_some_iff.mp h
      exact hname rest hrest
    rw [if_neg hpoint, openings_eq_inits]
    refine List.map_congr_left fun ws _ => ?_
    split_ifs with hempty
    · simp [hempty, ofWords]
    · exact ofWords_append_singleton hempty name

end Dotted

namespace Linker

variable {l l' l₀ : Linker} {file : FileScope} {scope name : String} {names : List String}
  {admits : Definition → Bool} {d : Definition}

/-- The first of some full names that stands for something admitted stands for `d`. -/
def IsFirst (l : Linker) (names : List String) (admits : Definition → Prop) (d : Definition) :
    Prop :=
  ∃ before fullName after, names = before ++ fullName :: after ∧
    l.definition? fullName = some d ∧ admits d ∧
    ∀ n ∈ before, ∀ d', l.definition? n = some d' → ¬ admits d'

/-- None of some full names stands for anything admitted. -/
def HasNone (l : Linker) (names : List String) (admits : Definition → Prop) : Prop :=
  ∀ n ∈ names, ∀ d, l.definition? n = some d → ¬ admits d

theorem filter_definition?_eq_none (n : String) : (l.definition? n).filter admits = none ↔
    ∀ d, l.definition? n = some d → ¬ admits d = true := by
  cases l.definition? n <;> simp

theorem lookup?_eq_some (h : l.lookup? scope name admits = some d) :
    l.IsFirst (Dotted.outward scope name) (admits · = true) d := by
  rw [lookup?, Dotted.candidates_eq_outward, List.findSome?_eq_some_iff] at h
  obtain ⟨before, fullName, after, hnames, hd, hbefore⟩ := h
  obtain ⟨hdefined, hadmits⟩ := Option.filter_eq_some_iff.mp hd
  exact ⟨before, fullName, after, hnames, hdefined, hadmits, fun n hn =>
    (filter_definition?_eq_none n).mp (hbefore n hn)⟩

theorem lookup?_eq_none (h : l.lookup? scope name admits = none) :
    l.HasNone (Dotted.outward scope name) (admits · = true) := by
  rw [lookup?, Dotted.candidates_eq_outward, List.findSome?_eq_none_iff] at h
  exact fun n hn => (filter_definition?_eq_none n).mp (h n hn)

/-! ## Packages belong to no file -/

/-- Packages belong to no file, and everything else belongs to one. -/
def Located (l : Linker) : Prop := ∀ d ∈ l.definitions, d.kind ≠ .package ↔ d.file.isSome

theorem Step.located {named : String → Prop} (hstep : Step named file l l') (hl : l.Located) :
    l'.Located := by
  intro d hd
  change d ∈ l'.inventory.definitions at hd
  have hl (d : Definition) (hd : d ∈ l.inventory.definitions) := hl d hd
  cases hstep with
  | note | field | extend => exact hl d (by simpa using hd)
  | package | message | enum | service | method =>
    simp only [inventory_enter, inventory_enterMessage, inventory_enterEnum, inventory_enterMethod,
      List.mem_append, List.mem_singleton] at hd
    rcases hd with hd | rfl
    · exact hl d hd
    · simp

theorem located_ofFiles {files : List SchemaFile} (hnames : (files.map (·.name)).Nodup) :
    (ofFiles files).Located := by
  refine ofFiles_induction (fun _ => True) (by simp [Located, empty]) (fun _ _ _ hl => hl)
    (fun _ _ _ _ hstep hl => hstep.located hl) (fun _ => trivial) (fun f _ => ?_) hnames
  exact MessageDecl.forallIn_of_all (fun _ => trivial) f.messages

/-! ## What is remembered -/

/-- A linker that has only looked names up and linked since it was `l₀`: what it remembers of what
files see is right. -/
structure Serves (l₀ l : Linker) : Prop where
  alike : Alike l l₀
  visible : ∀ e ∈ l.visible, ∀ file ∈ l₀.files, file.name = e.1 → e.2 = l₀.visibleFrom file

namespace Serves

theorem refl (hl₀ : l₀.Coherent) : Serves l₀ l₀ := ⟨.refl _, by simp [hl₀.unlinked.visible]⟩

theorem knows (h : Serves l₀ l) (hl₀ : l₀.Coherent) : Knows l₀ l :=
  ⟨hl₀.unlinked.files, h.alike.files, h.alike.definitions, h.visible⟩

/-- What does not touch the memory leaves it right. -/
theorem of_alike (h : Serves l₀ l) (halike : Alike l' l) (hvisible : l'.visible = l.visible) :
    Serves l₀ l' :=
  ⟨halike.trans h.alike, hvisible ▸ h.visible⟩

theorem report (h : Serves l₀ l) (file : FileScope) (position : Option Position)
    (p : LinkProblem) : Serves l₀ (l.report file position p) :=
  h.of_alike (alike_of_rest _ _) rfl

/-- The fields of messages come from the files that were declared. -/
theorem file_of_mem_fields (h : Serves l₀ l) (hl₀ : l₀.Coherent) :
    ∀ f ∈ l.fields.toList, f.file ∈ l₀.files := by
  intro f hf
  have hforget : f.forget ∈ (l₀.fields.map FieldEntry.forget).toList := by
    rw [← h.alike.fields, Array.toList_map]
    exact List.mem_map_of_mem hf
  rw [Array.toList_map] at hforget
  obtain ⟨f₀, hf₀, hsame⟩ := List.mem_map.mp hforget
  have hfile : f₀.file = f.file := (congrArg FieldEntry.file hsame :)
  exact hfile ▸ (hl₀.unlinked.inventory.fields f₀ hf₀).1

/-- The extensions come from the files that were declared. -/
theorem file_of_extension (h : Serves l₀ l) (hl₀ : l₀.Coherent) {place : Nat} {e : ExtensionEntry}
    (he : l.extensions[place]? = some e) : e.field.file ∈ l₀.files := by
  have hforget : e.forget ∈ (l₀.extensions.map ExtensionEntry.forget).toList := by
    rw [← h.alike.extensions, Array.toList_map]
    exact List.mem_map_of_mem (Array.mem_toList_iff.mpr (Array.mem_of_getElem? he))
  rw [Array.toList_map] at hforget
  obtain ⟨e₀, he₀, hsame⟩ := List.mem_map.mp hforget
  have hfile : e₀.field.file = e.field.file := (congrArg (·.field.file) hsame :)
  exact hfile ▸ (hl₀.unlinked.inventory.extensions e₀ he₀).1

/-! ### One request after the other -/

theorem resolve (h : Serves l₀ l) (hl₀ : l₀.Coherent) (hfile : file ∈ l₀.files)
    (scope name : String) (position : Option Position) :
    Serves l₀ (l.resolve scope name file position).1 := by
  obtain ⟨l', heq, hlooks⟩ := (h.knows hl₀).resolve hfile scope name position
  have halike := l.alike_resolve scope name file position
  rw [heq] at halike ⊢
  exact ⟨halike.trans h.alike, hlooks.knows.visible⟩

theorem resolveType (h : Serves l₀ l) (hl₀ : l₀.Coherent) {f : FieldEntry}
    (hfile : f.file ∈ l₀.files) : Serves l₀ (l.resolveType f).1 := by
  unfold Linker.resolveType
  cases hscalar : FieldType.scalar? f.decl.typeName with
  | some t =>
    simp only [hscalar]
    exact h
  | none =>
    simp only [hscalar]
    have hresolve := h.resolve hl₀ hfile f.scope f.decl.typeName (some f.decl.typePosition)
    rcases heq : l.resolve f.scope f.decl.typeName f.file (some f.decl.typePosition) with
      ⟨l₁, _ | d⟩ <;> simp only [heq] at hresolve ⊢
    · exact hresolve
    · split
      · exact hresolve
      · exact hresolve
      · exact hresolve.report f.file _ _

theorem resolveTypes (h : Serves l₀ l) (hl₀ : l₀.Coherent) {fs : List FieldEntry}
    (hfiles : ∀ f ∈ fs, f.file ∈ l₀.files) : Serves l₀ (l.resolveTypes fs).1 := by
  induction fs generalizing l with
  | nil => exact h
  | cons f fs ih =>
    rw [Linker.resolveTypes]
    exact ih (h.resolveType hl₀ (hfiles f (by simp))) fun f' hf' => hfiles f' (by simp [hf'])

theorem linkFields (h : Serves l₀ l) (hl₀ : l₀.Coherent) : Serves l₀ l.linkFields :=
  ⟨l.alike_linkFields.trans h.alike, (h.resolveTypes hl₀ (h.file_of_mem_fields hl₀)).visible⟩

theorem attachExtensions (h : Serves l₀ l) (hl₀ : l₀.Coherent) (attached places : List Nat) :
    Serves l₀ (l.attachExtensions attached places).1 := by
  induction places generalizing l attached with
  | nil => exact h
  | cons place places ih =>
    rw [Linker.attachExtensions]
    cases he : l.extensions[place]? with
    | none => exact ih h attached
    | some e =>
      have hresolve := h.resolve hl₀ (h.file_of_extension hl₀ he) e.field.scope e.extendee
        (some e.field.decl.position)
      rcases heq : l.resolve e.field.scope e.extendee e.field.file (some e.field.decl.position) with
        ⟨l₁, _ | d⟩ <;> simp only [heq] at hresolve ⊢
      · exact ih hresolve attached
      · cases l₁.extensionOwner attached e d with
        | error p => exact ih (hresolve.report _ _ p) attached
        | ok owner =>
          exact ih (hresolve.of_alike (alike_attach l₁ attached place owner) rfl) _

theorem linkExtensions (h : Serves l₀ l) (hl₀ : l₀.Coherent) (places : List Nat) :
    Serves l₀ (l.linkExtensions places) := by
  induction places generalizing l with
  | nil => exact h
  | cons place places ih =>
    have halike := l.alike_linkExtensions [place]
    simp only [Linker.linkExtensions] at halike ⊢
    cases he : l.extensions[place]? with
    | none => exact ih h
    | some e =>
      rw [he] at halike
      have htype := h.resolveType hl₀ (h.file_of_extension hl₀ he)
      exact ih ⟨halike.trans h.alike, htype.visible⟩

theorem resolveMethodEnd (h : Serves l₀ l) (hl₀ : l₀.Coherent) {m : MethodEntry}
    (hfile : m.file ∈ l₀.files) (type : String) : Serves l₀ (l.resolveMethodEnd m type).1 := by
  have hresolve := h.resolve hl₀ hfile m.service type (some m.decl.position)
  unfold Linker.resolveMethodEnd
  rcases heq : l.resolve m.service type m.file (some m.decl.position) with ⟨l₁, _ | d⟩ <;>
    simp only [heq] at hresolve ⊢
  · exact hresolve
  · split_ifs
    · exact hresolve
    · exact hresolve.report m.file _ _

theorem linkMethods (h : Serves l₀ l) (hl₀ : l₀.Coherent) {ms : List MethodEntry}
    (hfiles : ∀ m ∈ ms, m.file ∈ l₀.files) : Serves l₀ (l.linkMethods ms).1 := by
  induction ms generalizing l with
  | nil => exact h
  | cons m ms ih =>
    rw [Linker.linkMethods]
    have hends := (h.resolveMethodEnd hl₀ (hfiles m (by simp)) m.decl.inputType).resolveMethodEnd
      hl₀ (hfiles m (by simp)) m.decl.outputType
    exact ih hends fun m' hm' => hfiles m' (by simp [hm'])

end Serves

/-- Making records of fields remembers nothing. -/
theorem visible_fieldRecords (l : Linker) (fs : List (FieldEntry × Option String)) :
    (l.fieldRecords fs).1.visible = l.visible := by
  have hdefault (l : Linker) (f : FieldEntry) (label : Label) :
      (l.fieldDefault f label).1.visible = l.visible := by
    unfold fieldDefault
    split
    · rfl
    · split <;> rfl
  have hpacked (l : Linker) (f : FieldEntry) (label : Label) :
      (l.fieldPacked f label).1.visible = l.visible := by
    unfold fieldPacked
    split_ifs
    · rfl
    · simp only
      split
      · rfl
      · split <;> rfl
  induction fs generalizing l with
  | nil => rfl
  | cons f fs ih =>
    obtain ⟨f, extensionScope⟩ := f
    have hvisible := hdefault l f (f.decl.label.getD .optional)
    rw [fieldRecords]
    rcases heq : l.fieldDefault f (f.decl.label.getD .optional) with ⟨l₁, e | default⟩ <;>
      simp only [heq] at hvisible ⊢
    · exact hvisible
    · exact ((ih _).trans (hpacked l₁ f _)).trans hvisible

theorem Serves.link (h : Serves l₀ l) (hl₀ : l₀.Coherent) : Serves l₀ l.link.1 := by
  have hattached := (h.linkFields hl₀).attachExtensions hl₀ []
    (List.range l.linkFields.extensions.size)
  refine ⟨l.alike_link.trans h.alike, ?_⟩
  unfold Linker.link
  rcases heq : l.linkFields.attachExtensions [] (List.range l.linkFields.extensions.size) with
    ⟨l₁, attached⟩
  simp only [heq] at hattached ⊢
  have hextensions := hattached.linkExtensions hl₀ attached
  have hfiles : ∀ m ∈ (l₁.linkExtensions attached).methods.toList, m.file ∈ l₀.files := by
    rw [hextensions.alike.methods]
    exact hl₀.unlinked.inventory.methods
  have hmethods := hextensions.linkMethods hl₀ hfiles
  rcases heq' : (l₁.linkExtensions attached).linkMethods
    (l₁.linkExtensions attached).methods.toList with ⟨l₂, methods⟩
  simp only [heq'] at hmethods ⊢
  have hvisible := l₂.visible_fieldRecords ((l₂.fields.toList.map fun f => (f, none)) ++
    (l₂.extensionsAt attached).map fun f => (f, some f.scope))
  split
  · next hfails =>
    rw [hfails] at hvisible
    exact hvisible ▸ hmethods.visible
  · next hends =>
    rw [hends] at hvisible
    exact hvisible ▸ hmethods.visible

/-! ## Answers -/

/-- Files have been declared, and from then on names have been resolved and files linked only. -/
inductive Served (files : List SchemaFile) : Linker → Prop
  | declared : Served files (ofFiles files)
  | resolved {l : Linker} (h : Served files l) {f : SchemaFile} (hf : f ∈ files)
    (scope name : String) (position : Option Position) :
    Served files (l.resolve scope name f.scope position).1
  | linked {l : Linker} (h : Served files l) : Served files l.link.1

theorem Served.serves {files : List SchemaFile} (hnames : (files.map (·.name)).Nodup)
    (h : Served files l) : Serves (ofFiles files) l := by
  have hcoherent := coherent_ofFiles hnames
  induction h with
  | declared => exact .refl hcoherent
  | resolved _ hf scope name position ih =>
    exact ih.resolve hcoherent (scope_mem_files hnames hf) scope name position
  | linked _ ih => exact ih.link hcoherent

/-- A definition is a package or belongs to a file that is seen. -/
def Seen (l : Linker) (file : FileScope) (d : Definition) : Prop :=
  d.kind = .package ∨ ∃ owner, d.file = some owner ∧ l.Sees file owner

/-- What comes of a reference, and what is noted of it: the first full name that stands for
something seen is taken. If there is none, the note names the file of the first full name that
stands for anything, which is no package. -/
inductive Answer (l : Linker) (scope name : String) (file : FileScope) :
    Option Definition → List LinkProblem → Prop
  | seen {d : Definition}
    (h : l.IsFirst (Dotted.outward scope name) (l.Seen file) d) :
    Answer l scope name file (some d) []
  | hidden {d : Definition} {owner : Text}
    (hnone : l.HasNone (Dotted.outward scope name) (l.Seen file))
    (h : l.IsFirst (Dotted.outward scope name) (fun _ => True) d)
    (hkind : d.kind ≠ .package) (howner : d.file = some owner) :
    Answer l scope name file none [.notImported name owner file.name]
  | missing (h : l.HasNone (Dotted.outward scope name) fun _ => True) :
    Answer l scope name file none [.notDefined name]

theorem IsFirst.mem {admits : Definition → Prop} (h : l.IsFirst names admits d) :
    d ∈ l.definitions := by
  obtain ⟨_, _, _, _, hd, _, _⟩ := h
  exact List.mem_of_find?_eq_some hd

theorem IsFirst.congr {admits admits' : Definition → Prop}
    (hadmits : ∀ d ∈ l.definitions, (admits d ↔ admits' d)) (h : l.IsFirst names admits d) :
    l.IsFirst names admits' d := by
  obtain ⟨before, fullName, after, hnames, hd, hadmitted, hbefore⟩ := h
  refine ⟨before, fullName, after, hnames, hd,
    (hadmits d (List.mem_of_find?_eq_some hd)).mp hadmitted, fun n hn d' hd' hadmitted' => ?_⟩
  exact hbefore n hn d' hd' ((hadmits d' (List.mem_of_find?_eq_some hd')).mpr hadmitted')

theorem HasNone.congr {admits admits' : Definition → Prop}
    (hadmits : ∀ d ∈ l.definitions, (admits d ↔ admits' d)) (h : l.HasNone names admits) :
    l.HasNone names admits' := fun n hn d hd hadmitted =>
  h n hn d hd ((hadmits d (List.mem_of_find?_eq_some hd)).mpr hadmitted)

/-- To be seen among the files found from a file is to be seen from it. -/
theorem seenIn_iff (hl : l.Located) (hfiles : (l.files.map (·.name)).Nodup)
    (hfile : file ∈ l.files) (hd : d ∈ l.definitions) :
    d.seenIn (l.visibleFrom file) = true ↔ l.Seen file d := by
  have hpackage := hl d hd
  unfold Definition.seenIn Seen
  cases howner : d.file with
  | none => simp_all
  | some owner =>
    have hkind : d.kind ≠ .package := hpackage.mpr (by simp [howner])
    simp [hkind, mem_visibleFrom hfiles hfile]

/-- A reference is resolved to the first of its full names, from the inside of its scope outwards,
that stands for a package or something of a file that is seen, and nothing is noted. If there is
none, one problem is noted at its place. -/
theorem resolve_innermost {files : List SchemaFile} (hnames : (files.map (·.name)).Nodup)
    (hl : Served files l) {f : SchemaFile} (hf : f ∈ files) (scope name : String)
    (position : Option Position) :
    ∃ problems, (ofFiles files).Answer scope name f.scope
        (l.resolve scope name f.scope position).2 problems ∧
      (l.resolve scope name f.scope position).1.reports =
        l.reports ++ problems.map fun p => ⟨.link p, f.name, position⟩ := by
  have hcoherent := coherent_ofFiles hnames
  have hscope := scope_mem_files hnames hf
  have hlocated := located_ofFiles hnames
  have hknows := (hl.serves hnames).knows hcoherent
  have hseen : ∀ d ∈ (ofFiles files).definitions,
      (d.seenIn ((ofFiles files).visibleFrom f.scope) = true ↔ (ofFiles files).Seen f.scope d) :=
    fun d hd => seenIn_iff hlocated hcoherent.unlinked.files hscope hd
  obtain ⟨l', heq, -⟩ := hknows.resolve hscope scope name position
  have hreports := hknows.reports_resolve hscope scope name position
  rw [hreports, heq]
  unfold referenceNotes
  cases hmeaning : (ofFiles files).meaning? scope name f.scope with
  | some d => exact ⟨[], .seen ((lookup?_eq_some hmeaning).congr hseen), by simp⟩
  | none =>
    have hnone := (lookup?_eq_none hmeaning).congr hseen
    unfold missing
    cases hany : (ofFiles files).lookup? scope name fun _ => true with
    | none => exact ⟨_, .missing ((lookup?_eq_none hany).congr (by simp)), rfl⟩
    | some d =>
      have hfirst : (ofFiles files).IsFirst _ (fun _ => True) d :=
        (lookup?_eq_some hany).congr (by simp)
      -- a package would have been seen
      have hkind : d.kind ≠ .package := by
        obtain ⟨before, fullName, after, hnames', hd, -, -⟩ := hfirst
        exact fun hpackage => hnone fullName (by simp [hnames']) d hd (.inl hpackage)
      obtain ⟨owner, howner⟩ := Option.isSome_iff_exists.mp
        ((hlocated d hfirst.mem).mp hkind)
      refine ⟨_, .hidden hnone hfirst hkind howner, ?_⟩
      simp [howner, FileScope.reportOf, SchemaFile.scope]

/-- From a file that does not import the one with the service, the service is noted as hidden, also
after linking. -/
theorem resolve_innermost_hidden :
    let files := [Sample.shapes, Sample.drawing]
    let l := (ofFiles files).link.1
    Served files l ∧ (l.resolve "geo.Shape" "draw.Canvas" Sample.shapes.scope none).2 = none ∧
      ∃ problems, (ofFiles files).Answer "geo.Shape" "draw.Canvas" Sample.shapes.scope
          (l.resolve "geo.Shape" "draw.Canvas" Sample.shapes.scope none).2 problems ∧
        (l.resolve "geo.Shape" "draw.Canvas" Sample.shapes.scope none).1.reports =
          l.reports ++ problems.map fun p => ⟨.link p, Sample.shapes.name, none⟩ := by
  intro files l
  have hserved : Served files l := .linked .declared
  exact ⟨hserved, by decide +kernel, resolve_innermost (by decide +kernel) hserved
    (List.mem_cons_self ..) "geo.Shape" "draw.Canvas" none⟩

end Linker

end ProtoSchema
