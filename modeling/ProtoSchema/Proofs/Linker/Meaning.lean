import ProtoSchema.Linker.Link
import ProtoSchema.Proofs.Linker.Coherence

/-!
# What references mean

Linking looks names up one after the other, remembers what each file sees, and notes problems. None
of this changes what a name stands for: the meaning of a reference is a function of the declared
files and definitions alone (`meaning?`), and so are the link of a field (`typeLink?`) and the ends
of a method (`methodEnd?`). The theorems on `resolve`, `resolveTypes` and `linkMethods` say that
linking finds just these, and that it notes nothing if and only if everything has a meaning.
-/

namespace ProtoSchema

namespace Linker

variable {l l' l'' l₀ : Linker} {file : FileScope}

/-- The definition that a reference stands for, as seen from a scope of a file. -/
def meaning? (l : Linker) (scope name : String) (file : FileScope) : Option Definition :=
  l.lookup? scope name (·.seenIn (l.visibleFrom file))

/-- A reference stands for something that is defined. -/
theorem mem_of_meaning? {scope name : String} {d : Definition}
    (h : l.meaning? scope name file = some d) : d ∈ l.definitions := by
  obtain ⟨fullName, -, hd⟩ := List.exists_of_findSome?_eq_some h
  exact List.mem_of_find?_eq_some (Option.filter_eq_some_iff.mp hd).1

/-- What a reference stands for has one of the full names that are tried for it. -/
theorem fullName_of_meaning? {scope name : String} {d : Definition}
    (h : l.meaning? scope name file = some d) : d.fullName ∈ Dotted.candidates scope name := by
  obtain ⟨fullName, hmem, hd⟩ := List.exists_of_findSome?_eq_some h
  have hname := List.find?_some (Option.filter_eq_some_iff.mp hd).1
  rwa [of_decide_eq_true hname]

theorem follow_congr (h : l'.publicImports = l.publicImports) (self : Text) (rounds : Nat)
    (names : List Text) : l'.follow self rounds names = l.follow self rounds names := by
  induction rounds generalizing names with
  | zero => rfl
  | succ rounds ih => rw [follow, follow, ih, followOnce, followOnce, h]

/-- What a file sees depends only on which files there are, not on their order. -/
theorem visibleFrom_eq (hfile : ∀ name, l'.file? name = l.file? name)
    (hlength : l'.files.length = l.files.length) (file : FileScope) :
    l'.visibleFrom file = l.visibleFrom file := by
  have hpublic : l'.publicImports = l.publicImports := by
    funext name
    rw [publicImports, publicImports, hfile]
  rw [visibleFrom, visibleFrom, follow_congr hpublic, hlength]

theorem visibleFrom_congr (h : l'.files = l.files) (file : FileScope) :
    l'.visibleFrom file = l.visibleFrom file :=
  visibleFrom_eq (fun name => by rw [file?, file?, h]) (by rw [h]) file

theorem lookup?_congr (h : l'.definitions = l.definitions) (scope name : String)
    (admits : Definition → Bool) : l'.lookup? scope name admits = l.lookup? scope name admits := by
  simp [lookup?, definition?, h]

/-! ## Looking names up -/

/-- A linker has the files and definitions of `l₀`, and what it remembers of what a file sees is
right. -/
structure Knows (l₀ l : Linker) : Prop where
  distinct : (l₀.files.map (·.name)).Nodup
  files : l.files = l₀.files
  definitions : l.definitions = l₀.definitions
  visible : ∀ e ∈ l.visible, ∀ file ∈ l₀.files, file.name = e.1 → e.2 = l₀.visibleFrom file

/-- From `l` to `l'` names have been looked up and problems noted, and nothing else. All is well, in
that nothing was noted, just if `ok`. -/
structure LooksUp (l₀ l l' : Linker) (ok : Prop) : Prop where
  rest : ∃ visible reports, l' = { l with visible, reports }
  knows : Knows l₀ l'
  clean : l'.reports = [] ↔ l.reports = [] ∧ ok

theorem LooksUp.refl (h : Knows l₀ l) : LooksUp l₀ l l True :=
  ⟨⟨_, _, rfl⟩, h, by simp⟩

theorem LooksUp.trans {ok ok' : Prop} (h : LooksUp l₀ l l' ok) (h' : LooksUp l₀ l' l'' ok') :
    LooksUp l₀ l l'' (ok ∧ ok') := by
  obtain ⟨visible, reports, hl'⟩ := h.rest
  obtain ⟨visible', reports', hl''⟩ := h'.rest
  refine ⟨⟨visible', reports', ?_⟩, h'.knows, ?_⟩
  · rw [hl'', hl']
  · rw [h'.clean, h.clean, and_assoc]

theorem LooksUp.congr {ok ok' : Prop} (h : LooksUp l₀ l l' ok) (hok : ok ↔ ok') :
    LooksUp l₀ l l' ok' :=
  ⟨h.rest, h.knows, by rw [h.clean, hok]⟩

theorem Knows.report (h : Knows l₀ l) (file : FileScope) (position : Option Position)
    (p : LinkProblem) : LooksUp l₀ l (l.report file position p) False :=
  ⟨⟨_, _, rfl⟩, ⟨h.distinct, h.files, h.definitions, h.visible⟩, by simp [Linker.report, note]⟩

/-- Two files of one name are one file. -/
theorem Knows.eq_of_name (h : Knows l₀ l) {file' : FileScope} (hfile : file ∈ l₀.files)
    (hfile' : file' ∈ l₀.files) (hname : file.name = file'.name) : file = file' :=
  List.inj_on_of_nodup_map h.distinct hfile hfile' hname

/-- What a file sees is remembered as it is. -/
theorem Knows.visibleFiles (h : Knows l₀ l) (hfile : file ∈ l₀.files) :
    ∃ l', l.visibleFiles file = (l', l₀.visibleFrom file) ∧ LooksUp l₀ l l' True := by
  unfold Linker.visibleFiles
  split
  · next known hknown =>
    have hname := List.find?_some hknown
    have hsees := h.visible known (List.mem_of_find?_eq_some hknown) file hfile
      (of_decide_eq_true hname).symm
    exact ⟨l, by rw [hsees], .refl h⟩
  · refine ⟨_, by rw [visibleFrom_congr h.files], ⟨_, _, rfl⟩, ?_, by simp⟩
    refine ⟨h.distinct, h.files, h.definitions, ?_⟩
    intro e he other hother hname
    rcases List.mem_append.mp he with he | he
    · exact h.visible e he other hother hname
    · rw [List.mem_singleton] at he
      subst he
      rw [h.eq_of_name hother hfile hname]

/-- A reference is resolved to its meaning, or noted if it has none. -/
theorem Knows.resolve (h : Knows l₀ l) (hfile : file ∈ l₀.files) (scope name : String)
    (position : Option Position) :
    ∃ l', l.resolve scope name file position = (l', l₀.meaning? scope name file) ∧
      LooksUp l₀ l l' (l₀.meaning? scope name file).isSome := by
  obtain ⟨l₁, heq, hsees⟩ := h.visibleFiles hfile
  have hlookup := lookup?_congr hsees.knows.definitions scope name
    (·.seenIn (l₀.visibleFrom file))
  unfold Linker.resolve
  rw [heq]
  simp only [hlookup]
  cases hmeaning : l₀.lookup? scope name (·.seenIn (l₀.visibleFrom file)) with
  | some d =>
    refine ⟨l₁, by rw [meaning?, hmeaning], hsees.congr ?_⟩
    simp [meaning?, hmeaning]
  | none =>
    refine ⟨_, by rw [meaning?, hmeaning],
      (hsees.trans (hsees.knows.report file position _)).congr ?_⟩
    simp [meaning?, hmeaning]

/-! ## The types of fields -/

/-- What a definition is as the type of a field, if it is a type. -/
def typeLinkOf (d : Definition) (isGroup : Bool) : Option TypeLink :=
  match d.kind, isGroup with
  | .message, true => some ⟨.group, d.fullName, d.place, none⟩
  | .message, false => some ⟨.message, d.fullName, d.place, none⟩
  | .enum, false => some ⟨.enum, d.fullName, none, d.place⟩
  | _, _ => none

/-- What the type reference of a field means, if it means a type. -/
def typeLink? (l : Linker) (f : FieldEntry) : Option TypeLink :=
  let name := f.decl.typeName
  match FieldType.scalar? name with
  | some t => some ⟨t, name, none, none⟩
  | none => (l.meaning? f.scope name f.file).bind (typeLinkOf · f.decl.isGroup)

/-- A field with what its type reference means; one without meaning stays unresolved. -/
def linked (l : Linker) (f : FieldEntry) : FieldEntry :=
  { f with link := (l.typeLink? f).getD { TypeLink.unresolved with typeName := f.decl.typeName } }

@[simp] theorem linked_decl (l : Linker) (f : FieldEntry) : (l.linked f).decl = f.decl := rfl

@[simp] theorem linked_owner (l : Linker) (f : FieldEntry) : (l.linked f).owner = f.owner := rfl

@[simp] theorem linked_fullName (l : Linker) (f : FieldEntry) :
    (l.linked f).fullName = f.fullName := rfl

@[simp] theorem linked_scope (l : Linker) (f : FieldEntry) : (l.linked f).scope = f.scope := rfl

@[simp] theorem linked_file (l : Linker) (f : FieldEntry) : (l.linked f).file = f.file := rfl

/-- The type of a field is resolved to what its reference means. -/
theorem Knows.resolveType (h : Knows l₀ l) {f : FieldEntry} (hfile : f.file ∈ l₀.files)
    (hlink : f.link = .unresolved) :
    ∃ l', l.resolveType f = (l', l₀.linked f) ∧ LooksUp l₀ l l' (l₀.typeLink? f).isSome := by
  unfold Linker.resolveType
  cases hscalar : FieldType.scalar? f.decl.typeName with
  | some t =>
    refine ⟨l, by simp [linked, typeLink?, hscalar, hlink, TypeLink.unresolved], ?_⟩
    exact (LooksUp.refl h).congr (by simp [typeLink?, hscalar])
  | none =>
    obtain ⟨l₁, heq, hlooks⟩ :=
      h.resolve hfile f.scope f.decl.typeName (some f.decl.typePosition)
    simp only [hscalar, heq]
    cases hmeaning : l₀.meaning? f.scope f.decl.typeName f.file with
    | none =>
      refine ⟨l₁, by simp [linked, typeLink?, hscalar, hmeaning, hlink], ?_⟩
      exact hlooks.congr (by simp [typeLink?, hscalar, hmeaning])
    | some d =>
      have hlink? : l₀.typeLink? f = typeLinkOf d f.decl.isGroup := by
        simp [typeLink?, hscalar, hmeaning]
      rw [linked, hlink?]
      -- a further problem is noted just where the definition is no type for the field
      have htype (hsome : (typeLinkOf d f.decl.isGroup).isSome) :
          LooksUp l₀ l l₁ (typeLinkOf d f.decl.isGroup).isSome :=
        hlooks.congr (by simp [hmeaning, hsome])
      have hnoType (p : LinkProblem) (hnone : typeLinkOf d f.decl.isGroup = none) :
          LooksUp l₀ l (l₁.report f.file (some f.decl.position) p)
            (typeLinkOf d f.decl.isGroup).isSome :=
        (hlooks.trans (hlooks.knows.report f.file _ p)).congr (by simp [hnone])
      rw [hlink]
      unfold typeLinkOf at *
      cases hkind : d.kind with
      | message =>
        cases hgroup : f.decl.isGroup <;> simp only [hkind, hgroup] at htype ⊢
        · exact ⟨l₁, rfl, htype rfl⟩
        · exact ⟨l₁, rfl, htype rfl⟩
      | enum =>
        cases hgroup : f.decl.isGroup <;> simp only [hkind, hgroup] at htype hnoType ⊢
        · exact ⟨l₁, rfl, htype rfl⟩
        · exact ⟨_, rfl, hnoType _ trivial⟩
      | package | service | method =>
        simp only [hkind] at hnoType ⊢
        exact ⟨_, rfl, hnoType _ trivial⟩

/-- The types of some fields are resolved to what their references mean. -/
theorem Knows.resolveTypes (h : Knows l₀ l) {fs : List FieldEntry}
    (hfs : ∀ f ∈ fs, f.file ∈ l₀.files ∧ f.link = .unresolved) :
    ∃ l', l.resolveTypes fs = (l', fs.map l₀.linked) ∧
      LooksUp l₀ l l' (∀ f ∈ fs, (l₀.typeLink? f).isSome) := by
  induction fs generalizing l with
  | nil => exact ⟨l, rfl, (LooksUp.refl h).congr (by simp)⟩
  | cons f fs ih =>
    obtain ⟨l₁, heq, hlooks⟩ := h.resolveType (hfs f (by simp)).1 (hfs f (by simp)).2
    obtain ⟨l₂, heqs, hlooks'⟩ := ih hlooks.knows fun f' hf' => hfs f' (by simp [hf'])
    refine ⟨l₂, ?_, (hlooks.trans hlooks').congr (by simp)⟩
    rw [Linker.resolveTypes, heq]
    simp [heqs]

/-! ## The ends of methods -/

/-- The message that one end of a method means, if it means a message. -/
def methodEnd? (l : Linker) (m : MethodEntry) (type : String) : Option Nat :=
  (l.meaning? m.service type m.file).bind fun d => if d.kind = .message then d.place else none

/-- Whether one end of a method means a message. -/
def MethodEndFits (l : Linker) (m : MethodEntry) (type : String) : Prop :=
  ∃ d, l.meaning? m.service type m.file = some d ∧ d.kind = .message

/-- The record of a method with what its ends mean. -/
def methodRecord (l : Linker) (m : MethodEntry) : MethodRecord :=
  ⟨m.decl.name, m.fullName, m.service, l.methodEnd? m m.decl.inputType,
    l.methodEnd? m m.decl.outputType, m.decl.clientStreaming, m.decl.serverStreaming⟩

theorem Knows.resolveMethodEnd (h : Knows l₀ l) {m : MethodEntry} (hfile : m.file ∈ l₀.files)
    (type : String) :
    ∃ l', l.resolveMethodEnd m type = (l', l₀.methodEnd? m type) ∧
      LooksUp l₀ l l' (l₀.MethodEndFits m type) := by
  obtain ⟨l₁, heq, hlooks⟩ := h.resolve hfile m.service type (some m.decl.position)
  unfold Linker.resolveMethodEnd
  simp only [heq]
  cases hmeaning : l₀.meaning? m.service type m.file with
  | none =>
    refine ⟨l₁, by simp [methodEnd?, hmeaning], hlooks.congr ?_⟩
    simp [MethodEndFits, hmeaning]
  | some d =>
    by_cases hkind : d.kind = .message
    · refine ⟨l₁, by simp [methodEnd?, hmeaning, hkind], hlooks.congr ?_⟩
      simp [MethodEndFits, hmeaning, hkind]
    · have hreport := hlooks.knows.report m.file (some m.decl.position)
        (.methodEndNotMessage m.fullName type)
      refine ⟨_, by simp [methodEnd?, hmeaning, hkind], (hlooks.trans hreport).congr ?_⟩
      simp [MethodEndFits, hmeaning, hkind]

/-- Methods are linked to what their ends mean. -/
theorem Knows.linkMethods (h : Knows l₀ l) {ms : List MethodEntry}
    (hms : ∀ m ∈ ms, m.file ∈ l₀.files) :
    ∃ l', l.linkMethods ms = (l', ms.map l₀.methodRecord) ∧
      LooksUp l₀ l l' (∀ m ∈ ms, l₀.MethodEndFits m m.decl.inputType ∧
        l₀.MethodEndFits m m.decl.outputType) := by
  induction ms generalizing l with
  | nil => exact ⟨l, rfl, (LooksUp.refl h).congr (by simp)⟩
  | cons m ms ih =>
    have hfile := hms m (by simp)
    obtain ⟨l₁, hinput, hlooks₁⟩ := h.resolveMethodEnd hfile m.decl.inputType
    obtain ⟨l₂, houtput, hlooks₂⟩ := hlooks₁.knows.resolveMethodEnd hfile m.decl.outputType
    obtain ⟨l₃, heqs, hlooks₃⟩ := ih hlooks₂.knows fun m' hm' => hms m' (by simp [hm'])
    refine ⟨l₃, ?_, ((hlooks₁.trans hlooks₂).trans hlooks₃).congr (by simp)⟩
    rw [Linker.linkMethods, hinput]
    simp [houtput, heqs, methodRecord]

end Linker

/-!
## What a file sees

A file sees itself, the files it imports, and whatever a file that it sees imports publicly
(`Sees`). The linker follows public imports in rounds, as many as there are files, and that is
enough: a round that finds something new starts from a known file that no round before has started
from. So what is found is just what the file sees (`mem_visibleFrom`).
-/

theorem mem_addMissing {α : Type} [DecidableEq α] {seen more : List α} {x : α} :
    x ∈ addMissing seen more ↔ x ∈ seen ∨ x ∈ more := by
  unfold addMissing
  induction more generalizing seen with
  | nil => simp
  | cons y ys ih =>
    rw [List.foldl_cons, ih]
    split_ifs with hy
    · simp only [List.mem_cons]
      constructor
      · tauto
      · rintro (h | rfl | h)
        · exact .inl h
        · exact .inl hy
        · exact .inr h
    · simp [or_assoc]

theorem addMissing_of_subset {α : Type} [DecidableEq α] {seen more : List α} (h : more ⊆ seen) :
    addMissing seen more = seen := by
  unfold addMissing
  induction more with
  | nil => rfl
  | cons y ys ih =>
    rw [List.foldl_cons, if_pos (h (by simp))]
    exact ih fun x hx => h (by simp [hx])

theorem FileScope.publicImportNames_subset (f : FileScope) :
    f.publicImportNames ⊆ f.importNames :=
  (List.filter_sublist.map _).subset

namespace Linker

variable {l l' : Linker} {file : FileScope} {self m n : Text} {names done : List Text}

/-- A file sees a name: its own, one that it imports, or one that a file it sees imports
publicly. -/
inductive Sees (l : Linker) (file : FileScope) : Text → Prop
  | self : Sees l file file.name
  | direct {n : Text} (h : n ∈ file.importNames) : Sees l file n
  | through {m n : Text} (hm : Sees l file m) (h : n ∈ l.publicImports m) : Sees l file n

/-- Following public imports leads to no further names. -/
def Settled (l : Linker) (self : Text) (names : List Text) : Prop :=
  ∀ m ∈ names, ∀ n ∈ l.publicImports m, n ≠ self → n ∈ names

theorem mem_followOnce : n ∈ l.followOnce self names ↔
    n ∈ names ∨ n ≠ self ∧ ∃ m ∈ names, n ∈ l.publicImports m := by
  simp [followOnce, mem_addMissing, and_comm]

theorem followOnce_of_settled (h : l.Settled self names) : l.followOnce self names = names := by
  refine addMissing_of_subset fun n hn => ?_
  simp only [List.mem_filter, List.mem_flatMap, decide_eq_true_eq] at hn
  obtain ⟨⟨m, hm, hn⟩, hne⟩ := hn
  exact h m hm n hn hne

theorem follow_of_settled (h : l.Settled self names) (rounds : Nat) :
    l.follow self rounds names = names := by
  induction rounds with
  | zero => rfl
  | succ rounds ih => rw [follow, followOnce_of_settled h, ih]

/-- Names are kept by all rounds. -/
theorem subset_follow (rounds : Nat) (names : List Text) :
    names ⊆ l.follow self rounds names := by
  induction rounds generalizing names with
  | zero => exact List.Subset.refl _
  | succ rounds ih =>
    rw [follow]
    exact List.Subset.trans (fun n hn => mem_followOnce.mpr (.inl hn)) (ih _)

/-- What holds of the first names, and passes on along public imports, holds of all names found. -/
theorem follow_induction {P : Text → Prop}
    (hstep : ∀ m n, P m → n ∈ l.publicImports m → P n) (rounds : Nat) (h : ∀ n ∈ names, P n) :
    ∀ n ∈ l.follow self rounds names, P n := by
  induction rounds generalizing names with
  | zero => exact h
  | succ rounds ih =>
    rw [follow]
    refine ih fun n hn => ?_
    rcases mem_followOnce.mp hn with hn | ⟨-, m, hm, hn⟩
    · exact h n hn
    · exact hstep m n (h m hm) hn

/-- Only known files import anything. -/
theorem exists_file_of_mem_publicImports (h : n ∈ l.publicImports m) :
    ∃ f ∈ l.files, f.name = m := by
  unfold publicImports file? at h
  cases hfile : l.files.find? (·.name = m) with
  | none => simp [hfile] at h
  | some f => exact ⟨f, List.mem_of_find?_eq_some hfile, by simpa using List.find?_some hfile⟩

/-- Names are settled if the known files among them are done with. -/
theorem settled_of_done (hdone : ∀ m ∈ done, ∀ n ∈ l.publicImports m, n ≠ self → n ∈ names)
    (hall : ∀ f ∈ l.files, f.name ∈ names → f.name ∈ done) : l.Settled self names := by
  intro m hm n hn hne
  obtain ⟨f, hf, rfl⟩ := exists_file_of_mem_publicImports hn
  exact hdone f.name (hall f hf hm) n hn hne

/-- There are enough rounds if there are as many as known files that are not done with. -/
theorem settled_follow (rounds : Nat) (done : List Text)
    (hdone : ∀ m ∈ done, ∀ n ∈ l.publicImports m, n ≠ self → n ∈ names)
    (hrounds : (l.files.filter fun f => f.name ∉ done).length ≤ rounds) :
    l.Settled self (l.follow self rounds names) := by
  induction rounds generalizing names done with
  | zero =>
    refine settled_of_done hdone fun f hf _ => ?_
    have hnone := List.eq_nil_of_length_eq_zero (Nat.le_zero.mp hrounds)
    simpa using List.filter_eq_nil_iff.mp hnone f hf
  | succ rounds ih =>
    by_cases hfresh : ∃ f ∈ l.files, f.name ∈ names ∧ f.name ∉ done
    · -- after this round all names are done with, and so is one file more
      obtain ⟨f, hf, hin, hout⟩ := hfresh
      have hnext : ∀ m ∈ done ++ names, ∀ n ∈ l.publicImports m, n ≠ self →
          n ∈ l.followOnce self names := by
        intro m hm n hn hne
        rcases List.mem_append.mp hm with hm | hm
        · exact mem_followOnce.mpr (.inl (hdone m hm n hn hne))
        · exact mem_followOnce.mpr (.inr ⟨hne, m, hm, hn⟩)
      have hsplit : (l.files.filter fun f => f.name ∉ done ++ names) =
          (l.files.filter fun f => f.name ∉ done).filter fun f => f.name ∉ names := by
        simp [List.filter_filter, and_comm]
      have hless : (l.files.filter fun f => f.name ∉ done ++ names).length <
          (l.files.filter fun f => f.name ∉ done).length := by
        rw [hsplit, List.length_filter_lt_length_iff_exists]
        exact ⟨f, List.mem_filter.mpr ⟨hf, decide_eq_true hout⟩, by simpa using hin⟩
      rw [follow]
      exact ih (done ++ names) hnext (by omega)
    · push Not at hfresh
      have hsettled := settled_of_done hdone hfresh
      rwa [follow_of_settled hsettled]

/-- A file among files of different names is found under its name. -/
theorem file?_eq_some (hfiles : (l.files.map (·.name)).Nodup) (hfile : file ∈ l.files) :
    l.file? file.name = some file := by
  unfold file?
  cases hfind : l.files.find? (·.name = file.name) with
  | none => exact absurd (List.find?_eq_none.mp hfind file hfile) (by simp)
  | some f =>
    have hname : f.name = file.name := by simpa using List.find?_some hfind
    exact congrArg some (List.inj_on_of_nodup_map hfiles (List.mem_of_find?_eq_some hfind) hfile
      hname)

/-- The names that are found from a file are just those that it sees. -/
theorem mem_visibleFrom (hfiles : (l.files.map (·.name)).Nodup) (hfile : file ∈ l.files) :
    n ∈ l.visibleFrom file ↔ l.Sees file n := by
  have himports : ∀ m ∈ file.importNames,
      m ∈ l.follow file.name l.files.length (addMissing [] file.importNames) := fun m hm =>
    subset_follow _ _ (mem_addMissing.mpr (.inr hm))
  have hsettled : l.Settled file.name
      (l.follow file.name l.files.length (addMissing [] file.importNames)) :=
    settled_follow _ [] (by simp) (List.length_filter_le _ _)
  rw [visibleFrom, List.mem_cons]
  constructor
  · rintro (rfl | hn)
    · exact .self
    · refine follow_induction (fun m n hm hn => .through hm hn) _ (fun m hm => ?_) n hn
      exact .direct (by simpa [mem_addMissing] using hm)
  · intro hsees
    induction hsees with
    | self => exact .inl rfl
    | direct h => exact .inr (himports _ h)
    | through hm h ih =>
      rename_i m n
      by_cases hself : n = file.name
      · exact .inl hself
      refine .inr ?_
      rcases ih with rfl | hm
      · -- the file's own public imports are among its imports
        rw [publicImports, file?_eq_some hfiles hfile] at h
        exact himports n (file.publicImportNames_subset h)
      · exact hsettled m hm n h hself

end Linker

end ProtoSchema
