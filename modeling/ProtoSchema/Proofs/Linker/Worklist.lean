import ProtoSchema.Proofs.Linker.Meaning

/-!
# Public imports, one file after the other

What a file sees can be found with a worklist. Whatever has been seen and not been gone into yet is
pending; the name pending longest waits longest, and going into a file makes pending what it imports
publicly and has not been seen (`walk`). The walk comes to an end because each name that is made
pending has been seen from then on. It finds the names that `visibleFrom` finds in rounds, and these
are the file itself, its imports, and all that is reached from them along public imports of files
that are there (`visible_exact`).
-/

namespace ProtoSchema

/-- A file of the given ones has the name `m` and publicly imports `n`. -/
def ImportsPublicly (files : List SchemaFile) (m n : Text) : Prop :=
  ∃ g ∈ files, g.name = m ∧ ∃ i ∈ g.imports, i.modifier = some .asPublic ∧ i.path = n

theorem FileScope.mem_publicImportNames {f : FileScope} {n : Text} :
    n ∈ f.publicImportNames ↔ ∃ i ∈ f.imports, i.modifier = some .asPublic ∧ i.path = n := by
  simp [publicImportNames, and_assoc]

namespace Linker

variable {l : Linker} {file : FileScope} {m n : Text} {seen pending : List Text}

/-! ## The walk -/

/-- What a file imports publicly and has not been seen. -/
def newImports (l : Linker) (seen : List Text) (name : Text) : List Text :=
  addMissing [] ((l.publicImports name).filter (· ∉ seen))

/-- What is imported publicly by some file and has not been seen. -/
def unseen (l : Linker) (seen : List Text) : List Text :=
  (l.files.flatMap FileScope.publicImportNames).filter (· ∉ seen)

theorem mem_newImports : n ∈ l.newImports seen m ↔ n ∈ l.publicImports m ∧ n ∉ seen := by
  simp [newImports, mem_addMissing]

theorem mem_files_of_mem_publicImports (h : n ∈ l.publicImports m) :
    n ∈ l.files.flatMap FileScope.publicImportNames := by
  unfold publicImports file? at h
  cases hfile : l.files.find? (·.name = m) with
  | none => simp [hfile] at h
  | some f =>
    rw [hfile] at h
    exact List.mem_flatMap.mpr ⟨f, List.mem_of_find?_eq_some hfile, h⟩

/-- Each new import leaves less to be seen. -/
theorem length_unseen_lt (h : l.newImports seen m ≠ []) :
    (l.unseen (seen ++ l.newImports seen m)).length < (l.unseen seen).length := by
  obtain ⟨n, hn⟩ := List.exists_mem_of_ne_nil _ h
  have hsplit : l.unseen (seen ++ l.newImports seen m) =
      (l.unseen seen).filter (· ∉ l.newImports seen m) := by
    simp [unseen, List.filter_filter, Bool.and_comm]
  rw [hsplit, List.length_filter_lt_length_iff_exists]
  obtain ⟨himport, hnew⟩ := mem_newImports.mp hn
  refine ⟨n, List.mem_filter.mpr ⟨mem_files_of_mem_publicImports himport, ?_⟩, ?_⟩
  · exact decide_eq_true hnew
  · simpa using hn

/-- Goes into the pending names one after the other, the last one first. -/
def walk (l : Linker) (seen : List Text) : (pending : List Text) → List Text
  | [] => seen
  | name :: pending =>
    let new := l.newImports seen name
    l.walk (seen ++ new) (new.reverse ++ pending)
termination_by pending => ((l.unseen seen).length, pending.length)
decreasing_by
  by_cases hnew : l.newImports seen name = []
  · simp [hnew, Prod.lex_def]
  · exact Prod.Lex.left _ _ (length_unseen_lt hnew)

/-- The names that are seen after going into all imports of a file. -/
def worklist (l : Linker) (file : FileScope) : List Text :=
  l.walk (addMissing [file.name] file.importNames) file.importNames.reverse

/-! ## What it finds -/

/-- What has been seen stays seen. -/
theorem subset_walk (seen pending : List Text) : seen ⊆ l.walk seen pending := by
  fun_induction walk l seen pending with
  | case1 => exact List.Subset.refl _
  | case2 =>
    rename_i ih
    exact fun n hn => ih (List.mem_append_left _ hn)

/-- What holds of the names seen, and passes on along public imports, holds of all names found, as
long as only names that were seen are pending. -/
theorem walk_induction {P : Text → Prop} (hstep : ∀ m n, P m → n ∈ l.publicImports m → P n)
    (hseen : ∀ n ∈ seen, P n) (hpending : pending ⊆ seen) :
    ∀ n ∈ l.walk seen pending, P n := by
  fun_induction walk l seen pending with
  | case1 => exact hseen
  | case2 seen name pending new ih =>
    have hname : name ∈ seen := hpending (by simp)
    refine ih (fun n hn => ?_) fun n hn => ?_
    · rcases List.mem_append.mp hn with hn | hn
      · exact hseen n hn
      · exact hstep name n (hseen name hname) (mem_newImports.mp hn).1
    · rcases List.mem_append.mp hn with hn | hn
      · exact List.mem_append_right _ (List.mem_reverse.mp hn)
      · exact List.mem_append_left _ (hpending (by simp [hn]))

/-- If whatever has been seen is pending or has been gone into, everything found has been gone into
at the end. -/
theorem closed_walk (h : ∀ m ∈ seen, m ∈ pending ∨ l.publicImports m ⊆ seen) :
    ∀ m ∈ l.walk seen pending, l.publicImports m ⊆ l.walk seen pending := by
  fun_induction walk l seen pending with
  | case1 => simpa using h
  | case2 seen name pending new ih =>
    refine ih fun m hm => ?_
    -- the name just taken up has now been gone into; the new ones are pending
    have hdone : l.publicImports name ⊆ seen ++ new := fun n hn =>
      List.mem_append.mpr (or_iff_not_imp_left.mpr fun hn' => mem_newImports.mpr ⟨hn, hn'⟩)
    rcases List.mem_append.mp hm with hm | hm
    · rcases h m hm with hpending | hinto
      · rcases List.mem_cons.mp hpending with rfl | hpending
        · exact .inr hdone
        · exact .inl (List.mem_append_right _ hpending)
      · exact .inr fun n hn => List.mem_append_left _ (hinto hn)
    · exact .inl (List.mem_append_left _ (List.mem_reverse.mpr hm))

/-- The names found from a file are just those that it sees. -/
theorem mem_worklist (hfiles : (l.files.map (·.name)).Nodup) (hfile : file ∈ l.files) :
    n ∈ l.worklist file ↔ l.Sees file n := by
  have hmem (n : Text) : n ∈ addMissing [file.name] file.importNames ↔
      n = file.name ∨ n ∈ file.importNames := by simp [mem_addMissing]
  have hclosed : ∀ m ∈ l.worklist file, l.publicImports m ⊆ l.worklist file := by
    refine closed_walk fun m hm => ?_
    rcases (hmem m).mp hm with rfl | hm
    · -- the file's own public imports are among its imports
      refine .inr fun n hn => (hmem n).mpr (.inr (file.publicImportNames_subset ?_))
      simpa [publicImports, file?_eq_some hfiles hfile] using hn
    · exact .inl (List.mem_reverse.mpr hm)
  constructor
  · refine walk_induction (fun m n hm hn => .through hm hn) (fun n hn => ?_) (fun n hn => ?_) n
    · rcases (hmem n).mp hn with rfl | hn
      · exact .self
      · exact .direct hn
    · exact (hmem n).mpr (.inr (List.mem_reverse.mp hn))
  · intro hsees
    induction hsees with
    | self => exact subset_walk _ _ ((hmem _).mpr (.inl rfl))
    | direct h => exact subset_walk _ _ ((hmem _).mpr (.inr h))
    | through _ h ih => exact hclosed _ ih h

/-! ## Files that were declared -/

theorem mem_publicImports_ofFiles {files : List SchemaFile} (hnames : (files.map (·.name)).Nodup) :
    n ∈ (ofFiles files).publicImports m ↔ ImportsPublicly files m n := by
  have hfiles := files_ofFiles hnames
  have hscopes : ((ofFiles files).files.map (·.name)).Nodup := by
    rw [hfiles, List.map_map]
    exact hnames
  constructor
  · intro h
    obtain ⟨f, hf, rfl⟩ := exists_file_of_mem_publicImports h
    rw [publicImports, file?_eq_some hscopes hf] at h
    rw [hfiles] at hf
    obtain ⟨g, hg, rfl⟩ := List.mem_map.mp hf
    exact ⟨g, hg, rfl, FileScope.mem_publicImportNames.mp h⟩
  · rintro ⟨g, hg, rfl, h⟩
    have hscope : g.scope ∈ (ofFiles files).files := hfiles ▸ List.mem_map_of_mem hg
    have hfound : (ofFiles files).file? g.name = some g.scope := file?_eq_some hscopes hscope
    rw [publicImports, hfound]
    exact FileScope.mem_publicImportNames.mpr h

/-- A file sees the names that are reached from its own and those of its imports along public
imports. -/
theorem sees_iff {files : List SchemaFile} (hnames : (files.map (·.name)).Nodup) (f : SchemaFile) :
    (ofFiles files).Sees f.scope n ↔ ∃ m ∈ f.name :: f.imports.map (·.path),
      Relation.ReflTransGen (ImportsPublicly files) m n := by
  constructor
  · intro hsees
    induction hsees with
    | self => exact ⟨f.name, by simp, .refl⟩
    | direct h => exact ⟨_, List.mem_cons_of_mem _ h, .refl⟩
    | through _ h ih =>
      obtain ⟨m, hm, hreach⟩ := ih
      exact ⟨m, hm, hreach.tail ((mem_publicImports_ofFiles hnames).mp h)⟩
  · rintro ⟨m, hm, hreach⟩
    induction hreach with
    | refl =>
      rcases List.mem_cons.mp hm with rfl | hm
      · exact .self
      · exact .direct hm
    | tail _ h ih => exact .through ih ((mem_publicImports_ofFiles hnames).mpr h)

/-- What a file sees among declared files of different names: its own name, the paths that it
imports, and what is reached from one of these along public imports of files that are there. The
worklist, which is done when nothing is pending, ends with the same names. -/
theorem visible_exact {files : List SchemaFile} (hnames : (files.map (·.name)).Nodup)
    {f : SchemaFile} (hf : f ∈ files) :
    (∀ n, n ∈ (ofFiles files).visibleFrom f.scope ↔ ∃ m ∈ f.name :: f.imports.map (·.path),
      Relation.ReflTransGen (ImportsPublicly files) m n) ∧
    ∀ n, n ∈ (ofFiles files).worklist f.scope ↔ n ∈ (ofFiles files).visibleFrom f.scope := by
  have hfiles := files_ofFiles hnames
  have hscopes : ((ofFiles files).files.map (·.name)).Nodup := by
    rw [hfiles, List.map_map]
    exact hnames
  have hscope : f.scope ∈ (ofFiles files).files := hfiles ▸ List.mem_map_of_mem hf
  have hrounds (n : Text) := mem_visibleFrom (n := n) hscopes hscope
  have hwalk (n : Text) := mem_worklist (n := n) hscopes hscope
  exact ⟨fun n => (hrounds n).trans (sees_iff hnames f), fun n => (hwalk n).trans (hrounds n).symm⟩

end Linker

namespace Sample

/-- A file that declares nothing and imports others. -/
def importing (name : String) (imports : List (String × Option ImportModifier)) : SchemaFile where
  name := Text.ofString name
  dialect := .proto2
  package := none
  imports := imports.map fun i => ⟨Text.ofString i.1, i.2, ⟨1, 1⟩⟩
  messages := []
  enums := []
  services := []
  extendBlocks := []
  options := []

/-- A file that imports one of two which import each other publicly. -/
def start : SchemaFile := importing "start" [("left", none), ("start", some .asPublic)]

/-- Files that import each other in circles; one of them publicly imports a file that is not
there. -/
def circles : List SchemaFile :=
  [start, importing "left" [("right", some .asPublic), ("weak", some .asWeak), ("plain", none)],
    importing "right" [("left", some .asPublic), ("gone", some .asPublic)], importing "weak" []]

end Sample

namespace Linker

/-- The file that is not there is seen through both others, and what is imported weakly by one of
them is not. -/
theorem visible_exact_circles :
    (∃ m ∈ Sample.start.name :: Sample.start.imports.map (·.path),
      Relation.ReflTransGen (ImportsPublicly Sample.circles) m (Text.ofString "gone")) ∧
    ¬ ∃ m ∈ Sample.start.name :: Sample.start.imports.map (·.path),
      Relation.ReflTransGen (ImportsPublicly Sample.circles) m (Text.ofString "weak") := by
  have hnames : (Sample.circles.map (·.name)).Nodup := by decide +kernel
  have hexact := visible_exact hnames (List.mem_cons_self : Sample.start ∈ Sample.circles)
  exact ⟨(hexact.1 _).mp (by decide +kernel), fun h => absurd ((hexact.1 _).mpr h)
    (by decide +kernel)⟩

end Linker

end ProtoSchema
