import ProtoSchema.Cli.Run
import ProtoSchema.Proofs.Pool.Lookups
import ProtoSchema.Proofs.Pool.Thorough

/-!
# What a check says

The check of a directory ends well just if its pool is loaded and linked without a report
(`onPool_checkPool`), and a pool of one directory without reports has everything that is below the
directory (`Pool.whole_of_reports`). So nothing is skipped, dropped or left open behind the count that
is printed (`check_whole`).
-/

namespace ProtoSchema

namespace Cli

variable {e : Environment} {words rest : List String} {a : Arguments} {root : String}
  {place : List Text}

/-- The check counts the messages of a linked pool, unless something has been reported. -/
theorem on_checkPool {t : FileTree} {p : Pool} {ts : Tables} (hopen : ¬ p.isClosed)
    (hlinked : p.linked = some ts) : checkPool.on t p =
      (.ok (if p.reports.length = 0 then .success s!"OK: {ts.messages.size} messages\n"
        else .failure s!"{p.reports.length} problem(s) found"), p) := by
  have hcount : (p.handles ts .message).length = ts.messages.size := by
    simp [Pool.handles, Pool.Named.names]
  simp only [checkPool, Pool.on_bind, Pool.on_get, Pool.on_messages hopen hlinked, hcount,
    Pool.on_ite, Pool.on_pure]
  split_ifs <;> rfl

/-- What becomes of a check: the pool is refused, or it is linked and what it reports decides. -/
inductive Checked (e : Environment) (directories : List Path) : Ending → Prop
  | uncreated {p : Pool} {error : PoolError}
    (hcreate : Pool.create e.tree 1 directories none = (.error error, p)) (errors : Text) :
    Checked e directories ⟨⟨1, "", errors⟩, some (.refused error)⟩
  | unlinked {p p' : Pool} {error : PoolError}
    (hcreate : Pool.create e.tree 1 directories none = (.ok (), p))
    (htables : Pool.tables.on e.tree p = (.error error, p')) (errors : Text) :
    Checked e directories ⟨⟨1, "", errors⟩, some (.refused error)⟩
  | clean {p p' : Pool} {ts : Tables} (hcreate : Pool.create e.tree 1 directories none = (.ok (), p))
    (htables : Pool.tables.on e.tree p = (.ok ts, p')) (hreports : p'.reports = []) (errors : Text) :
    Checked e directories ⟨⟨0, (s!"OK: {ts.messages.size} messages\n" : String), errors⟩, none⟩
  | reported {p p' : Pool} {ts : Tables}
    (hcreate : Pool.create e.tree 1 directories none = (.ok (), p))
    (htables : Pool.tables.on e.tree p = (.ok ts, p')) (hreports : p'.reports ≠ []) (errors : Text) :
    Checked e directories ⟨⟨1, "", errors⟩, none⟩

theorem checked_onPool (e : Environment) (directories : List String) :
    Checked e (directories.map fun d => .ofText (.ofString d))
      (onPool e directories checkPool) := by
  unfold onPool
  simp only
  rcases hcreate : Pool.create e.tree 1 (directories.map fun d => .ofText (.ofString d)) none with
    ⟨error | u, p⟩
  · exact .uncreated hcreate _
  rcases htables : Pool.tables.on e.tree p with ⟨error | ts, p'⟩
  · have hrun : (do Pool.finalize; checkPool : Pool.Run Ending).on e.tree p = (.error error, p') := by
      have hfinalize : Pool.finalize = (fun _ => ()) <$> Pool.tables := rfl
      rw [Pool.on_bind, hfinalize, Pool.on_map, htables]
      rfl
    simp only [hrun]
    exact .unlinked hcreate htables _
  · obtain ⟨hopen, hlinked⟩ := Pool.linked_of_on_tables htables
    have hrun : (do Pool.finalize; checkPool : Pool.Run Ending).on e.tree p =
        checkPool.on e.tree p' := by
      have hfinalize : Pool.finalize = (fun _ => ()) <$> Pool.tables := rfl
      rw [Pool.on_bind, hfinalize, Pool.on_map, htables]
      rfl
    rw [on_checkPool hopen hlinked] at hrun
    simp only [hrun]
    split_ifs with hreports
    · exact .clean hcreate htables (List.length_eq_zero_iff.mp hreports) _
    · exact .reported hcreate htables (fun hnil => hreports (by simp [hnil])) _

/-- A check with its options in order and no argument checks the pool of its directory. -/
theorem run_check (hwords : findCommand words = .ok (.check, rest))
    (hread : Arguments.read Command.check.options rest = .ok a)
    (hroot : searchedDirectories e .check a = .ok [root]) :
    run e words = if a.plain.isEmpty then onPool e [root] checkPool
      else refuse (some .check) (.usage (.extraArguments a.plain)) := by
  have hinput : OptionName.input ∉ Command.check.options := by decide
  unfold run
  rw [hwords]
  simp only [perform, hread, Except.mapError]
  by_cases hplain : a.plain.isEmpty
  · simp [hroot, hplain, hinput, Command.takesName, bind, Except.bind, pure, Except.pure]
  · simp [hroot, hplain, hinput, Command.takesName, bind, Except.bind]

/-- Whatever is below a directory: if its check ends with the code 0, then every schema file below it
has been loaded under the way to it, and so have all imports; no type and no method end is open, and
the count that is printed is the number of messages. If it ends with the code 1 without breaking down,
then something has been reported. -/
theorem check_whole (ht : e.tree.Named) (hwords : findCommand words = .ok (.check, rest))
    (hread : Arguments.read Command.check.options rest = .ok a)
    (hroot : searchedDirectories e .check a = .ok [root])
    (hplace : e.tree.find (.ofText (.ofString root)) = .ok (⟨0, place⟩, .directory)) :
    ((run e words).printed.code = 0 → ∃ p p' ts files,
      Pool.create e.tree 1 [.ofText (.ofString root)] none = (.ok (), p) ∧
      Pool.tables.on e.tree p = (.ok ts, p') ∧ p'.reports = [] ∧
      Pool.Whole e.tree place files ts p' ∧
      (run e words).printed.output = (s!"OK: {ts.messages.size} messages\n" : String)) ∧
    ((run e words).printed.code = 1 → (run e words).breakdown = none → ∃ p p' ts,
      Pool.create e.tree 1 [.ofText (.ofString root)] none = (.ok (), p) ∧
      Pool.tables.on e.tree p = (.ok ts, p') ∧ p'.reports ≠ []) := by
  rw [run_check hwords hread hroot]
  by_cases hplain : a.plain.isEmpty
  · rw [if_pos hplain]
    have hchecked := checked_onPool e [root]
    generalize onPool e [root] checkPool = ending at hchecked
    cases hchecked with
    | uncreated => simp
    | unlinked => simp
    | clean hcreate htables hreports errors =>
      have hroot' : (Path.ofText (.ofString root)).IsPlain := Path.isPlain_ofText _
      obtain ⟨files, hwhole⟩ :=
        Pool.whole_of_reports ht hroot' hplace hcreate htables hreports
      exact ⟨fun _ => ⟨_, _, _, files, hcreate, htables, hreports, hwhole, rfl⟩, by simp⟩
    | reported hcreate htables hreports errors =>
      exact ⟨by simp, fun _ _ => ⟨_, _, _, hcreate, htables, hreports⟩⟩
  · rw [if_neg hplain]
    simp [refuse]

end Cli

/-! ## A sample check -/

namespace Sample

/-- The path of a directory. -/
def pathD : Path := .ofText (.ofString "d")

/-- The place of a file in this directory. -/
def placeB : List Text := ["d", "b.proto"]

/-- A file tree with the directory and the file, which defines a message. -/
def shelfTree : FileTree :=
  ⟨[([Text.ofString "d"], .directory),
    (placeB, .file ((Lexed.spaced messageLexemes).map fun c => c.toNat.toUInt8))]⟩

/-- The environment of this tree. -/
def shelf : Cli.Environment := ⟨shelfTree, none⟩

/-- The pool of the directory. -/
def shelfPool : Pool :=
  { Pool.fresh 1 [pathD] none with
    linker := (Linker.empty.declare (definer "b.proto")).quiet
    roots := [("b.proto", pathD)] }

end Sample

namespace Cli

theorem schemaFiles_shelf :
    Sample.shelfTree.schemaFiles Sample.pathD = [⟨false, Sample.placeB⟩] := by
  have hfind : Sample.shelfTree.find Sample.pathD = .ok (⟨0, [Text.ofString "d"]⟩, .directory) := rfl
  simp only [FileTree.schemaFiles, hfind]
  rw [← List.mergeSort_singleton (a := (⟨false, Sample.placeB⟩ : Path))]
  congr 1

theorem outcome_shelf :
    Attempt.outcome ⟨Sample.shelfTree, ⟨false, Sample.placeB⟩, "b.proto", Sample.pathD⟩ =
      .ok (Sample.definer "b.proto") := by
  have hread : (Sample.shelfTree.readText ⟨false, Sample.placeB⟩
      (Path.text ⟨false, Sample.placeB⟩)).toOption = some (Lexed.spaced Sample.messageLexemes) := by
    decide +kernel
  cases h : Sample.shelfTree.readText ⟨false, Sample.placeB⟩ (Path.text ⟨false, Sample.placeB⟩) with
  | error e => simp [h, Except.toOption] at hread
  | ok text =>
    obtain rfl : text = _ := by simpa [h, Except.toOption] using hread
    simp only [Attempt.outcome, h, SchemaFile.parse_messageLexemes]
    rfl

/-- The file of the directory is loaded. -/
theorem create_shelf :
    Pool.create Sample.shelfTree 1 [Sample.pathD] none = (.ok (), Sample.shelfPool) := by
  have hroot : Sample.shelfTree.lookUp Sample.pathD = .ok (some .directory) := rfl
  have hasked : (Sample.shelfTree.lookUp ⟨false, Sample.placeB⟩).toOption.isSome := by
    decide +kernel
  obtain ⟨found, hfound⟩ := Pool.exists_lookUp hasked
  have hname : (Pool.fresh 1 [Sample.pathD] none).importName ⟨false, Sample.placeB⟩ =
      (Text.ofString "b.proto", Sample.pathD) := by
    decide +kernel
  have hload : (Pool.loadFile ⟨false, Sample.placeB⟩).on Sample.shelfTree
      (Pool.fresh 1 [Sample.pathD] none) = (.ok true, Sample.shelfPool) := by
    rw [Pool.on_loadFile_of_ok (f := Sample.definer "b.proto") Bool.false_ne_true rfl
      (by decide +kernel) (by decide +kernel) (by rw [hname]; exact outcome_shelf)
      (by decide +kernel), hname]
    rfl
  rw [Pool.create_of_directory hroot, schemaFiles_shelf, Pool.on_loadFiles_cons hfound hload,
    Pool.on_loadFiles_nil]
  rfl

/-- Nothing is to be noted on the file. -/
theorem tables_shelf : ∃ p ts, Pool.tables.on Sample.shelfTree Sample.shelfPool = (.ok ts, p) ∧
    p.reports = [] := by
  have hmissing : Sample.shelfPool.missingImports [] = [] := by decide +kernel
  have himports : Sample.shelfPool.loadImports Sample.shelfTree = (Sample.shelfPool, .ok ()) :=
    Pool.loadMissing_of_nil _ hmissing
  have hlinks : Sample.shelfPool.linker.link.2.toOption.isSome := by decide +kernel
  have hclean : Sample.shelfPool.linker.link.1.reports = [] := by decide +kernel
  obtain ⟨l, ts, hlink⟩ := Linker.exists_tables hlinks
  rw [hlink] at hclean
  refine ⟨{ Sample.shelfPool.withLinker l with linked := some ts }, ts, ?_, ?_⟩
  · rw [Pool.on_tables_of_unlinked Bool.false_ne_true rfl, himports]
    simp only [hlink]
  · exact hclean

/-- The check of the directory ends well, and so the file has been loaded. -/
theorem check_whole_shelf :
    (run Sample.shelf ["check", "-I", "d"]).printed.code = 0 ∧ ∃ p ts files,
      Pool.Whole Sample.shelfTree ["d"] files ts p ∧
      (run Sample.shelf ["check", "-I", "d"]).printed.output =
        (s!"OK: {ts.messages.size} messages\n" : String) := by
  have hwords : findCommand ["check", "-I", "d"] = .ok (.check, ["-I", "d"]) := by decide +kernel
  have hread : Arguments.read Command.check.options ["-I", "d"] = .ok ⟨[(.protoPath, "d")], []⟩ := by
    decide +kernel
  have hroot : searchedDirectories Sample.shelf .check ⟨[(.protoPath, "d")], []⟩ = .ok ["d"] := by
    decide +kernel
  have hnamed : Sample.shelfTree.Named := by
    unfold FileTree.Named
    decide +kernel
  have hplace : Sample.shelfTree.find Sample.pathD = .ok (⟨0, ["d"]⟩, .directory) := rfl
  obtain ⟨hclean, -⟩ := check_whole hnamed hwords hread hroot hplace
  obtain ⟨p, ts, htables, hreports⟩ := tables_shelf
  have hcode : (run Sample.shelf ["check", "-I", "d"]).printed.code = 0 := by
    have hchecked := checked_onPool Sample.shelf ["d"]
    rw [run_check hwords hread hroot, if_pos (by rfl)]
    generalize onPool Sample.shelf ["d"] checkPool = ending at hchecked ⊢
    have hcreated {o : Except PoolError Unit} {p : Pool}
        (h : Pool.create Sample.shelfTree 1 [Sample.pathD] none = (o, p)) :
        o = .ok () ∧ p = Sample.shelfPool := by
      rw [create_shelf, Prod.mk.injEq] at h
      exact ⟨h.1.symm, h.2.symm⟩
    cases hchecked with
    | uncreated hcreate => exact absurd (hcreated hcreate).1 (by simp)
    | unlinked hcreate htables' =>
      obtain ⟨-, rfl⟩ := hcreated hcreate
      cases htables.symm.trans htables'
    | clean => rfl
    | reported hcreate htables' hreports' =>
      obtain ⟨-, rfl⟩ := hcreated hcreate
      obtain ⟨-, rfl⟩ := Prod.mk.inj (htables.symm.trans htables')
      exact absurd hreports hreports'
  obtain ⟨_, p', ts', files, -, -, -, hwhole, houtput⟩ := hclean hcode
  exact ⟨hcode, p', ts', files, hwhole, houtput⟩

end Cli

end ProtoSchema
