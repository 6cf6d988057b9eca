import ProtoSchema.Proofs.Linker.Forgetting
import ProtoSchema.Proofs.Linker.Spelled
import ProtoSchema.Proofs.Pool.Declared
import ProtoSchema.Proofs.Pool.Steady
import ProtoSchema.Proofs.Tables.Names

/-!
# Looking records up by their full names

A linker that has linked before, or that could not, may have left links and extensions behind, but
no names (`Linker.namedBy_of_link`). So the records still have the full names of the definitions
(`Linker.Coherent.defined_of_namedBy`), and the indexes find each record under its name
(`Linker.Coherent.namesIndexed_of_namedBy`).

A lookup leaves out all points in front of the name that it is given, and a full name may have one
there, since a package may be written with one. So a message, an enum or a method is found under its
own full name just if there is no point in front (`Pool.lookups_exact`), which is the case for all of
them unless the package of some file has one.
-/

namespace ProtoSchema

/-- The full names of messages, enums and methods are those of a linker, and indexed. -/
structure Tables.NamedBy (ts : Tables) (l : Linker) : Prop where
  messages : ts.messages.toList.map (·.fullName) = l.messages.toList.map (·.fullName)
  enums : ts.enums.toList.map (·.fullName) = l.enums.toList.map (·.fullName)
  methods : ts.methods.toList.map (·.fullName) = l.methods.toList.map (·.fullName)
  messagesByName : ts.messagesByName = Linker.nameIndex (ts.messages.toList.map (·.fullName))
  enumsByName : ts.enumsByName = Linker.nameIndex (ts.enums.toList.map (·.fullName))
  methodsByName : ts.methodsByName = Linker.nameIndex (ts.methods.toList.map (·.fullName))

/-- Every record of a message, enum or method has the full name of a definition. -/
structure Tables.Defined (ts : Tables) (definitions : List Definition) : Prop where
  messages : ∀ m ∈ ts.messages, ∃ d ∈ definitions, d.kind = .message ∧ d.fullName = m.fullName
  enums : ∀ e ∈ ts.enums, ∃ d ∈ definitions, d.kind = .enum ∧ d.fullName = e.fullName
  methods : ∀ m ∈ ts.methods, ∃ d ∈ definitions, d.kind = .method ∧ d.fullName = m.fullName

namespace Linker

variable {l m : Linker} {ts : Tables}

/-! ## Names of records -/

theorem fullName_of_messageRecord {fields : Array FieldRecord} {x : MessageEntry}
    {r : MessageRecord} (h : messageRecord fields x = .ok r) : r.fullName = x.fullName := by
  unfold messageRecord at h
  simp only at h
  split at h
  · cases h
  · obtain rfl := Except.ok.inj h
    rfl

theorem map_fullName_of_mapM {fields : Array FieldRecord} {xs : List MessageEntry}
    {rs : List MessageRecord} (h : xs.mapM (messageRecord fields) = .ok rs) :
    rs.map (·.fullName) = xs.map (·.fullName) := by
  induction xs generalizing rs with
  | nil =>
    obtain rfl := Except.ok.inj h
    rfl
  | cons x xs ih =>
    rw [List.mapM_cons] at h
    rcases hx : messageRecord fields x with e | r
    · rw [hx] at h
      cases h
    · rcases hxs : xs.mapM (messageRecord fields) with e | rs'
      · simp only [hx, hxs, bind, Except.bind] at h
        cases h
      · simp only [hx, hxs, bind, Except.bind, pure, Except.pure, Except.ok.injEq] at h
        subst h
        rw [List.map_cons, List.map_cons, fullName_of_messageRecord hx, ih hxs]

theorem map_fullName_linkMethods (l : Linker) (xs : List MethodEntry) :
    (l.linkMethods xs).2.map (·.fullName) = xs.map (·.fullName) := by
  induction xs generalizing l with
  | nil => rfl
  | cons x xs ih =>
    rw [linkMethods]
    simp [ih]

/-- The tables have the names of the linker they are made from. -/
theorem namedBy_of_tables {fields : List FieldRecord} {xs : List MethodEntry} (l₀ : Linker)
    (hmethods : l.methods = xs.toArray)
    (h : l.tables fields (l₀.linkMethods xs).2 = .ok ts) : ts.NamedBy l := by
  unfold tables at h
  rcases hmessages : l.messages.toList.mapM (messageRecord fields.toArray) with e | rs
  · rw [hmessages] at h
    cases h
  · rw [hmessages] at h
    obtain rfl := Except.ok.inj h
    refine ⟨map_fullName_of_mapM hmessages, l.map_fullName_enumRecords, ?_, rfl, rfl, rfl⟩
    rw [hmethods]
    exact l₀.map_fullName_linkMethods xs

theorem Alike.namedBy (hlike : Alike l m) (h : ts.NamedBy l) : ts.NamedBy m := by
  have hnames (xs : Array MessageEntry) : xs.toList.map (·.fullName) =
      (xs.map MessageEntry.forget).toList.map (·.fullName) := by
    simp [Function.comp_def, MessageEntry.forget]
  refine ⟨?_, hlike.enums ▸ h.enums, hlike.methods ▸ h.methods, h.messagesByName, h.enumsByName,
    h.methodsByName⟩
  rw [h.messages, hnames, hlike.messages, ← hnames]

/-- Whatever has been linked before, tables have the names of the linker. -/
theorem namedBy_of_link (h : l.link.2 = .ok ts) : ts.NamedBy l := by
  have hlike := l.alike_link
  unfold link at h hlike
  rcases hattach : l.linkFields.attachExtensions [] (List.range l.linkFields.extensions.size) with
    ⟨l₁, attached⟩
  simp only [hattach] at h hlike
  have hends := (l₁.linkExtensions attached).alike_linkMethods
    (l₁.linkExtensions attached).methods.toList
  split at h
  · cases h
  · next l₂ fields hrecords =>
    have hfields := congrArg Prod.fst hrecords ▸ alike_fieldRecords _ _
    rw [hrecords] at hlike
    refine hlike.namedBy (namedBy_of_tables (l₁.linkExtensions attached) ?_ h)
    simpa using (Alike.trans hfields hends).methods

/-! ## Definitions of records -/

variable {files : List SchemaFile}

/-- The indexes of full names find all records. -/
theorem Coherent.namesIndexed_of_namedBy (hl : l.Coherent) (h : ts.NamedBy l) :
    ts.NamesIndexed := by
  have hmessages : (ts.messages.toList.map (·.fullName)).Nodup := by
    rw [h.messages]
    have hnodup := hl.indexed.nodup_messages
    rwa [inventory, List.map_map] at hnodup
  have henums : (ts.enums.toList.map (·.fullName)).Nodup := h.enums ▸ hl.indexed.nodup_enums
  have hmethods : (ts.methods.toList.map (·.fullName)).Nodup :=
    h.methods ▸ hl.indexed.nodup_methods
  constructor
  · simp [h.messagesByName, find?_nameIndex hmessages]
  · simp [h.enumsByName, find?_nameIndex henums]
  · simp [h.methodsByName, find?_nameIndex hmethods]

/-- Every record is that of a definition. -/
theorem Coherent.defined_of_namedBy (hl : l.Coherent) (h : ts.NamedBy l) :
    ts.Defined l.definitions := by
  have hexists {α β : Type} {name : α → String} {name' : β → String} {xs : List α} {ys : List β}
      (heq : xs.map name = ys.map name') {x : α} (hx : x ∈ xs) :
      ∃ (i : Nat) (y : β), ys[i]? = some y ∧ name' y = name x := by
    have hmem : name x ∈ ys.map name' := heq ▸ List.mem_map_of_mem hx
    obtain ⟨y, hy, hname⟩ := List.mem_map.mp hmem
    obtain ⟨i, hi⟩ := List.getElem?_of_mem hy
    exact ⟨i, y, hi, hname⟩
  constructor
  · intro x hx
    obtain ⟨i, y, hy, hname⟩ := hexists h.messages (Array.mem_toList_iff.mpr hx)
    have hheader : l.inventory.messages[i]? = some y.header := by
      simp [inventory, hy]
    exact ⟨_, hl.indexed.messageDefinition_mem hheader, rfl, hname⟩
  · intro x hx
    obtain ⟨i, y, hy, hname⟩ := hexists h.enums (Array.mem_toList_iff.mpr hx)
    exact ⟨_, hl.indexed.enumDefinition_mem hy, rfl, hname⟩
  · intro x hx
    obtain ⟨i, y, hy, hname⟩ := hexists h.methods (Array.mem_toList_iff.mpr hx)
    exact ⟨_, Inventory.Indexed.mem_of_mapIdx hl.indexed.methods hy, rfl, hname⟩

end Linker

/-! ## Lookups -/

open Dotted

namespace Pool

/-- The kinds of records that can be looked up by full name. -/
inductive Named
  | message
  | enum
  | method
  deriving DecidableEq

namespace Named

/-- The kind of the handles that are found. -/
def kind : Named → RecordKind
  | message => .message
  | enum => .enum
  | method => .method

/-- The lookup of a full name. -/
def find : Named → String → Run (Option Handle)
  | message => findMessage
  | enum => findEnum
  | method => findMethod

/-- The full name of the record that a handle stands for. -/
def fullName : Named → Handle → Run String
  | message, h => (·.fullName) <$> Pool.message h
  | enum, h => (·.fullName) <$> Pool.enum h
  | method, h => (·.fullName) <$> Pool.method h

/-- The full names of all records of a kind. -/
def names (ts : Tables) : Named → List String
  | message => ts.messages.toList.map (·.fullName)
  | enum => ts.enums.toList.map (·.fullName)
  | method => ts.methods.toList.map (·.fullName)

/-- The index of the full names of a kind. -/
def index (ts : Tables) : Named → Index String
  | message => ts.messagesByName
  | enum => ts.enumsByName
  | method => ts.methodsByName

end Named

/-- The handle that a pool gives out for a place. -/
def handleAt (p : Pool) (kind : RecordKind) (place : Nat) : Handle :=
  ⟨p.id, p.generation, kind, place⟩

/-- The handles of all records of a kind. -/
def handles (p : Pool) (ts : Tables) (k : Named) : List Handle :=
  (List.range (k.names ts).length).map (p.handleAt k.kind)

/-- The records of a kind that a pool finds by their full names. -/
structure Finds (t : FileTree) (p : Pool) (ts : Tables) (k : Named) : Prop where
  own : ∀ h ∈ p.handles ts k, ∃ name, (k.fullName h).on t p = (.ok name, p) ∧
    ((k.find name).on t p = (.ok (some h), p) ↔ ¬ IsPointed name)
  plain : (∀ f ∈ p.linker.files, ¬ IsPointed f.package) → ∀ h ∈ p.handles ts k,
    ∃ name, (k.fullName h).on t p = (.ok name, p) ∧ (k.find name).on t p = (.ok (some h), p)
  found : ∀ name h, (k.find name).on t p = (.ok (some h), p) →
    h ∈ p.handles ts k ∧ (k.fullName h).on t p = (.ok (stripPoints name), p)

variable {t : FileTree} {p : Pool} {ts : Tables} {k : Named} {i : Nat}

/-! ## Answers of a linked pool -/

section

variable (hopen : ¬ p.isClosed) (hlinked : p.linked = some ts)
include hopen hlinked

theorem on_find (k : Named) (name : String) : (k.find name).on t p =
    (.ok (((k.index ts).find? (stripPoints name)).map (p.handleAt k.kind)), p) := by
  have hanswer (kind : RecordKind) (place : Tables → Option Nat) :
      (tables >>= fun ts => handle? kind (place ts)).on t p =
        (.ok ((place ts).map (p.handleAt kind)), p) := by
    simp only [on_bind, on_tables_of_linked hopen hlinked]
    cases place ts <;> rfl
  cases k <;> exact hanswer _ _

/-- The record at a place is found through the handle for this place. -/
theorem on_record {ρ : Type} {kind : RecordKind} {arena : Tables → Array ρ} {r : ρ}
    (hr : (arena ts)[i]? = some r) :
    (Prod.snd <$> locate (p.handleAt kind i) kind arena).on t p = (.ok r, p) := by
  obtain ⟨hlt, rfl⟩ := Array.getElem?_eq_some_iff.mp hr
  rw [on_map, on_locate hopen hlinked]
  simp [located, handleAt, recordAt?_of_lt hlt, Except.map]

theorem on_fullName (k : Named) (hi : (k.names ts)[i]? = some name) :
    (k.fullName (p.handleAt k.kind i)).on t p = (.ok name, p) := by
  have hanswer {ρ : Type} (kind : RecordKind) (arena : Tables → Array ρ) (name' : ρ → String)
      (hi : ((arena ts).toList.map name')[i]? = some name) :
      (name' <$> Prod.snd <$> locate (p.handleAt kind i) kind arena).on t p = (.ok name, p) := by
    rw [List.getElem?_map, Array.getElem?_toList, Option.map_eq_some_iff] at hi
    obtain ⟨r, hr, rfl⟩ := hi
    rw [on_map, on_record hopen hlinked hr]
    rfl
  cases k with
  | message => exact hanswer _ _ _ hi
  | enum => exact hanswer _ _ _ hi
  | method => exact hanswer _ _ _ hi

theorem on_messages : messages.on t p = (.ok (p.handles ts .message), p) := by
  have heach (places : List Nat) :
      (places.mapM fun place => handle .message (place : Nat)).on t p =
        (.ok (places.map (p.handleAt .message)), p) := by
    induction places with
    | nil => rfl
    | cons place places ih =>
      rw [List.mapM_cons, on_bind]
      change ((places.mapM fun place => handle .message (place : Nat)) >>= _).on t p = _
      rw [on_bind, ih]
      rfl
  rw [messages, on_bind, on_tables_of_linked hopen hlinked]
  simpa [handles, Named.names, Named.kind] using heach (List.range ts.messages.size)

end

/-! ## What is found -/

/-- The index of a kind finds just the places of full names. -/
theorem Named.find?_index (h : ts.NamesIndexed) (k : Named) {name : String} :
    (k.index ts).find? name = some i ↔ (k.names ts)[i]? = some name := by
  cases k with
  | message => simpa [index, names] using h.messages name i
  | enum => simpa [index, names] using h.enums name i
  | method => simpa [index, names] using h.methods name i

theorem Named.exists_definition {definitions : List Definition} (h : ts.Defined definitions)
    (k : Named) {name : String} (hname : name ∈ k.names ts) :
    ∃ d ∈ definitions, d.kind ≠ .package ∧ d.fullName = name := by
  cases k with
  | message =>
    obtain ⟨r, hr, rfl⟩ := List.mem_map.mp hname
    obtain ⟨d, hd, hkind, hfull⟩ := h.messages r (Array.mem_toList_iff.mp hr)
    exact ⟨d, hd, by simp [hkind], hfull⟩
  | enum =>
    obtain ⟨r, hr, rfl⟩ := List.mem_map.mp hname
    obtain ⟨d, hd, hkind, hfull⟩ := h.enums r (Array.mem_toList_iff.mp hr)
    exact ⟨d, hd, by simp [hkind], hfull⟩
  | method =>
    obtain ⟨r, hr, rfl⟩ := List.mem_map.mp hname
    obtain ⟨d, hd, hkind, hfull⟩ := h.methods r (Array.mem_toList_iff.mp hr)
    exact ⟨d, hd, by simp [hkind], hfull⟩

/-- Tables from files without a pointed package have no full name with a point in front. -/
theorem LinkedFrom.not_isPointed (h : p.LinkedFrom ts)
    (hpoint : ∀ f ∈ p.linker.files, ¬ IsPointed f.package) (k : Named) {name : String}
    (hname : name ∈ k.names ts) : ¬ IsPointed name := by
  obtain ⟨files, l, htold, hlink, hin⟩ := h
  have hcoherent := Linker.coherent_ofFiles htold.distinct
  have hnamed := htold.alike.namedBy (Linker.namedBy_of_link hlink)
  obtain ⟨d, hd, hkind, rfl⟩ := k.exists_definition (hcoherent.defined_of_namedBy hnamed) hname
  refine (Linker.spelled_of_mem (fun f hf => ?_) hd).not_isPointed hkind
  obtain ⟨text, htext⟩ := htold.read f hf
  exact SchemaFile.outline_spelled_of_parse htext (hpoint _ (hin f hf))

theorem LinkedFrom.namesIndexed (h : p.LinkedFrom ts) : ts.NamesIndexed := by
  obtain ⟨files, l, htold, hlink, -⟩ := h
  have hnamed := htold.alike.namedBy (Linker.namedBy_of_link hlink)
  exact (Linker.coherent_ofFiles htold.distinct).namesIndexed_of_namedBy hnamed

/-- In any pool in use that is open and linked, all messages, enums and methods whose full names have
no point in front are found under these names, and no others; where no package has a point in
front, these are all of them. Whatever is found has the full name that was asked for, without the
points in front. -/
theorem lookups_exact {es : List Event} (hp : p ∈ (World.empty.after es).pools)
    (hopen : ¬ p.isClosed) (hlinked : p.linked = some ts) (t : FileTree) :
    messages.on t p = (.ok (p.handles ts .message), p) ∧ ∀ k, Finds t p ts k := by
  have hfrom := (World.tracked_after es p hp).linked hopen ts hlinked
  refine ⟨on_messages hopen hlinked, fun k => ?_⟩
  have hindex {n : String} {i : Nat} := @Named.find?_index ts i hfrom.namesIndexed k n
  -- a name leads to a handle just if it is the full name there, once the points are left out
  have hfind {name : String} {i : Nat} :
      (k.find name).on t p = (.ok (some (p.handleAt k.kind i)), p) ↔
        (k.names ts)[i]? = some (stripPoints name) := by
    rw [on_find hopen hlinked, ← hindex]
    simp [handleAt]
  have hown : ∀ h ∈ p.handles ts k, ∃ name ∈ k.names ts, (k.fullName h).on t p = (.ok name, p) ∧
      ((k.find name).on t p = (.ok (some h), p) ↔ ¬ IsPointed name) := by
    intro h hh
    obtain ⟨i, hi, rfl⟩ := List.mem_map.mp hh
    have hname := List.getElem?_eq_getElem (List.mem_range.mp hi)
    refine ⟨_, List.getElem_mem _, on_fullName hopen hlinked k hname, ?_⟩
    rw [hfind, hname, Option.some_inj, eq_comm, stripPoints_eq_self]
  refine ⟨fun h hh => ?_, fun hpoint h hh => ?_, fun name h hanswer => ?_⟩
  · obtain ⟨name, -, hname⟩ := hown h hh
    exact ⟨name, hname⟩
  · obtain ⟨name, hmem, hname, hfound⟩ := hown h hh
    exact ⟨name, hname, hfound.mpr (hfrom.not_isPointed hpoint k hmem)⟩
  · have hhandle := hanswer
    rw [on_find hopen hlinked] at hhandle
    simp only [Prod.mk.injEq, Except.ok.injEq, and_true, Option.map_eq_some_iff] at hhandle
    obtain ⟨i, -, rfl⟩ := hhandle
    have hname := hfind.mp hanswer
    obtain ⟨hi, -⟩ := List.getElem?_eq_some_iff.mp hname
    exact ⟨List.mem_map_of_mem (List.mem_range.mpr hi), on_fullName hopen hlinked k hname⟩

end Pool

/-! ## A package with a point in front -/

namespace Sample

/-- The lexemes of a message in such a package. -/
def pointedLexemes : List Lexed :=
  [(.keyword .kwPackage, ['p', 'a', 'c', 'k', 'a', 'g', 'e']), (.mark .dot, ['.']), (.name, ['a']),
    (.mark .semicolon, [';'])] ++ messageLexemes

/-- The tree of a file with this package and this message. -/
def pointedTree : Tree (.nonterminal .schemaFile) :=
  let keyword : Tree (.key .kwPackage) :=
    .leaf ⟨.keyword .kwPackage, ['p', 'a', 'c', 'k', 'a', 'g', 'e'], .start⟩
  let point : Tree (.part .leadingDot) :=
    .node ⟨.leadingDot, 0⟩ (.cons (.leaf ⟨.mark .dot, ['.'], ⟨1, 9⟩⟩) .nil)
  let word (lexeme : List Char) (column : Nat) : Tree (.part .name) :=
    .node ⟨.name, 0⟩ (.cons (.leaf ⟨.name, lexeme, ⟨1, column⟩⟩) .nil)
  let mark (m : Mark) (lexeme : List Char) (column : Nat) : Tree (.mark m) :=
    .leaf ⟨.mark m, lexeme, ⟨1, column⟩⟩
  let name : Tree (.part .fullIdent) :=
    .node ⟨.fullIdent, 1⟩ (.cons point (.cons (word ['a'] 11) .nil))
  let package : Tree (.part .packageStmt) := .node ⟨.packageStmt, 0⟩
    (.cons keyword (.cons name (.cons (mark .semicolon [';'] 13) .nil)))
  let message : Tree (.part .messageDecl) := .node ⟨.messageDecl, 1⟩
    (.cons (.leaf ⟨.keyword .kwMessage, ['m', 'e', 's', 's', 'a', 'g', 'e'], ⟨1, 15⟩⟩)
      (.cons (word ['B'] 23) (.cons (mark .lbrace ['\x7b'] 25)
        (.cons (mark .rbrace ['\x7d'] 27) .nil))))
  let items : Tree (.part .topItems) :=
    .node .firstItem (.cons (.node ⟨.topItem, 1⟩ (.cons package .nil)) .nil)
  .node .bareFile (.cons (.node ⟨.topItems, 1⟩
    (.cons items (.cons (.node ⟨.topItem, 3⟩ (.cons message .nil)) .nil))) .nil)

/-- The file with this package and this message. -/
def pointed (name : Text) : SchemaFile :=
  ⟨name, .proto2, some ".a", [], [⟨"B", [], [], [], [], [], [], [], [], [], ⟨1, 23⟩⟩], [], [], [],
    []⟩

/-- A file tree with this file. -/
def pointedFiles : FileTree :=
  ⟨[([Text.ofString "a.proto"],
    .file ((Lexed.spaced pointedLexemes).map fun c => c.toNat.toUInt8))]⟩

/-- A pool is made, the file is loaded, and the pool is finalized. -/
def loadPointed : List Pool.Event :=
  [⟨pointedFiles, .create [] none⟩, ⟨pointedFiles, .call 0 (.loadFile pathA)⟩,
    ⟨pointedFiles, .call 0 .finalize⟩]

/-- The pool with the file, before it is finalized. -/
def pointedPool : Pool :=
  { newPool with
    linker := (Linker.empty.declare (pointed (Text.ofString "a.proto"))).quiet
    roots := [newPool.importName pathA] }

end Sample

theorem SchemaFile.parse_pointedLexemes (name : Text) :
    SchemaFile.parse name (Lexed.spaced Sample.pointedLexemes) = .ok (Sample.pointed name) := by
  have hvalue : Sample.pointedTree.value = .ok (Sample.pointed "") := by
    with_unfolding_all rfl
  exact parse_spaced_tree (by decide) (by decide) hvalue rfl name

namespace Pool

theorem outcome_pointed (root : Path) :
    Attempt.outcome ⟨Sample.pointedFiles, Sample.pathA, (Sample.newPool.importName Sample.pathA).1,
      root⟩ = .ok (Sample.pointed (Text.ofString "a.proto")) := by
  have hname : (Sample.newPool.importName Sample.pathA).1 = Text.ofString "a.proto" := by
    decide +kernel
  have hread : (Sample.pointedFiles.readText Sample.pathA Sample.pathA.text).toOption =
      some (Lexed.spaced Sample.pointedLexemes) := by
    decide +kernel
  cases h : Sample.pointedFiles.readText Sample.pathA Sample.pathA.text with
  | error e => simp [h, Except.toOption] at hread
  | ok text =>
    obtain rfl : text = _ := by simpa [h, Except.toOption] using hread
    simp only [Attempt.outcome, h, hname, SchemaFile.parse_pointedLexemes]
    rfl

/-- A pool is made, a file is loaded, and the pool is finalized: it is left with the tables of what the
file left, if that imports nothing. -/
theorem pools_loadFinalize {t : FileTree} {path : Path} {p : Pool}
    (hloaded : ((loadFile path).on t Sample.newPool).2 = p) (hopen : ¬ p.isClosed)
    (hunlinked : p.linked = none) (hmissing : p.missingImports [] = []) {l : Linker} {ts : Tables}
    (hlink : p.linker.link = (l, .ok ts)) :
    (World.empty.after [⟨t, .create [] none⟩, ⟨t, .call 0 (.loadFile path)⟩,
      ⟨t, .call 0 .finalize⟩]).pools = [{ p.withLinker l with linked := some ts }] := by
  have hcalled : ((Call.loadFile path).run.on t Sample.newPool).2 = p := by
    rw [Call.run, on_map]
    exact hloaded
  have hfinalized : (Call.finalize.run.on t p).2 = (tables.on t p).2 := by
    have hdiscard := on_map (t := t) (p := p) (fun _ => ()) tables
    rw [Call.run, on_map]
    exact congrArg Prod.snd hdiscard
  have himports : p.loadImports t = (p, .ok ()) := loadMissing_of_nil _ hmissing
  have htables : (tables.on t p).2 = { p.withLinker l with linked := some ts } := by
    rw [on_tables_of_unlinked hopen hunlinked, himports]
    simp only [hlink]
  have hmade : (World.empty.step ⟨t, .create [] none⟩).1 = ⟨[Sample.newPool], 2⟩ := rfl
  rw [World.after_cons, hmade, World.after_cons, World.after_cons]
  simp only [World.step, List.getElem?_cons_zero, hcalled, List.set_cons_zero, hfinalized, htables]
  rfl

/-- The file is loaded and linked, and its message is called `.a.B`. -/
theorem exists_loadPointed : ∃ p ts, (World.empty.after Sample.loadPointed).pools = [p] ∧
    ¬ p.isClosed ∧ p.linked = some ts ∧ Named.message.names ts = [".a.B"] ∧
    ts.messagesByName.find? "a.B" = none := by
  have hloaded : ((loadFile Sample.pathA).on Sample.pointedFiles Sample.newPool).2 =
      Sample.pointedPool := by
    rw [on_loadFile_of_ok Bool.false_ne_true rfl (by decide +kernel) (by decide +kernel)
      (outcome_pointed _) (by decide +kernel)]
    rfl
  have hlink : (Sample.pointedPool.linker.link.2.toOption.map fun ts =>
      (Named.message.names ts, ts.messagesByName.find? "a.B")) = some ([".a.B"], none) := by
    decide +kernel
  rcases hrun : Sample.pointedPool.linker.link with ⟨l, e | ts⟩
  · simp [hrun, Except.toOption] at hlink
  · simp only [hrun, Except.toOption, Option.map_some, Option.some.injEq, Prod.mk.injEq] at hlink
    exact ⟨{ Sample.pointedPool.withLinker l with linked := some ts }, ts,
      pools_loadFinalize hloaded Bool.false_ne_true rfl (by decide +kernel) hrun,
      Bool.false_ne_true, rfl, hlink⟩

/-- The message `.a.B` is handed out by its pool, but not found under its own full name. -/
theorem own_name_not_found : ∃ p ∈ (World.empty.after Sample.loadPointed).pools,
    ∃ h hs, messages.on .empty p = (.ok hs, p) ∧ h ∈ hs ∧
      (Named.message.fullName h).on .empty p = (.ok ".a.B", p) ∧
      (Named.message.find ".a.B").on .empty p = (.ok none, p) := by
  obtain ⟨p, ts, hpools, hopen, hlinked, hnames, hnone⟩ := exists_loadPointed
  refine ⟨p, by simp [hpools], p.handleAt .message 0, _, on_messages hopen hlinked, ?_, ?_, ?_⟩
  · simp [handles, hnames, Named.kind]
  · exact on_fullName hopen hlinked .message (i := 0) (by simp [hnames])
  · have hstrip : stripPoints ".a.B" = "a.B" := by decide +kernel
    rw [on_find hopen hlinked, hstrip]
    simp [Named.index, hnone]

/-- What the pool finds. -/
theorem lookups_exact_pointed : ∃ p ts, p ∈ (World.empty.after Sample.loadPointed).pools ∧
    ¬ p.isClosed ∧ p.linked = some ts ∧
    messages.on Sample.pointedFiles p = (.ok (p.handles ts .message), p) ∧
      ∀ k, Finds Sample.pointedFiles p ts k := by
  obtain ⟨p, ts, hpools, hopen, hlinked, -⟩ := exists_loadPointed
  have hp : p ∈ (World.empty.after Sample.loadPointed).pools := by simp [hpools]
  exact ⟨p, ts, hp, hopen, hlinked, lookups_exact hp hopen hlinked Sample.pointedFiles⟩

end Pool

end ProtoSchema
