import ProtoSchema.Proofs.Linker.Forgetting
import ProtoSchema.Proofs.Pool.Handles
import ProtoSchema.Proofs.Pool.Loading

/-!
# What stays true of a pool

A property of pools stays true in whatever use they are put to if a pool without files has it and a
few things keep it: one file tried, one linking, another list of directories, and closing
(`Steady`). Everything else that is asked of a pool is made up of these, so that the property holds
of every pool that any run of events has left (`World.steady_after`).

One such property is what a pool has been told. Whatever has been done with it, its linker has been
told just what some texts declare, and its tables were made by a linker that had been told no more
than that (`Pool.Tracked`). Linking that was refused may have left something behind, but nothing
that has been declared.
-/

namespace ProtoSchema

namespace Pool

variable {α β : Type} {t : FileTree} {p p' : Pool} {I : Pool → Prop}

/-- A property of pools that holds at the start and that nothing ends. -/
structure Steady (I : Pool → Prop) : Prop where
  blank : ∀ {p : Pool}, p.Blank → I p
  event : ∀ {p : Pool} {e : LoadEvent}, p.Fits e → I p → I (p.after e)
  refused : ∀ {p : Pool} {l : Linker} {e : LinkFailure}, ¬ p.isClosed → p.linked = none →
    p.linker.link = (l, .error e) → I p → I (p.withLinker l)
  linked : ∀ {p : Pool} {l : Linker} {ts : Tables}, ¬ p.isClosed → p.linked = none →
    p.linker.link = (l, .ok ts) → I p → I { p.withLinker l with linked := some ts }
  directories : ∀ {p : Pool} (directory : Path), I p → I (p.addDirectory directory)
  close : ∀ {p : Pool}, ¬ p.isClosed → I p → I p.close

/-- A run that keeps a property of pools, whatever comes of it. -/
def Respects (I : Pool → Prop) (m : Run α) : Prop := ∀ t p, I p → I (m.on t p).2

theorem respects_pure (a : α) : Respects I (pure a : Run α) := fun _ _ hp => hp

theorem respects_throw (e : PoolError) : Respects I (throw e : Run α) := fun _ _ hp => hp

theorem Respects.bind {m : Run α} {f : α → Run β} (hm : Respects I m)
    (hf : ∀ a, Respects I (f a)) : Respects I (m >>= f) := by
  intro t p hp
  have h := hm t p hp
  rw [on_bind]
  rcases heq : m.on t p with ⟨_ | a, p'⟩ <;> rw [heq] at h
  · exact h
  · exact hf a t p' h

theorem Respects.map {m : Run α} (hm : Respects I m) (f : α → β) : Respects I (f <$> m) := by
  rw [map_eq_pure_bind]
  exact hm.bind fun _ => respects_pure _

theorem Respects.ite {c : Prop} [Decidable c] {m m' : Run α} (hm : Respects I m)
    (hm' : Respects I m') : Respects I (if c then m else m') := by
  split
  · exact hm
  · exact hm'

namespace Steady

variable (hI : Steady I)
include hI

theorem loading {events : List LoadEvent} (h : Loading p events p') (hp : I p) : I p' := by
  induction h with
  | none p => exact hp
  | next hfits _ ih => exact ih (hI.event hfits hp)

theorem loadsByEvents {m : Run α} (h : LoadsByEvents m) : Respects I m := by
  intro t p hp
  obtain ⟨events, hevents⟩ := h t p
  exact hI.loading hevents hp

theorem tables : Respects I tables := by
  intro t p hp
  by_cases hclosed : p.isClosed
  · rwa [on_tables_of_closed hclosed]
  cases hlinked : p.linked with
  | some ts => rwa [on_tables_of_linked hclosed hlinked]
  | none =>
    obtain ⟨events, hevents⟩ := loading_loadImports t p
    have hloads := loads_loadImports t p
    have hloaded := hI.loading hevents hp
    rw [on_tables_of_unlinked hclosed hlinked]
    rcases himports : p.loadImports t with ⟨p₁, e | u⟩ <;> rw [himports] at hloaded hloads
    · exact hloaded
    · have hclosed' : ¬ p₁.isClosed := hloads.isClosed ▸ hclosed
      have hlinked' : p₁.linked = none := hloads.linked.trans hlinked
      rcases hlink : p₁.linker.link with ⟨l, e | ts⟩ <;> simp only [hlink]
      · exact hI.refused hclosed' hlinked' hlink hloaded
      · exact hI.linked hclosed' hlinked' hlink hloaded

/-! ## Questions -/

omit hI in
theorem handle? (kind : RecordKind) (place : Option Nat) : Respects I (handle? kind place) := by
  cases place with
  | none => exact respects_pure none
  | some place => exact fun _ _ hp => hp

theorem locate {κ : Type} (h : Handle) (kind : RecordKind) (arena : Tables → Array κ) :
    Respects I (Prod.snd <$> locate h kind arena) := by
  refine Respects.map (hI.tables.bind fun ts => ?_) _
  refine .bind (fun _ _ hp => hp) fun p => ?_
  refine .ite ((respects_throw _).bind fun _ => ?_) ?_
  all_goals
    refine .ite ((respects_throw _).bind fun _ => ?_) ?_
    all_goals
      split
      · exact respects_pure _
      · exact respects_throw _

theorem messages : Respects I messages := by
  have heach (places : List Nat) :
      Respects I (places.mapM fun place => handle .message (place : Nat)) := by
    induction places with
    | nil => exact respects_pure []
    | cons place places ih =>
      rw [List.mapM_cons]
      exact .bind (fun _ _ hp => hp) fun _ => ih.bind fun _ => respects_pure _
  exact hI.tables.bind fun ts => heach _

theorem enumDefault (h : Handle) : Respects I (enumDefault h) := by
  refine (hI.locate h .field Tables.fields).bind fun f => ?_
  split
  · split
    · exact handle? _ _
    · exact hI.tables.bind fun _ => handle? _ _
  · exact respects_pure none

theorem question (q : Question) : Respects I q.handles := by
  have hfind (kind : RecordKind) (place : Tables → Option Nat) :
      Respects I (Pool.tables >>= fun ts => Pool.handle? kind (place ts)) :=
    hI.tables.bind fun _ => handle? _ _
  have hfollow {κ : Type} (h : Handle) (kind kind' : RecordKind) (arena : Tables → Array κ)
      (link : κ → Option Nat) :
      Respects I ((Prod.snd <$> Pool.locate h kind arena) >>= fun r =>
        Pool.handle? kind' (link r)) :=
    (hI.locate h kind arena).bind fun _ => handle? _ _
  have hread {κ : Type} (h : Handle) (kind : RecordKind) (arena : Tables → Array κ)
      (f : κ → Nat) : Respects I ((Prod.snd <$> Pool.locate h kind arena) >>= fun r =>
        pure (f r)) :=
    (hI.locate h kind arena).bind fun _ => respects_pure _
  cases q with
  | findMessage | findEnum | findMethod => exact (hfind _ _).map _
  | messages => exact hI.messages
  | record kind h =>
    have haccess : Respects I (access kind h) := by
      cases kind <;> exact (hI.locate h _ _).map _
    exact haccess.map _
  | messageFieldCount h => exact (hread h .message Tables.messages _).map _
  | enumValueCount h => exact (hread h .enum Tables.enums _).map _
  | messageField h | messageFieldByNumber h | messageFieldByName h =>
    exact (hfollow h .message .field Tables.messages _).map _
  | fieldMessageType h | fieldContainingType h =>
    exact (hfollow h .field .message Tables.fields _).map _
  | fieldEnumType h => exact (hfollow h .field .enum Tables.fields _).map _
  | enumValueAt h | enumValueByNumber h | enumValueByName h =>
    exact (hfollow h .enum .enumValue Tables.enums _).map _
  | methodInput h | methodOutput h => exact (hfollow h .method .message Tables.methods _).map _
  | enumDefault h => exact (hI.enumDefault h).map _
  | explicitDefault c h =>
    exact ((hI.locate h .field Tables.fields).bind fun _ => respects_pure _).map _
  | substitute h =>
    refine ((hI.locate h .field Tables.fields).bind fun f => ?_).map _
    exact .ite ((hI.enumDefault h).bind fun _ => respects_pure _) (respects_pure _)
  | defaultLiteral h =>
    exact ((hI.locate h .field Tables.fields).bind fun _ =>
      hI.tables.bind fun _ => respects_pure _).map _
  | render h =>
    exact ((hI.locate h .message Tables.messages).bind fun _ =>
      hI.tables.bind fun _ => respects_pure _).map _

/-! ## Calls and events -/

theorem call (c : Call) : Respects I c.run := by
  cases c with
  | addDirectory directory =>
    refine Respects.map (fun t p hp => ?_) _
    rw [on_modify]
    exact hI.directories directory hp
  | loadFile path => exact (hI.loadsByEvents (loadsByEvents_loadFile path)).map _
  | loadDirectories => exact (hI.loadsByEvents loadsByEvents_loadDirectories).map _
  | finalize => exact (hI.tables.map _).map _
  | rebuild directories subscriber =>
    refine Respects.map (fun t p hp => ?_) _
    rw [on_rebuild]
    split
    · exact hp
    · next hopen =>
      refine (hI.loadsByEvents (loadsByEvents_loadDirectories.map _)) t _ (hI.blank ?_)
      exact ⟨hopen, rfl, rfl, rfl, rfl, rfl⟩
  | close =>
    refine Respects.map (fun t p hp => ?_) _
    rw [on_modify]
    by_cases hclosed : p.isClosed
    · rwa [Pool.close, if_pos hclosed]
    · exact hI.close hclosed hp
  | ask q => exact hI.question q

theorem step {w : World} (hw : ∀ p ∈ w.pools, I p) (e : Event) :
    ∀ p ∈ (w.step e).1.pools, I p := by
  unfold World.step
  split
  · next directories subscriber _ =>
    have hmade : I (create e.tree w.next directories subscriber).2 :=
      (hI.loadsByEvents (loadsByEvents_loadDirectories.map _)) _ _
        (hI.blank ⟨by simp [fresh], rfl, rfl, rfl, rfl, rfl⟩)
    split
    · next p heq =>
      rw [heq] at hmade
      simpa [or_imp, forall_and, hmade] using hw
    · exact hw
  · next place c _ =>
    split
    · exact hw
    · next p hp =>
      intro q hq
      rcases List.mem_or_eq_of_mem_set hq with hq | rfl
      · exact hw q hq
      · exact hI.call c e.tree p (hw p (List.mem_of_getElem? hp))

end Steady

/-- What nothing ends is true of every pool in use. -/
theorem World.steady_after (hI : Steady I) (es : List Event) :
    ∀ p ∈ (World.empty.after es).pools, I p := by
  induction es using List.reverseRecOn with
  | nil => simp [World.after, World.empty]
  | append_singleton es e ih =>
    rw [World.after_append_singleton]
    exact hI.step ih e

end Pool

/-! ## What pools have been told -/

/-- A file that some text stands for. -/
def SchemaFile.IsRead (f : SchemaFile) : Prop := ∃ text, SchemaFile.parse f.name text = .ok f

theorem SchemaFile.isRead_of_outcome {a : Attempt} {f : SchemaFile} (h : a.outcome = .ok f) :
    f.IsRead := by
  have hname : f.name = a.name := name_eq_of_outcome h
  unfold Attempt.outcome at h
  split at h
  · cases h
  · next text _ =>
    cases hparse : SchemaFile.parse a.name text with
    | error fault =>
      rw [hparse] at h
      cases h
    | ok f' =>
      rw [hparse] at h
      cases h
      exact ⟨text, hname ▸ hparse⟩

namespace Linker

/-- A linker that has been told some files that have been read, one of each name. It may have been
linked in between. -/
structure Told (files : List SchemaFile) (l : Linker) : Prop where
  read : ∀ f ∈ files, f.IsRead
  distinct : (files.map (·.name)).Nodup
  alike : l.Alike (ofFiles files)

variable {files : List SchemaFile} {l m : Linker}

theorem told_empty : Told [] empty := ⟨by simp, by simp, .refl empty⟩

theorem Told.files_eq (h : Told files l) : l.files = files.map SchemaFile.scope := by
  rw [h.alike.files, files_ofFiles h.distinct]

theorem Told.congr (h : Told files l) (hlike : Alike m l) : Told files m :=
  ⟨h.read, h.distinct, hlike.trans h.alike⟩

/-- One more file of a new name. -/
theorem Told.declare (h : Told files l) {f : SchemaFile} (hf : f.IsRead)
    (hnew : l.file? f.name = none) : Told (files ++ [f]) (l.declare f) := by
  have hfresh : f.name ∉ files.map (·.name) := by
    rintro hmem
    obtain ⟨g, hg, hname⟩ := List.mem_map.mp hmem
    have hin : g.scope ∈ l.files := h.files_eq ▸ List.mem_map_of_mem hg
    exact List.find?_eq_none.mp hnew g.scope hin (decide_eq_true hname)
  refine ⟨?_, ?_, ?_⟩
  · exact List.forall_mem_append.mpr ⟨h.read, by simpa using hf⟩
  · rw [List.map_append, List.nodup_append]
    refine ⟨h.distinct, by simp, ?_⟩
    rintro a ha b hb rfl
    obtain rfl : a = f.name := List.mem_singleton.mp hb
    exact hfresh ha
  · rw [ofFiles_append_singleton]
    exact h.alike.declare f

end Linker

namespace Pool

variable {p : Pool} {ts : Tables}

/-- Tables of a linker that has been told some files of a pool. -/
def LinkedFrom (p : Pool) (ts : Tables) : Prop :=
  ∃ files l, Linker.Told files l ∧ l.link.2 = .ok ts ∧ ∀ f ∈ files, f.scope ∈ p.linker.files

/-- A pool whose linker and tables come from files that have been read. -/
structure Tracked (p : Pool) : Prop where
  quiet : p.linker.reports = []
  told : ∃ files, p.linker.Told files
  linked : ¬ p.isClosed → ∀ ts, p.linked = some ts → p.LinkedFrom ts

theorem LinkedFrom.mono {p' : Pool} (h : p.LinkedFrom ts)
    (hfiles : ∀ f ∈ p.linker.files, f ∈ p'.linker.files) : p'.LinkedFrom ts := by
  obtain ⟨files, l, htold, hlink, hin⟩ := h
  exact ⟨files, l, htold, hlink, fun f hf => hfiles _ (hin f hf)⟩

theorem Tracked.publish (hp : p.Tracked) (reports : List Report) : (p.publish reports).Tracked :=
  ⟨hp.quiet, hp.told, hp.linked⟩

theorem Tracked.load (hp : p.Tracked) {a : Attempt} (hnew : p.linker.file? a.name = none) :
    (p.load a.tree a.path a.name a.root).1.Tracked := by
  cases houtcome : a.outcome with
  | error r =>
    rw [load_of_error hp.quiet houtcome]
    exact ⟨hp.quiet, hp.told, hp.linked⟩
  | ok f =>
    have hname : f.name = a.name := SchemaFile.name_eq_of_outcome houtcome
    have hnew' : p.linker.file? f.name = none := hname ▸ hnew
    obtain ⟨files, htold⟩ := hp.told
    have hdeclared := htold.declare (SchemaFile.isRead_of_outcome houtcome) hnew'
    rw [load_of_ok houtcome]
    refine ⟨rfl, ⟨_, hdeclared.congr (Linker.alike_quiet _)⟩, fun hopen ts hts => ?_⟩
    refine LinkedFrom.mono (hp.linked hopen ts hts) fun g hg => ?_
    rw [htold.files_eq] at hg
    rw [withLinker, Pool.publish]
    simp [hdeclared.files_eq, List.mem_map.mp hg]

theorem steady_tracked : Steady Tracked where
  blank hp := by
    refine ⟨by rw [hp.linker]; rfl, ⟨[], hp.linker ▸ Linker.told_empty⟩, fun _ ts hts => ?_⟩
    rw [hp.linked] at hts
    cases hts
  event {p e} hfits hp := by
    cases e with
    | file a => exact hp.load hfits.1
    | noImport t importer i => exact hp.publish _
    | noDirectory t root => exact hp.publish _
  refused {p l e} _ hnone hlink hp := by
    have hlike : Linker.Alike l p.linker := by
      have hlike := p.linker.alike_link
      rwa [hlink] at hlike
    obtain ⟨files, htold⟩ := hp.told
    refine ⟨rfl, ⟨files, htold.congr ((Linker.alike_quiet l).trans hlike)⟩, fun _ ts hts => ?_⟩
    rw [show (p.withLinker l).linked = p.linked from rfl, hnone] at hts
    cases hts
  linked {p l ts} _ _ hlink hp := by
    have hlike : Linker.Alike l p.linker := by
      have hlike := p.linker.alike_link
      rwa [hlink] at hlike
    obtain ⟨files, htold⟩ := hp.told
    have hknown := htold.congr ((Linker.alike_quiet l).trans hlike)
    refine ⟨rfl, ⟨files, hknown⟩, fun _ ts' hts => ?_⟩
    cases hts
    refine ⟨files, p.linker, htold, by rw [hlink], fun f hf => ?_⟩
    exact hknown.files_eq ▸ List.mem_map_of_mem hf
  directories _ hp := ⟨hp.quiet, hp.told, hp.linked⟩
  close {p} hopen _ := by
    rw [Pool.close, if_neg hopen]
    exact ⟨rfl, ⟨[], Linker.told_empty⟩, fun hclosed => absurd rfl hclosed⟩

theorem World.tracked_after (es : List Event) : ∀ p ∈ (World.empty.after es).pools, p.Tracked :=
  World.steady_after steady_tracked es

end Pool

end ProtoSchema
