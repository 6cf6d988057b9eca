import ProtoSchema.Proofs.Pool.Questions

/-!
# Pools that cannot be told apart

Two pools are twins if they differ in their names only: the one has another identity, is some
generations ahead, and has given earlier reports to its subscribers (`Twins`). What is done with
both comes to the same, up to the names of the pools inside handles and refusals, and leaves them
twins (`Agree`). This is shown for each operation of a pool, from its parts.
-/

namespace ProtoSchema

namespace Pool

variable {pool twin ahead : Nat} {past : List Report} {α β γ : Type} {t : FileTree} {p q : Pool}

/-! ## Renaming handles -/

/-- A correspondence between the handles for a pool and those for its twin, which is `ahead`
generations behind. Handles that are good for neither pool correspond to such handles. -/
structure Renaming (pool twin ahead : Nat) where
  handle : Handle → Handle
  kind (h : Handle) : (handle h).kind = h.kind
  place (h : Handle) : (handle h).place = h.place
  current (h : Handle) (generation : Nat) :
    h.pool = pool ∧ h.generation = generation + ahead ↔
      (handle h).pool = twin ∧ (handle h).generation = generation

/-- The renaming that leaves foreign handles as they are, unless they are those of the twin. -/
def Renaming.shift (pool twin ahead : Nat) : Renaming pool twin ahead where
  handle h :=
    if h.pool = pool ∧ ahead ≤ h.generation then ⟨twin, h.generation - ahead, h.kind, h.place⟩
    else if h.pool = twin then ⟨twin + 1, h.generation, h.kind, h.place⟩
    else h
  kind h := by split_ifs <;> rfl
  place h := by split_ifs <;> rfl
  current h generation := by
    split_ifs with hcurrent htwin
    · simp only [true_and]
      omega
    · simp only [Nat.succ_ne_self, false_and, iff_false]
      omega
    · simp only [htwin, false_and, iff_false]
      omega

namespace Renaming

variable (ρ : Renaming pool twin ahead)

/-- A refusal, as the twin words it. -/
def error : PoolError → PoolError
  | .closed _ => .closed twin
  | .stale h _ generation => .stale (ρ.handle h) twin (generation - ahead)
  | e => e

/-- What comes of a run, as it comes of the run on the twin. -/
def outcome (f : α → β) : Except PoolError α → Except PoolError β
  | .ok a => .ok (f a)
  | .error e => .error (ρ.error e)

@[simp] theorem outcome_ok (f : α → β) (a : α) : ρ.outcome f (.ok a) = .ok (f a) := rfl

@[simp] theorem outcome_error (f : α → β) (e : PoolError) :
    ρ.outcome f (.error e) = .error (ρ.error e) := rfl

/-- The handles that a pool gives out correspond to those that its twin gives out. -/
theorem handle_current (generation : Nat) (kind : RecordKind) (place : Int) :
    ρ.handle ⟨pool, generation + ahead, kind, place⟩ = ⟨twin, generation, kind, place⟩ := by
  obtain ⟨hpool, hgeneration⟩ :=
    (ρ.current ⟨pool, generation + ahead, kind, place⟩ generation).mp ⟨rfl, rfl⟩
  have hkind := ρ.kind ⟨pool, generation + ahead, kind, place⟩
  have hplace := ρ.place ⟨pool, generation + ahead, kind, place⟩
  generalize ρ.handle ⟨pool, generation + ahead, kind, place⟩ = h at *
  cases h
  simp_all

end Renaming

/-! ## Twins -/

/-- Two pools that differ only in their identities, in their subscribers, in `ahead` generations,
and in what the one has reported in the past. -/
structure Twins (pool twin ahead : Nat) (past : List Report) (p q : Pool) : Prop where
  pool : p.id = pool
  twin : q.id = twin
  generation : p.generation = q.generation + ahead
  directories : p.directories = q.directories
  isClosed : p.isClosed = q.isClosed
  linker : p.linker = q.linker
  linked : p.linked = q.linked
  roots : p.roots = q.roots
  failed : p.failed = q.failed
  reports : p.reports = q.reports
  notices : p.notices.map (·.report) = past ++ q.notices.map (·.report)

namespace Twins

variable (h : Twins pool twin ahead past p q)

include h

theorem publish (reports : List Report) :
    Twins pool twin ahead past (p.publish reports) (q.publish reports) := by
  refine ⟨h.pool, h.twin, h.generation, h.directories, h.isClosed, h.linker, h.linked, h.roots,
    h.failed, ?_, ?_⟩
  · simp [Pool.publish, h.reports]
  · simp [Pool.publish, h.notices, Function.comp_def]

theorem fail (name : Text) : Twins pool twin ahead past (p.fail name) (q.fail name) := by
  refine ⟨h.pool, h.twin, h.generation, h.directories, h.isClosed, h.linker, h.linked, h.roots, ?_,
    h.reports, h.notices⟩
  simp [Pool.fail, h.failed]

theorem addRoot (name : Text) (root : Path) : Twins pool twin ahead past
    { p with roots := p.roots ++ [(name, root)] } { q with roots := q.roots ++ [(name, root)] } := by
  refine ⟨h.pool, h.twin, h.generation, h.directories, h.isClosed, h.linker, h.linked, ?_,
    h.failed, h.reports, h.notices⟩
  simp [h.roots]

theorem withLinker (l : Linker) :
    Twins pool twin ahead past (p.withLinker l) (q.withLinker l) := by
  have hlinker : Twins pool twin ahead past { p with linker := { l with reports := [] } }
      { q with linker := { l with reports := [] } } :=
    ⟨h.pool, h.twin, h.generation, h.directories, h.isClosed, rfl, h.linked, h.roots, h.failed,
      h.reports, h.notices⟩
  exact hlinker.publish l.reports

theorem link (ts : Tables) : Twins pool twin ahead past { p with linked := some ts }
    { q with linked := some ts } :=
  ⟨h.pool, h.twin, h.generation, h.directories, h.isClosed, h.linker, rfl, h.roots, h.failed,
    h.reports, h.notices⟩

theorem addDirectory (directory : Path) :
    Twins pool twin ahead past (p.addDirectory directory) (q.addDirectory directory) := by
  refine ⟨h.pool, h.twin, h.generation, ?_, h.isClosed, h.linker, h.linked, h.roots, h.failed,
    h.reports, h.notices⟩
  simp [Pool.addDirectory, h.directories]

theorem close : Twins pool twin ahead past p.close q.close := by
  unfold Pool.close
  rw [← h.isClosed]
  split
  · exact h
  · refine ⟨h.pool, h.twin, ?_, h.directories, rfl, rfl, rfl, rfl, rfl, h.reports, h.notices⟩
    have hgeneration := h.generation
    simp only
    omega

/-! ## Loading -/

theorem load (path root : Path) (name : Text) :
    (p.load t path name root).2 = (q.load t path name root).2 ∧
      Twins pool twin ahead past (p.load t path name root).1 (q.load t path name root).1 := by
  unfold Pool.load
  rw [← h.linker]
  split
  · exact ⟨rfl, (h.fail name).publish _⟩
  · split
    · exact ⟨rfl, (h.addRoot name root).withLinker _⟩
    · exact ⟨rfl, (h.fail name).withLinker _⟩

theorem importName_eq (path : Path) : p.importName path = q.importName path := by
  rw [importName, importName, h.directories]

theorem findImport_eq (name importer : Text) :
    p.findImport t name importer = q.findImport t name importer := by
  rw [findImport, findImport, root?, root?, h.directories, h.roots]

theorem missingImports_eq (attempted : List Text) :
    p.missingImports attempted = q.missingImports attempted := by
  have hmissing : p.isMissing = q.isMissing := by
    funext attempted i
    rw [isMissing, isMissing, h.linker, h.failed]
  rw [missingImports, missingImports, hmissing, h.linker]

theorem loadImport (importer : FileScope) (i : ImportDecl) (found : Option (Path × Path)) :
    Twins pool twin ahead past (p.loadImport t importer i found)
      (q.loadImport t importer i found) := by
  unfold Pool.loadImport
  split
  · exact h.publish _
  · exact (h.load _ _ _).2

omit h in
theorem loadEach (h : Twins pool twin ahead past p q) (attempted : List Text)
    (imports : List (FileScope × ImportDecl)) :
    (p.loadEach t attempted imports).2 = (q.loadEach t attempted imports).2 ∧
      Twins pool twin ahead past (p.loadEach t attempted imports).1
        (q.loadEach t attempted imports).1 := by
  induction imports generalizing p q attempted with
  | nil => exact ⟨rfl, h⟩
  | cons i rest ih =>
    obtain ⟨importer, i⟩ := i
    unfold Pool.loadEach
    rw [← h.findImport_eq]
    split
    · exact ih h attempted
    · split
      · exact ⟨rfl, h⟩
      · exact ih (h.loadImport importer i _) _

end Twins

/-! ## Rounds of imports -/

section

variable {known attempted : List Text} (h : ∀ n ∈ p.linker.importPaths, n ∈ known ++ t.importPaths)

/-- Without a missing import nothing is loaded. -/
theorem loadMissing_of_nil (hmissing : p.missingImports attempted = []) :
    p.loadMissing t known attempted h = (p, .ok ()) := by
  rw [loadMissing.eq_def]
  split
  · rfl
  · next heq => exact absurd (hmissing.symm.trans heq) (by simp)

/-- A round that fails is the last one. -/
theorem loadMissing_of_error {i : FileScope × ImportDecl} {rest : List (FileScope × ImportDecl)}
    (hmissing : p.missingImports attempted = i :: rest) {e : ReadFailure}
    (hround : (p.loadEach t attempted (i :: rest)).2 = .error e) :
    p.loadMissing t known attempted h = ((p.loadEach t attempted (i :: rest)).1, .error e) := by
  rw [loadMissing.eq_def]
  split
  · next heq => exact absurd (hmissing.symm.trans heq) (by simp)
  · next heq =>
    obtain ⟨rfl, rfl⟩ := List.cons.inj (hmissing.symm.trans heq)
    split
    · next hround' => rw [Except.error.inj (hround.symm.trans hround')]
    · next hround' => exact absurd (hround.symm.trans hround') (by simp)

/-- Behind a round of imports comes the next one. -/
theorem loadMissing_of_ok {i : FileScope × ImportDecl} {rest : List (FileScope × ImportDecl)}
    (hmissing : p.missingImports attempted = i :: rest) {tried : List Text}
    (hround : (p.loadEach t attempted (i :: rest)).2 = .ok tried) :
    ∃ h', p.loadMissing t known attempted h =
      (p.loadEach t attempted (i :: rest)).1.loadMissing t known tried h' := by
  rw [loadMissing.eq_def]
  split
  · next heq => exact absurd (hmissing.symm.trans heq) (by simp)
  · next heq =>
    obtain ⟨rfl, rfl⟩ := List.cons.inj (hmissing.symm.trans heq)
    split
    · next hround' => exact absurd (hround.symm.trans hround') (by simp)
    · next hround' =>
      obtain rfl := Except.ok.inj (hround.symm.trans hround')
      exact ⟨fun n hn => (mem_importPaths_loadEach hn).elim (h n) (List.mem_append_right _), rfl⟩

end

theorem Twins.loadMissing (h : Twins pool twin ahead past p q) {known : List Text}
    (attempted : List Text)
    (hp : ∀ n ∈ p.linker.importPaths, n ∈ known ++ t.importPaths)
    (hq : ∀ n ∈ q.linker.importPaths, n ∈ known ++ t.importPaths) :
    (p.loadMissing t known attempted hp).2 = (q.loadMissing t known attempted hq).2 ∧
      Twins pool twin ahead past (p.loadMissing t known attempted hp).1
        (q.loadMissing t known attempted hq).1 := by
  fun_induction Pool.loadMissing t known p attempted hp generalizing q with
  | case1 p attempted hp hmissing =>
    rw [loadMissing_of_nil hq (h.missingImports_eq attempted ▸ hmissing)]
    exact ⟨rfl, h⟩
  | case2 p attempted hp i rest hmissing e hround =>
    obtain ⟨hsame, hrounds⟩ := h.loadEach (t := t) attempted (i :: rest)
    rw [loadMissing_of_error hq (h.missingImports_eq attempted ▸ hmissing) (hsame ▸ hround)]
    exact ⟨rfl, hrounds⟩
  | case3 p attempted hp i rest hmissing tried hround _ ih =>
    obtain ⟨hsame, hrounds⟩ := h.loadEach (t := t) attempted (i :: rest)
    obtain ⟨hq', heq⟩ :=
      loadMissing_of_ok hq (h.missingImports_eq attempted ▸ hmissing) (hsame ▸ hround)
    rw [heq]
    exact ih hrounds hq'

theorem Twins.loadImports (h : Twins pool twin ahead past p q) :
    (p.loadImports t).2 = (q.loadImports t).2 ∧
      Twins pool twin ahead past (p.loadImports t).1 (q.loadImports t).1 := by
  unfold Pool.loadImports
  have hknown : p.linker.importPaths = q.linker.importPaths := by rw [h.linker]
  have hq : ∀ n ∈ q.linker.importPaths, n ∈ p.linker.importPaths ++ t.importPaths := by
    rw [hknown]
    exact fun n hn => List.mem_append_left _ hn
  have hp : ∀ n ∈ p.linker.importPaths, n ∈ p.linker.importPaths ++ t.importPaths :=
    fun n hn => List.mem_append_left _ hn
  have hrounds := h.loadMissing [] hp hq
  simpa only [hknown] using hrounds

/-! ## Runs that agree -/

/-- Whatever the file tree: a run on a pool and another on its twin come to the same, where answers
of the first correspond to those of the second by `f`, and leave twins. -/
def Agree (ρ : Renaming pool twin ahead) (f : α → β) (m : Run α) (m' : Run β) : Prop :=
  ∀ (past : List Report) (t : FileTree) (p q : Pool), Twins pool twin ahead past p q →
    (m'.on t q).1 = ρ.outcome f (m.on t p).1 ∧
      Twins pool twin ahead past (m.on t p).2 (m'.on t q).2

/-- Runs that agree, with the same answers. -/
abbrev Alike (ρ : Renaming pool twin ahead) (m m' : Run α) : Prop := Agree ρ (fun a => a) m m'

namespace Agree

variable {ρ : Renaming pool twin ahead} {f : α → β} {g : β → γ} {δ : Type}

theorem pure {a : α} {b : β} (h : b = f a) : Agree ρ f (pure a) (pure b) := by
  intro past t p q htwins
  exact ⟨by simp [h], htwins⟩

theorem throw {e e' : PoolError} (h : e' = ρ.error e) :
    Agree ρ f (throw e : Run α) (throw e' : Run β) := by
  intro past t p q htwins
  exact ⟨by simp [h], htwins⟩

theorem bind {k : α → Run γ} {k' : β → Run δ} {g : γ → δ} {m : Run α} {m' : Run β}
    (hm : Agree ρ f m m') (hk : ∀ a, Agree ρ g (k a) (k' (f a))) :
    Agree ρ g (m >>= k) (m' >>= k') := by
  intro past t p q htwins
  obtain ⟨hsame, hafter⟩ := hm past t p q htwins
  rw [on_bind, on_bind]
  rcases hmp : m.on t p with ⟨e | a, p'⟩ <;> rw [hmp] at hsame hafter <;>
    rcases hmq : m'.on t q with ⟨e' | b, q'⟩ <;> rw [hmq] at hsame hafter <;>
    simp only [Renaming.outcome_ok, Renaming.outcome_error, Except.ok.injEq, Except.error.injEq,
      reduceCtorEq] at hsame
  · subst hsame
    exact ⟨rfl, hafter⟩
  · subst hsame
    exact hk a past t p' q' hafter

theorem map {k : α → γ} {k' : β → δ} {g : γ → δ} {m : Run α} {m' : Run β}
    (hm : Agree ρ f m m') (hk : ∀ a, k' (f a) = g (k a)) : Agree ρ g (k <$> m) (k' <$> m') := by
  rw [map_eq_pure_bind, map_eq_pure_bind]
  exact hm.bind fun a => .pure (hk a)

theorem ite {c : Prop} [Decidable c] {m n : Run α} {m' n' : Run β} (hm : Agree ρ f m m')
    (hn : Agree ρ f n n') : Agree ρ f (if c then m else n) (if c then m' else n') := by
  split
  · exact hm
  · exact hn

end Agree

section

variable {ρ : Renaming pool twin ahead}

theorem agree_read : Alike ρ (read : Run FileTree) read :=
  fun _ _ _ _ htwins => ⟨rfl, htwins⟩

theorem agree_modify {k k' : Pool → Pool}
    (h : ∀ past p q, Twins pool twin ahead past p q → Twins pool twin ahead past (k p) (k' q)) :
    Alike ρ (modify k : Run PUnit) (modify k') :=
  fun past _ p q htwins => ⟨rfl, h past p q htwins⟩

theorem agree_discard {f : α → β} {m : Run α} {m' : Run β} (hm : Agree ρ f m m') :
    Alike ρ (discard m : Run PUnit) (discard m') :=
  hm.bind fun _ => .pure rfl

/-! ## The life of twins -/

theorem agree_lookUp (path : Path) : Alike ρ (lookUp path) (lookUp path) := by
  refine agree_read.bind fun t => ?_
  split
  · exact .pure rfl
  · exact .throw rfl

theorem agree_loadFile (path : Path) : Alike ρ (loadFile path) (loadFile path) := by
  intro past t p q h
  rw [on_loadFile, on_loadFile, isFinalized, isFinalized, ← h.isClosed, ← h.linked,
    ← h.importName_eq, ← h.linker, h.pool, h.twin]
  split_ifs
  · exact ⟨rfl, h⟩
  · exact ⟨rfl, h⟩
  · exact ⟨rfl, h⟩
  · simp only
    split
    · exact ⟨rfl, h⟩
    · obtain ⟨hsame, hloaded⟩ := h.load (t := t) path (p.importName path).2 (p.importName path).1
      exact ⟨by simp [hsame], hloaded⟩

theorem agree_loadFiles (paths : List Path) : Alike ρ (loadFiles paths) (loadFiles paths) := by
  induction paths with
  | nil => exact .pure rfl
  | cons path paths ih =>
    refine (agree_discard (agree_lookUp path)).bind fun _ => ?_
    refine (agree_loadFile path).bind fun loaded => ih.bind fun count => ?_
    exact .pure rfl

theorem agree_loadDirectory (root : Path) :
    Alike ρ (loadDirectory root) (loadDirectory root) := by
  refine (agree_lookUp root).bind fun found => ?_
  split
  · exact agree_read.bind fun t => agree_loadFiles _
  · exact (agree_modify fun _ _ _ h => h.publish _).bind fun _ => .pure rfl

theorem agree_loadEachDirectory (roots : List Path) :
    Alike ρ (loadEachDirectory roots) (loadEachDirectory roots) := by
  induction roots with
  | nil => exact .pure rfl
  | cons root roots ih =>
    exact (agree_loadDirectory root).bind fun count => ih.bind fun rest => .pure rfl

theorem agree_loadDirectories : Alike ρ loadDirectories loadDirectories := by
  intro past t p q h
  have hrun : Alike ρ (loadEachDirectory p.directories) (loadEachDirectory p.directories) :=
    agree_loadEachDirectory p.directories
  have heach := hrun past t p q h
  simp only [loadDirectories, on_bind, on_get]
  rwa [← h.directories]

theorem agree_tables : Alike ρ tables tables := by
  intro past t p q h
  by_cases hclosed : p.isClosed
  · rw [on_tables_of_closed hclosed, on_tables_of_closed (h.isClosed ▸ hclosed), h.pool, h.twin]
    exact ⟨rfl, h⟩
  have hopen : ¬ q.isClosed := h.isClosed ▸ hclosed
  cases hlinked : p.linked with
  | some ts =>
    rw [on_tables_of_linked hclosed hlinked, on_tables_of_linked hopen (h.linked ▸ hlinked)]
    exact ⟨rfl, h⟩
  | none =>
    rw [on_tables_of_unlinked hclosed hlinked, on_tables_of_unlinked hopen (h.linked ▸ hlinked)]
    obtain ⟨hsame, himported⟩ := h.loadImports (t := t)
    rcases hp : p.loadImports t with ⟨p', e | u⟩ <;> rcases hq : q.loadImports t with ⟨q', e' | u'⟩
      <;> rw [hp, hq] at hsame himported <;>
      simp only [Except.error.injEq, reduceCtorEq] at hsame
    · subst hsame
      exact ⟨rfl, himported⟩
    · have hlinker : q'.linker = p'.linker := himported.linker.symm
      rcases hlink : p'.linker.link with ⟨l, e | ts⟩ <;> simp only [hlinker, hlink]
      · exact ⟨rfl, himported.withLinker l⟩
      · exact ⟨rfl, (himported.withLinker l).link ts⟩

theorem agree_rebuild (directories : Option (List Path)) (subscriber : Option String) :
    Alike ρ ( reinitialize directories subscriber)
      ( reinitialize directories subscriber) := by
  intro past t p q h
  rw [on_rebuild, on_rebuild, ← h.isClosed, h.pool, h.twin]
  split
  · exact ⟨rfl, h⟩
  · refine agree_discard agree_loadDirectories past t _ _ ?_
    refine ⟨h.pool, h.twin, ?_, by simp [h.directories], h.isClosed, rfl, rfl, rfl, rfl, rfl,
      h.notices⟩
    have hgeneration := h.generation
    simp only
    omega

/-! ## Questions to twins -/

theorem agree_handle (kind : RecordKind) (place : Int) :
    Agree ρ ρ.handle (handle kind place) (handle kind place) := by
  intro past t p q h
  have hcurrent := ρ.handle_current q.generation kind place
  refine ⟨?_, h⟩
  simp only [handle, on_bind, on_get, on_pure, Renaming.outcome_ok, h.pool, h.twin, h.generation,
    hcurrent]

theorem agree_handle? (kind : RecordKind) (place : Option Nat) :
    Agree ρ (Option.map ρ.handle) (handle? kind place) (handle? kind place) := by
  cases place with
  | none => exact .pure rfl
  | some place => exact (agree_handle kind place).bind fun h => .pure rfl

/-- A handle is stale for a pool just if the one that corresponds to it is for its twin. -/
theorem Twins.stale_iff (h : Twins pool twin ahead past p q) (ρ : Renaming pool twin ahead)
    (x : Handle) : x.pool ≠ p.id ∨ x.generation ≠ p.generation ↔
      (ρ.handle x).pool ≠ q.id ∨ (ρ.handle x).generation ≠ q.generation := by
  have hcurrent := ρ.current x q.generation
  rw [h.pool, h.twin, h.generation, ← not_and_or, ← not_and_or, hcurrent]

theorem agree_locate {κ : Type} (x : Handle) (kind : RecordKind) (arena : Tables → Array κ) :
    Alike ρ (locate x kind arena) (locate (ρ.handle x) kind arena) := by
  refine agree_tables.bind fun ts => ?_
  intro past t p q h
  have hstale := h.stale_iff ρ x
  simp only [on_bind, on_get, on_ite, on_throw, ρ.kind, ρ.place, hstale]
  split_ifs with hfresh hkind
  · refine ⟨?_, h⟩
    simp [Renaming.error, h.twin, h.generation]
  · exact ⟨rfl, h⟩
  all_goals
    split
    · exact ⟨rfl, h⟩
    · exact ⟨rfl, h⟩

end

end Pool

end ProtoSchema
