import Mathlib
import ProtoSchema.Proofs.Pool.Questions

/-!
# Handles in use

Any number of pools are made and used in turn, while the file tree under them may change at any time
(`World`). A handle that a pool has handed out is good as long as that pool is neither rebuilt nor
closed: it stands for one record all the time. After that it is refused, and other pools refuse it
from the start (`handle_safe`).
-/

namespace ProtoSchema

namespace Pool

/-! ## Pools in use -/

/-- What is done with a pool. -/
inductive Call
  | addDirectory (directory : Path)
  | loadFile (path : Path)
  | loadDirectories
  | finalize
  | rebuild (directories : Option (List Path)) (subscriber : Option String)
  | close
  | ask (q : Question)

/-- Does it, and gives the handles that are handed out. -/
def Call.run : Call → Run (List Handle)
  | addDirectory directory => (fun _ => []) <$> modify (Pool.addDirectory · directory)
  | loadFile path => (fun _ => []) <$> Pool.loadFile path
  | loadDirectories => (fun _ => []) <$> Pool.loadDirectories
  | finalize => (fun _ => []) <$> Pool.finalize
  | rebuild directories subscriber =>
    (fun _ => []) <$> Pool.reinitialize directories subscriber
  | close => (fun _ => []) <$> modify Pool.close
  | ask q => q.handles

/-- The pools that have been made, and the number for the next one. -/
structure World where
  pools : List Pool
  next : Nat

/-- Something that happens: a pool is made, or something is done with the pool at a place. -/
inductive Action
  | create (directories : List Path) (subscriber : Option String)
  | call (place : Nat) (c : Call)

/-- Something that happens beside a file tree. -/
structure Event where
  tree : FileTree
  action : Action

namespace World

/-- No pool has been made yet. -/
def empty : World := ⟨[], 1⟩

/-- What an event does, and the handles that it hands out. A pool that cannot be made has used up
its number. -/
def step (w : World) (e : Event) : World × Except PoolError (List Handle) :=
  match e.action with
  | .create directories subscriber =>
    match Pool.create e.tree w.next directories subscriber with
    | (.ok _, p) => (⟨w.pools ++ [p], w.next + 1⟩, .ok [])
    | (.error e, _) => (⟨w.pools, w.next + 1⟩, .error e)
  | .call place c =>
    match w.pools[place]? with
    | none => (w, .ok [])
    | some p => ({ w with pools := w.pools.set place (c.run.on e.tree p).2 }, (c.run.on e.tree p).1)

/-- The world after some events. -/
def after (w : World) (es : List Event) : World := es.foldl (fun w e => (w.step e).1) w

/-- In none of some events linking fails. -/
def Links : World → List Event → Prop
  | _, [] => True
  | w, e :: es => (∀ failure, (w.step e).2 ≠ .error (.linking failure)) ∧ (w.step e).1.Links es

end World

variable {p p' : Pool} {t : FileTree} {w : World}

/-! ## What one call does -/

/-- Calls after which the handles of the pool are not good any more. -/
def Call.Ends : Call → Prop
  | .rebuild _ _ | .close => True
  | _ => False

/-- What a call does to a sound pool: handles are handed out by questions only. -/
structure CallSpec (p p' : Pool) (c : Call) (outcome : Except PoolError (List Handle)) : Prop where
  later : Later p p'
  sound : p'.Sound
  keeps : ¬ c.Ends → Keeps p p'
  issued : ∀ hs, outcome = .ok hs → ∀ h ∈ hs, Issued p' h

/-- A run that is asked for no handles hands out none. -/
theorem issued_of_map_nil {α : Type} {outcome : Except PoolError α} {p : Pool} {hs : List Handle}
    (h : outcome.map (fun _ => []) = .ok hs) : ∀ h ∈ hs, Issued p h := by
  cases outcome with
  | error e => cases h
  | ok a =>
    cases h
    simp

theorem Loads.callSpec {α : Type} {c : Call} {outcome : Except PoolError α} (h : Loads p p')
    (hp : p.Sound) : CallSpec p p' c (outcome.map fun _ => []) :=
  ⟨h.keeps.later, h.sound hp, fun _ => h.keeps, fun _ hhs => issued_of_map_nil hhs⟩

theorem Call.spec (hp : p.Sound) (c : Call)
    (hlinks : ∀ e, (c.run.on t p).1 ≠ .error (.linking e)) :
    CallSpec p (c.run.on t p).2 c (c.run.on t p).1 := by
  cases c with
  | addDirectory directory =>
    have hloads : Loads p (Pool.addDirectory p directory) := ⟨rfl, rfl, rfl, rfl, fun h => h⟩
    exact ⟨hloads.keeps.later, hloads.sound hp, fun _ => hloads.keeps,
      fun _ hhs => by cases hhs; simp⟩
  | loadFile path =>
    rw [run, on_map]
    exact (loadsOnly_loadFile path t p).callSpec hp
  | loadDirectories =>
    rw [run, on_map]
    exact (loadsOnly_loadDirectories t p).callSpec hp
  | finalize =>
    have hfinalize : Pool.finalize.on t p = ((tables.on t p).1.map fun _ => (), (tables.on t p).2) :=
      on_map _ _
    rw [run, on_map, hfinalize] at hlinks ⊢
    have hkeeps := keeps_tables t p
    refine ⟨hkeeps.later, hp.on_tables fun e he => ?_, fun _ => hkeeps,
      fun _ hhs => issued_of_map_nil hhs⟩
    exact hlinks e (by rw [he]; rfl)
  | rebuild directories subscriber =>
    rw [run, on_map]
    by_cases hopen : p.isClosed
    · rw [on_rebuild, if_pos hopen]
      exact ⟨.refl p, hp, fun _ => .refl p, fun _ hhs => by cases hhs⟩
    · obtain ⟨hid, hgeneration, -, hsound⟩ := rebuild_spec (t := t) hopen
      refine ⟨⟨hid, ?_, fun hclosed => absurd hclosed hopen, ?_⟩, hsound, fun hends => ?_,
        fun _ hhs => issued_of_map_nil hhs⟩
      · rw [hgeneration]
        exact Nat.le_succ _
      · intro hsame
        rw [hgeneration] at hsame
        omega
      · exact absurd trivial hends
  | close =>
    obtain ⟨-, hlater, hsound⟩ := close_spec p
    rw [run, on_map, on_modify]
    exact ⟨hlater, hsound hp, fun hends => absurd trivial hends,
      fun _ hhs => by cases hhs; simp⟩
  | ask q =>
    obtain ⟨hkeeps, hsound, hissued⟩ := q.on_spec hp hlinks
    exact ⟨hkeeps.later, hsound, fun _ => hkeeps, hissued⟩

/-! ## What one event does -/

namespace World

/-- All pools are sound, and no two have one number. -/
structure Sound (w : World) : Prop where
  pools : ∀ p ∈ w.pools, p.Sound
  ids : (w.pools.map Pool.id).Nodup
  next : ∀ p ∈ w.pools, p.id < w.next

theorem sound_empty : empty.Sound := ⟨by simp [empty], by simp [empty], by simp [empty]⟩

/-- From `w` to `w'` some time has gone by for all pools. -/
def Later (w w' : World) : Prop :=
  ∀ (i : Nat) (p : Pool), w.pools[i]? = some p →
    ∃ p', w'.pools[i]? = some p' ∧ Pool.Later p p'

theorem Later.refl (w : World) : World.Later w w := fun _ p hp => ⟨p, hp, .refl p⟩

theorem Later.trans {w w' w'' : World} (h : World.Later w w') (h' : World.Later w' w'') :
    World.Later w w'' := by
  intro i p hp
  obtain ⟨p', hp', hlater⟩ := h i p hp
  obtain ⟨p'', hp'', hlater'⟩ := h' i p' hp'
  exact ⟨p'', hp'', hlater.trans hlater'⟩

variable {e : Event} {es : List Event} {i : Nat}

/-- An event leaves a pool as it is, unless it is a call to that pool. -/
theorem step_pool (hw : w.Sound) (hlinks : ∀ failure, (w.step e).2 ≠ .error (.linking failure))
    (hp : w.pools[i]? = some p) :
    ∃ p', (w.step e).1.pools[i]? = some p' ∧
      ((∀ c, e.action ≠ .call i c) ∧ p' = p ∨
        ∃ c, e.action = .call i c ∧ p' = (c.run.on e.tree p).2 ∧ CallSpec p p' c (w.step e).2) := by
  have hi := (List.getElem?_eq_some_iff.mp hp).1
  obtain ⟨tree, ⟨directories, subscriber⟩ | ⟨place, c⟩⟩ := e
  · refine ⟨p, ?_, .inl ⟨by simp, rfl⟩⟩
    unfold step
    simp only
    split
    · rwa [List.getElem?_append_left hi]
    · exact hp
  · by_cases hplace : place = i
    · subst hplace
      unfold step at hlinks ⊢
      simp only [hp] at hlinks ⊢
      refine ⟨_, by simp [hi], .inr ⟨c, rfl, rfl, ?_⟩⟩
      exact c.spec (hw.pools p (List.mem_of_getElem? hp)) hlinks
    · refine ⟨p, ?_, .inl ⟨by simpa using hplace, rfl⟩⟩
      unfold step
      simp only
      split
      · exact hp
      · rwa [List.getElem?_set_ne hplace]

theorem step_later (hw : w.Sound)
    (hlinks : ∀ failure, (w.step e).2 ≠ .error (.linking failure)) :
    World.Later w (w.step e).1 := by
  intro i p hp
  obtain ⟨p', hp', ⟨-, rfl⟩ | ⟨c, -, -, hspec⟩⟩ := step_pool hw hlinks hp
  · exact ⟨p', hp', .refl p'⟩
  · exact ⟨p', hp', hspec.later⟩

theorem step_sound (hw : w.Sound)
    (hlinks : ∀ failure, (w.step e).2 ≠ .error (.linking failure)) : (w.step e).1.Sound := by
  obtain ⟨tree, ⟨directories, subscriber⟩ | ⟨place, c⟩⟩ := e
  · have hloads : Loads (fresh w.next directories subscriber)
        (Pool.create tree w.next directories subscriber).2 :=
      loadsOnly_loadDirectories.bind (fun _ => loadsOnly_pure _) tree _
    have hnew := hloads.sound (sound_of_empty rfl rfl)
    have hid : (Pool.create tree w.next directories subscriber).2.id = w.next := hloads.id
    have hnext : ∀ p ∈ w.pools, p.id < w.next + 1 := fun p hp => (hw.next p hp).trans (by omega)
    unfold step
    simp only
    split
    · next p hcreate =>
      rw [hcreate] at hnew hid
      refine ⟨?_, ?_, ?_⟩
      · simpa [or_imp, forall_and] using ⟨hw.pools, hnew⟩
      · refine nodup_map_append_singleton hw.ids fun hmem => ?_
        obtain ⟨q, hq, hqid⟩ := List.mem_map.mp hmem
        exact (hw.next q hq).ne (hqid.trans hid)
      · intro q hq
        rcases List.mem_append.mp hq with hq | hq
        · exact hnext q hq
        · rw [List.mem_singleton.mp hq, hid]
          exact Nat.lt_succ_self _
    · exact ⟨hw.pools, hw.ids, hnext⟩
  · cases hp : w.pools[place]? with
    | none =>
      have hsame : w.step ⟨tree, .call place c⟩ = (w, .ok []) := by simp [step, hp]
      rwa [hsame]
    | some p =>
      have hstep : w.step ⟨tree, .call place c⟩ =
          ({ w with pools := w.pools.set place (c.run.on tree p).2 }, (c.run.on tree p).1) := by
        simp [step, hp]
      rw [hstep] at hlinks ⊢
      have hmem := List.mem_of_getElem? hp
      have hspec := c.spec (hw.pools p hmem) hlinks
      have hids : (w.pools.set place (c.run.on tree p).2).map Pool.id = w.pools.map Pool.id := by
        obtain ⟨hi, rfl⟩ := List.getElem?_eq_some_iff.mp hp
        have hset := @List.set_getElem_self _ (w.pools.map Pool.id) place (by simpa using hi)
        rwa [List.getElem_map, ← hspec.later.id, ← List.map_set] at hset
      refine ⟨fun q hq => ?_, hids ▸ hw.ids, fun q hq => ?_⟩
      · rcases List.mem_or_eq_of_mem_set hq with hq | rfl
        · exact hw.pools q hq
        · exact hspec.sound
      · rcases List.mem_or_eq_of_mem_set hq with hq | rfl
        · exact hw.next q hq
        · rw [hspec.later.id]
          exact hw.next p hmem

/-! ## What a run does -/

theorem after_cons (w : World) (e : Event) (es : List Event) :
    w.after (e :: es) = (w.step e).1.after es := rfl

theorem after_append (w : World) (es es' : List Event) :
    w.after (es ++ es') = (w.after es).after es' :=
  List.foldl_append

theorem after_append_singleton (w : World) (es : List Event) (e : Event) :
    w.after (es ++ [e]) = ((w.after es).step e).1 :=
  after_append w es [e]

theorem links_append {es' : List Event} :
    w.Links (es ++ es') ↔ w.Links es ∧ (w.after es).Links es' := by
  induction es generalizing w with
  | nil => simp [Links, after]
  | cons e es ih => rw [List.cons_append, Links, Links, ih, after_cons, and_assoc]

theorem Sound.after (hw : w.Sound) (hlinks : w.Links es) :
    (w.after es).Sound ∧ World.Later w (w.after es) := by
  induction es generalizing w with
  | nil => exact ⟨hw, .refl w⟩
  | cons e es ih =>
    obtain ⟨hfirst, hrest⟩ := hlinks
    obtain ⟨hsound, hlater⟩ := ih (step_sound hw hfirst) hrest
    exact ⟨hsound, (step_later hw hfirst).trans hlater⟩

/-- A pool keeps what it has as long as it is not called to end that. -/
theorem keeps_after (hw : w.Sound) (hlinks : w.Links es) (hp : w.pools[i]? = some p)
    (hnone : ∀ e ∈ es, ∀ c, e.action = .call i c → ¬ c.Ends) :
    ∃ p', (w.after es).pools[i]? = some p' ∧ Keeps p p' := by
  induction es generalizing w p with
  | nil => exact ⟨p, hp, .refl p⟩
  | cons e es ih =>
    obtain ⟨hfirst, hrest⟩ := hlinks
    obtain ⟨p₁, hp₁, hstep⟩ := step_pool hw hfirst hp
    have hkeeps : Keeps p p₁ := by
      rcases hstep with ⟨-, rfl⟩ | ⟨c, hc, -, hspec⟩
      · exact .refl p₁
      · exact hspec.keeps (hnone e (by simp) c hc)
    obtain ⟨p', hp', hkeeps'⟩ := ih (step_sound hw hfirst) hrest hp₁ fun e' he' =>
      hnone e' (by simp [he'])
    exact ⟨p', hp', hkeeps.trans hkeeps'⟩

/-- A call among some events comes at one time, between two others. -/
theorem exists_of_call (hw : w.Sound) (hlinks : w.Links es) (hp : w.pools[i]? = some p) {c : Call}
    (hc : ⟨t, .call i c⟩ ∈ es) :
    ∃ q p', Pool.Later p q ∧ (w.after es).pools[i]? = some p' ∧
      Pool.Later (c.run.on t q).2 p' := by
  obtain ⟨es₁, es₂, rfl⟩ := List.append_of_mem hc
  rw [links_append] at hlinks
  obtain ⟨hlinks₁, hfirst, hlinks₂⟩ := hlinks
  obtain ⟨hsound₁, hlater₁⟩ := hw.after hlinks₁
  obtain ⟨q, hq, hlater⟩ := hlater₁ i p hp
  obtain ⟨q', hq', ⟨hother, -⟩ | ⟨c', hc', rfl, -⟩⟩ := step_pool hsound₁ hfirst hq
  · exact absurd rfl (hother c)
  · cases hc'
    obtain ⟨p', hp', hlater'⟩ := ((step_sound hsound₁ hfirst).after hlinks₂).2 i _ hq'
    exact ⟨q, p', hlater, by rwa [after_append, after_cons], hlater'⟩

theorem ended_of_rebuild (hw : w.Sound) (hlinks : w.Links es) (hp : w.pools[i]? = some p)
    {directories : Option (List Path)} {subscriber : Option String}
    (hcall : ⟨t, .call i (.rebuild directories subscriber)⟩ ∈ es)
    (hp' : (w.after es).pools[i]? = some p') : p'.isClosed ∨ p.generation < p'.generation := by
  obtain ⟨q, p'', hlater, hp'', hlater'⟩ := exists_of_call hw hlinks hp hcall
  obtain rfl : p'' = p' := Option.some.inj (hp''.symm.trans hp')
  rw [Call.run, on_map] at hlater'
  by_cases hopen : q.isClosed
  · rw [on_rebuild, if_pos hopen] at hlater'
    exact .inl (hlater'.closed hopen)
  · obtain ⟨-, hgeneration, -, -⟩ := @rebuild_spec t q directories subscriber hopen
    have hle := hlater.generation
    have hle' := hlater'.generation
    simp only [hgeneration] at hle'
    exact .inr (by omega)

theorem closed_of_close (hw : w.Sound) (hlinks : w.Links es) (hp : w.pools[i]? = some p)
    (hcall : ⟨t, .call i .close⟩ ∈ es) (hp' : (w.after es).pools[i]? = some p') : p'.isClosed := by
  obtain ⟨q, p'', -, hp'', hlater'⟩ := exists_of_call hw hlinks hp hcall
  obtain rfl : p'' = p' := Option.some.inj (hp''.symm.trans hp')
  exact hlater'.closed (close_spec q).1

end World

/-! ## What becomes of handles -/

/-- What the accessors of a pool make of a handle for a record `r`. The pool is the handle's own just
if `own`. -/
structure Treats (p : Pool) (h : Handle) (r : Record) (own : Prop) : Prop where
  closed : p.isClosed → ∀ t kind, (access kind h).on t p = (.error (.closed p.id), p)
  good : ¬ p.isClosed → own → p.generation = h.generation → ∀ t,
    (access h.kind h).on t p = (.ok r, p) ∧
    ∀ kind, kind ≠ h.kind → (access kind h).on t p = (.error (.wrongKind kind h.kind), p)
  stale : ¬ p.isClosed → ¬ own ∨ p.generation ≠ h.generation → ∀ t ts,
    (tables.on t p).1 = .ok ts →
    ∀ kind, ((access kind h).on t p).1 = .error (.stale h p.id p.generation)
  refused : ¬ p.isClosed → ¬ own ∨ p.generation ≠ h.generation → ∀ t e,
    (tables.on t p).1 = .error e →
    ((∃ failure, e = .unreachable failure) ∨ ∃ failure, e = .linking failure) ∧
    ∀ kind, ((access kind h).on t p).1 = .error e

theorem access_of_closed (hclosed : p.isClosed) (kind : RecordKind) (h : Handle) :
    (access kind h).on t p = (.error (.closed p.id), p) := by
  rw [← finalizes_access kind h, on_bind, on_tables_of_closed hclosed]

/-- The cases of a handle that was issued when its pool was `p₀`. -/
theorem Issued.treats {p₀ : Pool} {h : Handle} {r : Record} {own : Prop} (hissued : Issued p₀ h)
    (hr : ∀ p', Keeps p₀ p' → ∀ t, (Pool.access h.kind h).on t p' = (.ok r, p'))
    (hkeeps : own → p.generation = h.generation → Keeps p₀ p) (hid : ¬ own → h.pool ≠ p.id) :
    Treats p h r own := by
  have hstale (hnot : ¬ own ∨ p.generation ≠ h.generation) :
      h.pool ≠ p.id ∨ h.generation ≠ p.generation := hnot.imp hid Ne.symm
  refine ⟨fun hclosed t kind => access_of_closed hclosed kind h, fun _ hown hsame t => ?_,
    fun _ hnot t ts hts kind => ?_, fun hopen hnot t e he => ?_⟩
  · have hkept := hkeeps hown hsame
    exact ⟨hr p hkept t, fun kind hkind => hissued.access_of_ne hkind hkept⟩
  · rw [access_of_stale (hstale hnot), hts]
    rfl
  · refine ⟨refusal_of_on_tables hopen he, fun kind => ?_⟩
    rw [access_of_stale (hstale hnot), he]
    rfl

/-- Whatever is done with any number of pools, from nothing (`World.sound_empty`) or other sound
pools on: a handle that is handed out stays good as long as its pool is open and of the same
generation, which ends when the pool is rebuilt or closed, and no sooner. -/
theorem handle_safe {w : World} {asked : List Event} {t : FileTree} {i : Nat} {q : Question}
    {hs : List Handle} {h : Handle} (hw : w.Sound)
    (hlinks : w.Links (asked ++ [⟨t, .call i (.ask q)⟩]))
    (hasked : ((w.after asked).step ⟨t, .call i (.ask q)⟩).2 = .ok hs) (hh : h ∈ hs) :
    ∃ r, ∀ later, (w.after (asked ++ [⟨t, .call i (.ask q)⟩])).Links later →
      ∀ j p, ((w.after (asked ++ [⟨t, .call i (.ask q)⟩])).after later).pools[j]? = some p →
        Treats p h r (j = i) ∧
        (j = i →
          ((∀ e ∈ later, ∀ c, e.action = .call i c → ¬ c.Ends) →
            ¬ p.isClosed ∧ p.generation = h.generation) ∧
          (∀ t directories subscriber,
            ⟨t, .call i (.rebuild directories subscriber)⟩ ∈ later →
            p.isClosed ∨ p.generation ≠ h.generation) ∧
          (∀ t, ⟨t, .call i .close⟩ ∈ later → p.isClosed)) := by
  rw [World.links_append] at hlinks
  obtain ⟨hlinks₀, hlink, -⟩ := hlinks
  have hsound₀ := (hw.after hlinks₀).1
  rw [World.after_append_singleton]
  -- the handle is issued by the pool as it is behind the question
  obtain ⟨p₀, hp₀⟩ : ∃ p₀, (w.after asked).pools[i]? = some p₀ := by
    cases hp : (w.after asked).pools[i]? with
    | none =>
      simp only [World.step, hp, Except.ok.injEq] at hasked
      simp [← hasked] at hh
    | some p₀ => exact ⟨p₀, rfl⟩
  obtain ⟨p₁, hp₁, ⟨hother, -⟩ | ⟨c, hc, -, hspec⟩⟩ := World.step_pool hsound₀ hlink hp₀
  · exact absurd rfl (hother _)
  have hissued := hspec.issued hs hasked h hh
  obtain ⟨r, hr⟩ := hissued.access
  refine ⟨r, fun later hlater j p hp => ?_⟩
  have hsound₁ := World.step_sound hsound₀ hlink
  obtain ⟨hsound, hall⟩ := hsound₁.after hlater
  obtain ⟨p', hp', hlater'⟩ := hall i p₁ hp₁
  have hown (hji : j = i) : p = p' := by
    subst hji
    exact Option.some.inj (hp.symm.trans hp')
  refine ⟨hissued.treats hr (fun hji hsame => ?_) fun hji => ?_, fun hji => ⟨?_, ?_, ?_⟩⟩
  · rw [hown hji] at hsame ⊢
    exact hlater'.keeps (hsame.trans hissued.generation)
  · -- another pool has another number
    intro hid
    have hj := (List.getElem?_eq_some_iff.mp hp).1
    refine hji ((List.getElem?_inj (by simpa using hj) hsound.ids).mp ?_)
    simp [hp, hp', ← hid, hlater'.id, hissued.pool]
  · intro hnone
    obtain ⟨p'', hp'', hkeeps⟩ := World.keeps_after hsound₁ hlater hp₁ hnone
    rw [hown hji, Option.some.inj (hp'.symm.trans hp'')]
    exact ⟨hkeeps.isClosed ▸ hissued.opened, hkeeps.generation.trans hissued.generation.symm⟩
  · intro t directories subscriber hcall
    subst hji
    refine (World.ended_of_rebuild hsound₁ hlater hp₁ hcall hp).imp_right fun hlt => ?_
    rw [hissued.generation]
    exact hlt.ne'
  · intro t hcall
    subst hji
    exact World.closed_of_close hsound₁ hlater hp₁ hcall hp

end Pool

/-! ## Sample pools -/

namespace Sample

/-- A pool into which a sample file has been loaded, and one into which nothing has. -/
def pools : Pool.World :=
  ⟨[{ Pool.fresh 1 [] none with linker := Linker.ofFiles [shapes] }, .fresh 2 [] none], 3⟩

/-- The handle that the first pool gives out for its first message. -/
def shape : Handle := ⟨1, 0, .message, 0⟩

/-- The question that it is given out for. -/
def question : Pool.Event := ⟨.empty, .call 0 (.ask (.findMessage "geo.Shape"))⟩

/-- The first pool is rebuilt. -/
def rebuilding : Pool.Event := ⟨.empty, .call 0 (.rebuild none none)⟩

end Sample

namespace Pool

theorem sound_pools : Sample.pools.Sound := by
  refine ⟨fun p hp => ?_, by decide +kernel, by decide +kernel⟩
  simp only [Sample.pools, List.mem_cons, List.not_mem_nil, or_false] at hp
  rcases hp with rfl | rfl
  · exact ⟨fun _ => Linker.coherent_ofFiles (by decide +kernel), by simp [fresh]⟩
  · exact sound_of_empty rfl rfl

/-- Linking has not failed if there is an answer. -/
theorem ne_linking_of_isSome {o : Except PoolError (List Handle)} (h : o.toOption.isSome)
    (failure : LinkFailure) : o ≠ .error (.linking failure) := by
  rintro rfl
  simp [Except.toOption] at h

theorem handle_safe_sample :
    ∃ r, (∃ p, (Sample.pools.after [Sample.question]).pools[0]? = some p ∧
        (access .message Sample.shape).on .empty p = (.ok r, p)) ∧
      ∃ p, ((Sample.pools.after [Sample.question]).after [Sample.rebuilding]).pools[0]? = some p ∧
        (p.isClosed ∨ p.generation ≠ Sample.shape.generation) := by
  have hanswer : (Sample.pools.step Sample.question).2.toOption = some [Sample.shape] := by
    decide +kernel
  have hlinks : Sample.pools.Links [Sample.question] :=
    ⟨ne_linking_of_isSome (by rw [hanswer]; rfl), trivial⟩
  have hasked : (Sample.pools.step Sample.question).2 = .ok [Sample.shape] := by
    cases hstep : (Sample.pools.step Sample.question).2 with
    | error e => simp [hstep, Except.toOption] at hanswer
    | ok hs => simpa [hstep, Except.toOption] using hanswer
  obtain ⟨r, hr⟩ := @handle_safe Sample.pools [] .empty 0 (.findMessage "geo.Shape")
    [Sample.shape] Sample.shape sound_pools hlinks hasked (by simp)
  refine ⟨r, ?_, ?_⟩
  · have hsome : ((Sample.pools.after [Sample.question]).pools[0]?).isSome := by decide +kernel
    obtain ⟨p, hp⟩ := Option.isSome_iff_exists.mp hsome
    obtain ⟨htreats, hcases⟩ := hr [] trivial 0 p hp
    obtain ⟨hopen, hsame⟩ := (hcases rfl).1 (by simp)
    exact ⟨p, hp, (htreats.good hopen rfl hsame .empty).1⟩
  · have hlater : (Sample.pools.after [Sample.question]).Links [Sample.rebuilding] :=
      ⟨ne_linking_of_isSome (by decide +kernel), trivial⟩
    have hsome : (((Sample.pools.after [Sample.question]).after
        [Sample.rebuilding]).pools[0]?).isSome := by
      decide +kernel
    obtain ⟨p, hp⟩ := Option.isSome_iff_exists.mp hsome
    obtain ⟨-, hcases⟩ := hr [Sample.rebuilding] hlater 0 p hp
    exact ⟨p, hp, (hcases rfl).2.1 .empty none none (by simp [Sample.rebuilding])⟩

end Pool

namespace Sample

/-- A file whose import has a name that is too long for any file. -/
def overlong : SchemaFile :=
  { shapes with
    name := Text.ofString "overlong.proto"
    imports := [⟨⟨List.replicate 300 (.char 'n')⟩, none, ⟨1, 1⟩⟩] }

/-- A pool into which that file has been loaded. -/
def unfinished : Pool :=
  { Pool.fresh 2 [.ofText (Text.ofString "")] none with linker := Linker.ofFiles [overlong] }

end Sample

namespace Pool

/-- A pool that cannot be finalized does not say that a handle of another pool is stale. -/
theorem foreign_handle_unreachable :
    Sample.unfinished.Sound ∧ ¬ Sample.unfinished.isClosed ∧
      Sample.shape.pool ≠ Sample.unfinished.id ∧
      ∃ failure, ((access .message Sample.shape).on .empty Sample.unfinished).1 =
        .error (.unreachable failure) := by
  have hforeign : Sample.shape.pool ≠ Sample.unfinished.id := by decide +kernel
  have hsound : Sample.unfinished.Sound :=
    ⟨fun _ => Linker.coherent_ofFiles (by decide +kernel), by simp [Sample.unfinished, fresh]⟩
  have hrefused : ∃ failure, (tables.on .empty Sample.unfinished).1.map (fun _ => ()) =
      .error (.unreachable failure) :=
    ⟨.access .nameTooLong ⟨List.replicate 300 (.char 'n')⟩, by decide +kernel⟩
  obtain ⟨failure, hfailure⟩ := hrefused
  refine ⟨hsound, by decide +kernel, hforeign, failure, ?_⟩
  rw [access_of_stale (.inl hforeign)]
  cases htables : (tables.on .empty Sample.unfinished).1 with
  | error e => simpa [htables, Except.map, Except.bind] using hfailure
  | ok ts => simp [htables, Except.map] at hfailure

end Pool

end ProtoSchema
