import ProtoSchema.Proofs.Pool.Twins

/-!
# Rebuilt pools

Everything that can be asked of a pool is a `Request`, with its whole `Answer`. Twins answer alike
(`agree_serve`), and a pool that has just been rebuilt is the twin of a new one. So nothing that is
asked of it later shows what was loaded, reported or linked before it was rebuilt
(`reinitialize_like_create`).
-/

namespace ProtoSchema

namespace Pool

/-! ## Requests -/

/-- What a pool tells about itself. -/
structure State where
  pool : Nat
  generation : Nat
  directories : List Path
  isFinalized : Bool
  isClosed : Bool
  deriving DecidableEq

/-- What a pool tells about itself. -/
def state (p : Pool) : State := ⟨p.id, p.generation, p.directories, p.isFinalized, p.isClosed⟩

/-- What can come back from a pool. -/
inductive Answer
  | done
  | flag (b : Bool)
  | count (n : Nat)
  | handle (h : Option Handle)
  | handles (hs : List Handle)
  | record (r : Record)
  | default (d : Option DefaultValue)
  | substitute (s : Option Substitute)
  | literal (s : Option String)
  | text (t : Text)
  | tables (ts : Tables)
  | state (s : State)
  | reports (rs : List Report)

/-- What is asked of a pool. -/
inductive Request
  | question (q : Question)
  | handle (kind : RecordKind) (place : Int)
  | tables
  | state
  | reports
  | loadFile (path : Path)
  | loadDirectories
  | addDirectory (directory : Path)
  | finalize
  | rebuild (directories : Option (List Path)) (subscriber : Option String)
  | close

/-- The whole answer to a question. -/
def Question.answer : Question → Run Answer
  | findMessage name => .handle <$> Pool.findMessage name
  | findEnum name => .handle <$> Pool.findEnum name
  | findMethod name => .handle <$> Pool.findMethod name
  | messages => .handles <$> Pool.messages
  | record kind h => .record <$> access kind h
  | messageFieldCount h => .count <$> Pool.messageFieldCount h
  | messageField h index => .handle <$> Pool.messageField h index
  | messageFieldByNumber h number => .handle <$> Pool.messageFieldByNumber h number
  | messageFieldByName h name => .handle <$> Pool.messageFieldByName h name
  | fieldMessageType h => .handle <$> Pool.fieldMessageType h
  | fieldEnumType h => .handle <$> Pool.fieldEnumType h
  | fieldContainingType h => .handle <$> Pool.fieldContainingType h
  | explicitDefault c h => .default <$> Pool.explicitDefault c h
  | enumDefault h => .handle <$> Pool.enumDefault h
  | substitute h => .substitute <$> Pool.substitute h
  | enumValueCount h => .count <$> Pool.enumValueCount h
  | enumValueAt h index => .handle <$> Pool.enumValueAt h index
  | enumValueByNumber h number => .handle <$> Pool.enumValueByNumber h number
  | enumValueByName h name => .handle <$> Pool.enumValueByName h name
  | methodInput h => .handle <$> Pool.methodInput h
  | methodOutput h => .handle <$> Pool.methodOutput h
  | defaultLiteral h => .literal <$> Pool.defaultLiteral h
  | render h => .text <$> Pool.render h

/-- Serves a request. -/
def Request.serve : Request → Run Answer
  | question q => q.answer
  | handle kind place => (fun h => .handle (some h)) <$> Pool.handle kind place
  | tables => .tables <$> Pool.tables
  | state => return .state (← get).state
  | reports => return .reports (← get).reports
  | loadFile path => .flag <$> Pool.loadFile path
  | loadDirectories => .count <$> Pool.loadDirectories
  | addDirectory directory => do
    modify (Pool.addDirectory · directory)
    return .done
  | finalize => do
    Pool.finalize
    return .done
  | rebuild directories subscriber => do
    reinitialize directories subscriber
    return .done
  | close => do
    modify Pool.close
    return .done

/-- Serves some requests in turn, each beside the file tree of its time, whether or not those before
were refused. -/
def serveAll : List (FileTree × Request) → Pool → List (Except PoolError Answer) × Pool
  | [], p => ([], p)
  | (t, r) :: requests, p =>
    let (answer, p) := r.serve.on t p
    let (answers, p) := serveAll requests p
    (answer :: answers, p)

/-! ## Renaming requests and answers -/

/-- The question with other handles. -/
def Question.rename (f : Handle → Handle) : Question → Question
  | findMessage name => .findMessage name
  | findEnum name => .findEnum name
  | findMethod name => .findMethod name
  | messages => .messages
  | record kind h => .record kind (f h)
  | messageFieldCount h => .messageFieldCount (f h)
  | messageField h index => .messageField (f h) index
  | messageFieldByNumber h number => .messageFieldByNumber (f h) number
  | messageFieldByName h name => .messageFieldByName (f h) name
  | fieldMessageType h => .fieldMessageType (f h)
  | fieldEnumType h => .fieldEnumType (f h)
  | fieldContainingType h => .fieldContainingType (f h)
  | explicitDefault c h => .explicitDefault c (f h)
  | enumDefault h => .enumDefault (f h)
  | substitute h => .substitute (f h)
  | enumValueCount h => .enumValueCount (f h)
  | enumValueAt h index => .enumValueAt (f h) index
  | enumValueByNumber h number => .enumValueByNumber (f h) number
  | enumValueByName h name => .enumValueByName (f h) name
  | methodInput h => .methodInput (f h)
  | methodOutput h => .methodOutput (f h)
  | defaultLiteral h => .defaultLiteral (f h)
  | render h => .render (f h)

/-- The request with other handles. -/
def Request.rename (f : Handle → Handle) : Request → Request
  | question q => .question (q.rename f)
  | r => r

/-- The substitute with another handle. -/
def Substitute.rename (f : Handle → Handle) : Substitute → Substitute
  | .value d => .value d
  | .enumValue h => .enumValue (f h)

namespace Renaming

variable {pool twin ahead : Nat} (ρ : Renaming pool twin ahead)

/-- An answer, as the twin gives it. -/
def answer : Answer → Answer
  | .handle h => .handle (h.map ρ.handle)
  | .handles hs => .handles (hs.map ρ.handle)
  | .substitute s => .substitute (s.map (·.rename ρ.handle))
  | .state s => .state { s with pool := twin, generation := s.generation - ahead }
  | a => a

end Renaming

/-! ## Twins answer alike -/

section

variable {pool twin ahead : Nat} {past : List Report} {ρ : Renaming pool twin ahead}
variable {α β κ : Type} {p q : Pool}

theorem agree_record (x : Handle) (kind : RecordKind) (arena : Tables → Array κ) :
    Alike ρ (Prod.snd <$> locate x kind arena) (Prod.snd <$> locate (ρ.handle x) kind arena) :=
  (agree_locate x kind arena).map fun _ => rfl

/-- Twins find the same links in their records. -/
theorem agree_follow (x : Handle) (kind kind' : RecordKind) (arena : Tables → Array κ)
    (link : κ → Option Nat) :
    Agree ρ ρ.answer
      (Answer.handle <$> ((Prod.snd <$> locate x kind arena) >>= fun r => handle? kind' (link r)))
      (Answer.handle <$> ((Prod.snd <$> locate (ρ.handle x) kind arena) >>= fun r =>
        handle? kind' (link r))) :=
  ((agree_record x kind arena).bind fun _ => agree_handle? kind' _).map fun _ => rfl

theorem agree_find (kind : RecordKind) (index : Tables → Index String) (name : String) :
    Agree ρ ρ.answer
      (Answer.handle <$> (tables >>= fun ts => handle? kind ((index ts).find? name)))
      (Answer.handle <$> (tables >>= fun ts => handle? kind ((index ts).find? name))) :=
  (agree_tables.bind fun _ => agree_handle? kind _).map fun _ => rfl

/-- What is read off a record is the same for twins. -/
theorem agree_fact (x : Handle) (kind : RecordKind) (arena : Tables → Array κ) {fact : κ → α}
    {wrap : α → Answer} (hwrap : ∀ a, ρ.answer (wrap a) = wrap a) :
    Agree ρ ρ.answer
      (wrap <$> ((Prod.snd <$> locate x kind arena) >>= fun r => pure (fact r)))
      (wrap <$> ((Prod.snd <$> locate (ρ.handle x) kind arena) >>= fun r => pure (fact r))) :=
  ((agree_record x kind arena).bind fun _ => .pure (f := fun a => a) rfl).map fun a =>
    (hwrap a).symm

theorem agree_access (kind : RecordKind) (x : Handle) :
    Alike ρ (access kind x) (access kind (ρ.handle x)) := by
  cases kind <;> exact (agree_record x _ _).map fun _ => rfl

theorem agree_messages : Agree ρ (List.map ρ.handle) messages messages := by
  have heach (places : List Nat) : Agree ρ (List.map ρ.handle)
      (places.mapM fun place => handle .message (place : Nat))
      (places.mapM fun place => handle .message (place : Nat)) := by
    induction places with
    | nil => exact .pure rfl
    | cons place places ih =>
      rw [List.mapM_cons]
      exact (agree_handle .message place).bind fun h => ih.bind fun hs => .pure rfl
  exact agree_tables.bind fun ts => heach _

theorem agree_enumDefault (x : Handle) :
    Agree ρ (Option.map ρ.handle) (enumDefault x) (enumDefault (ρ.handle x)) := by
  refine (agree_record x .field Tables.fields).bind fun f => ?_
  split
  · split
    · exact agree_handle? .enumValue _
    · exact agree_tables.bind fun ts => agree_handle? .enumValue _
  · exact .pure rfl

theorem agree_substitute (x : Handle) :
    Agree ρ (Option.map (·.rename ρ.handle)) (substitute x) (substitute (ρ.handle x)) := by
  refine (agree_record x .field Tables.fields).bind fun f => ?_
  refine .ite ((agree_enumDefault x).bind fun h => .pure ?_) (.pure ?_)
  · cases h <;> rfl
  · cases f.default <|> zero? f.type <;> rfl

/-- Twins answer all questions alike. -/
theorem agree_answer (q : Question) :
    Agree ρ ρ.answer q.answer (q.rename ρ.handle).answer := by
  cases q with
  | findMessage name => exact agree_find .message Tables.messagesByName _
  | findEnum name => exact agree_find .enum Tables.enumsByName _
  | findMethod name => exact agree_find .method Tables.methodsByName _
  | messages => exact agree_messages.map fun _ => rfl
  | record kind h => exact (agree_access kind h).map fun _ => rfl
  | messageFieldCount h => exact agree_fact h .message Tables.messages fun _ => rfl
  | messageField h index => exact agree_follow h .message .field Tables.messages _
  | messageFieldByNumber h number => exact agree_follow h .message .field Tables.messages _
  | messageFieldByName h name => exact agree_follow h .message .field Tables.messages _
  | fieldMessageType h => exact agree_follow h .field .message Tables.fields _
  | fieldEnumType h => exact agree_follow h .field .enum Tables.fields _
  | fieldContainingType h => exact agree_follow h .field .message Tables.fields _
  | explicitDefault c h => exact agree_fact h .field Tables.fields fun _ => rfl
  | enumDefault h => exact (agree_enumDefault h).map fun _ => rfl
  | substitute h => exact (agree_substitute h).map fun _ => rfl
  | enumValueCount h => exact agree_fact h .enum Tables.enums fun _ => rfl
  | enumValueAt h index => exact agree_follow h .enum .enumValue Tables.enums _
  | enumValueByNumber h number => exact agree_follow h .enum .enumValue Tables.enums _
  | enumValueByName h name => exact agree_follow h .enum .enumValue Tables.enums _
  | methodInput h => exact agree_follow h .method .message Tables.methods _
  | methodOutput h => exact agree_follow h .method .message Tables.methods _
  | defaultLiteral h =>
    have hliteral : Alike ρ (defaultLiteral h) (defaultLiteral (ρ.handle h)) :=
      (agree_record h .field Tables.fields).bind fun f => agree_tables.bind fun ts => .pure rfl
    exact hliteral.map fun _ => rfl
  | render h =>
    have htext : Alike ρ (render h) (render (ρ.handle h)) :=
      (agree_record h .message Tables.messages).bind fun m => agree_tables.bind fun ts => .pure rfl
    exact htext.map fun _ => rfl

/-- Twins serve all requests alike. -/
theorem agree_serve (r : Request) : Agree ρ ρ.answer r.serve (r.rename ρ.handle).serve := by
  cases r with
  | question q => exact agree_answer q
  | handle kind place => exact (agree_handle kind place).map fun _ => rfl
  | tables => exact agree_tables.map fun _ => rfl
  | state =>
    intro past t p q h
    refine ⟨?_, h⟩
    have hgeneration : q.generation = p.generation - ahead := by
      rw [h.generation, Nat.add_sub_cancel]
    simp [Request.serve, Request.rename, Except.map, Pool.state, Renaming.answer, isFinalized,
      h.twin, h.directories, h.isClosed, h.linked, hgeneration]
  | reports =>
    intro past t p q h
    exact ⟨by simp [Request.serve, Request.rename, Except.map, Renaming.answer, h.reports], h⟩
  | loadFile path => exact (agree_loadFile path).map fun _ => rfl
  | loadDirectories => exact agree_loadDirectories.map fun _ => rfl
  | addDirectory directory =>
    exact (agree_modify fun _ _ _ h => h.addDirectory directory).bind fun _ => .pure rfl
  | finalize => exact (agree_discard agree_tables).bind fun _ => .pure rfl
  | rebuild directories subscriber =>
    exact (agree_rebuild directories subscriber).bind fun _ => .pure rfl
  | close => exact (agree_modify fun _ _ _ h => h.close).bind fun _ => .pure rfl

/-- Twins stay twins, however many requests they serve. -/
theorem Twins.serveAll (h : Twins pool twin ahead past p q) (ρ : Renaming pool twin ahead)
    (requests : List (FileTree × Request)) :
    (Pool.serveAll (requests.map fun r => (r.1, r.2.rename ρ.handle)) q).1 =
        (Pool.serveAll requests p).1.map (ρ.outcome ρ.answer) ∧
      Twins pool twin ahead past (Pool.serveAll requests p).2
        (Pool.serveAll (requests.map fun r => (r.1, r.2.rename ρ.handle)) q).2 := by
  induction requests generalizing p q with
  | nil => exact ⟨rfl, h⟩
  | cons r requests ih =>
    obtain ⟨t, r⟩ := r
    obtain ⟨hsame, hafter⟩ := agree_serve r past t p q h
    obtain ⟨hrest, htwins⟩ := ih hafter
    refine ⟨?_, htwins⟩
    simp only [Pool.serveAll, List.map_cons, hsame, hrest]

end

/-! ## Rebuilding -/

/-- With its directories given, a pool that is rebuilt is the twin of a new one. -/
theorem twins_rebuilt {p : Pool} (hopen : ¬ p.isClosed) (t : FileTree)
    (directories : Option (List Path)) (subscriber subscriber' : Option String) (twin : Nat)
    (ρ : Renaming p.id twin (p.generation + 1)) :
    let rebuilt := ( reinitialize directories subscriber).on t p
    let created := create t twin (directories.getD p.directories) subscriber'
    created.1 = ρ.outcome (fun u => u) rebuilt.1 ∧
      Twins p.id twin (p.generation + 1) (p.notices.map (·.report)) rebuilt.2 created.2 := by
  simp only [on_rebuild, if_neg hopen, create]
  refine agree_discard agree_loadDirectories _ t _ _ ?_
  refine ⟨rfl, rfl, (Nat.zero_add _).symm, rfl, ?_, rfl, rfl, rfl, rfl, rfl, ?_⟩
  · simpa [fresh, cleared] using hopen
  · simp [fresh, cleared]

/-- Rebuilding an open pool leaves no trace of what was done with it before. Rebuilding is refused
just if a new pool of the same directories is, and afterwards all requests are answered as they are
by the new pool, but for the names of the pools and their generations. The subscribers are given the
same reports, too. -/
theorem reinitialize_like_create {p : Pool} (hopen : ¬ p.isClosed) (t : FileTree)
    (directories : Option (List Path)) (subscriber subscriber' : Option String) (twin : Nat)
    (ρ : Renaming p.id twin (p.generation + 1)) (requests : List (FileTree × Request)) :
    let rebuilt := ( reinitialize directories subscriber).on t p
    let created := create t twin (directories.getD p.directories) subscriber'
    let served := serveAll requests rebuilt.2
    let served' := serveAll (requests.map fun r => (r.1, r.2.rename ρ.handle)) created.2
    created.1 = ρ.outcome (fun u => u) rebuilt.1 ∧
      served'.1 = served.1.map (ρ.outcome ρ.answer) ∧
      served.2.reports = served'.2.reports ∧
      served.2.notices.map (·.report) =
        p.notices.map (·.report) ++ served'.2.notices.map (·.report) := by
  obtain ⟨hrefused, htwins⟩ :=
    twins_rebuilt hopen t directories subscriber subscriber' twin ρ
  obtain ⟨hanswers, htwins'⟩ := htwins.serveAll ρ requests
  exact ⟨hrefused, hanswers, htwins'.reports, htwins'.notices⟩

end Pool

/-! ## A sample pool -/

namespace Sample

/-- A pool of the second generation that has been linked, after one of its files could not be
loaded. -/
def used : Pool :=
  { Pool.fresh 1 [.ofText (Text.ofString "schemas")] none with
    generation := 1
    linker := Linker.ofFiles [shapes]
    linked := some .empty
    roots := [(shapes.name, .ofText (Text.ofString "schemas"))]
    failed := [drawing.name]
    reports := [⟨.load .noDirectory, Text.ofString "schemas", none⟩] }

/-- Some requests, the last one with a handle that was given out for the pool as it was. -/
def requests : List (FileTree × Pool.Request) :=
  [(.empty, .loadFile (.ofText drawing.name)), (.empty, .question .messages), (.empty, .state),
    (.empty, .question (.record .message ⟨1, 1, .message, 0⟩))]

end Sample

namespace Pool

theorem reinitialize_like_create_sample :
    ¬ Sample.used.isClosed ∧
      (serveAll (Sample.requests.map fun r =>
          (r.1, r.2.rename (Renaming.shift 1 2 2).handle))
        (create .empty 2 Sample.used.directories none).2).1 =
      (serveAll Sample.requests (( reinitialize none none).on .empty Sample.used).2).1.map
        ((Renaming.shift 1 2 2).outcome (Renaming.shift 1 2 2).answer) := by
  have hopen : ¬ Sample.used.isClosed := by decide
  exact ⟨hopen, (reinitialize_like_create hopen .empty none none none 2 (Renaming.shift 1 2 2)
    Sample.requests).2.1⟩

end Pool

end ProtoSchema
