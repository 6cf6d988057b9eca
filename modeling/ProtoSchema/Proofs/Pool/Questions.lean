import ProtoSchema.Pool.Query
import ProtoSchema.Proofs.Pool.Lifecycle

/-!
# What questions hand out

A question first finalizes the pool (`Finalizes`), and then only reads its tables (`Reads`). All
handles that it hands out are for records that are there (`Issued`), and the accessor of a handle's
kind finds that record as long as the pool keeps its tables (`Issued.access`).
-/

namespace ProtoSchema

/-- How many records of a kind there are. -/
def Tables.size (ts : Tables) : RecordKind → Nat
  | .message => ts.messages.size
  | .field => ts.fields.size
  | .enum => ts.enums.size
  | .enumValue => ts.enumValues.size
  | .method => ts.methods.size

/-- A record of any kind. -/
inductive Record
  | message (r : MessageRecord)
  | field (r : FieldRecord)
  | enum (r : EnumRecord)
  | enumValue (r : EnumValueRecord)
  | method (r : MethodRecord)

theorem Index.find?_lt {κ : Type} [DecidableEq κ] {index : Index κ} {n : Nat}
    (h : ∀ e ∈ index.entries, e.2 < n) {key : κ} {i : Nat} (hi : i ∈ index.find? key) : i < n := by
  obtain ⟨e, he, rfl⟩ := Option.map_eq_some_iff.mp hi
  exact h e (List.mem_of_find?_eq_some he)

namespace Pool

variable {α β ρ : Type} {t : FileTree} {p p' : Pool} {ts : Tables}

/-- The accessor of a kind. -/
def access (kind : RecordKind) (h : Handle) : Run Record :=
  match kind with
  | .message => .message <$> message h
  | .field => .field <$> field h
  | .enum => .enum <$> enum h
  | .enumValue => .enumValue <$> enumValue h
  | .method => .method <$> method h

/-! ## Questions -/

/-- The questions that a pool answers. -/
inductive Question
  | findMessage (name : String)
  | findEnum (name : String)
  | findMethod (name : String)
  | messages
  | record (kind : RecordKind) (h : Handle)
  | messageFieldCount (h : Handle)
  | messageField (h : Handle) (index : Int)
  | messageFieldByNumber (h : Handle) (number : Int)
  | messageFieldByName (h : Handle) (name : String)
  | fieldMessageType (h : Handle)
  | fieldEnumType (h : Handle)
  | fieldContainingType (h : Handle)
  | explicitDefault (c : DefaultClass) (h : Handle)
  | enumDefault (h : Handle)
  | substitute (h : Handle)
  | enumValueCount (h : Handle)
  | enumValueAt (h : Handle) (index : Int)
  | enumValueByNumber (h : Handle) (number : Int)
  | enumValueByName (h : Handle) (name : String)
  | methodInput (h : Handle)
  | methodOutput (h : Handle)
  | defaultLiteral (h : Handle)
  | render (h : Handle)

/-- The handle that stands in for an absent field, if it is one. -/
def Substitute.handle? : Substitute → Option Handle
  | .value _ => none
  | .enumValue h => some h

/-- The handles that the answer to a question hands out. -/
def Question.handles : Question → Run (List Handle)
  | findMessage name => Option.toList <$> Pool.findMessage name
  | findEnum name => Option.toList <$> Pool.findEnum name
  | findMethod name => Option.toList <$> Pool.findMethod name
  | messages => Pool.messages
  | record kind h => (fun _ => []) <$> access kind h
  | messageFieldCount h => (fun _ => []) <$> Pool.messageFieldCount h
  | messageField h index => Option.toList <$> Pool.messageField h index
  | messageFieldByNumber h number => Option.toList <$> Pool.messageFieldByNumber h number
  | messageFieldByName h name => Option.toList <$> Pool.messageFieldByName h name
  | fieldMessageType h => Option.toList <$> Pool.fieldMessageType h
  | fieldEnumType h => Option.toList <$> Pool.fieldEnumType h
  | fieldContainingType h => Option.toList <$> Pool.fieldContainingType h
  | explicitDefault c h => (fun _ => []) <$> Pool.explicitDefault c h
  | enumDefault h => Option.toList <$> Pool.enumDefault h
  | substitute h => (fun o => (o.bind Substitute.handle?).toList) <$> Pool.substitute h
  | enumValueCount h => (fun _ => []) <$> Pool.enumValueCount h
  | enumValueAt h index => Option.toList <$> Pool.enumValueAt h index
  | enumValueByNumber h number => Option.toList <$> Pool.enumValueByNumber h number
  | enumValueByName h name => Option.toList <$> Pool.enumValueByName h name
  | methodInput h => Option.toList <$> Pool.methodInput h
  | methodOutput h => Option.toList <$> Pool.methodOutput h
  | defaultLiteral h => (fun _ => []) <$> Pool.defaultLiteral h
  | render h => (fun _ => []) <$> Pool.render h

/-! ## Finalizing first -/

theorem Run.ext {m m' : Run α} (h : ∀ t p, m.on t p = m'.on t p) : m = m' := by
  funext t
  exact funext (h t)

/-- Asking for the tables twice is asking for them once. -/
theorem tables_bind_tables (f : Tables → Run α) :
    (tables >>= fun _ => tables >>= f) = tables >>= f := by
  refine Run.ext fun t p => ?_
  simp only [on_bind]
  rcases htables : tables.on t p with ⟨e | ts, p'⟩
  · rfl
  · obtain ⟨hopen, hlinked⟩ := linked_of_on_tables htables
    simp [on_tables_of_linked hopen hlinked]

/-- Before anything else the pool is asked for its tables. -/
def Finalizes (m : Run α) : Prop := (tables >>= fun _ => m) = m

theorem finalizes_tables_bind (f : Tables → Run α) : Finalizes (tables >>= f) :=
  tables_bind_tables f

theorem Finalizes.bind {m : Run α} (h : Finalizes m) (f : α → Run β) : Finalizes (m >>= f) := by
  unfold Finalizes at h ⊢
  rw [← bind_assoc, h]

theorem Finalizes.map {m : Run α} (h : Finalizes m) (f : α → β) : Finalizes (f <$> m) := by
  rw [map_eq_pure_bind]
  exact h.bind _

theorem finalizes_locate (h : Handle) (kind : RecordKind) (arena : Tables → Array ρ) :
    Finalizes (locate h kind arena) :=
  finalizes_tables_bind _

theorem finalizes_access (kind : RecordKind) (h : Handle) : Finalizes (access kind h) := by
  cases kind <;> exact ((finalizes_locate ..).map _).map _

theorem Question.finalizes (q : Question) : Finalizes q.handles := by
  cases q with
  | record kind h => exact (finalizes_access kind h).map _
  | findMessage | findEnum | findMethod => exact (finalizes_tables_bind _).map _
  | messages => exact finalizes_tables_bind _
  | _ => exact (((finalizes_locate ..).map _).bind _).map _

/-! ## Reading a linked pool -/

/-- A handle as a pool gives it out for a record that it has. -/
structure Issued (p : Pool) (h : Handle) : Prop where
  opened : ¬ p.isClosed
  pool : h.pool = p.id
  generation : h.generation = p.generation
  place : ∃ ts n, p.linked = some ts ∧ n < ts.size h.kind ∧ h.place = (n : Nat)

/-- Asked of an open pool that is linked to tables, a run changes nothing and answers what is
`good`. -/
def Reads (p : Pool) (m : Run α) (good : α → Prop) : Prop :=
  ∀ t, (m.on t p).2 = p ∧ ∀ a, (m.on t p).1 = .ok a → good a

section

variable {good good' : α → Prop} {m : Run α}

theorem reads_pure {a : α} (h : good a) : Reads p (pure a : Run α) good :=
  fun _ => ⟨rfl, fun a' ha' => by cases ha'; exact h⟩

theorem Reads.bind {f : α → Run β} {good' : β → Prop} (hm : Reads p m good)
    (hf : ∀ a, good a → Reads p (f a) good') : Reads p (m >>= f) good' := by
  intro t
  obtain ⟨hsame, hgood⟩ := hm t
  rw [on_bind]
  rcases heq : m.on t p with ⟨e | a, p'⟩ <;> rw [heq] at hsame hgood <;> cases hsame
  · exact ⟨rfl, fun a ha => by cases ha⟩
  · exact hf a (hgood a rfl) t

theorem Reads.map {f : α → β} {good' : β → Prop} (hm : Reads p m good)
    (hf : ∀ a, good a → good' (f a)) : Reads p (f <$> m) good' := by
  rw [map_eq_pure_bind]
  exact hm.bind fun a ha => reads_pure (hf a ha)

end

/-- The record at the place of a handle, if there is one. -/
def recordAt? (records : Array ρ) (place : Int) : Option (Nat × ρ) :=
  (place? records.size place).bind fun i => (records[i]?).map fun r => (i, r)

theorem recordAt?_of_lt {records : Array ρ} {n : Nat} (hn : n < records.size) :
    recordAt? records n = some (n, records[n]) := by
  have hplace : place? records.size n = some n := by
    have hnonneg : ¬ (n : Int) < 0 := by omega
    simp [place?, hnonneg, hn]
  simp [recordAt?, hplace, hn]

/-- What is found for a handle, or else why nothing is. -/
def located (p : Pool) (h : Handle) (kind : RecordKind) (records : Array ρ) :
    Except PoolError (Nat × ρ) :=
  if h.pool ≠ p.id ∨ h.generation ≠ p.generation then .error (.stale h p.id p.generation)
  else if h.kind ≠ kind then .error (.wrongKind kind h.kind)
  else
    match recordAt? records h.place with
    | some found => .ok found
    | none => .error (if isCountable h.place then .noRecord else .hugePlace)

theorem mem_of_located {h : Handle} {kind : RecordKind} {records : Array ρ} {found : Nat × ρ}
    (hfound : located p h kind records = .ok found) : found.2 ∈ records := by
  unfold located at hfound
  by_cases hstale : h.pool ≠ p.id ∨ h.generation ≠ p.generation
  · simp [hstale] at hfound
  by_cases hkind : h.kind ≠ kind
  · simp [hstale, hkind] at hfound
  rw [if_neg hstale, if_neg hkind] at hfound
  cases hrecord : recordAt? records h.place with
  | none => simp [hrecord] at hfound
  | some found' =>
    simp only [hrecord, Except.ok.injEq] at hfound
    subst hfound
    obtain ⟨i, -, hi⟩ := Option.bind_eq_some_iff.mp hrecord
    obtain ⟨r, hr, rfl⟩ := Option.map_eq_some_iff.mp hi
    exact Array.mem_of_getElem? hr

section

variable (hopen : ¬ p.isClosed) (hlinked : p.linked = some ts)

include hopen hlinked

theorem on_locate (h : Handle) (kind : RecordKind) (arena : Tables → Array ρ) :
    (locate h kind arena).on t p = (located p h kind (arena ts), p) := by
  unfold locate located recordAt?
  simp only [on_bind, on_tables_of_linked hopen hlinked, on_get, on_ite, on_throw]
  split_ifs
  · rfl
  · rfl
  all_goals
    cases (place? (arena ts).size h.place).bind fun i => ((arena ts)[i]?).map fun r => (i, r) <;>
      rfl

theorem reads_tables : Reads p tables (· = ts) := by
  intro t
  rw [on_tables_of_linked hopen hlinked]
  exact ⟨rfl, fun a ha => by cases ha; rfl⟩

theorem reads_locate (h : Handle) (kind : RecordKind) (arena : Tables → Array ρ) :
    Reads p (Prod.snd <$> locate h kind arena) (· ∈ arena ts) := by
  have hfound : Reads p (locate h kind arena) (·.2 ∈ arena ts) := by
    intro t
    rw [on_locate hopen hlinked]
    exact ⟨rfl, fun found hfound => mem_of_located hfound⟩
  exact hfound.map fun _ hr => hr

/-- The handle for a place of the tables is issued. -/
theorem reads_handle? (kind : RecordKind) {o : Option Nat} (ho : ∀ i ∈ o, i < ts.size kind) :
    Reads p (handle? kind o) (fun o => ∀ h ∈ o, Issued p h) := by
  cases o with
  | none => exact reads_pure (by simp)
  | some i =>
    refine fun t => ⟨rfl, fun a ha => ?_⟩
    cases ha
    intro h hh
    cases hh
    exact ⟨hopen, rfl, rfl, ts, i, hlinked, ho i rfl, rfl⟩

end

/-! ## All questions -/

theorem reads_mapM {good : β → Prop} {f : α → Run β} {xs : List α}
    (hf : ∀ a ∈ xs, Reads p (f a) good) : Reads p (xs.mapM f) (fun bs => ∀ b ∈ bs, good b) := by
  induction xs with
  | nil => exact reads_pure (by simp)
  | cons a xs ih =>
    rw [List.mapM_cons]
    refine (hf a (by simp)).bind fun b hb =>
      (ih fun a' ha' => hf a' (by simp [ha'])).bind fun bs hbs => reads_pure ?_
    simpa [hb] using hbs

theorem mem_of_atIndex {places : List Nat} {index : Int} {i : Nat} (hi : i ∈ atIndex places index) :
    i ∈ places := by
  unfold atIndex at hi
  split at hi
  · cases hi
  · exact List.mem_of_getElem? hi

/-- A question about a record need hand out nothing. -/
theorem reads_nothing {m : Run α} (hm : Reads p m fun _ => True) :
    Reads p ((fun _ => []) <$> m : Run (List Handle)) (fun hs => ∀ h ∈ hs, Issued p h) :=
  hm.map fun _ _ => by simp

section

variable (hopen : ¬ p.isClosed) (hlinked : p.linked = some ts)

include hopen hlinked

/-- A link of a record leads to handles that are issued. -/
theorem reads_follow (h : Handle) (kind kind' : RecordKind) {arena : Tables → Array ρ}
    {link : ρ → Option Nat} (hlink : ∀ r ∈ arena ts, ∀ i ∈ link r, i < ts.size kind') :
    Reads p (Option.toList <$> ((Prod.snd <$> locate h kind arena) >>= fun r =>
      handle? kind' (link r))) (fun hs => ∀ h ∈ hs, Issued p h) := by
  refine .map (.bind (reads_locate hopen hlinked h kind arena) fun r hr =>
    reads_handle? hopen hlinked kind' (hlink r hr)) fun o ho => ?_
  simpa using ho

theorem reads_enumDefault (hin : ts.InBounds) (h : Handle) :
    Reads p (Pool.enumDefault h) (fun o => ∀ h ∈ o, Issued p h) := by
  refine .bind (reads_locate hopen hlinked h .field Tables.fields) fun f hf => ?_
  have hfield := hin.fields f hf
  split
  · next place _ henum =>
    split
    · next value hdefault =>
      refine reads_handle? hopen hlinked .enumValue fun i hi => ?_
      cases hi
      exact hfield.default value hdefault
    · refine .bind (reads_tables hopen hlinked) fun ts' hts => ?_
      subst hts
      refine reads_handle? hopen hlinked .enumValue fun i hi => ?_
      obtain ⟨e, he, hi⟩ := Option.bind_eq_some_iff.mp hi
      exact (hin.enums e (Array.mem_of_getElem? he)).values i (List.mem_of_mem_head? hi)
  · exact reads_pure (by simp)

theorem reads_substitute (hin : ts.InBounds) (h : Handle) :
    Reads p (Pool.substitute h) (fun o => ∀ h ∈ o.bind Substitute.handle?, Issued p h) := by
  refine .bind (reads_locate hopen hlinked h .field Tables.fields) fun f hf => ?_
  split
  · refine .bind (reads_enumDefault hopen hlinked hin h) fun o ho => reads_pure ?_
    cases o with
    | none => simp
    | some h' => simpa [Substitute.handle?] using ho
  · refine reads_pure ?_
    cases f.default <|> zero? f.type <;> simp [Substitute.handle?]

theorem reads_messages :
    Reads p Pool.messages (fun hs => ∀ h ∈ hs, Issued p h) := by
  refine .bind (reads_tables hopen hlinked) fun ts' hts => ?_
  subst hts
  refine reads_mapM fun i hi => fun t => ⟨rfl, fun h hh => ?_⟩
  cases hh
  exact ⟨hopen, rfl, rfl, _, i, hlinked, List.mem_range.mp hi, rfl⟩

theorem reads_find (kind : RecordKind) (index : Tables → Index String)
    (hindex : ∀ e ∈ (index ts).entries, e.2 < ts.size kind) (name : String) :
    Reads p (Option.toList <$> (tables >>= fun ts => handle? kind ((index ts).find? name)))
      (fun hs => ∀ h ∈ hs, Issued p h) := by
  have hfound : Reads p (tables >>= fun ts => handle? kind ((index ts).find? name))
      (fun o => ∀ h ∈ o, Issued p h) := by
    refine .bind (reads_tables hopen hlinked) fun ts' hts => ?_
    subst hts
    exact reads_handle? hopen hlinked kind fun i hi => Index.find?_lt hindex hi
  exact hfound.map fun o ho => by simpa using ho

theorem reads_access (kind : RecordKind) (h : Handle) :
    Reads p (access kind h) fun _ => True := by
  cases kind with
  | message => exact .map (reads_locate hopen hlinked h .message Tables.messages) fun _ _ => trivial
  | field => exact .map (reads_locate hopen hlinked h .field Tables.fields) fun _ _ => trivial
  | enum => exact .map (reads_locate hopen hlinked h .enum Tables.enums) fun _ _ => trivial
  | enumValue =>
    exact .map (reads_locate hopen hlinked h .enumValue Tables.enumValues) fun _ _ => trivial
  | method => exact .map (reads_locate hopen hlinked h .method Tables.methods) fun _ _ => trivial

/-- All handles that a question hands out are issued. -/
theorem Question.reads (hin : ts.InBounds) (q : Question) :
    Reads p q.handles (fun hs => ∀ h ∈ hs, Issued p h) := by
  have hmessage (h : Handle) := reads_locate hopen hlinked h .message Tables.messages
  have hfield (h : Handle) := reads_locate hopen hlinked h .field Tables.fields
  have henum (h : Handle) := reads_locate hopen hlinked h .enum Tables.enums
  cases q with
  | findMessage name =>
    exact reads_find hopen hlinked .message Tables.messagesByName hin.messagesByName _
  | findEnum name => exact reads_find hopen hlinked .enum Tables.enumsByName hin.enumsByName _
  | findMethod name =>
    exact reads_find hopen hlinked .method Tables.methodsByName hin.methodsByName _
  | messages => exact reads_messages hopen hlinked
  | record kind h => exact reads_nothing (reads_access hopen hlinked kind h)
  | messageFieldCount h =>
    exact reads_nothing ((hmessage h).bind fun _ _ => reads_pure trivial)
  | messageField h index =>
    exact reads_follow hopen hlinked h .message .field fun m hm i hi =>
      (hin.messages m hm).fields i (mem_of_atIndex hi)
  | messageFieldByNumber h number =>
    exact reads_follow hopen hlinked h .message .field fun m hm i hi =>
      Index.find?_lt (hin.messages m hm).fieldsByNumber hi
  | messageFieldByName h name =>
    exact reads_follow hopen hlinked h .message .field fun m hm i hi =>
      Index.find?_lt (hin.messages m hm).fieldsByName hi
  | fieldMessageType h =>
    exact reads_follow hopen hlinked h .field .message fun f hf => (hin.fields f hf).messageType
  | fieldEnumType h =>
    exact reads_follow hopen hlinked h .field .enum fun f hf => (hin.fields f hf).enumType
  | fieldContainingType h =>
    exact reads_follow hopen hlinked h .field .message fun f hf => (hin.fields f hf).containingType
  | explicitDefault c h => exact reads_nothing ((hfield h).bind fun _ _ => reads_pure trivial)
  | enumDefault h => exact (reads_enumDefault hopen hlinked hin h).map (by simp)
  | substitute h =>
    exact (reads_substitute hopen hlinked hin h).map fun o ho h hh => ho h (by simpa using hh)
  | enumValueCount h => exact reads_nothing ((henum h).bind fun _ _ => reads_pure trivial)
  | enumValueAt h index =>
    exact reads_follow hopen hlinked h .enum .enumValue fun e he i hi =>
      (hin.enums e he).values i (mem_of_atIndex hi)
  | enumValueByNumber h number =>
    exact reads_follow hopen hlinked h .enum .enumValue fun e he i hi =>
      Index.find?_lt (hin.enums e he).valuesByNumber hi
  | enumValueByName h name =>
    exact reads_follow hopen hlinked h .enum .enumValue fun e he i hi =>
      Index.find?_lt (hin.enums e he).valuesByName hi
  | methodInput h =>
    exact reads_follow hopen hlinked h .method .message fun m hm => (hin.methods m hm).1
  | methodOutput h =>
    exact reads_follow hopen hlinked h .method .message fun m hm => (hin.methods m hm).2
  | defaultLiteral h =>
    exact reads_nothing ((hfield h).bind fun _ _ =>
      (reads_tables hopen hlinked).bind fun _ _ => reads_pure trivial)
  | render h =>
    exact reads_nothing ((hmessage h).bind fun _ _ =>
      (reads_tables hopen hlinked).bind fun _ _ => reads_pure trivial)

end

/-- A question to a sound pool leaves it sound, unless linking fails, and hands out issued
handles. -/
theorem Question.on_spec (hp : p.Sound) (q : Question)
    (hlinks : ∀ e, (q.handles.on t p).1 ≠ .error (.linking e)) :
    Keeps p (q.handles.on t p).2 ∧ (q.handles.on t p).2.Sound ∧
      ∀ hs, (q.handles.on t p).1 = .ok hs → ∀ h ∈ hs, Issued (q.handles.on t p).2 h := by
  have hfirst : q.handles.on t p = (tables >>= fun _ => q.handles).on t p := by
    rw [q.finalizes]
  have hkeeps := keeps_tables t p
  have hsound := hp.on_tables (t := t)
  rw [on_bind] at hfirst
  rcases htables : tables.on t p with ⟨e | ts, p'⟩ <;>
    simp only [htables] at hfirst hkeeps hsound <;> rw [hfirst] at hlinks ⊢
  · refine ⟨hkeeps, hsound fun e' he => ?_, fun hs hhs => by cases hhs⟩
    cases he
    exact hlinks e' rfl
  · obtain ⟨hopen, hlinked⟩ := linked_of_on_tables htables
    have hp' := hsound fun e he => by cases he
    obtain ⟨hsame, hissued⟩ := q.reads hopen hlinked (hp'.inBounds ts hlinked) t
    simp only [hsame]
    exact ⟨hkeeps, hp', hissued⟩

/-! ## Accessors -/

/-- The accessors of all kinds are alike. -/
theorem access_eq (kind : RecordKind) (h : Handle) :
    ∃ (ρ : Type) (wrap : ρ → Record) (arena : Tables → Array ρ),
      access kind h = wrap <$> Prod.snd <$> locate h kind arena ∧
      ∀ ts, (arena ts).size = ts.size kind := by
  cases kind <;> exact ⟨_, _, _, rfl, fun _ => rfl⟩

/-- An accessor of its own kind finds the record of an issued handle, and always the same one. -/
theorem Issued.access {h : Handle} (hissued : Issued p h) :
    ∃ r, ∀ p', Keeps p p' → ∀ t, (access h.kind h).on t p' = (.ok r, p') := by
  obtain ⟨hopen, hpool, hgeneration, ts, n, hlinked, hn, hplace⟩ := hissued
  obtain ⟨ρ, wrap, arena, haccess, hsize⟩ := access_eq h.kind h
  have hn' : n < (arena ts).size := by rwa [hsize]
  refine ⟨wrap (arena ts)[n], fun p' hkeeps t => ?_⟩
  have hopen' : ¬ p'.isClosed := hkeeps.isClosed ▸ hopen
  have hfresh : ¬ (h.pool ≠ p'.id ∨ h.generation ≠ p'.generation) := by
    simp [hkeeps.id, hkeeps.generation, hpool, hgeneration]
  rw [haccess, on_map, on_map, on_locate hopen' (hkeeps.linked ts hlinked)]
  simp [located, hfresh, hplace, recordAt?_of_lt hn', Except.map]

/-- An accessor of another kind refuses an issued handle. -/
theorem Issued.access_of_ne {h : Handle} (hissued : Issued p h) {kind : RecordKind}
    (hkind : kind ≠ h.kind) (hkeeps : Keeps p p') :
    (Pool.access kind h).on t p' = (.error (.wrongKind kind h.kind), p') := by
  obtain ⟨hopen, hpool, hgeneration, ts, n, hlinked, -, -⟩ := hissued
  obtain ⟨ρ, wrap, arena, haccess, -⟩ := access_eq kind h
  have hopen' : ¬ p'.isClosed := hkeeps.isClosed ▸ hopen
  have hfresh : ¬ (h.pool ≠ p'.id ∨ h.generation ≠ p'.generation) := by
    simp [hkeeps.id, hkeeps.generation, hpool, hgeneration]
  rw [haccess, on_map, on_map, on_locate hopen' (hkeeps.linked ts hlinked)]
  simp [located, hfresh, hkind.symm, Except.map]

/-- A handle of another pool or another generation is refused as stale, or the pool is not finalized
to begin with. -/
theorem access_of_stale {h : Handle} (hstale : h.pool ≠ p.id ∨ h.generation ≠ p.generation)
    (kind : RecordKind) :
    ((access kind h).on t p).1 =
      (tables.on t p).1.bind fun _ => .error (.stale h p.id p.generation) := by
  have hfirst : (access kind h).on t p = (tables >>= fun _ => access kind h).on t p := by
    rw [finalizes_access]
  obtain ⟨ρ, wrap, arena, haccess, -⟩ := access_eq kind h
  have hkeeps := keeps_tables t p
  rw [on_bind] at hfirst
  rcases htables : tables.on t p with ⟨e | ts, p'⟩ <;> rw [htables] at hfirst hkeeps
  · rw [hfirst]
    rfl
  · obtain ⟨hopen, hlinked⟩ := linked_of_on_tables htables
    rw [← hkeeps.id, ← hkeeps.generation] at hstale ⊢
    simp only [haccess] at hfirst ⊢
    rw [hfirst, on_map, on_map, on_locate hopen hlinked]
    simp [located, hstale, Except.map, Except.bind]

end Pool

end ProtoSchema
