import Mathlib.Data.List.Induction
import Mathlib.Data.List.Nodup
import ProtoSchema.Schema.Basic

/-!
# Entries of an aggregate

An aggregate keeps one value for each key. Of several entries of a key it keeps a list: the values in
the brackets of the first entry, or its only value, and then what each later entry stands for
(`Entry.lookup_kept`). So what is kept of several values is the list of these values just if no entry
behind the first is in brackets (`Entry.gather_eq_received_iff`); the brackets of a later entry stay
a list inside of the list (`Entry.nested_iff`).
-/

namespace ProtoSchema

namespace Value

/-! ## Adding entries -/

/-- Whether a value is a list. -/
def isList : Value → Bool
  | list _ => true
  | _ => false

/-- What is kept of a value behind what has been kept for its key. -/
def collect : Option Value → Value → Value
  | none, v => v
  | some (list items), v => list (items ++ [v])
  | some w, v => list [w, v]

theorem insertEntry_cons (k key : String) (w v : Value) (rest : List (String × Value)) :
    insertEntry ((k, w) :: rest) key v =
      if k = key then (k, collect (some w) v) :: rest else (k, w) :: insertEntry rest key v := by
  cases w <;> simp [insertEntry, collect]

theorem lookup_cons (k k' : String) (v : Value) (rest : List (String × Value)) :
    List.lookup k ((k', v) :: rest) = if k = k' then some v else rest.lookup k := by
  by_cases h : k = k'
  · simp [h]
  · rw [List.lookup_cons, beq_false_of_ne h, if_neg h]

theorem lookup_insertEntry (entries : List (String × Value)) (key k : String) (v : Value) :
    (insertEntry entries key v).lookup k =
      if k = key then some (collect (entries.lookup key) v) else entries.lookup k := by
  induction entries with
  | nil =>
    rw [insertEntry, lookup_cons]
    rfl
  | cons e rest ih =>
    obtain ⟨k', w⟩ := e
    rw [insertEntry_cons, lookup_cons key, lookup_cons k k' w]
    by_cases hkey : k' = key
    · subst hkey
      rw [if_pos rfl, if_pos rfl, lookup_cons]
      by_cases hk : k = k' <;> simp [hk]
    · rw [if_neg hkey, if_neg (Ne.symm hkey), lookup_cons, ih]
      by_cases hk : k = k'
      · subst hk
        simp [hkey]
      · simp [hk]

theorem keys_insertEntry (entries : List (String × Value)) (key : String) (v : Value) :
    (insertEntry entries key v).map Prod.fst =
      if key ∈ entries.map Prod.fst then entries.map Prod.fst
      else entries.map Prod.fst ++ [key] := by
  induction entries with
  | nil => rfl
  | cons e rest ih =>
    rw [insertEntry_cons]
    by_cases hkey : e.1 = key
    · simp [hkey]
    · have hne : ¬ key = e.1 := Ne.symm hkey
      simp only [if_neg hkey, List.map_cons, ih, List.mem_cons, hne, false_or]
      split <;> rfl

/-- A key is kept once. -/
theorem nodup_keys_insertEntry {entries : List (String × Value)}
    (h : (entries.map Prod.fst).Nodup) (key : String) (v : Value) :
    ((insertEntry entries key v).map Prod.fst).Nodup := by
  rw [keys_insertEntry]
  split
  · exact h
  · next hnew => exact List.nodup_append.mpr ⟨h, List.nodup_singleton key, by
      rintro a ha b hb rfl
      obtain rfl := List.mem_singleton.mp hb
      exact hnew ha⟩

end Value

/-! ## Entries -/

/-- An entry of an aggregate as it is written: a key with one value that is no list, or with values
in brackets. -/
inductive Entry
  | single (key : String) (value : Value) (h : value.isList = false)
  | bracket (key : String) (values : List Value)

namespace Entry

/-- The key of an entry. -/
def key : Entry → String
  | single key _ _ => key
  | bracket key _ => key

/-- The values that the key receives from an entry. -/
def values : Entry → List Value
  | single _ v _ => [v]
  | bracket _ vs => vs

/-- What an entry stands for. -/
def value : Entry → Value
  | single _ v _ => v
  | bracket _ vs => .list vs

/-- Whether the values of an entry are written in brackets. -/
def isBracket : Entry → Bool
  | single .. => false
  | bracket .. => true

theorem isList_value (e : Entry) : e.value.isList = e.isBracket := by
  cases e with
  | single _ _ h => exact h
  | bracket => rfl

/-- What is kept of the entries of one key. -/
def gather : List Entry → Option Value
  | [] => none
  | [e] => some e.value
  | e :: later => some (.list (e.values ++ later.map value))

theorem gather_append_singleton (es : List Entry) (e : Entry) :
    gather (es ++ [e]) = some (Value.collect (gather es) e.value) := by
  match es with
  | [] => rfl
  | [first] =>
    cases first with
    | single _ v h =>
      cases v with
      | list => cases h
      | _ => rfl
    | bracket => rfl
  | first :: second :: later =>
    simp [gather, Value.collect]

/-- The entries that are kept of some entries. -/
def kept (es : List Entry) : List (String × Value) :=
  es.foldl (fun all e => Value.insertEntry all e.key e.value) []

theorem kept_append_singleton (es : List Entry) (e : Entry) :
    kept (es ++ [e]) = Value.insertEntry (kept es) e.key e.value := by
  rw [kept, List.foldl_append, ← kept, List.foldl_cons, List.foldl_nil]

theorem nodup_keys_kept (es : List Entry) : ((kept es).map Prod.fst).Nodup := by
  induction es using List.reverseRecOn with
  | nil => exact List.nodup_nil
  | append_singleton es e ih =>
    rw [kept_append_singleton]
    exact Value.nodup_keys_insertEntry ih _ _

/-- Under a key stands what is kept of its entries, whatever other keys have entries between them. -/
theorem lookup_kept (es : List Entry) (key : String) :
    (kept es).lookup key = gather (es.filter (·.key = key)) := by
  induction es using List.reverseRecOn with
  | nil => rfl
  | append_singleton es e ih =>
    rw [kept_append_singleton, Value.lookup_insertEntry, List.filter_append]
    by_cases hkey : key = e.key
    · subst hkey
      have hlast : [e].filter (·.key = e.key) = [e] := by simp
      rw [if_pos rfl, hlast, gather_append_singleton, ih]
    · have hlast : [e].filter (·.key = key) = [] := by simp [Ne.symm hkey]
      rw [if_neg hkey, hlast, List.append_nil, ih]

/-! ## Lists inside of lists -/

/-- The values that entries of one key give it. -/
def received (es : List Entry) : List Value := es.flatMap values

theorem sizeOf_append_add_one (vs ws : List Value) :
    sizeOf (vs ++ ws) + 1 = sizeOf vs + sizeOf ws := by
  induction vs with
  | nil => simp; omega
  | cons v vs ih => simp; omega

/-- Every pair of brackets takes room. -/
theorem sizeOf_received_le (es : List Entry) :
    sizeOf (received es) + es.countP isBracket ≤ sizeOf (es.map value) := by
  induction es with
  | nil => exact Nat.le_refl _
  | cons e es ih =>
    have hsum := sizeOf_append_add_one e.values (received es)
    rw [received, List.flatMap_cons, ← received]
    cases e with
    | single key v h =>
      simp only [values, value, isBracket, List.map_cons, List.countP_cons, List.cons.sizeOf_spec,
        List.nil.sizeOf_spec, Bool.false_eq_true, if_false] at *
      omega
    | bracket key vs =>
      simp only [values, value, isBracket, List.map_cons, List.countP_cons, List.cons.sizeOf_spec,
        Value.list.sizeOf_spec, if_true] at *
      omega

/-- The values of some entries are received as what the entries stand for where nothing is in
brackets, and only there. -/
theorem received_eq_map_iff (es : List Entry) :
    es.map value = received es ↔ ∀ e ∈ es, e.isBracket = false := by
  constructor
  · intro h e he
    have hle := sizeOf_received_le es
    rw [h] at hle
    have hnone : es.countP isBracket = 0 := by omega
    exact Bool.eq_false_iff.mpr (List.countP_eq_zero.mp hnone e he)
  · intro h
    have hsame : ∀ e ∈ es, [e.value] = e.values := by
      intro e he
      cases e with
      | single => rfl
      | bracket => cases h _ he
    rw [received, List.map_eq_flatMap]
    exact List.flatMap_congr hsame

variable {first : Entry} {later : List Entry}

/-- What is kept of several values is the list of them just if nothing behind the first entry is in
brackets. -/
theorem gather_eq_received_iff (h : 2 ≤ (received (first :: later)).length) :
    gather (first :: later) = some (.list (received (first :: later))) ↔
      ∀ e ∈ later, e.isBracket = false := by
  have hsplit : received (first :: later) = first.values ++ received later := List.flatMap_cons
  cases later with
  | nil =>
    cases first with
    | single => exact absurd h (by simp [received, values])
    | bracket => simp [gather, received, value, values]
  | cons e later =>
    rw [← received_eq_map_iff, hsplit]
    simp [gather]

/-- A list is kept inside of a list where brackets stand in brackets in the first entry, or where any
other entry has brackets. -/
theorem nested_iff {items : List Value} (h : gather (first :: later) = some (.list items)) :
    (∃ v ∈ items, v.isList = true) ↔
      (∃ v ∈ first.values, v.isList = true) ∨ ∃ e ∈ later, e.isBracket = true := by
  cases later with
  | nil =>
    cases first with
    | single key v hv =>
      obtain rfl : v = .list items := Option.some.inj h
      cases hv
    | bracket key vs =>
      obtain rfl : vs = items := Value.list.inj (Option.some.inj h)
      simp [values]
  | cons e later =>
    obtain rfl : first.values ++ (e :: later).map value = items :=
      Value.list.inj (Option.some.inj h)
    simp only [List.mem_append, or_and_right, exists_or, List.mem_map, ← isList_value]
    refine or_congr_right ⟨?_, ?_⟩
    · rintro ⟨_, ⟨x, hx, rfl⟩, hlist⟩
      exact ⟨x, hx, hlist⟩
    · rintro ⟨x, hx, hlist⟩
      exact ⟨_, ⟨x, hx, rfl⟩, hlist⟩

end Entry

end ProtoSchema
