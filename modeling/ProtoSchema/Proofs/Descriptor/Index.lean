import Mathlib.Data.List.Induction
import Mathlib.Data.List.Nodup
import ProtoSchema.Descriptor.Basic
import ProtoSchema.Proofs.Places

/-!
# Finding keys in indexes

An index of the last mentions finds the last place that is given with a key, one of the first
mentions the first. Where no key is given twice, both find a place just if it is given.
-/

namespace ProtoSchema.Index

variable {κ : Type} [DecidableEq κ]

theorem find?_set (index : Index κ) (key key' : κ) (place : Nat) :
    (index.set key place).find? key' = if key = key' then some place else index.find? key' := by
  obtain ⟨entries⟩ := index
  simp only [find?, set]
  induction entries with
  | nil => by_cases h : key = key' <;> simp [set.go, h]
  | cons e es ih =>
    rw [set.go]
    by_cases he : e.1 = key
    · rw [if_pos he]
      by_cases h : key = key' <;> simp [he, h]
    · rw [if_neg he]
      by_cases he' : e.1 = key'
      · have hne : key ≠ key' := fun h => he (he'.trans h.symm)
        simp [he', hne]
      · rw [List.find?_cons_of_neg (by simpa using he'), ih,
          List.find?_cons_of_neg (by simpa using he')]

theorem find?_setNew (index : Index κ) (key key' : κ) (place : Nat) :
    (index.setNew key place).find? key' =
      (index.find? key').or (if key = key' then some place else none) := by
  unfold setNew
  cases h : index.find? key with
  | none =>
    by_cases hkey : key = key'
    · rw [find?, hkey, Option.map_eq_none_iff] at h
      simp [find?, List.find?_append, hkey, h]
    · simp [find?, List.find?_append, hkey]
  | some known =>
    by_cases hkey : key = key'
    · simp [← hkey, h]
    · simp [hkey]

theorem ofLast_append_singleton (entries : List (κ × Nat)) (e : κ × Nat) :
    ofLast (entries ++ [e]) = (ofLast entries).set e.1 e.2 := by
  simp [ofLast]

/-- The last mention of a key counts. -/
theorem find?_ofLast (entries : List (κ × Nat)) (key : κ) :
    (ofLast entries).find? key = (entries.reverse.find? (·.1 = key)).map Prod.snd := by
  induction entries using List.reverseRecOn with
  | nil => rfl
  | append_singleton entries e ih =>
    rw [ofLast_append_singleton, find?_set, ih, List.reverse_append, List.reverse_singleton,
      List.singleton_append]
    by_cases h : e.1 = key <;> simp [h]

/-- The first mention of a key counts. -/
theorem find?_ofFirst (entries : List (κ × Nat)) (key : κ) :
    (ofFirst entries).find? key = (entries.find? (·.1 = key)).map Prod.snd := by
  induction entries using List.reverseRecOn with
  | nil => rfl
  | append_singleton entries e ih =>
    have hsnoc : ofFirst (entries ++ [e]) = (ofFirst entries).setNew e.1 e.2 := by
      simp [ofFirst]
    rw [hsnoc, find?_setNew, ih, List.find?_append, Option.map_or]
    by_cases h : e.1 = key <;> simp [h]

theorem find?_key_eq_some {entries : List (κ × Nat)} (h : (entries.map Prod.fst).Nodup) {key : κ}
    {place : Nat} :
    (entries.find? (·.1 = key)).map Prod.snd = some place ↔ (key, place) ∈ entries := by
  induction entries with
  | nil => simp
  | cons e es ih =>
    obtain ⟨hnew, hes⟩ := List.nodup_cons.mp h
    by_cases he : e.1 = key
    · have hother : (key, place) ∉ es := fun hmem =>
        hnew (he ▸ List.mem_map_of_mem (f := Prod.fst) hmem)
      simp [he, hother, Prod.ext_iff, eq_comm]
    · have hne : (key, place) ≠ e := fun heq => he (heq ▸ rfl)
      rw [List.find?_cons_of_neg (by simpa using he), ih hes]
      simp [hne]

/-- Where no key is mentioned twice, an index finds just what is mentioned. -/
theorem find?_ofLast_eq_some {entries : List (κ × Nat)} (h : (entries.map Prod.fst).Nodup)
    {key : κ} {place : Nat} :
    (ofLast entries).find? key = some place ↔ (key, place) ∈ entries := by
  rw [find?_ofLast, find?_key_eq_some, List.mem_reverse]
  rwa [List.map_reverse, List.nodup_reverse]

theorem go_set_of_notMem {entries : List (κ × Nat)} {key : κ} {place : Nat}
    (h : key ∉ entries.map Prod.fst) : set.go key place entries = entries ++ [(key, place)] := by
  induction entries with
  | nil => rfl
  | cons e es ih =>
    rw [List.map_cons, List.mem_cons, not_or] at h
    rw [set.go, if_neg (Ne.symm h.1), ih h.2, List.cons_append]

/-- Where no key is mentioned twice, an index has all entries that it is made from. -/
theorem entries_ofLast {entries : List (κ × Nat)} (h : (entries.map Prod.fst).Nodup) :
    (ofLast entries).entries = entries := by
  induction entries using List.reverseRecOn with
  | nil => rfl
  | append_singleton entries e ih =>
    rw [List.map_append, List.nodup_append] at h
    have hnew : e.1 ∉ entries.map Prod.fst := fun hmem => h.2.2 _ hmem _ (by simp) rfl
    rw [ofLast_append_singleton]
    simp only [set, ih h.1]
    exact go_set_of_notMem hnew

/-- An index of some entries, by keys of which no two are equal, finds just their places. -/
theorem find?_ofLast_findIdxs {α : Type} {key : α → κ} {p : α → Bool} {xs : List α}
    (h : ((xs.filter p).map key).Nodup) {k : κ} {i : Nat} :
    (ofLast (((xs.filter p).map key).zip (xs.findIdxs p))).find? k = some i ↔
      ∃ x, xs[i]? = some x ∧ p x ∧ key x = k := by
  have hlength : (xs.filter p).length = (xs.findIdxs p).length := by
    simpa using (congrArg List.length (map_getElem?_findIdxs p xs)).symm
  have hplaces : ((xs.filter p).map key).map some =
      (xs.findIdxs p).map fun i => (xs[i]?).map key := by
    have hentries := congrArg (List.map (Option.map key)) (map_getElem?_findIdxs p xs)
    simpa [Function.comp_def] using hentries.symm
  have hzip : (((xs.filter p).map key).zip (xs.findIdxs p)).map (Prod.map some id) =
      (xs.findIdxs p).map fun i => ((xs[i]?).map key, i) := by
    rw [← List.zip_map_left, hplaces]
    exact (congrArg (List.zip _) (List.map_id _).symm).trans List.zip_map'
  have hmem : (k, i) ∈ ((xs.filter p).map key).zip (xs.findIdxs p) ↔
      (some k, i) ∈ (xs.findIdxs p).map fun i => ((xs[i]?).map key, i) := by
    rw [← hzip]
    simp
  rw [find?_ofLast_eq_some (by rwa [List.map_fst_zip (by simp [hlength])]), hmem]
  constructor
  · intro hk
    obtain ⟨j, hj, heq⟩ := List.mem_map.mp hk
    obtain ⟨hkey, rfl⟩ := Prod.mk.inj heq
    obtain ⟨x, hx, hp⟩ := mem_findIdxs.mp hj
    exact ⟨x, hx, hp, by simpa [hx] using hkey⟩
  · rintro ⟨x, hx, hp, rfl⟩
    exact List.mem_map.mpr ⟨i, mem_findIdxs.mpr ⟨x, hx, hp⟩, by simp [hx]⟩

theorem mem_set {index : Index κ} {key : κ} {place : Nat} {e : κ × Nat}
    (h : e ∈ (index.set key place).entries) : e ∈ index.entries ∨ e = (key, place) := by
  obtain ⟨entries⟩ := index
  simp only [set] at h ⊢
  induction entries with
  | nil => simpa [set.go] using h
  | cons e' es ih =>
    rw [set.go] at h
    split at h
    · rcases List.mem_cons.mp h with h | h
      · exact .inr h
      · exact .inl (by simp [h])
    · rcases List.mem_cons.mp h with h | h
      · exact .inl (by simp [h])
      · exact (ih h).imp_left (by simp +contextual)

/-- An index holds nothing but what it is made from. -/
theorem mem_ofLast {entries : List (κ × Nat)} {e : κ × Nat}
    (h : e ∈ (ofLast entries).entries) : e ∈ entries := by
  induction entries using List.reverseRecOn with
  | nil => simp [ofLast] at h
  | append_singleton entries e' ih =>
    rw [ofLast_append_singleton] at h
    rcases mem_set h with h | h
    · exact List.mem_append_left _ (ih h)
    · simp [h]

@[inherit_doc mem_ofLast]
theorem mem_ofFirst {entries : List (κ × Nat)} {e : κ × Nat}
    (h : e ∈ (ofFirst entries).entries) : e ∈ entries := by
  induction entries using List.reverseRecOn with
  | nil => simp [ofFirst] at h
  | append_singleton entries e' ih =>
    have hsnoc : ofFirst (entries ++ [e']) = (ofFirst entries).setNew e'.1 e'.2 := by
      simp [ofFirst]
    rw [hsnoc, setNew] at h
    split at h
    · rcases List.mem_append.mp h with h | h
      · exact List.mem_append_left _ (ih h)
      · exact List.mem_append_right _ h
    · exact List.mem_append_left _ (ih h)

end ProtoSchema.Index
