/-!
# Entries by keys

Objects, and the children of dicts, are entries by their keys, in order. A key that comes again keeps
its place and takes the new value (`Entries.insert`).
-/

namespace TypedConfig.Entries

variable {α : Type} {key : String}

/-- Adds an entry: a key that is there already keeps its place and takes the value. -/
def insert (key : String) (value : α) : List (String × α) → List (String × α)
  | [] => [(key, value)]
  | (k, v) :: entries =>
    if k = key then (k, value) :: entries else (k, v) :: insert key value entries

@[simp] theorem lookup_insert_self (key : String) (value : α) :
    ∀ entries, (insert key value entries).lookup key = some value
  | [] => by simp [insert]
  | (k, v) :: entries => by
    by_cases h : k = key
    · simp [insert, h]
    · have hk : (key == k) = false := beq_false_of_ne fun e => h e.symm
      rw [insert, if_neg h, List.lookup_cons, hk]
      exact lookup_insert_self key value entries

theorem lookup_insert_of_ne {other : String} (value : α) (h : other ≠ key) :
    ∀ entries, (insert key value entries).lookup other = entries.lookup other
  | [] => by simp [insert, List.lookup_cons, beq_false_of_ne h]
  | (k, v) :: entries => by
    by_cases hk : k = key
    · subst hk
      rw [insert, if_pos rfl, List.lookup_cons, List.lookup_cons, beq_false_of_ne h]
    · rw [insert, if_neg hk, List.lookup_cons, List.lookup_cons,
        lookup_insert_of_ne value h entries]

theorem map_fst_insert (key : String) (value : α) (entries : List (String × α)) :
    (insert key value entries).map Prod.fst =
      if key ∈ entries.map Prod.fst then entries.map Prod.fst else entries.map Prod.fst ++ [key] := by
  induction entries with
  | nil => simp [insert]
  | cons e entries ih =>
    obtain ⟨k, v⟩ := e
    by_cases hk : k = key
    · simp [insert, hk]
    · simp only [insert, if_neg hk, List.map_cons, ih, List.mem_cons, Ne.symm hk, false_or]
      split <;> simp

theorem nodup_insert {value : α} {entries : List (String × α)}
    (h : (entries.map Prod.fst).Nodup) : ((insert key value entries).map Prod.fst).Nodup := by
  rw [map_fst_insert]
  split
  · exact h
  · next hnot => exact List.nodup_append.2 ⟨h, by simp, fun a ha b hb hab => by simp_all⟩

theorem mem_insert {value : α} {entries : List (String × α)} {e : String × α}
    (h : e ∈ insert key value entries) : e = (key, value) ∨ e ∈ entries := by
  induction entries with
  | nil => exact .inl (List.mem_singleton.1 h)
  | cons e' entries ih =>
    obtain ⟨k, v⟩ := e'
    rw [insert] at h
    split at h
    · next hk =>
      rcases List.mem_cons.1 h with rfl | h
      · exact .inl (by rw [hk])
      · exact .inr (List.mem_cons_of_mem _ h)
    · rcases List.mem_cons.1 h with rfl | h
      · exact .inr (List.mem_cons_self ..)
      · exact (ih h).imp_right (List.mem_cons_of_mem _)

theorem insert_of_not_mem {value : α} {entries : List (String × α)}
    (h : key ∉ entries.map Prod.fst) : insert key value entries = entries ++ [(key, value)] := by
  induction entries with
  | nil => rfl
  | cons e entries ih =>
    rw [List.map_cons, List.mem_cons, not_or] at h
    rw [insert, if_neg (Ne.symm h.1), ih h.2, List.cons_append]

/-- The values before and the new one are those afterwards and the one that was replaced. -/
theorem perm_insert (key : String) (value : α) (entries : List (String × α)) :
    ((insert key value entries).map Prod.snd ++ (entries.lookup key).toList).Perm
      (entries.map Prod.snd ++ [value]) := by
  induction entries with
  | nil => exact .refl _
  | cons e entries ih =>
    obtain ⟨k, v⟩ := e
    rw [insert, List.lookup_cons]
    by_cases hk : k = key
    · rw [if_pos hk, hk, beq_self_eq_true]
      exact (List.perm_append_singleton ..).trans ((List.perm_append_singleton ..).symm.cons v)
    · rw [if_neg hk, beq_false_of_ne (Ne.symm hk)]
      exact ih.cons v

end TypedConfig.Entries
