import Mathlib.Data.List.Forall2
import Mathlib.Data.List.Nodup
import TypedConfig.Entries

/-!
# Looking up keys and positions

What a key leads to is among the entries (`mem_of_lookup`), and if no key comes twice, each entry
is what its key leads to (`lookup_eq_some_iff_mem`). Between entries with the same keys and related
values, in whatever order, a key leads to related values (`lookup_related`), as a position does
between items that are related one by one (`getElem?_related`). Entries that are related one by one
stay so when a key takes related values (`forall₂_insert`).
-/

namespace TypedConfig

variable {α β : Type} {entries : List (String × α)} {k : String} {a : α}

theorem mem_of_lookup (h : entries.lookup k = some a) : (k, a) ∈ entries := by
  obtain ⟨before, after, rfl, -⟩ := List.lookup_eq_some_iff.1 h
  simp

theorem lookup_eq_none_iff_not_mem : entries.lookup k = none ↔ k ∉ entries.map Prod.fst := by
  simp only [List.lookup_eq_none_iff, List.mem_map, not_exists, not_and, bne_iff_ne]
  exact ⟨fun h e he heq => h e he heq.symm, fun h e he heq => h e he heq.symm⟩

theorem mem_keys_of_lookup (h : entries.lookup k ≠ none) : k ∈ entries.map Prod.fst := by
  by_contra hk
  exact h (lookup_eq_none_iff_not_mem.2 hk)

theorem lookup_eq_some_iff_mem (hkeys : (entries.map Prod.fst).Nodup) :
    entries.lookup k = some a ↔ (k, a) ∈ entries := by
  refine ⟨mem_of_lookup, fun hmem => ?_⟩
  cases hlookup : entries.lookup k with
  | none => exact absurd (List.mem_map_of_mem hmem) (lookup_eq_none_iff_not_mem.1 hlookup)
  | some b =>
    have heq : (k, b) = (k, a) := List.inj_on_of_nodup_map hkeys (mem_of_lookup hlookup) hmem rfl
    cases heq
    rfl

theorem lookup_map_snd (f : α → β) (entries : List (String × α)) (k : String) :
    (entries.map fun e => (e.1, f e.2)).lookup k = (entries.lookup k).map f := by
  induction entries with
  | nil => rfl
  | cons e entries ih =>
    rw [List.map_cons, List.lookup_cons, List.lookup_cons, ih]
    cases k == e.1 <;> rfl

section
variable {r : α → β → Prop} {entries' : List (String × β)}
  (hkeys : (entries.map Prod.fst).Perm (entries'.map Prod.fst))
include hkeys

theorem lookup_eq_none_of_perm (h : entries.lookup k = none) : entries'.lookup k = none :=
  lookup_eq_none_iff_not_mem.2 fun hmem => lookup_eq_none_iff_not_mem.1 h (hkeys.mem_iff.2 hmem)

theorem exists_lookup_related (h : ∀ e ∈ entries, ∀ e' ∈ entries', e.1 = e'.1 → r e.2 e'.2)
    (ha : entries.lookup k = some a) : ∃ b, entries'.lookup k = some b ∧ r a b := by
  cases hb : entries'.lookup k with
  | none =>
    have hmem := hkeys.mem_iff.1 (List.mem_map_of_mem (mem_of_lookup ha))
    exact absurd hmem (lookup_eq_none_iff_not_mem.1 hb)
  | some b => exact ⟨b, rfl, h _ (mem_of_lookup ha) _ (mem_of_lookup hb) rfl⟩

theorem lookup_related (h : ∀ e ∈ entries, ∀ e' ∈ entries', e.1 = e'.1 → r e.2 e'.2) (k : String) :
    (entries.lookup k = none ∧ entries'.lookup k = none) ∨
      ∃ a b, entries.lookup k = some a ∧ entries'.lookup k = some b ∧ r a b := by
  cases ha : entries.lookup k with
  | none => exact .inl ⟨rfl, lookup_eq_none_of_perm hkeys ha⟩
  | some a =>
    obtain ⟨b, hb, hr⟩ := exists_lookup_related hkeys h ha
    exact .inr ⟨a, b, rfl, hb, hr⟩

end

/-- Between entries that are related one by one, with the same keys. -/
theorem lookup_forall₂ {r : α → β → Prop} {entries' : List (String × β)}
    (h : List.Forall₂ (fun e e' => e.1 = e'.1 ∧ r e.2 e'.2) entries entries') (k : String) :
    (entries.lookup k = none ∧ entries'.lookup k = none) ∨
      ∃ a b, entries.lookup k = some a ∧ entries'.lookup k = some b ∧ r a b := by
  induction h with
  | nil => exact .inl ⟨rfl, rfl⟩
  | @cons e e' _ _ hr _ ih =>
    obtain ⟨hkey, hr⟩ := hr
    rw [List.lookup_cons, List.lookup_cons, ← hkey]
    cases k == e.1 with
    | true => exact .inr ⟨e.2, e'.2, rfl, rfl, hr⟩
    | false => exact ih

theorem forall₂_insert {r : α → β → Prop} {entries' : List (String × β)} {b : β}
    (h : List.Forall₂ (fun e e' => e.1 = e'.1 ∧ r e.2 e'.2) entries entries') (hab : r a b) :
    List.Forall₂ (fun e e' => e.1 = e'.1 ∧ r e.2 e'.2) (Entries.insert k a entries)
      (Entries.insert k b entries') := by
  induction h with
  | nil => exact .cons ⟨rfl, hab⟩ .nil
  | @cons e e' _ _ he hes ih =>
    obtain ⟨k₁, a₁⟩ := e
    obtain ⟨k₂, b₂⟩ := e'
    obtain ⟨rfl, hr⟩ := he
    rw [Entries.insert, Entries.insert]
    split
    · exact .cons ⟨rfl, hab⟩ hes
    · exact .cons ⟨rfl, hr⟩ ih

theorem perm_map_fst_filter {entries' : List (String × α)}
    (hkeys : (entries.map Prod.fst).Perm (entries'.map Prod.fst)) (p : String → Bool) :
    ((entries.filter fun e => p e.1).map Prod.fst).Perm
      ((entries'.filter fun e => p e.1).map Prod.fst) := by
  have h := hkeys.filter p
  rwa [List.filter_map, List.filter_map] at h

section
variable {r : α → β → Prop} {as : List α} {bs : List β} (hlength : as.length = bs.length)
  (h : ∀ p ∈ as.zip bs, r p.1 p.2)
include hlength h

theorem getElem?_related (i : Nat) :
    (as[i]? = none ∧ bs[i]? = none) ∨ ∃ a b, as[i]? = some a ∧ bs[i]? = some b ∧ r a b := by
  by_cases hi : i < as.length
  · have ha := List.getElem?_eq_getElem hi
    have hb := List.getElem?_eq_getElem (hlength ▸ hi)
    have hpair : (as.zip bs)[i]? = some (as[i], bs[i]) := List.getElem?_zip_eq_some.2 ⟨ha, hb⟩
    exact .inr ⟨_, _, ha, hb, h _ (List.mem_of_getElem? hpair)⟩
  · simp only [List.getElem?_eq_none_iff, ← hlength, and_self]
    exact .inl (Nat.le_of_not_lt hi)

theorem exists_related_of_mem_left (ha : a ∈ as) : ∃ b ∈ bs, r a b := by
  obtain ⟨i, hi⟩ := List.mem_iff_getElem?.1 ha
  rcases getElem?_related hlength h i with ⟨hnone, -⟩ | ⟨a', b, ha', hb, hr⟩
  · simp [hnone] at hi
  · cases hi.symm.trans ha'
    exact ⟨b, List.mem_of_getElem? hb, hr⟩

theorem exists_related_of_mem_right {b : β} (hb : b ∈ bs) : ∃ a ∈ as, r a b := by
  obtain ⟨i, hi⟩ := List.mem_iff_getElem?.1 hb
  rcases getElem?_related hlength h i with ⟨-, hnone⟩ | ⟨a, b', ha, hb', hr⟩
  · simp [hnone] at hi
  · cases hi.symm.trans hb'
    exact ⟨a, List.mem_of_getElem? ha, hr⟩

end

end TypedConfig
