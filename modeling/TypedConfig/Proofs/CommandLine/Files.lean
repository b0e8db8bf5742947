import TypedConfig.CommandLine.Store
import TypedConfig.Proofs.Except
import TypedConfig.Proofs.Text.Words

/-!
# Files in a store

Paths lead to where they led as long as no directory disappears (`Store.Keeps.locate`). So a written
file is read back (`Store.read_write_self`), the files at other places stay as they were
(`Store.read_write_of_ne`), and all files do when directories are made
(`Store.Extends.makeDirectories`). Two names in one directory lead to two places
(`Store.eq_of_locate_join`).
-/

namespace TypedConfig.CommandLine

/-! ### Paths of files in a directory -/

theorem components_append_slash (a b : String) :
    components (a ++ "/" ++ b) = components a ++ components b := by
  have hchars : (a ++ "/" ++ b).toList = a.toList ++ '/' :: b.toList := by simp
  rw [components, hchars, Text.splitWhere_append_cons rfl, List.map_append]
  rfl

theorem components_of_slashless {name : String} (h : '/' ∉ name.toList) :
    components name = [name] := by
  have hslash : ∀ c ∈ name.toList, (c == '/') = false :=
    fun c hc => beq_false_of_ne fun heq => h (heq ▸ hc)
  rw [components, Text.splitWhere_of_all hslash, List.map_singleton, String.ofList_toList]

theorem slash_not_mem_of_mem_components {path part : String} (h : part ∈ components path) :
    '/' ∉ part.toList := by
  obtain ⟨cs, hcs, rfl⟩ := List.mem_map.1 h
  rw [String.toList_ofList]
  intro hc
  cases Text.not_of_mem_splitWhere hcs hc

/-- The components of a directory, and then the name. -/
theorem exists_components_join (directory : String) : ∃ dirs, ∀ name : String,
    '/' ∉ name.toList → components (join directory name) = dirs ++ [name] := by
  by_cases hempty : directory = ""
  · subst hempty
    exact ⟨[], fun name hname => components_of_slashless (by simpa [join] using hname)⟩
  · by_cases hlast : directory.toList.getLast? = some '/'
    · obtain ⟨cs, hcs⟩ := List.getLast?_eq_some_iff.1 hlast
      refine ⟨components (String.ofList cs), fun name hname => ?_⟩
      have hjoin : join directory name = String.ofList cs ++ "/" ++ name := by
        rw [join, if_pos (by simp [hlast]), ← String.toList_inj]
        simp [hcs]
      rw [hjoin, components_append_slash, components_of_slashless hname]
    · refine ⟨components directory, fun name hname => ?_⟩
      rw [join, if_neg (by simp [hempty, hlast]), components_append_slash,
        components_of_slashless hname]

theorem slash_not_mem_stem (path : String) : '/' ∉ (stem path).toList := by
  unfold stem
  split
  · next name hname =>
    have hlast := (Option.filter_eq_some_iff.1 hname).1
    have hcomponent : '/' ∉ name.toList :=
      slash_not_mem_of_mem_components (List.mem_of_mem_filter (List.mem_of_getLast? hlast))
    simp only [splitName]
    split
    · next d c cs hdrop =>
      -- the stem is a part of the name
      have hsub : c :: cs ⊆ name.toList.reverse := fun x hx =>
        (List.dropWhile_sublist _).subset (hdrop ▸ List.mem_cons_of_mem d hx)
      intro hmem
      rw [String.toList_ofList, List.mem_reverse] at hmem
      exact hcomponent (List.mem_reverse.1 (hsub hmem))
    · exact hcomponent
  · simp

/-- The name leads one place down. -/
structure Plain (name : String) : Prop where
  slashless : '/' ∉ name.toList
  ne_empty : name ≠ ""
  ne_here : name ≠ "."
  ne_above : name ≠ ".."

namespace Store

variable {s s' : Store} {path other content : String} {place : List String} {item : Item}

/-! ### Reading and writing -/

theorem read_eq_ok : s.read path = .ok content ↔
    ∃ place, s.locate path = .ok place ∧ s.find? place = some (.file content) := by
  rw [read, bind_eq_ok]
  refine exists_congr fun place => and_congr_right fun _ => ?_
  split <;> simp_all

theorem write_eq_ok : s.write path content = .ok s' ↔
    ∃ place, s.locate path = .ok place ∧ s.find? place ≠ some .directory ∧
      s' = s.put place (.file content) := by
  rw [write, bind_eq_ok]
  refine exists_congr fun place => and_congr_right fun _ => ?_
  split
  · simp_all
  · simp_all [eq_comm]

theorem mem_items_of_find? {name : String} {names : List String}
    (h : s.find? (name :: names) = some item) : (name :: names, item) ∈ s.items := by
  obtain ⟨before, after, hitems, -⟩ := List.lookup_eq_some_iff.1 h
  rw [hitems]
  simp

theorem find?_of_step {part : String} {reached : List String}
    (h : s.step place part = .ok reached) : s.find? place = some .directory := by
  unfold step at h
  split at h
  · cases h
  · cases h
  · assumption

theorem step_of_plain {name : String} (hname : Plain name)
    (hplace : s.find? place = some .directory) : s.step place name = .ok (place ++ [name]) := by
  simp [step, hplace, hname.ne_empty, hname.ne_here, hname.ne_above]

theorem foldlM_of_locate (h : s.locate path = .ok place) :
    (components path).foldlM s.step [] = .ok place := by
  unfold locate at h
  split at h
  · cases h
  · exact h

/-- The directories are still there. -/
def Keeps (s s' : Store) : Prop :=
  ∀ place, s.find? place = some .directory → s'.find? place = some .directory

namespace Keeps

theorem step (h : s.Keeps s') {part : String} {reached : List String}
    (hstep : s.step place part = .ok reached) : s'.step place part = .ok reached := by
  have hplace := find?_of_step hstep
  rw [Store.step, hplace] at hstep
  rw [Store.step, h place hplace]
  exact hstep

theorem foldlM (h : s.Keeps s') {parts reached : List String}
    (hparts : parts.foldlM s.step place = .ok reached) :
    parts.foldlM s'.step place = .ok reached := by
  induction parts generalizing place with
  | nil => exact hparts
  | cons part parts ih =>
    rw [List.foldlM_cons, bind_eq_ok] at hparts ⊢
    obtain ⟨next, hstep, hparts⟩ := hparts
    exact ⟨next, h.step hstep, ih hparts⟩

theorem locate (h : s.Keeps s') (hpath : s.locate path = .ok place) :
    s'.locate path = .ok place := by
  unfold Store.locate at hpath ⊢
  split at hpath
  · cases hpath
  · next hrelative =>
    rw [if_neg hrelative]
    exact h.foldlM hpath

theorem put (h : s.find? place ≠ some .directory) (item : Item) : s.Keeps (s.put place item) := by
  intro other hother
  have hne : other ≠ place := fun heq => h (heq ▸ hother)
  rw [find?_put_of_ne s hne, hother]

end Keeps

theorem read_write_self (h : s.write path content = .ok s') : s'.read path = .ok content := by
  obtain ⟨place, hpath, hplace, rfl⟩ := write_eq_ok.1 h
  have hne : place ≠ [] := fun heq => hplace (heq ▸ rfl)
  exact read_eq_ok.2 ⟨place, (Keeps.put hplace _).locate hpath, find?_put_self s hne _⟩

theorem read_write_of_ne {written : String} (h : s.write path written = .ok s')
    (hother : s.read other = .ok content)
    (hne : ∀ place, s.locate other = .ok place → s.locate path ≠ .ok place) :
    s'.read other = .ok content := by
  obtain ⟨place, hpath, hplace, rfl⟩ := write_eq_ok.1 h
  obtain ⟨found, hlocate, hfound⟩ := read_eq_ok.1 hother
  have hplaces : found ≠ place := fun heq => hne found hlocate (heq ▸ hpath)
  refine read_eq_ok.2 ⟨found, (Keeps.put hplace _).locate hlocate, ?_⟩
  rw [find?_put_of_ne s hplaces, hfound]

/-! ### Making directories -/

/-- Everything is still there. -/
def Extends (s s' : Store) : Prop :=
  ∀ place item, s.find? place = some item → s'.find? place = some item

namespace Extends

theorem keeps (h : s.Extends s') : s.Keeps s' := fun place => h place .directory

theorem read (h : s.Extends s') (hread : s.read path = .ok content) :
    s'.read path = .ok content := by
  obtain ⟨place, hpath, hplace⟩ := read_eq_ok.1 hread
  exact read_eq_ok.2 ⟨place, h.keeps.locate hpath, h place _ hplace⟩

theorem enter {part : String} {reached : List String}
    (h : Store.enter (s, place) part = .ok (s', reached)) : s.Extends s' := by
  simp only [Store.enter] at h
  obtain ⟨next, -, h⟩ := bind_eq_ok.1 h
  split at h
  · next hnone =>
    cases h
    intro other item hother
    have hne : other ≠ reached := by
      rintro rfl
      cases hnone.symm.trans hother
    rw [find?_put_of_ne s hne, hother]
  · cases h
    exact fun _ _ hother => hother

theorem foldlM_enter {parts reached : List String}
    (h : parts.foldlM Store.enter (s, place) = .ok (s', reached)) : s.Extends s' := by
  induction parts generalizing s place with
  | nil =>
    cases h
    exact fun _ _ hplace => hplace
  | cons part parts ih =>
    rw [List.foldlM_cons, bind_eq_ok] at h
    obtain ⟨⟨r, next⟩, hpart, h⟩ := h
    exact fun place item hplace => ih h place item (enter hpart place item hplace)

theorem makeDirectories (h : s.makeDirectories path = .ok s') : s.Extends s' := by
  unfold Store.makeDirectories at h
  split at h
  · cases h
  · obtain ⟨⟨r, reached⟩, hparts, h⟩ := bind_eq_ok.1 h
    simp only at h
    split at h
    · cases h
    · cases h
      exact foldlM_enter hparts

end Extends

/-! ### Names in one directory -/

/-- A name in a directory leads one place further than the directory. -/
theorem exists_above_of_locate_join (s : Store) (directory : String) :
    ∃ above : Except Refusal (List String), ∀ name place, Plain name →
      s.locate (join directory name) = .ok place →
        ∃ dir, above = .ok dir ∧ place = dir ++ [name] := by
  obtain ⟨dirs, hdirs⟩ := exists_components_join directory
  refine ⟨dirs.foldlM s.step [], fun name place hname hlocate => ?_⟩
  have hparts := foldlM_of_locate hlocate
  rw [hdirs name hname.slashless, List.foldlM_append, bind_eq_ok] at hparts
  obtain ⟨dir, hdir, hlast⟩ := hparts
  rw [List.foldlM_cons, bind_eq_ok] at hlast
  obtain ⟨_, hstep, ⟨⟩⟩ := hlast
  rw [step_of_plain hname (find?_of_step hstep), Except.ok.injEq] at hstep
  exact ⟨dir, hdir, hstep.symm⟩

theorem eq_of_locate_join {directory a b : String} (ha : Plain a) (hb : Plain b)
    (hplace : s.locate (join directory a) = .ok place)
    (hsame : s.locate (join directory b) = .ok place) : a = b := by
  obtain ⟨above, habove⟩ := s.exists_above_of_locate_join directory
  obtain ⟨dir, rfl, rfl⟩ := habove a place ha hplace
  obtain ⟨_, ⟨⟩, hlast⟩ := habove b _ hb hsame
  simpa using hlast

end Store

end TypedConfig.CommandLine
