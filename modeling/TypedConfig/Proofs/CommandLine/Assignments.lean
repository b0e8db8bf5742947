import TypedConfig.CommandLine.Store
import TypedConfig.Proofs.CommandLine.Steps
import TypedConfig.Proofs.Except
import TypedConfig.Proofs.Resolution.DottedName

/-!
# What assigned variables change

An assignment puts its text at the path that its name spells (`descend?_assign_self`) and leaves
alone what is apart from that path (`descend?_assign_of_apart`). It does not lead through a text
(`eq_of_assign`), so that a variable that was assigned keeps its text until its own name, or one
that leads to it, is assigned again. Loading the variables is a sequence of such steps (`Assigns`),
and a lookup by any name with the same parts sees what they made (`externals_of_loadVariables`).
-/

namespace TypedConfig.CommandLine

open Keypath

/-! ### One assignment -/

/-- Neither path leads to the place of the other, or through it. -/
def Apart (p q : List String) : Prop := ¬ p <+: q ∧ ¬ q <+: p

theorem apart_cons {key : String} {p q : List String} :
    Apart (key :: p) (key :: q) ↔ Apart p q := by
  simp [Apart, List.cons_prefix_cons]

section

variable {value j j' : Json} {key : String} {keys path p : List String}

theorem assign_cons_eq_some : assign value (key :: keys) j = some j' ↔
    ∃ entries inner, j = .object entries ∧
      assign value keys ((entries.lookup key).getD (.object [])) = some inner ∧
      j' = .object (Entries.insert key inner entries) := by
  cases j with
  | object entries =>
    rw [assign]
    simp only [Option.bind_eq_bind, Option.bind_eq_some_iff, Option.pure_def, Option.some.injEq]
    constructor
    · rintro ⟨inner, hinner, rfl⟩
      exact ⟨entries, inner, rfl, hinner, rfl⟩
    · rintro ⟨_, inner, ⟨⟩, hinner, rfl⟩
      exact ⟨inner, hinner, rfl⟩
  | _ => simp [assign]

theorem descend?_cons_object (entries : List (String × Json)) :
    (Json.object entries).descend? (key :: keys) =
      (entries.lookup key).bind fun c => c.descend? keys := rfl

theorem descend?_assign_self (h : assign value path j = some j') :
    j'.descend? path = some value := by
  induction path generalizing j j' with
  | nil =>
    rw [assign] at h
    cases h
    rfl
  | cons key keys ih =>
    obtain ⟨entries, inner, rfl, hinner, rfl⟩ := assign_cons_eq_some.1 h
    rw [descend?_cons_object, Entries.lookup_insert_self]
    exact ih hinner

theorem descend?_assign_of_apart (h : assign value path j = some j') (hapart : Apart path p) :
    j'.descend? p = j.descend? p := by
  induction path generalizing j j' p with
  | nil => exact absurd List.nil_prefix hapart.1
  | cons key keys ih =>
    obtain ⟨entries, inner, rfl, hinner, rfl⟩ := assign_cons_eq_some.1 h
    cases p with
    | nil => exact absurd List.nil_prefix hapart.2
    | cons k ks =>
      rw [descend?_cons_object, descend?_cons_object]
      by_cases hk : k = key
      · subst hk
        rw [apart_cons] at hapart
        rw [Entries.lookup_insert_self, Option.bind_some, ih hinner hapart]
        cases hlookup : entries.lookup k with
        | some old => rfl
        | none =>
          -- nothing lies in the mapping that is made here, and the path goes on into it
          cases ks with
          | nil => exact absurd List.nil_prefix hapart.2
          | cons => rfl
      · rw [Entries.lookup_insert_of_ne inner hk]

/-- A path that can be assigned does not go on at a text. -/
theorem eq_of_assign {text : String} (h : assign value path j = some j')
    (htext : j.descend? p = some (.string text)) (hp : p <+: path) : path = p := by
  induction p generalizing j j' path with
  | nil =>
    cases htext
    cases path with
    | nil => rfl
    | cons key keys => cases h
  | cons k ks ih =>
    obtain ⟨rest, rfl⟩ := hp
    obtain ⟨entries, inner, rfl, hinner, rfl⟩ := assign_cons_eq_some.1 h
    rw [descend?_cons_object, Option.bind_eq_some_iff] at htext
    obtain ⟨old, hold, htext⟩ := htext
    rw [hold] at hinner
    exact congrArg (k :: ·) (ih hinner htext (List.prefix_append ks rest))

end

/-! ### A sequence of assignments -/

theorem splitAssignment?_eq_some_iff {text name value : String} :
    splitAssignment? text = some (name, value) ↔
      '=' ∉ name.toList ∧ text = name ++ "=" ++ value := by
  unfold splitAssignment?
  constructor
  · intro h
    have happend := List.takeWhile_append_dropWhile (p := (· != '=')) (l := text.toList)
    have hhead := List.head?_dropWhile_not (· != '=') text.toList
    cases hdrop : text.toList.dropWhile (· != '=') with
    | nil =>
      simp only [hdrop] at h
      cases h
    | cons c cs =>
      simp only [hdrop, Option.some.injEq, Prod.mk.injEq] at h
      obtain ⟨rfl, rfl⟩ := h
      have hc : c = '=' := by simpa [hdrop] using hhead
      subst hc
      rw [hdrop] at happend
      refine ⟨fun hmem => ?_, ?_⟩
      · rw [String.toList_ofList] at hmem
        simpa using List.mem_takeWhile_imp hmem
      · rw [← String.toList_inj]
        simpa using happend.symm
  · rintro ⟨hname, rfl⟩
    have hchars : (name ++ "=" ++ value).toList = name.toList ++ '=' :: value.toList := by simp
    have hne : ∀ c ∈ name.toList, (c != '=') = true := by
      intro c hc
      simpa using fun heq : c = '=' => hname (heq ▸ hc)
    simp only [hchars, List.dropWhile_append_of_pos hne, List.takeWhile_append_of_pos hne]
    simp

/-- The path that an assignment spells. -/
def assignedPath (text : String) : List String :=
  match splitAssignment? text with
  | some (name, _) => dottedParts name
  | none => []

/-- Assignments made one after the other. -/
inductive Assigns : Json → List String → Json → Prop
  | nil (j : Json) : Assigns j [] j
  | cons {j r j' : Json} {text name value : String} {texts : List String}
      (htext : splitAssignment? text = some (name, value))
      (h : assign (.string value) (dottedParts name) j = some r) (hs : Assigns r texts j') :
      Assigns j (text :: texts) j'

theorem assignText_eq_ok {j j' : Json} {text : String} (h : assignText j text = .ok j') :
    ∃ name value, splitAssignment? text = some (name, value) ∧
      assign (.string value) (dottedParts name) j = some j' := by
  unfold assignText at h
  split at h
  · cases h
  · next name value hsplit =>
    simp only at h
    split at h
    · cases h
    · split at h
      · next hassign =>
        cases h
        exact ⟨name, value, hsplit, hassign⟩
      · cases h

theorem assigns_of_foldlM {j j' : Json} {texts : List String}
    (h : texts.foldlM assignText j = .ok j') : Assigns j texts j' := by
  induction texts generalizing j with
  | nil =>
    cases h
    exact .nil _
  | cons text texts ih =>
    rw [List.foldlM_cons, bind_eq_ok] at h
    obtain ⟨r, htext, h⟩ := h
    obtain ⟨name, value, hsplit, hassign⟩ := assignText_eq_ok htext
    exact .cons hsplit hassign (ih h)

namespace Assigns

variable {j j' : Json} {texts before after : List String} {path : List String}

theorem of_append (h : Assigns j (before ++ after) j') : ∃ r, Assigns r after j' := by
  induction before generalizing j with
  | nil => exact ⟨j, h⟩
  | cons text before ih =>
    cases h with
    | cons _ _ h => exact ih h

theorem exists_assignment (h : Assigns j texts j') :
    ∀ text ∈ texts, ∃ name value, '=' ∉ name.toList ∧ text = name ++ "=" ++ value := by
  induction h with
  | nil => simp
  | cons htext _ _ ih =>
    exact List.forall_mem_cons.2 ⟨⟨_, _, splitAssignment?_eq_some_iff.1 htext⟩, ih⟩

/-- What is apart from the paths of all assignments stays as it is. -/
theorem descend?_of_apart (h : Assigns j texts j')
    (hapart : ∀ text ∈ texts, Apart (assignedPath text) path) :
    j'.descend? path = j.descend? path := by
  induction h with
  | nil => rfl
  | cons htext hassign _ ih =>
    obtain ⟨hhead, htail⟩ := List.forall_mem_cons.1 hapart
    simp only [assignedPath, htext] at hhead
    rw [ih htail, descend?_assign_of_apart hassign hhead]

/-- A text stays as long as no assignment leads to it, or to something around it. -/
theorem descend?_of_text {value : String} (h : Assigns j texts j')
    (hvalue : j.descend? path = some (.string value))
    (htexts : ∀ text ∈ texts, ¬ assignedPath text <+: path) :
    j'.descend? path = some (.string value) := by
  induction h with
  | nil => exact hvalue
  | @cons j r j' text name _ texts htext hassign _ ih =>
    obtain ⟨hhead, htail⟩ := List.forall_mem_cons.1 htexts
    simp only [assignedPath, htext] at hhead
    refine ih ?_ htail
    have hbelow : ¬ path <+: dottedParts name := by
      intro hbelow
      rw [eq_of_assign hassign hvalue hbelow] at hhead
      exact hhead (List.prefix_refl path)
    rw [descend?_assign_of_apart hassign ⟨hhead, hbelow⟩, hvalue]

/-- The last value for a name is there, unless something around it was assigned later. -/
theorem descend?_last {name value : String} (hname : '=' ∉ name.toList)
    (h : Assigns j (before ++ (name ++ "=" ++ value) :: after) j')
    (hafter : ∀ text ∈ after, ¬ assignedPath text <+: dottedParts name) :
    j'.descend? (dottedParts name) = some (.string value) := by
  obtain ⟨r, h⟩ := h.of_append
  cases h with
  | cons htext hassign h =>
    cases htext.symm.trans (splitAssignment?_eq_some_iff.2 ⟨hname, rfl⟩)
    exact h.descend?_of_text (descend?_assign_self hassign) hafter

end Assigns

/-! ### Loading the variables -/

theorem assignAll_eq_ok {j j' : Json} {texts : List String} (h : assignAll j texts = .ok j') :
    ∃ entries, j = .object entries ∧ Assigns j texts j' := by
  unfold assignAll at h
  split at h
  · next entries => exact ⟨entries, rfl, assigns_of_foldlM h⟩
  · cases h

section Lookup

open Resolution

variable {settings : Settings} {j : Json} {name : String} {parts : List String}

theorem followExternal_of_descend? (h : settings.externals.descend? parts = some j)
    (unknown : Error) (p : Progress) : followExternal settings unknown parts p = .ok j p := by
  rw [followExternal, h]
  rfl

/-- A name is one of a variable unless its first part is the name of the configuration. -/
theorem target_of_head? (h : (dottedParts name).head? ≠ some settings.selfName) :
    settings.target name = .external (dottedParts name) := by
  rw [Settings.target]
  cases hparts : dottedParts name with
  | nil => rfl
  | cons part parts =>
    rw [hparts] at h
    exact if_neg fun heq => h (congrArg some heq)

theorem lookup_of_descend? (hself : (dottedParts name).head? ≠ some settings.selfName)
    (h : settings.externals.descend? (dottedParts name) = some j) (root : Node)
    (resolveNode : Node → Resolution Value) (place : Keypath) (p : Progress) :
    lookup settings root resolveNode place name p =
      .ok j.scalarText (p.log (.lookup place name)) := by
  have hfollow := followExternal_of_descend? h (.unknownReference place name)
    (p.log (.lookup place name))
  rw [lookup, target_of_head? hself]
  exact run_bind_eq_ok.2 ⟨(), _, rfl, run_bind_eq_ok.2 ⟨j, _, hfollow, rfl⟩⟩

end Lookup

/-- Variables that load are those of the file with the assignments made. Looking up a name with the
parts of one that was assigned yields the text, in a template as well, unless the name or one that
leads to it was assigned again; and what is apart from all names that were assigned is looked up as
it was before. -/
theorem externals_of_loadVariables {σ : Type} {host : Host (StateM σ)} {o : ResolveOptions}
    {s s' : σ} {externals : Json} (h : (loadVariables host o).run.run s = (.ok externals, s')) :
    ∃ entries,
      (∀ path, o.externals = some path →
        (loadDocument host path).run.run s = (.ok (.object entries), s')) ∧
      (o.externals = none → entries = []) ∧
      (∀ text ∈ o.assignments, ∃ name value, '=' ∉ name.toList ∧ text = name ++ "=" ++ value) ∧
      ∀ settings : Settings, settings.externals = externals →
        (∀ before name value after, o.assignments = before ++ (name ++ "=" ++ value) :: after →
          '=' ∉ name.toList → (∀ text ∈ after, ¬ assignedPath text <+: dottedParts name) →
          ∀ spelled, dottedParts spelled = dottedParts name →
            (∀ unknown p, Resolution.followExternal settings unknown (dottedParts spelled) p =
              .ok (.string value) p) ∧
            ((dottedParts spelled).head? ≠ some settings.selfName → ∀ root resolveNode place p,
              Resolution.lookup settings root resolveNode place spelled p =
                .ok value (p.log (.lookup place spelled)))) ∧
        (∀ path, (∀ text ∈ o.assignments, Apart (assignedPath text) path) → ∀ unknown,
          Resolution.followExternal settings unknown path =
            Resolution.followExternal { settings with externals := .object entries } unknown
              path) := by
  obtain ⟨original, hload, hassign⟩ := loadVariables_run_eq_ok.1 h
  obtain ⟨entries, rfl, hassigns⟩ := assignAll_eq_ok hassign
  refine ⟨entries, fun path hpath => ?_, fun hnone => ?_, hassigns.exists_assignment, ?_⟩
  · simpa only [hpath] using hload
  · simp only [hnone] at hload
    cases hload.1
    rfl
  rintro settings rfl
  refine ⟨?_, fun path hapart unknown => ?_⟩
  · intro before name value after htexts hname hafter spelled hspelled
    rw [htexts] at hassigns
    have hlast := hassigns.descend?_last hname hafter
    rw [← hspelled] at hlast
    exact ⟨followExternal_of_descend? hlast, fun hself => lookup_of_descend? hself hlast⟩
  · rw [Resolution.followExternal, Resolution.followExternal, hassigns.descend?_of_apart hapart]

/-- The options to resolve with a file of variables and two assigned ones. -/
def regionOptions : ResolveOptions where
  schema := "schema.json"
  inputs := ["a.json"]
  externals := some "vars.json"
  assignments := [" env . region=us", "env.stage=a=b"]
  selfName := "this"
  outDirectory := none
  compact := false
  showOnly := false

/-- A working directory with a file of variables. -/
def regionWorld : World :=
  .ofStore (.ofFiles
    [("vars.json", "\x7b\"env\":\x7b\"region\":\"eu\",\"zone\":true\x7d\x7d")])

/-- The region of the file is assigned again, and the zone beside it stays. -/
theorem exists_externals_of_region : ∃ externals,
    (loadVariables World.host regionOptions).run.run regionWorld = (.ok externals, regionWorld) ∧
    (∀ root resolveNode place p,
      Resolution.lookup { Settings.initial with externals } root resolveNode place "env.region" p =
        .ok "us" (p.log (.lookup place "env.region"))) ∧
    ∀ unknown p, Resolution.followExternal { Settings.initial with externals } unknown
      ["env", "zone"] p = .ok (.bool true) p := by
  have hread : (formatOf "vars.json").read?
      "\x7b\"env\":\x7b\"region\":\"eu\",\"zone\":true\x7d\x7d" =
        some (.object [("env", .object [("region", .string "eu"), ("zone", .bool true)])]) := by cbv
  have hcontent : (World.host.read "vars.json").run regionWorld = (.ok _, regionWorld) := rfl
  have hdocument := loadDocument_run_eq_ok.2 ⟨_, hcontent, hread⟩
  have hassign : assignAll
      (.object [("env", .object [("region", .string "eu"), ("zone", .bool true)])])
      regionOptions.assignments = .ok (.object [("env", .object
        [("region", .string "us"), ("zone", .bool true), ("stage", .string "a=b")])]) := rfl
  have hload : (loadVariables World.host regionOptions).run.run regionWorld =
      (.ok _, regionWorld) := loadVariables_run_eq_ok.2 ⟨_, hdocument, hassign⟩
  obtain ⟨entries, hfile, -, -, h⟩ := externals_of_loadVariables hload
  obtain ⟨hassigned, happart⟩ := h { Settings.initial with externals := _ } rfl
  refine ⟨_, hload, ?_, fun unknown p => ?_⟩
  · exact (hassigned [] " env . region" "us" ["env.stage=a=b"] rfl (by decide) (by decide)
      "env.region" (by decide)).2 (by decide)
  · rw [happart ["env", "zone"] (by unfold Apart; decide)]
    cases (hfile _ rfl).symm.trans hdocument
    rfl

end TypedConfig.CommandLine
