import TypedConfig.Proofs.CommandLine.Files
import TypedConfig.Proofs.CommandLine.Steps

/-!
# Results in a directory

Results are put out one after the other (`PutsOut`). A file holds the result of the last input with
its stem (`PutsOut.exists_last`), since inputs with other stems have other files. So inputs whose
stems differ all keep their results (`results_of_runResolve`), and of two inputs with one stem the
first one loses its result (`exists_lost_result`).
-/

namespace TypedConfig.CommandLine

/-! ### One result -/

theorem plain_resultName (path : String) : Plain (stem path ++ ".resolved.json") := by
  have hlong : 2 < (stem path ++ ".resolved.json").length := by
    rw [String.length_append]
    exact Nat.lt_add_left _ (by decide)
  refine ⟨by simpa using slash_not_mem_stem path, ?_, ?_, ?_⟩
  all_goals exact fun heq => absurd (heq ▸ hlong) (by decide)

theorem stem_eq_of_locate {s : Store} {directory path other : String} {place : List String}
    (hpath : s.locate (resultPath directory path) = .ok place)
    (hother : s.locate (resultPath directory other) = .ok place) : stem path = stem other :=
  (String.append_left_inj _).1
    (Store.eq_of_locate_join (plain_resultName path) (plain_resultName other) hpath hother)

theorem resultPath_congr {directory path other : String} (h : stem path = stem other) :
    resultPath directory path = resultPath directory other := by
  rw [resultPath, resultPath, h]

section

variable {o : ResolveOptions} {directory path : String} {v : Value} {w w' : World}

theorem change_run_eq_ok (operation : Store → Except Refusal Store) :
    (World.change operation).run w = (.ok (), w') ↔
      ∃ store, operation w.store = .ok store ∧ w' = { w with store } := by
  unfold World.change
  cases hstore : operation w.store with
  | ok store =>
    simp only [StateT.run, hstore]
    constructor
    · rintro ⟨⟩
      exact ⟨store, rfl, rfl⟩
    · rintro ⟨_, ⟨⟩, rfl⟩
      rfl
  | error e =>
    simp only [StateT.run, hstore]
    constructor
    · rintro ⟨⟩
    · rintro ⟨_, ⟨⟩, -⟩

theorem makeDirectories_run_eq_ok : (World.host.makeDirectories path).run w = (.ok (), w') ↔
    ∃ store, w.store.makeDirectories path = .ok store ∧ w' = { w with store } :=
  change_run_eq_ok fun s => s.makeDirectories path

theorem write_run_eq_ok {content : String} :
    (World.host.write path content).run w = (.ok (), w') ↔
      ∃ store, w.store.write path content = .ok store ∧ w' = { w with store } :=
  change_run_eq_ok fun s => s.write path content

theorem putOut_run_eq_ok (hdirectory : o.outDirectory = some directory) :
    (putOut World.host o path v).run.run w = (.ok (), w') ↔ ∃ made written,
      w.store.makeDirectories directory = .ok made ∧
      made.write (resultPath directory path) v.toJson.pretty = .ok written ∧
      w' = { w with store := written } := by
  unfold putOut
  simp only [hdirectory, bind_run_eq_ok, orFail_run_eq_ok]
  constructor
  · rintro ⟨⟨⟩, r, hmakeRun, hwriteRun⟩
    obtain ⟨made, hmake, rfl⟩ := makeDirectories_run_eq_ok.1 hmakeRun
    obtain ⟨written, hwrite, rfl⟩ := write_run_eq_ok.1 hwriteRun
    exact ⟨made, written, hmake, hwrite, rfl⟩
  · rintro ⟨made, written, hmake, hwrite, rfl⟩
    exact ⟨(), _, makeDirectories_run_eq_ok.2 ⟨made, hmake, rfl⟩,
      write_run_eq_ok.2 ⟨written, hwrite, rfl⟩⟩

end

/-! ### All results -/

/-- Results put into files of a directory, one after the other. -/
inductive PutsOut (directory : String) : Store → List (String × Value) → Store → Prop
  | nil (s : Store) : PutsOut directory s [] s
  | cons {s made written s' : Store} {path : String} {v : Value} {results : List (String × Value)}
      (hmake : s.makeDirectories directory = .ok made)
      (hwrite : made.write (resultPath directory path) v.toJson.pretty = .ok written)
      (h : PutsOut directory written results s') : PutsOut directory s ((path, v) :: results) s'

theorem complained_run_ne_zero {σ : Type} {host : Host (StateM σ)} {text : String}
    {rest : StateM σ Nat} {s s' : σ} :
    (do host.complain text; return 1 + (← rest) : StateM σ Nat).run s ≠ (0, s') := by
  intro h
  have hcount : 1 + (rest.run ((host.complain text).run s).2).1 = 0 := congrArg Prod.fst h
  omega

theorem putOutAll_cons_run_eq_zero {σ : Type} {host : Host (StateM σ)} {o : ResolveOptions}
    {path : String} {outcome : Except Failure Value}
    {rest : List (String × Except Failure Value)} {s s' : σ} :
    (putOutAll host o ((path, outcome) :: rest)).run s = (0, s') ↔ ∃ v r, outcome = .ok v ∧
      (putOut host o path v).run.run s = (.ok (), r) ∧ (putOutAll host o rest).run r = (0, s') := by
  simp only [putOutAll]
  cases outcome with
  | error e =>
    constructor
    · exact fun h => absurd h complained_run_ne_zero
    · rintro ⟨v, r, ⟨⟩, -⟩
  | ok v =>
    rw [StateT.run_bind]
    rcases hput : (putOut host o path v).run.run s with ⟨e | ⟨⟩, r⟩
    · constructor
      · exact fun h => absurd h complained_run_ne_zero
      · rintro ⟨_, _, ⟨⟩, hdone, -⟩
        cases hput.symm.trans hdone
    · constructor
      · exact fun h => ⟨v, r, rfl, hput, h⟩
      · rintro ⟨_, _, ⟨⟩, hdone, h⟩
        cases hput.symm.trans hdone
        exact h

theorem putOutAll_run_eq_zero {o : ResolveOptions} {directory : String}
    {outcomes : List (String × Except Failure Value)} {w w' : World}
    (hdirectory : o.outDirectory = some directory) :
    (putOutAll World.host o outcomes).run w = (0, w') ↔ ∃ results s',
      outcomes = results.map (fun result => (result.1, .ok result.2)) ∧
      PutsOut directory w.store results s' ∧ w' = { w with store := s' } := by
  induction outcomes generalizing w with
  | nil =>
    constructor
    · rintro ⟨⟩
      exact ⟨[], _, rfl, .nil _, rfl⟩
    · rintro ⟨results, s', hnil, h, rfl⟩
      cases List.map_eq_nil_iff.1 hnil.symm
      cases h
      rfl
  | cons outcome outcomes ih =>
    obtain ⟨path, outcome⟩ := outcome
    simp only [putOutAll_cons_run_eq_zero, putOut_run_eq_ok hdirectory, ih]
    constructor
    · rintro ⟨v, _, rfl, ⟨made, written, hmake, hwrite, rfl⟩, results, s', rfl, h, rfl⟩
      exact ⟨(path, v) :: results, s', rfl, .cons hmake hwrite h, rfl⟩
    · rintro ⟨results, s', heq, h, rfl⟩
      cases h with
      | nil => cases heq
      | cons hmake hwrite h =>
        cases heq
        exact ⟨_, _, rfl, ⟨_, _, hmake, hwrite, rfl⟩, _, _, rfl, h, rfl⟩

/-- The last one of the results of inputs with its stem. -/
def IsLast (results : List (String × Value)) (result : String × Value) : Prop :=
  ∃ before after, results = before ++ result :: after ∧
    ∀ later ∈ after, stem later.1 ≠ stem result.1

namespace PutsOut

variable {directory path content : String} {s s' : Store} {results : List (String × Value)}

/-- A result stays as long as no input with its stem follows. -/
theorem read_of_stem_ne (h : PutsOut directory s results s')
    (hread : s.read (resultPath directory path) = .ok content)
    (hne : ∀ later ∈ results, stem later.1 ≠ stem path) :
    s'.read (resultPath directory path) = .ok content := by
  induction h with
  | nil => exact hread
  | cons hmake hwrite _ ih =>
    obtain ⟨hhead, htail⟩ := List.forall_mem_cons.1 hne
    have hmade := (Store.Extends.makeDirectories hmake).read hread
    exact ih (Store.read_write_of_ne hwrite hmade fun place hpath hother =>
      hhead (stem_eq_of_locate hother hpath)) htail

theorem exists_last (h : PutsOut directory s results s') : ∀ result ∈ results, ∃ last,
    IsLast results last ∧ stem last.1 = stem result.1 ∧
      s'.read (resultPath directory result.1) = .ok last.2.toJson.pretty := by
  induction h with
  | nil => simp
  | @cons s made written s' path v results hmake hwrite h ih =>
    intro result hresult
    by_cases hlater : ∃ later ∈ results, stem later.1 = stem result.1
    · obtain ⟨later, hmem, hstem⟩ := hlater
      obtain ⟨last, ⟨before, after, rfl, hlast⟩, hsame, hread⟩ := ih later hmem
      refine ⟨last, ⟨(path, v) :: before, after, rfl, hlast⟩, hsame.trans hstem, ?_⟩
      rwa [← resultPath_congr hstem]
    · -- no input with this stem follows, so that this is the first one, and the last
      have hfirst : result = (path, v) := by
        rcases List.mem_cons.1 hresult with rfl | hmem
        · rfl
        · exact absurd ⟨result, hmem, rfl⟩ hlater
      subst hfirst
      have hne : ∀ later ∈ results, stem later.1 ≠ stem path :=
        fun later hmem heq => hlater ⟨later, hmem, heq⟩
      exact ⟨(path, v), ⟨[], results, rfl, hne⟩, rfl,
        h.read_of_stem_ne (Store.read_write_self hwrite) hne⟩

end PutsOut

/-! ### The whole command -/

/-- An input that is no pattern stands for itself. -/
theorem mapM_expandInput_run {σ : Type} (host : Host (StateM σ)) {inputs : List String}
    (h : ∀ input ∈ inputs, isPattern input = false) (s : σ) :
    (inputs.mapM (expandInput host)).run.run s = (.ok (inputs.map fun input => [input]), s) := by
  refine mapM_run_of_forall fun input hinput => ?_
  rw [expandInput, if_neg (by simp [h input hinput])]
  rfl

theorem runResolve_run_eq_ok {σ : Type} {host : Host (StateM σ)} (hhost : host.IsStable)
    {o : ResolveOptions} {s s' : σ} : (runResolve host o).run.run s = (.ok (), s') ↔
      ∃ schema externals paths,
        (loadSchema host o.schema).run.run s = (.ok schema, s) ∧
        (loadVariables host o).run.run s = (.ok externals, s) ∧
        (o.inputs.mapM (expandInput host)).run.run s = (.ok paths, s) ∧
        (putOutAll host o (paths.flatten.map fun path =>
          let settings : Settings := { Settings.initial with externals, selfName := o.selfName }
          (path, ((resolveFile host ⟨schema, settings⟩ path).run s).1))).run s = (0, s') := by
  have houtcomes (r : Resolver) (paths : List String) :
      (paths.mapM fun path => do return (path, ← ExceptT.lift (resolveFile host r path)) :
        ExceptT Failure (StateM σ) (List (String × Except Failure Value))).run.run s =
      (.ok (paths.map fun path => (path, ((resolveFile host r path).run s).1)), s) := by
    refine mapM_run_of_forall fun path _ => ?_
    rw [bind_run_eq_ok]
    exact ⟨_, s, lift_run_eq_ok.2 (Prod.ext rfl (hhost.resolveFile r path s)), rfl⟩
  unfold runResolve
  simp only [bind_run_eq_ok]
  constructor
  · rintro ⟨schema, _, hschema, externals, _, hexternals, paths, _, hpaths, outcomes, _, hresolve,
      failed, _, hfailed, hend⟩
    obtain rfl := (hhost.loadSchema _).eq hschema
    obtain rfl := (hhost.loadVariables _).eq hexternals
    obtain rfl := (Observes.mapM hhost.expandInput _).eq hpaths
    cases (houtcomes _ _).symm.trans hresolve
    split at hend
    · cases hend
    · next hzero =>
      obtain ⟨-, rfl⟩ := pure_run_eq_ok.1 hend
      have hput := lift_run_eq_ok.1 hfailed
      rw [not_not.1 hzero] at hput
      exact ⟨schema, externals, paths, hschema, hexternals, hpaths, hput⟩
  · rintro ⟨schema, externals, paths, hschema, hexternals, hpaths, hput⟩
    refine ⟨schema, s, hschema, externals, s, hexternals, paths, s, hpaths, _, s, houtcomes _ _,
      0, s', lift_run_eq_ok.2 hput, rfl⟩

theorem World.isStable_host : World.host.IsStable := ⟨fun _ _ => rfl, fun _ => rfl⟩

/-- A command that succeeds has resolved all inputs, and the file of an input holds the result of
the last input with the same stem. So all results are there if the stems differ. -/
theorem results_of_runResolve {o : ResolveOptions} {directory : String} {w w' : World}
    (hdirectory : o.outDirectory = some directory)
    (h : (runResolve World.host o).run.run w = (.ok (), w')) :
    ∃ schema externals paths results,
      (loadSchema World.host o.schema).run.run w = (.ok schema, w) ∧
      (loadVariables World.host o).run.run w = (.ok externals, w) ∧
      (o.inputs.mapM (expandInput World.host)).run.run w = (.ok paths, w) ∧
      results.map Prod.fst = paths.flatten ∧
      (∀ result ∈ results, (resolveFile World.host
        ⟨schema, { Settings.initial with externals, selfName := o.selfName }⟩ result.1).run w =
          (.ok result.2, w)) ∧
      (∀ result ∈ results, ∃ last, IsLast results last ∧ stem last.1 = stem result.1 ∧
        w'.store.read (resultPath directory result.1) = .ok last.2.toJson.pretty) ∧
      ((paths.flatten.map stem).Nodup → ∀ result ∈ results,
        w'.store.read (resultPath directory result.1) = .ok result.2.toJson.pretty) := by
  obtain ⟨schema, externals, paths, hschema, hexternals, hpaths, hput⟩ :=
    (runResolve_run_eq_ok World.isStable_host).1 h
  obtain ⟨results, s', houtcomes, hputs, rfl⟩ := (putOutAll_run_eq_zero hdirectory).1 hput
  have hfst : results.map Prod.fst = paths.flatten := by
    have := congrArg (List.map Prod.fst) houtcomes
    simpa [Function.comp_def] using this.symm
  refine ⟨schema, externals, paths, results, hschema, hexternals, hpaths, hfst, ?_,
    hputs.exists_last, ?_⟩
  · intro result hresult
    have hmem : (result.1, Except.ok result.2) ∈ paths.flatten.map _ :=
      houtcomes ▸ List.mem_map_of_mem hresult
    obtain ⟨path, -, hpath⟩ := List.mem_map.1 hmem
    obtain ⟨rfl, hresolve⟩ := Prod.mk.inj hpath
    exact Prod.ext hresolve (World.isStable_host.resolveFile _ _ w)
  · intro hnodup result hresult
    obtain ⟨last, hlast, hstem, hread⟩ := hputs.exists_last result hresult
    obtain ⟨before, after, rfl, -⟩ := hlast
    rw [← hfst, List.map_map] at hnodup
    have hsame := List.inj_on_of_nodup_map hnodup (by simp) hresult hstem
    rwa [hsame] at hread

/-- The options to resolve inputs in a directory against one schema. -/
def releaseOptions (inputs : List String) : ResolveOptions where
  schema := "schema.json"
  inputs
  externals := none
  assignments := []
  selfName := "this"
  outDirectory := some "out"
  compact := false
  showOnly := false

/-- A working directory with a schema that admits everything, and configurations. -/
def releaseWorld : World :=
  .ofStore (.ofFiles [("schema.json", "\x7b\"type\":\"any\"\x7d"), ("a.json", "true"),
    ("a.txt", "false"), ("b.json", "null")])

/-- The resolver for these options. -/
def releaseResolver : Resolver := ⟨.any, { Settings.initial with externals := .object [] }⟩

theorem loadDocument_run_of_read {path content : String} {j : Json} {w : World}
    (hcontent : w.store.read path = .ok content)
    (hread : (formatOf path).read? content = some j) :
    (loadDocument World.host path).run.run w = (.ok j, w) :=
  loadDocument_run_eq_ok.2 ⟨content, Prod.ext hcontent rfl, hread⟩

theorem loadSchema_release :
    (loadSchema World.host "schema.json").run.run releaseWorld = (.ok .any, releaseWorld) := by
  have hcontent : releaseWorld.store.read "schema.json" = .ok "\x7b\"type\":\"any\"\x7d" := rfl
  have hread : (formatOf "schema.json").read? "\x7b\"type\":\"any\"\x7d" =
      some (.object [("type", .string "any")]) := by cbv
  exact loadSchema_run_eq_ok.2 ⟨_, loadDocument_run_of_read hcontent hread, by cbv⟩

theorem loadVariables_release (inputs : List String) :
    (loadVariables World.host (releaseOptions inputs)).run.run releaseWorld =
      (.ok (.object []), releaseWorld) := rfl

theorem resolveFile_release {path content : String} {raw : Json} {v : Value}
    (hcontent : releaseWorld.store.read path = .ok content)
    (hraw : (formatOf path).read? content = some raw) (hv : releaseResolver.resolve raw = .ok v) :
    (resolveFile World.host releaseResolver path).run releaseWorld = (.ok v, releaseWorld) :=
  resolveFile_run_eq_ok.2 ⟨raw, loadDocument_run_of_read hcontent hraw, hv⟩

theorem resolveFile_release_a : (resolveFile World.host releaseResolver "a.json").run
    releaseWorld = (.ok (.bool true), releaseWorld) := by
  have hcontent : releaseWorld.store.read "a.json" = .ok "true" := rfl
  have hraw : (formatOf "a.json").read? "true" = some (.bool true) := by cbv
  exact resolveFile_release hcontent hraw (by cbv)

theorem runResolve_release {inputs : List String} {results : List (String × Value)} {s' : Store}
    (hpatterns : ∀ input ∈ inputs, isPattern input = false)
    (hinputs : results.map Prod.fst = inputs)
    (hresults : ∀ result ∈ results, (resolveFile World.host releaseResolver result.1).run
      releaseWorld = (.ok result.2, releaseWorld))
    (hputs : PutsOut "out" releaseWorld.store results s') :
    (runResolve World.host (releaseOptions inputs)).run.run releaseWorld =
      (.ok (), { releaseWorld with store := s' }) := by
  have hpaths := mapM_expandInput_run World.host hpatterns releaseWorld
  refine (runResolve_run_eq_ok World.isStable_host).2
    ⟨_, _, _, loadSchema_release, loadVariables_release inputs, hpaths, ?_⟩
  refine (putOutAll_run_eq_zero rfl).2 ⟨results, s', ?_, hputs, rfl⟩
  rw [← hinputs, ← List.flatMap_def, List.flatMap_singleton', List.map_map]
  exact List.map_congr_left fun result hresult =>
    congrArg (fun outcome => (result.1, outcome.1)) (hresults result hresult)

/-- The working directory with results. -/
def releaseStore (results : List (String × String)) : Store :=
  ⟨results.map (fun result => (["out", result.1], .file result.2)) ++
    (["out"], .directory) :: releaseWorld.store.items⟩

theorem putsOut_release {path name text : String} {v : Value} {s' : Store}
    (hpath : resultPath "out" path = "out/" ++ name) (htext : v.toJson.pretty = text)
    (hwrite : (releaseStore [("a.resolved.json", "true")]).write ("out/" ++ name) text = .ok s') :
    PutsOut "out" releaseWorld.store [("a.json", .bool true), (path, v)] s' := by
  have hmake : releaseWorld.store.makeDirectories "out" = .ok (releaseStore []) := rfl
  have hfirst : (releaseStore []).write (resultPath "out" "a.json")
      (Value.bool true).toJson.pretty = .ok (releaseStore [("a.resolved.json", "true")]) := rfl
  have hagain : (releaseStore [("a.resolved.json", "true")]).makeDirectories "out" =
      .ok (releaseStore [("a.resolved.json", "true")]) := rfl
  rw [← hpath, ← htext] at hwrite
  exact .cons hmake hfirst (.cons hagain hwrite (.nil _))

/-- Two results with names of their own are both there. -/
theorem exists_results_of_release : ∃ w',
    (runResolve World.host (releaseOptions ["a.json", "b.json"])).run.run releaseWorld =
      (.ok (), w') ∧
    w'.store.read "out/a.resolved.json" = .ok "true" ∧
    w'.store.read "out/b.resolved.json" = .ok "null" := by
  have ha := resolveFile_release_a
  have hb : (resolveFile World.host releaseResolver "b.json").run
      releaseWorld = (.ok .null, releaseWorld) := by
    have hcontent : releaseWorld.store.read "b.json" = .ok "null" := rfl
    have hraw : (formatOf "b.json").read? "null" = some .null := by cbv
    exact resolveFile_release hcontent hraw (by cbv)
  have hwrite : (releaseStore [("a.resolved.json", "true")]).write "out/b.resolved.json" "null" =
      .ok (releaseStore [("b.resolved.json", "null"), ("a.resolved.json", "true")]) := rfl
  have hpath : resultPath "out" "b.json" = "out/" ++ "b.resolved.json" := rfl
  have hputs := putsOut_release hpath (v := .null) rfl hwrite
  have hpatterns : ∀ input ∈ ["a.json", "b.json"], isPattern input = false := by decide
  have hrun := runResolve_release hpatterns rfl (by simp [ha, hb]) hputs
  obtain ⟨schema, externals, paths, results, hschema, hexternals, hpaths, hfst, hresults, -, h⟩ :=
    results_of_runResolve rfl hrun
  obtain rfl := eq_of_outcome_eq hschema loadSchema_release
  obtain rfl := eq_of_outcome_eq hexternals (loadVariables_release _)
  obtain rfl := eq_of_outcome_eq hpaths (mapM_expandInput_run World.host hpatterns releaseWorld)
  obtain ⟨⟨_, v⟩, rest, rfl, rfl, hrest⟩ := List.map_eq_cons_iff.1 hfst
  obtain ⟨⟨_, v'⟩, _, rfl, rfl, hnil⟩ := List.map_eq_cons_iff.1 hrest
  obtain rfl := eq_of_outcome_eq (hresults (_, v) (by simp)) ha
  obtain rfl := eq_of_outcome_eq (hresults (_, v') (by simp)) hb
  have hkept := h (by decide)
  exact ⟨_, hrun, hkept ("a.json", .bool true) (by simp), hkept ("b.json", .null) (by simp)⟩

/-- Of two results with one name, the first one is in no file of the directory. -/
theorem exists_lost_result : ∃ schema externals v w', ["a.json", "a.txt"].Nodup ∧
    (runResolve World.host (releaseOptions ["a.json", "a.txt"])).run.run releaseWorld =
      (.ok (), w') ∧
    (loadSchema World.host "schema.json").run.run releaseWorld = (.ok schema, releaseWorld) ∧
    (loadVariables World.host (releaseOptions ["a.json", "a.txt"])).run.run releaseWorld =
      (.ok externals, releaseWorld) ∧
    (resolveFile World.host ⟨schema, { Settings.initial with externals }⟩ "a.json").run
      releaseWorld = (.ok v, releaseWorld) ∧
    ∀ names, w'.store.find? ("out" :: names) ≠ some (.file v.toJson.pretty) := by
  have ha := resolveFile_release_a
  have htxt : (resolveFile World.host releaseResolver "a.txt").run
      releaseWorld = (.ok (.bool false), releaseWorld) := by
    have hcontent : releaseWorld.store.read "a.txt" = .ok "false" := rfl
    have hraw : (formatOf "a.txt").read? "false" = some (.bool false) := by cbv
    exact resolveFile_release hcontent hraw (by cbv)
  have hwrite : (releaseStore [("a.resolved.json", "true")]).write "out/a.resolved.json" "false" =
      .ok (releaseStore [("a.resolved.json", "false")]) := rfl
  have hpath : resultPath "out" "a.txt" = "out/" ++ "a.resolved.json" := rfl
  have hputs := putsOut_release hpath (v := .bool false) rfl hwrite
  have hpatterns : ∀ input ∈ ["a.json", "a.txt"], isPattern input = false := by decide
  have hrun := runResolve_release hpatterns rfl (by simp [ha, htxt]) hputs
  refine ⟨_, _, _, _, by decide, hrun, loadSchema_release, loadVariables_release _, ha, ?_⟩
  intro names hfind
  have hmem := Store.mem_items_of_find? hfind
  have hitems : (releaseStore [("a.resolved.json", "false")]).items =
      [(["out", "a.resolved.json"], .file "false"), (["out"], .directory),
        (["b.json"], .file "null"), (["a.txt"], .file "false"), (["a.json"], .file "true"),
        (["schema.json"], .file "\x7b\"type\":\"any\"\x7d")] := rfl
  have htext : (Value.bool true).toJson.pretty = "true" := rfl
  rw [hitems, htext] at hmem
  simp at hmem

end TypedConfig.CommandLine
