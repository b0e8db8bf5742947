import TypedConfig.CommandLine.Run

/-!
# Steps of commands

A command on a host with a state succeeds if each of its steps does, each in the state that the one
before it left (`bind_run_eq_ok`, `orFail_run_eq_ok`). Documents are read, and the schema and the
variables with them (`loadDocument_run_eq_ok`, `loadSchema_run_eq_ok`, `loadVariables_run_eq_ok`).
Up to the results, a command only looks at a host (`Observes`) that does not change as it is read
(`Host.IsStable`).
-/

namespace TypedConfig.CommandLine

variable {σ ε α β : Type} {s s' : σ}

theorem pure_run_eq_ok {a b : α} :
    (pure a : ExceptT ε (StateM σ) α).run.run s = (.ok b, s') ↔ b = a ∧ s' = s := by
  constructor
  · rintro ⟨⟩
    exact ⟨rfl, rfl⟩
  · rintro ⟨rfl, rfl⟩
    rfl

theorem bind_run_eq_ok {x : ExceptT ε (StateM σ) α} {f : α → ExceptT ε (StateM σ) β} {b : β} :
    (x >>= f).run.run s = (.ok b, s') ↔
      ∃ a r, x.run.run s = (.ok a, r) ∧ (f a).run.run r = (.ok b, s') := by
  rw [ExceptT.run_bind, StateT.run_bind]
  rcases hx : x.run.run s with ⟨_ | a, r⟩
  · constructor
    · rintro ⟨⟩
    · rintro ⟨a, r, ⟨⟩, -⟩
  · constructor
    · exact fun h => ⟨a, r, rfl, h⟩
    · rintro ⟨a, r, ⟨⟩, h⟩
      exact h

theorem lift_run_eq_ok {x : StateM σ α} {a : α} :
    (ExceptT.lift x : ExceptT ε (StateM σ) α).run.run s = (.ok a, s') ↔ x.run s = (a, s') := by
  have hrun : (ExceptT.lift x : ExceptT ε (StateM σ) α).run.run s =
      (.ok (x.run s).1, (x.run s).2) := rfl
  rw [hrun, Prod.mk.injEq, Except.ok.injEq, Prod.ext_iff]

theorem orFail_run_eq_ok {reason : ε → Failure} {outcome : StateM σ (Except ε α)} {a : α} :
    (orFail reason outcome).run.run s = (.ok a, s') ↔ outcome.run s = (.ok a, s') := by
  rw [orFail, bind_run_eq_ok]
  constructor
  · rintro ⟨x, r, hx, h⟩
    rw [← lift_run_eq_ok (ε := Failure)]
    cases x with
    | ok b =>
      obtain ⟨rfl, rfl⟩ := pure_run_eq_ok.1 h
      exact hx
    | error e => cases h
  · exact fun h => ⟨.ok a, s', lift_run_eq_ok.2 h, rfl⟩

theorem eq_of_outcome_eq {σ ε α : Type} {x : StateM σ (Except ε α)} {a b : α} {s s' r : σ}
    (ha : x.run s = (.ok a, s')) (hb : x.run s = (.ok b, r)) : a = b :=
  Except.ok.inj (Prod.mk.inj (ha.symm.trans hb)).1

theorem mapM_run_of_forall {σ ε α β : Type} {f : α → ExceptT ε (StateM σ) β} {g : α → β} {s : σ}
    {l : List α} (h : ∀ a ∈ l, (f a).run.run s = (.ok (g a), s)) :
    (l.mapM f).run.run s = (.ok (l.map g), s) := by
  induction l with
  | nil => rfl
  | cons a l ih =>
    obtain ⟨hhead, htail⟩ := List.forall_mem_cons.1 h
    rw [List.mapM_cons]
    exact bind_run_eq_ok.2 ⟨g a, s, hhead, bind_run_eq_ok.2 ⟨l.map g, s, ih htail, rfl⟩⟩

/-- The state stays as it is, whatever the outcome. -/
def Observes (x : ExceptT ε (StateM σ) α) : Prop := ∀ s, (x.run.run s).2 = s

namespace Observes

theorem eq {x : ExceptT ε (StateM σ) α} {outcome : Except ε α} (h : Observes x)
    (hx : x.run.run s = (outcome, s')) : s' = s := by
  rw [← h s, hx]

theorem pure (a : α) : Observes (Pure.pure a : ExceptT ε (StateM σ) α) := fun _ => rfl

theorem throw (e : ε) : Observes (MonadExcept.throw e : ExceptT ε (StateM σ) α) := fun _ => rfl

theorem lift {x : StateM σ α} (h : ∀ s, (x.run s).2 = s) :
    Observes (ExceptT.lift x : ExceptT ε (StateM σ) α) := h

theorem bind {x : ExceptT ε (StateM σ) α} {f : α → ExceptT ε (StateM σ) β} (hx : Observes x)
    (hf : ∀ a, Observes (f a)) : Observes (x >>= f) := by
  intro s
  rw [ExceptT.run_bind, StateT.run_bind]
  have hs := hx s
  rcases hrun : x.run.run s with ⟨_ | a, r⟩
  · rw [hrun] at hs
    exact hs
  · rw [hrun] at hs
    exact (hf a r).trans hs

theorem orFail {reason : ε → Failure} {outcome : StateM σ (Except ε α)}
    (h : ∀ s, (outcome.run s).2 = s) : Observes (orFail reason outcome) := by
  refine .bind (.lift h) fun x => ?_
  cases x with
  | ok a => exact .pure a
  | error e => exact .throw _

theorem mapM {f : α → ExceptT ε (StateM σ) β} (h : ∀ a, Observes (f a)) (l : List α) :
    Observes (l.mapM f) := by
  induction l with
  | nil => exact .pure []
  | cons a l ih =>
    rw [List.mapM_cons]
    exact .bind (h a) fun b => .bind ih fun bs => .pure (b :: bs)

end Observes

section

variable {host : Host (StateM σ)}

theorem loadDocument_run_eq_ok {path : String} {j : Json} :
    (loadDocument host path).run.run s = (.ok j, s') ↔ ∃ content,
      (host.read path).run s = (.ok content, s') ∧ (formatOf path).read? content = some j := by
  rw [loadDocument, bind_run_eq_ok]
  constructor
  · rintro ⟨content, r, hread, h⟩
    cases hj : (formatOf path).read? content with
    | none =>
      simp only [hj] at h
      cases h
    | some i =>
      simp only [hj] at h
      obtain ⟨rfl, rfl⟩ := pure_run_eq_ok.1 h
      exact ⟨content, orFail_run_eq_ok.1 hread, hj⟩
  · rintro ⟨content, hread, hj⟩
    refine ⟨content, s', orFail_run_eq_ok.2 hread, ?_⟩
    simp only [hj]
    rfl

theorem loadSchema_run_eq_ok {path : String} {schema : Schema} :
    (loadSchema host path).run.run s = (.ok schema, s') ↔ ∃ definition,
      (loadDocument host path).run.run s = (.ok definition, s') ∧
        schemaOf definition = .ok schema := by
  rw [loadSchema, bind_run_eq_ok]
  simp only [orFail_run_eq_ok]
  constructor
  · rintro ⟨definition, r, hload, h⟩
    obtain ⟨hschema, rfl⟩ := Prod.mk.inj h
    exact ⟨definition, hload, hschema⟩
  · rintro ⟨definition, hload, hschema⟩
    refine ⟨definition, s', hload, ?_⟩
    rw [hschema]
    rfl

theorem loadVariables_run_eq_ok {o : ResolveOptions} {j : Json} :
    (loadVariables host o).run.run s = (.ok j, s') ↔ ∃ original,
      (match o.externals with
        | some path => (loadDocument host path).run.run s = (.ok original, s')
        | none => original = .object [] ∧ s' = s) ∧
      assignAll original o.assignments = .ok j := by
  have hassigned {original : Json} {r : σ} :
      (orFail id (pure (assignAll original o.assignments)) :
        ExceptT Failure (StateM σ) Json).run.run r = (.ok j, s') ↔
      assignAll original o.assignments = .ok j ∧ r = s' :=
    orFail_run_eq_ok.trans Prod.ext_iff
  rw [loadVariables]
  cases o.externals with
  | some path =>
    simp only [bind_run_eq_ok, hassigned]
    constructor
    · rintro ⟨original, r, hload, hassign, rfl⟩
      exact ⟨original, hload, hassign⟩
    · rintro ⟨original, hload, hassign⟩
      exact ⟨original, s', hload, hassign, rfl⟩
  | none =>
    simp only [bind_run_eq_ok, hassigned, pure_run_eq_ok]
    constructor
    · rintro ⟨original, r, ⟨rfl, rfl⟩, hassign, rfl⟩
      exact ⟨_, ⟨rfl, rfl⟩, hassign⟩
    · rintro ⟨original, ⟨rfl, rfl⟩, hassign⟩
      exact ⟨_, _, ⟨rfl, rfl⟩, hassign, rfl⟩

theorem resolveFile_run_eq_ok {r : Resolver} {path : String} {v : Value} :
    (resolveFile host r path).run s = (.ok v, s') ↔ ∃ raw,
      (loadDocument host path).run.run s = (.ok raw, s') ∧ r.resolve raw = .ok v := by
  refine bind_run_eq_ok.trans (exists_congr fun raw => ?_)
  simp only [orFail_run_eq_ok]
  constructor
  · rintro ⟨_, hload, h⟩
    obtain ⟨hresolve, rfl⟩ := Prod.mk.inj h
    exact ⟨hload, hresolve⟩
  · rintro ⟨hload, hresolve⟩
    refine ⟨s', hload, ?_⟩
    rw [hresolve]
    rfl

/-! ### Commands that only look -/

/-- The host is as it was when a file has been read, or the directories have been listed. -/
structure Host.IsStable (host : Host (StateM σ)) : Prop where
  read : ∀ path s, ((host.read path).run s).2 = s
  tree : ∀ s, (host.tree.run s).2 = s

namespace Host.IsStable

variable (h : host.IsStable)

include h

theorem loadDocument (path : String) : Observes (loadDocument host path) := by
  refine .bind (.orFail (h.read path)) fun content => ?_
  simp only
  cases (formatOf path).read? content with
  | some j => exact .pure j
  | none => exact .throw _

theorem loadSchema (path : String) : Observes (loadSchema host path) :=
  .bind (h.loadDocument path) fun _ => .orFail fun _ => rfl

theorem loadVariables (o : ResolveOptions) : Observes (loadVariables host o) := by
  rw [CommandLine.loadVariables]
  cases o.externals with
  | some path => exact .bind (h.loadDocument path) fun _ => .orFail fun _ => rfl
  | none => exact .bind (.pure _) fun _ => .orFail fun _ => rfl

theorem expandInput (input : String) : Observes (expandInput host input) := by
  rw [CommandLine.expandInput]
  split
  · refine .bind (.lift h.tree) fun tree => ?_
    rcases Glob.paths input tree with _ | _ | paths
    · exact .throw _
    · exact .throw _
    · exact .pure _
  · exact .pure _

theorem resolveFile (r : Resolver) (path : String) (s : σ) :
    ((resolveFile host r path).run s).2 = s :=
  Observes.bind (h.loadDocument path) (fun _ => .orFail fun _ => rfl) s

end Host.IsStable

end

end TypedConfig.CommandLine
