import TypedConfig.Proofs.Resolution.Course

/-!
# Resolving an open leaf

`Computes.resolveOpen`: if the leaves that a leaf refers to get their values, then the leaf becomes
what it should be (`Leaf.evaluate`), and all of them are done by then. `I` is what holds while the
leaf looks up names, and `J` what holds once it has its text, and has had it parsed.
-/

namespace TypedConfig

/-- The leaf is handed to a parser, as the given type. -/
def Leaf.parsedAs? (l : Leaf) : Option LeafType :=
  match l.preset, l.kind, l.raw with
  | none, .typed type, .string _ => some type
  | none, .typed (.scalar type), _ => some (.scalar type)
  | _, _, _ => none

/-- What holds while a leaf looks up names, and what holds in the end: after its text was parsed, if
this is what the leaf should come to, or right away if nothing is to be parsed. -/
structure Leaf.Phases (s : Settings) (root : Node) (l : Leaf) (I J : Progress → Prop) : Prop where
  lookup : ∀ p name, I p → I (p.log (.lookup l.place name))
  parse : ∀ type, l.parsedAs? = some type → ∀ p text, I p →
    p.Determines (fun σ => l.evaluate s (root.value σ)) (s.parsed l.place type l.raw text) →
    J (p.log (.parse l.place type text))
  quiet : l.parsedAs? = none → ∀ p, I p → J p

namespace Resolution.Computes

variable {settings : Settings} {root : Node} {I J : Progress → Prop}
  {E : Error → Progress → Prop} {again again' : Leaf → Resolution Value}

theorem followInternal {unknown : Error} {parts : List String}
    (h : ∀ l, root.LeadsTo parts l → Answers I E l (again l) (again' l)) :
    Computes I I E (root.LeadsTo parts)
      (followInternal root (fun n => n.assemble again) unknown parts)
      (followInternal root (fun n => n.assemble again') unknown parts)
      fun σ => foundOr unknown ((root.value σ).descend? parts) := by
  unfold Resolution.followInternal
  cases hloc : root.locate? parts with
  | none =>
    refine (throw unknown).congr (fun _ h => h) fun σ => ?_
    rw [Node.descend?_value, hloc]
    rfl
  | some found =>
    obtain ⟨node, rest⟩ := found
    have hnode := Computes.assemble node fun l hl => h l ⟨node, rest, hloc, hl⟩
    refine (hnode.bind (F := fun _ => False) (k := fun v _ => foundOr unknown (v.descend? rest))
      fun v => ?_).congr (fun l hl => ?_) fun σ => ?_
    · cases v.descend? rest with
      | none => exact throw unknown
      | some w => exact pure w
    · obtain ⟨_, _, hl, hmem⟩ := hl
      rw [hloc] at hl
      cases hl
      exact .inl hmem
    · rw [Node.descend?_value, hloc]
      rfl

theorem followExternal {unknown : Error} {parts : List String} :
    Computes I I E (fun _ => False) (followExternal settings unknown parts)
      (followExternal settings unknown parts)
      fun _ => foundOr unknown (settings.externals.descend? parts) := by
  unfold Resolution.followExternal
  cases settings.externals.descend? parts with
  | none => exact throw unknown
  | some j => exact pure j

theorem lookup {place : Keypath} {name : String}
    (hlog : ∀ p name, I p → I (p.log (.lookup place name)))
    (h : ∀ parts, settings.target name = .internal parts → ∀ l, root.LeadsTo parts l →
      Answers I E l (again l) (again' l)) :
    Computes I I E (fun l => ∃ parts, settings.target name = .internal parts ∧ root.LeadsTo parts l)
      (lookup settings root (fun n => n.assemble again) place name)
      (lookup settings root (fun n => n.assemble again') place name)
      fun σ => settings.textOf (root.value σ) place name := by
  unfold Resolution.lookup Settings.textOf
  cases ht : settings.target name with
  | internal parts =>
    refine ((log (fun p => hlog p name)).bind fun _ => (followInternal (h parts ht)).map _).congr
      (fun l hl => ?_) fun _ => rfl
    obtain ⟨_, he, hl⟩ := hl
    cases he
    exact .inr hl
  | external parts =>
    refine ((log (fun p => hlog p name)).bind fun _ => followExternal.map _).congr
      (fun l hl => ?_) fun _ => rfl
    obtain ⟨_, he, -⟩ := hl
    cases he

theorem renderPieces {D : String → Leaf → Prop} {f g : String → Resolution String}
    {k : String → Assignment → Except Error String} {ps : List Template.Piece}
    (h : ∀ body, .reference body ∈ ps →
      let name := Template.name body; Computes I I E (D name) (f name) (g name) (k name)) :
    Computes I I E (fun l => ∃ body, .reference body ∈ ps ∧ D (Template.name body) l)
      (Template.renderPieces f ps) (Template.renderPieces g ps)
      fun σ => Template.renderPieces (fun name => k name σ) ps := by
  induction ps with
  | nil => exact (pure "").congr (by simp) fun _ => rfl
  | cons p ps ih =>
    have hps := ih fun body hb => h body (List.mem_cons_of_mem _ hb)
    have hp : Computes I I E (fun l => ∃ body, p = .reference body ∧ D (Template.name body) l)
        (p.render f) (p.render g) fun σ => p.render fun name => k name σ := by
      cases p with
      | char c => exact (pure c.toString).congr (by simp) fun _ => rfl
      | escape => exact (pure "$\x7b").congr (by simp) fun _ => rfl
      | reference body => exact (h body (List.mem_cons_self ..)).congr (by simp) fun _ => rfl
    refine (hp.bind fun head => hps.map (head ++ ·)).congr (fun l hl => ?_) fun _ => rfl
    obtain ⟨body, hb, hl⟩ := hl
    rcases List.mem_cons.1 hb with hb | hb
    · exact .inl ⟨body, hb.symm, hl⟩
    · exact .inr ⟨body, hb, hl⟩

theorem render {D : String → Leaf → Prop} {f g : String → Resolution String}
    {k : String → Assignment → Except Error String} {e : Nat → Template.Fault → Error}
    {t : Template} (h : ∀ name ∈ t.names, Computes I I E (D name) (f name) (g name) (k name)) :
    Computes I I E (fun l => ∃ name ∈ t.names, D name l)
      (t.render f fun position fault => MonadExcept.throw (e position fault))
      (t.render g fun position fault => MonadExcept.throw (e position fault))
      fun σ => t.render (fun name => k name σ) fun position fault => .error (e position fault) := by
  have hpieces := renderPieces fun body hb => h _ (Template.mem_names hb)
  have hnames (l : Leaf) (hl : ∃ name ∈ t.names, D name l) :
      ∃ body, .reference body ∈ t.pieces ∧ D (Template.name body) l := by
    obtain ⟨name, hn, hl⟩ := hl
    obtain ⟨p, hp, hname⟩ := List.mem_filterMap.1 hn
    cases p with
    | reference body =>
      cases hname
      exact ⟨body, hp, hl⟩
    | _ => cases hname
  unfold Template.render
  cases t.fault with
  | none =>
    exact (hpieces.bind (F := fun _ => False) (k := fun text _ => .ok text) pure).congr
      (fun l hl => .inl (hnames l hl)) fun _ => rfl
  | some fault =>
    exact (hpieces.bind (F := fun _ => False) (k := fun _ _ => .error (e fault.1 fault.2))
      fun _ => throw _).congr (fun l hl => .inl (hnames l hl)) fun _ => rfl

theorem parse {place : Keypath} {type : LeafType} {raw : Json} {text : String} {p : Progress}
    (h : J (p.log (.parse place type text))) :
    ComputesFrom I J E (fun _ => False) (parse settings place type raw text)
      (parse settings place type raw text) (fun _ => settings.parsed place type raw text) p := by
  unfold Resolution.parse Settings.parsed
  refine Ends.bind (ends_modify ?_)
  cases settings.parsers.get type text with
  | ok v => exact ends_pure ⟨h, .log p _, fun _ h => h.elim, fun _ _ => rfl⟩
  | error e => exact ends_throw (.inr ⟨.inr h, .log p _, fun _ _ => rfl⟩)

theorem weaken {α : Type} {D : Leaf → Prop} {x y : Resolution α} {f : Assignment → Except Error α}
    (h : Computes I I E D x y f) (hIJ : ∀ p, I p → J p) : Computes I J E D x y f :=
  fun p hp => (h p hp).mono (fun _ _ hq => ⟨hIJ _ hq.1, hq.2⟩)
    fun _ _ he => he.imp_right fun hq => ⟨.inl (hq.1.elim id id), hq.2⟩

variable {l : Leaf} (hl : l.preset = none) (hp : l.Phases settings root I J)
  (h : ∀ l', l.RefersTo settings root l' → Answers I E l' (again l') (again' l'))
include hl hp h

theorem resolveTyped {type : LeafType} (hk : l.kind = .typed type) :
    Computes I J E (l.RefersTo settings root)
      (resolveTyped settings root (fun n => n.assemble again) l.place type l.raw)
      (resolveTyped settings root (fun n => n.assemble again') l.place type l.raw)
      fun σ => settings.typedValue (root.value σ) l.place type l.raw := by
  have hnone (hr : ∀ s, l.raw ≠ .string s) (l' : Leaf) : ¬ l.RefersTo settings root l' := by
    rintro ⟨name, hn, -⟩
    cases hraw : l.raw with
    | string s => exact hr s hraw
    | _ => simp [Leaf.names, hl, hk, hraw] at hn
  have hevaluate : (fun σ => l.evaluate settings (root.value σ)) =
      fun σ => settings.typedValue (root.value σ) l.place type l.raw := by
    funext σ
    simp only [Leaf.evaluate, hl, hk]
  cases hr : l.raw with
  | string template =>
    have hnames : l.names settings.dialect = (Template.scan settings.dialect template).names := by
      simp [Leaf.names, hl, hk, hr]
    refine ((render fun name hn => lookup hp.lookup fun parts ht l' hl' =>
      h l' ⟨name, hnames ▸ hn, parts, ht, hl'⟩).bind_of_determined
        fun text p hI htext => parse ?_).congr ?_ fun _ => rfl
    · refine hp.parse type (by simp [Leaf.parsedAs?, hl, hk, hr]) p text hI ?_
      rw [hevaluate, hr]
      exact htext.bind (k := fun text _ => settings.parsed l.place type (.string template) text)
        fun _ _ => rfl
    · rintro l' ⟨name, hn, hl'⟩
      exact .inl ⟨name, hnames ▸ hn, hl'⟩
  | _ =>
    have hno := hnone (by simp [hr])
    cases type with
    | any =>
      exact ((pure _).weaken (hp.quiet (by simp [Leaf.parsedAs?, hl, hk, hr]))).congr
        (fun l' hl' => hno l' hl') fun _ => rfl
    | scalar type =>
      refine congr (fun p hI => parse (hp.parse _ (by simp [Leaf.parsedAs?, hl, hk, hr]) p _ hI ?_))
        (fun l' hl' => hno l' hl') fun _ => rfl
      rw [hevaluate, hr]
      exact fun _ _ => rfl

theorem resolveAlias {container : Container} {name : String} (hk : l.kind = .alias container name) :
    Computes I J E (l.RefersTo settings root)
      (resolveAlias settings root (fun n => n.assemble again) l.place container name)
      (resolveAlias settings root (fun n => n.assemble again') l.place container name)
      fun σ => settings.aliasValue (root.value σ) l.place container name := by
  have hnames : l.names settings.dialect = [name] := by simp [Leaf.names, hl, hk]
  have hkind (v : Value) : Computes I J E (fun _ => False)
      (if v.kind = container.kind then Pure.pure v
        else MonadExcept.throw (.shape (.mismatch l.place container.kind v.kind)))
      (if v.kind = container.kind then Pure.pure v
        else MonadExcept.throw (.shape (.mismatch l.place container.kind v.kind)))
      fun _ => if v.kind = container.kind then .ok v
        else .error (.shape (.mismatch l.place container.kind v.kind)) := by
    split
    · exact (pure v).weaken (hp.quiet (by simp [Leaf.parsedAs?, hl, hk]))
    · exact throw _
  unfold Resolution.resolveAlias Settings.aliasValue
  cases ht : settings.target name with
  | internal parts =>
    refine ((followInternal fun l' hl' => h l' ⟨name, by simp [hnames], parts, ht, hl'⟩).bind
      hkind).congr (fun l' hl' => ?_) fun _ => rfl
    obtain ⟨name', hn, parts', ht', hl'⟩ := hl'
    obtain rfl : name' = name := by simpa [hnames] using hn
    rw [ht] at ht'
    cases ht'
    exact .inl hl'
  | external parts =>
    refine ((followExternal.map Value.ofJson).bind hkind).congr
      (fun l' hl' => ?_) fun σ => ?_
    · obtain ⟨name', hn, parts', ht', hl'⟩ := hl'
      obtain rfl : name' = name := by simpa [hnames] using hn
      rw [ht] at ht'
      cases ht'
    · dsimp only
      cases settings.externals.descend? parts <;> rfl

/-- A leaf becomes what it should be, if the leaves that it refers to get their values. -/
theorem resolveOpen :
    Computes I J E (l.RefersTo settings root)
      (resolveOpen settings root (fun n => n.assemble again) l)
      (resolveOpen settings root (fun n => n.assemble again') l)
      fun σ => l.evaluate settings (root.value σ) := by
  unfold Resolution.resolveOpen Leaf.evaluate
  rw [hl]
  cases hk : l.kind with
  | typed type => exact resolveTyped hl hp h hk
  | «alias» container name => exact resolveAlias hl hp h hk

end Resolution.Computes
end TypedConfig
