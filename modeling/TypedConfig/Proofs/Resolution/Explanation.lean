import TypedConfig.Proofs.Resolution.Invariant

/-!
# Why a leaf fails

An error that comes up while a leaf is resolved is either one of a visit within, which is passed on
as it is, or the leaf itself is the reason of it (`Resolution.explains_of_resolveOpen`). By the time
of the error, the leaves that the error is about are done, and what they have come to is what they
resolve to.
-/

namespace TypedConfig

theorem Node.LeadsTo.mem_leaves {root : Node} {parts : List String} {l : Leaf}
    (h : root.LeadsTo parts l) : l ∈ root.leaves := by
  obtain ⟨node, rest, hloc, hl⟩ := h
  exact mem_leaves_of_locate? hloc l hl

theorem Progress.Settled.follows {s : Settings} {root : Node} {p : Progress} {parts : List String}
    (h : p.Settled s root) (hd : ∀ l, root.LeadsTo parts l → p.Done l) (τ : Assignment) :
    root.Follows s parts ((root.value (p.assignment τ)).descend? parts) :=
  ⟨_, fun l hl => h.resolvesTo_assignment hl.mem_leaves (hd l hl) τ, rfl⟩

namespace Resolution

theorem eq_error_of_bind {α β : Type} {x : Resolution α} {f : α → Resolution β} {e : Error}
    {p q : Progress} (h : (x >>= f) p = .error e q) :
    x p = .error e q ∨ ∃ a r, x p = .ok a r ∧ f a r = .error e q := by
  simp only [Bind.bind, EStateM.bind] at h
  cases hx : x p with
  | ok a r =>
    rw [hx] at h
    exact .inr ⟨a, r, rfl, h⟩
  | error e' q' =>
    rw [hx] at h
    cases h
    exact .inl rfl

variable {s : Settings} {root : Node} {I J : Progress → Prop} {E : Error → Progress → Prop}
  {again again' : Leaf → Resolution Value} {p q : Progress} {e : Error}

/-! ### Names -/

section
variable {parts : List String} (hset : ∀ p, I p → p.Settled s root)
  (h : ∀ l, root.LeadsTo parts l → Answers I E l (again l) (again' l)) {unknown : Error}
include hset h

theorem follows_of_followInternal {v : Value} (hp : I p)
    (hv : followInternal root (fun n => n.assemble again) unknown parts p = .ok v q) :
    I q ∧ root.Follows s parts (some v) := by
  obtain ⟨hI, -, hdone, hdet⟩ := (Computes.followInternal h p hp).eq_ok hv
  have hfollows := (hset q hI).follows hdone fun _ => .null
  have hfound := hdet _ (q.agrees_assignment fun _ => .null)
  rw [foundOr_eq_ok_iff.1 hfound] at hfollows
  exact ⟨hI, hfollows⟩

theorem follows_of_followInternal_error (hp : I p)
    (he : followInternal root (fun n => n.assemble again) unknown parts p = .error e q) :
    E e q ∨ e = unknown ∧ root.Follows s parts none := by
  unfold followInternal at he
  cases hloc : root.locate? parts with
  | none =>
    rw [hloc] at he
    cases he
    refine .inr ⟨rfl, fun _ => .null, fun l ⟨node, rest, hfound, _⟩ => ?_, ?_⟩
    · rw [hloc] at hfound
      cases hfound
    · rw [Node.descend?_value, hloc]
      rfl
  | some found =>
    obtain ⟨node, rest⟩ := found
    rw [hloc] at he
    have hnode := Computes.assemble node (fun l hl => h l ⟨node, rest, hloc, hl⟩) p hp
    rcases eq_error_of_bind he with hx | ⟨v, r, hx, he⟩
    · -- the node itself has no equation that could fail
      rcases hnode.eq_error hx with hE | ⟨-, -, hdet⟩
      · exact .inl hE
      · cases hdet _ (q.agrees_assignment fun _ => .null)
    · obtain ⟨hI, -, hdone, hdet⟩ := hnode.eq_ok hx
      have hvalue : node.value (r.assignment fun _ => .null) = v :=
        Except.ok.inj (hdet _ (r.agrees_assignment fun _ => .null))
      cases hrest : v.descend? rest with
      | some w =>
        rw [hrest] at he
        cases he
      | none =>
        rw [hrest] at he
        cases he
        have hdone' (l : Leaf) (hl : root.LeadsTo parts l) : q.Done l := by
          obtain ⟨node', rest', hloc', hmem⟩ := hl
          rw [hloc] at hloc'
          cases hloc'
          exact hdone l hmem
        have hfollows := (hset q hI).follows hdone' fun _ => .null
        rw [Node.descend?_value, hloc, Option.bind_some, hvalue, hrest] at hfollows
        exact .inr ⟨rfl, hfollows⟩

end

theorem reaches_of_lookup_error {place : Keypath} {name : String}
    (hset : ∀ p, I p → p.Settled s root)
    (hlog : ∀ p name, I p → I (p.log (.lookup place name)))
    (h : ∀ parts, s.target name = .internal parts → ∀ l, root.LeadsTo parts l →
      Answers I E l (again l) (again' l)) (hp : I p)
    (he : lookup s root (fun n => n.assemble again) place name p = .error e q) :
    E e q ∨ e = .unknownReference place name ∧ s.Reaches root name none := by
  unfold lookup at he
  rcases eq_error_of_bind he with hx | ⟨_, r, hx, he⟩
  · cases hx
  cases hx
  cases ht : s.target name with
  | internal parts =>
    rw [Settings.reaches_internal_iff ht]
    rw [ht] at he
    rcases eq_error_of_bind he with hx | ⟨v, r, -, he⟩
    · exact follows_of_followInternal_error hset (h parts ht) (hlog p name hp) hx
    · cases he
  | external parts =>
    rw [Settings.reaches_external_iff ht]
    rw [ht] at he
    rcases eq_error_of_bind he with hx | ⟨j, r, -, he⟩
    · unfold followExternal at hx
      cases hj : s.externals.descend? parts with
      | some j =>
        rw [hj] at hx
        cases hx
      | none =>
        rw [hj] at hx
        cases hx
        exact .inr ⟨rfl, rfl⟩
    · cases he

/-! ### Templates -/

theorem exists_of_renderPieces_error {f : String → Resolution String} {ps : List Template.Piece}
    (hok : ∀ body, .reference body ∈ ps → ∀ p text r, I p →
      f (Template.name body) p = .ok text r → I r) (hp : I p)
    (he : Template.renderPieces f ps p = .error e q) :
    ∃ body, .reference body ∈ ps ∧ ∃ r, I r ∧ f (Template.name body) r = .error e q := by
  induction ps generalizing p with
  | nil => cases he
  | cons piece ps ih =>
    rcases eq_error_of_bind he with hx | ⟨head, r, hx, he⟩
    · cases piece with
      | reference body => exact ⟨body, List.mem_cons_self .., p, hp, hx⟩
      | char c => cases hx
      | escape => cases hx
    · have hr : I r := by
        cases piece with
        | reference body => exact hok body (List.mem_cons_self ..) p head r hp hx
        | char c => cases hx; exact hp
        | escape => cases hx; exact hp
      rcases eq_error_of_bind he with hx | ⟨tail, r', -, he⟩
      · obtain ⟨body, hbody, hfail⟩ :=
          ih (fun body hb => hok body (List.mem_cons_of_mem _ hb)) hr hx
        exact ⟨body, List.mem_cons_of_mem _ hbody, hfail⟩
      · cases he

theorem exists_of_render_error {f : String → Resolution String} {t : Template}
    {malformed : Nat → Template.Fault → Error}
    (hok : ∀ name ∈ t.names, ∀ p text r, I p → f name p = .ok text r → I r) (hp : I p)
    (he : t.render f (fun position fault => throw (malformed position fault)) p = .error e q) :
    (∃ name ∈ t.names, ∃ r, I r ∧ f name r = .error e q) ∨
      ∃ position fault, t.fault = some (position, fault) ∧ e = malformed position fault := by
  unfold Template.render at he
  rcases eq_error_of_bind he with hx | ⟨text, r, -, he⟩
  · obtain ⟨body, hbody, hfail⟩ :=
      exists_of_renderPieces_error (fun body hb => hok _ (Template.mem_names hb)) hp hx
    exact .inl ⟨_, Template.mem_names hbody, hfail⟩
  · cases hfault : t.fault with
    | none =>
      rw [hfault] at he
      cases he
    | some found =>
      rw [hfault] at he
      cases he
      exact .inr ⟨found.1, found.2, rfl, rfl⟩

/-! ### Leaves -/

theorem exists_of_parse_error {place : Keypath} {type : LeafType} {raw : Json} {text : String}
    (he : parse s place type raw text p = .error e q) :
    ∃ source, s.parsers.get type text = .error source ∧
      e = .parse place raw.scalarText text source := by
  unfold parse at he
  rcases eq_error_of_bind he with hx | ⟨_, r, -, he⟩
  · cases hx
  · cases hparse : s.parsers.get type text with
    | ok v =>
      rw [hparse] at he
      cases he
    | error source =>
      rw [hparse] at he
      cases he
      exact ⟨source, rfl, rfl⟩

section
variable {l : Leaf} (hset : ∀ p, I p → p.Settled s root) (hl : l.preset = none)
  (h : ∀ l', l.RefersTo s root l' → Answers I E l' (again l') (again' l'))
include hset hl h

theorem explains_of_resolveTyped (hphases : l.Phases s root I J) {type : LeafType}
    (hkind : l.kind = .typed type) (hp : I p)
    (he : resolveTyped s root (fun n => n.assemble again) l.place type l.raw p = .error e q) :
    E e q ∨ l.Explains s root e := by
  cases hraw : l.raw with
  | string template =>
    rw [hraw] at he
    have hnames : l.names s.dialect = (Template.scan s.dialect template).names := by
      simp [Leaf.names, hl, hkind, hraw]
    have hanswers (name : String) (hname : name ∈ (Template.scan s.dialect template).names)
        (parts : List String) (ht : s.target name = .internal parts) (l' : Leaf)
        (hl' : root.LeadsTo parts l') : Answers I E l' (again l') (again' l') :=
      h l' ⟨name, hnames ▸ hname, parts, ht, hl'⟩
    have hlookup (name : String) (hname : name ∈ (Template.scan s.dialect template).names) :=
      Computes.lookup hphases.lookup (hanswers name hname)
    rcases eq_error_of_bind he with hx | ⟨substituted, r, hx, he⟩
    -- the text is not complete: a name fails, or the template is malformed after all names
    · have hok (name : String) (hname : name ∈ (Template.scan s.dialect template).names)
          (p : Progress) (text : String) (r : Progress) (hp : I p)
          (hrun : lookup s root (fun n => n.assemble again) l.place name p = .ok text r) : I r :=
        ((hlookup name hname p hp).eq_ok hrun).1
      rcases exists_of_render_error hok hp hx with
        ⟨name, hname, r, hr, hfail⟩ | ⟨position, fault, hfault, rfl⟩
      · rcases reaches_of_lookup_error hset hphases.lookup (hanswers name hname) hr hfail with
          hE | ⟨rfl, hname'⟩
        · exact .inl hE
        · exact .inr (.unknownReference (hnames ▸ hname) hname')
      · exact .inr (.template hkind hraw hfault)
    -- the text is complete, so all that is referred to is done, and the parser fails on it
    · obtain ⟨hI, -, hdone, hdet⟩ := (Computes.render hlookup p hp).eq_ok hx
      have hrefs (l' : Leaf) (href : l.RefersTo s root l') :
          l'.ResolvesTo s root (r.assignment (fun _ => .null) l') := by
        obtain ⟨name, hname, hl'⟩ := href
        have hd := hdone l' ⟨name, hnames ▸ hname, hl'⟩
        obtain ⟨parts, -, hl'⟩ := hl'
        exact (hset r hI).resolvesTo_assignment hl'.mem_leaves hd _
      have hrender := hdet _ (r.agrees_assignment fun _ => .null)
      obtain ⟨source, hparse, rfl⟩ := exists_of_parse_error he
      exact .inr (.text hkind hraw hrefs hrender hparse)
  | _ =>
    have hother (template : String) : l.raw ≠ .string template := by simp [hraw]
    rw [hraw] at he
    cases type with
    | any => cases he
    | scalar type =>
      obtain ⟨source, hparse, rfl⟩ := exists_of_parse_error he
      rw [← hraw] at hparse ⊢
      exact .inr (.scalar hkind hother hparse)

theorem explains_of_resolveAlias {container : Container} {name : String}
    (hkind : l.kind = .alias container name) (hp : I p)
    (he : resolveAlias s root (fun n => n.assemble again) l.place container name p = .error e q) :
    E e q ∨ l.Explains s root e := by
  have hname : name ∈ l.names s.dialect := by simp [Leaf.names, hl, hkind]
  have hmismatch {v : Value} {r : Progress} (hv : s.Reaches root name (some v))
      (he : (if v.kind = container.kind then pure v
        else throw (.shape (.mismatch l.place container.kind v.kind)) : Resolution Value) r =
          .error e q) : l.Explains s root e := by
    split at he
    · cases he
    · next hne =>
      cases he
      exact .mismatch hkind hv hne
  unfold resolveAlias at he
  cases ht : s.target name with
  | internal parts =>
    rw [ht] at he
    have hparts (l' : Leaf) (hl' : root.LeadsTo parts l') : Answers I E l' (again l') (again' l') :=
      h l' ⟨name, hname, parts, ht, hl'⟩
    rcases eq_error_of_bind he with hx | ⟨v, r, hx, he⟩
    · rcases follows_of_followInternal_error hset hparts hp hx with hE | ⟨rfl, hnone⟩
      · exact .inl hE
      · exact .inr (.unknownReference hname ((Settings.reaches_internal_iff ht).2 hnone))
    · have hv := (follows_of_followInternal hset hparts hp hx).2
      exact .inr (hmismatch ((Settings.reaches_internal_iff ht).2 hv) he)
  | external parts =>
    rw [ht] at he
    cases hj : s.externals.descend? parts with
    | none =>
      simp only [followExternal, hj] at he
      cases he
      have hnone : s.Reaches root name none := (Settings.reaches_external_iff ht).2 (by rw [hj]; rfl)
      exact .inr (.unknownReference hname hnone)
    | some j =>
      simp only [followExternal, hj] at he
      have hv : s.Reaches root name (some (Value.ofJson j)) :=
        (Settings.reaches_external_iff ht).2 (by rw [hj]; rfl)
      exact .inr (hmismatch hv he)

/-- An error is one of a visit within, or the leaf is the reason of it. -/
theorem explains_of_resolveOpen (hphases : l.Phases s root I J) (hp : I p)
    (he : resolveOpen s root (fun n => n.assemble again) l p = .error e q) :
    E e q ∨ l.Explains s root e := by
  unfold resolveOpen at he
  cases hkind : l.kind with
  | typed type =>
    rw [hkind] at he
    exact explains_of_resolveTyped hset hl h hphases hkind hp he
  | «alias» container name =>
    rw [hkind] at he
    exact explains_of_resolveAlias hset hl h hkind hp he

end

end Resolution
end TypedConfig
