import TypedConfig.Proofs.Resolution.Equations

/-!
# The course of a resolution

`Ends x y Q E p`: from the progress `p` on, `x` and `y` take the same course, and it ends in a value
with `Q` or in an error with `E`. On the way leaves only become done (`Progress.Grows`), so that what
the done leaves determine stays determined (`Progress.Determines`).

`Computes` ties the two sides together: a resolution gives what a function of the assignment gives
under every assignment that agrees with the leaves that are done by then. It holds of a sequence if
it holds of its parts (`Computes.bind`), and so of all that resolves one leaf
(`Computes.resolveOpen`): the leaf becomes what it should be, if the leaves that it refers to do.
-/

namespace TypedConfig

namespace Progress

/-- From one moment to a later one that nothing is left pending in between. -/
structure Grows (p q : Progress) : Prop where
  stack : q.stack = p.stack
  done : ∀ l v, p.state l = .done v → q.state l = .done v
  inProgress : ∀ l, p.state l = .inProgress → q.state l = .inProgress

/-- The leaf has a value. -/
def Done (p : Progress) (l : Leaf) : Prop := ∃ v, p.state l = .done v

/-- The assignment has the values of the leaves that are done. -/
def Agrees (p : Progress) (σ : Assignment) : Prop := ∀ l v, p.state l = .done v → σ l = v

/-- All assignments that agree with the leaves that are done give the same. -/
def Determines {α : Type} (p : Progress) (f : Assignment → α) (a : α) : Prop :=
  ∀ σ, p.Agrees σ → f σ = a

variable {p q r : Progress} {α : Type} {f : Assignment → α} {a : α}

theorem Grows.refl (p : Progress) : p.Grows p := ⟨rfl, fun _ _ h => h, fun _ h => h⟩

theorem Grows.trans (h : p.Grows q) (h' : q.Grows r) : p.Grows r :=
  ⟨h'.stack.trans h.stack, fun l v hl => h'.done l v (h.done l v hl),
    fun l hl => h'.inProgress l (h.inProgress l hl)⟩

theorem Grows.log (p : Progress) (e : Event) : p.Grows (p.log e) :=
  ⟨rfl, fun _ _ h => h, fun _ h => h⟩

theorem Done.mono {l : Leaf} (hd : p.Done l) (h : p.Grows q) : q.Done l :=
  hd.imp fun v hv => h.done l v hv

theorem Agrees.of_grows {σ : Assignment} (hσ : q.Agrees σ) (h : p.Grows q) : p.Agrees σ :=
  fun l v hl => hσ l v (h.done l v hl)

theorem Determines.mono (hf : p.Determines f a) (h : p.Grows q) : q.Determines f a :=
  fun σ hσ => hf σ (hσ.of_grows h)

theorem Determines.bind {β : Type} {f : Assignment → Except Error α}
    {k : α → Assignment → Except Error β} {b : Except Error β} (hf : p.Determines f (.ok a))
    (hk : p.Determines (k a) b) : p.Determines (fun σ => f σ >>= fun a => k a σ) b := by
  intro σ hσ
  simp only [hf σ hσ]
  exact hk σ hσ

theorem Determines.bind_error {β : Type} {f : Assignment → Except Error α} {e : Error}
    (k : α → Assignment → Except Error β) (hf : p.Determines f (.error e)) :
    p.Determines (fun σ => f σ >>= fun a => k a σ) (.error e) := by
  intro σ hσ
  simp only [hf σ hσ]
  rfl

/-- The values of the done leaves, and those of another assignment for the rest. -/
def assignment (p : Progress) (τ : Assignment) : Assignment := fun l =>
  match p.state l with
  | .done v => v
  | _ => τ l

theorem agrees_assignment (p : Progress) (τ : Assignment) : p.Agrees (p.assignment τ) := by
  intro l v hl
  simp [assignment, hl]

end Progress

namespace Resolution

/-- `x` and `y` take the same course from `p` on, which ends as said. -/
def Ends {α : Type} (x y : Resolution α) (Q : α → Progress → Prop) (E : Error → Progress → Prop)
    (p : Progress) : Prop :=
  x p = y p ∧
    match x p with
    | .ok a q => Q a q
    | .error e q => E e q

section
variable {α β : Type} {x y : Resolution α} {Q Q' : α → Progress → Prop}
  {E E' : Error → Progress → Prop} {p : Progress}

theorem Ends.mono_of_eq (h : Ends x y Q E p) (hQ : ∀ a q, x p = .ok a q → Q a q → Q' a q)
    (hE : ∀ e q, x p = .error e q → E e q → E' e q) : Ends x y Q' E' p := by
  refine ⟨h.1, ?_⟩
  have h := h.2
  cases hx : x p with
  | ok a q => rw [hx] at h; exact hQ a q hx h
  | error e q => rw [hx] at h; exact hE e q hx h

theorem Ends.mono (h : Ends x y Q E p) (hQ : ∀ a q, Q a q → Q' a q) (hE : ∀ e q, E e q → E' e q) :
    Ends x y Q' E' p :=
  h.mono_of_eq (fun a q _ => hQ a q) fun e q _ => hE e q

theorem ends_pure {a : α} (h : Q a p) : Ends (pure a) (pure a) Q E p := ⟨rfl, h⟩

theorem ends_throw {e : Error} (h : E e p) : Ends (throw e) (throw e) Q E p := ⟨rfl, h⟩

theorem ends_get {Q : Progress → Progress → Prop} (h : Q p p) : Ends get get Q E p := ⟨rfl, h⟩

theorem ends_modify {f : Progress → Progress} {Q : PUnit → Progress → Prop} (h : Q ⟨⟩ (f p)) :
    Ends (modify f) (modify f) Q E p := ⟨rfl, h⟩

theorem Ends.bind {f g : α → Resolution β} {Q : β → Progress → Prop}
    (h : Ends x y (fun a q => Ends (f a) (g a) Q E q) E p) : Ends (x >>= f) (y >>= g) Q E p := by
  obtain ⟨hxy, h⟩ := h
  unfold Ends
  simp only [Bind.bind, EStateM.bind, ← hxy]
  cases hx : x p with
  | ok a q => rw [hx] at h; exact h
  | error e q => rw [hx] at h; exact ⟨rfl, h⟩

theorem Ends.eq_ok {a : α} {q : Progress} (h : Ends x y Q E p) (hx : x p = .ok a q) : Q a q := by
  have h := h.2; rwa [hx] at h

theorem Ends.eq_error {e : Error} {q : Progress} (h : Ends x y Q E p) (hx : x p = .error e q) :
    E e q := by
  have h := h.2; rwa [hx] at h

end

/-! ### Resolutions that follow the equations -/

/-- From `p` on, `x` and `y` take the same course. A value is what `f` gives under every assignment
that agrees with the done leaves, those of `D` among them, and comes with `J`. An error is what `f`
gives, and comes with `I` or `J`, or it is one with `E`. -/
def ComputesFrom {α : Type} (I J : Progress → Prop) (E : Error → Progress → Prop) (D : Leaf → Prop)
    (x y : Resolution α) (f : Assignment → Except Error α) (p : Progress) : Prop :=
  Ends x y
    (fun a q => J q ∧ p.Grows q ∧ (∀ l, D l → q.Done l) ∧ q.Determines f (.ok a))
    (fun e q => E e q ∨ (I q ∨ J q) ∧ p.Grows q ∧ q.Determines f (.error e)) p

/-- The same, whenever they are started with `I`. -/
def Computes {α : Type} (I J : Progress → Prop) (E : Error → Progress → Prop) (D : Leaf → Prop)
    (x y : Resolution α) (f : Assignment → Except Error α) : Prop :=
  ∀ p, I p → ComputesFrom I J E D x y f p

/-- Started with `I`, `x` and `y` take the same course and give the leaf its value, again with `I`,
or an error with `E`. -/
def Answers (I : Progress → Prop) (E : Error → Progress → Prop) (l : Leaf)
    (x y : Resolution Value) : Prop :=
  ∀ p, I p → Ends x y (fun v q => I q ∧ p.Grows q ∧ q.state l = .done v) E p

section
variable {α β : Type} {I J : Progress → Prop} {E : Error → Progress → Prop} {D F : Leaf → Prop}
  {x y : Resolution α} {f f' : Assignment → Except Error α}

namespace Computes

theorem congr (h : Computes I J E D x y f) (hD : ∀ l, F l → D l) (hf : ∀ σ, f σ = f' σ) :
    Computes I J E F x y f' := by
  obtain rfl : f = f' := funext hf
  intro p hp
  refine (h p hp).mono (fun a q hq => ?_) fun _ _ h => h
  obtain ⟨hJ, hgrow, hdone, hval⟩ := hq
  exact ⟨hJ, hgrow, fun l hl => hdone l (hD l hl), hval⟩

theorem pure (a : α) : Computes I I E (fun _ => False) (pure a) (pure a) fun _ => .ok a :=
  fun p hp => ends_pure ⟨hp, .refl p, fun _ h => h.elim, fun _ _ => rfl⟩

theorem throw (e : Error) : Computes (α := α) I J E D (throw e) (throw e) fun _ => .error e :=
  fun p hp => ends_throw (.inr ⟨.inl hp, .refl p, fun _ _ => rfl⟩)

theorem log {e : Event} (h : ∀ p, I p → I (p.log e)) :
    Computes I I E (fun _ => False) (log e) (log e) fun _ => .ok ⟨⟩ :=
  fun p hp => ends_modify ⟨h p hp, .log p e, fun _ h => h.elim, fun _ _ => rfl⟩

/-- The second part may rely on what has determined the value of the first one. -/
theorem bind_of_determined {g h : α → Resolution β} {k : α → Assignment → Except Error β}
    (hx : Computes I I E D x y f) (hg : ∀ a p, I p → p.Determines f (.ok a) →
      ComputesFrom I J E F (g a) (h a) (k a) p) :
    Computes I J E (fun l => D l ∨ F l) (x >>= g) (y >>= h) fun σ => f σ >>= fun a => k a σ := by
  intro p hp
  refine ((hx p hp).mono (fun a q hq => ?_) fun e q hq => ?_).bind
  · obtain ⟨hI, hgrow, hdone, hval⟩ := hq
    refine (hg a q hI hval).mono (fun b r hr => ?_) fun e r hr => ?_
    · obtain ⟨hJ, hgrow', hdone', hval'⟩ := hr
      exact ⟨hJ, hgrow.trans hgrow', fun l hl => hl.elim (fun hl => (hdone l hl).mono hgrow') (hdone' l),
        (hval.mono hgrow').bind hval'⟩
    · rcases hr with hr | ⟨hIJ, hgrow', hval'⟩
      · exact .inl hr
      · exact .inr ⟨hIJ, hgrow.trans hgrow', (hval.mono hgrow').bind hval'⟩
  · rcases hq with hq | ⟨hI, hgrow, hval⟩
    · exact .inl hq
    · exact .inr ⟨.inl (hI.elim id id), hgrow, hval.bind_error k⟩

theorem bind {g h : α → Resolution β} {k : α → Assignment → Except Error β}
    (hx : Computes I I E D x y f) (hg : ∀ a, Computes I J E F (g a) (h a) (k a)) :
    Computes I J E (fun l => D l ∨ F l) (x >>= g) (y >>= h) fun σ => f σ >>= fun a => k a σ :=
  hx.bind_of_determined fun a p hp _ => hg a p hp

theorem map (g : α → β) (hx : Computes I I E D x y f) :
    Computes I I E D (do return g (← x)) (do return g (← y)) fun σ => do return g (← f σ) :=
  (hx.bind fun a => pure (g a)).congr (fun _ hl => .inl hl) fun _ => rfl

end Computes

/-! ### Nodes -/

theorem Answers.computes {l : Leaf} {x y : Resolution Value} (h : Answers I E l x y) :
    Computes I I E (· = l) x y fun σ => .ok (σ l) := by
  intro p hp
  refine (h p hp).mono (fun v q hq => ?_) fun _ _ he => .inl he
  obtain ⟨hI, hgrow, hv⟩ := hq
  exact ⟨hI, hgrow, fun _ hl => hl ▸ ⟨v, hv⟩, fun _ hσ => congrArg _ (hσ l v hv)⟩

variable {again again' : Leaf → Resolution Value}

mutual

/-- A node becomes its value if its leaves do. -/
theorem Computes.assemble : ∀ n : Node,
    (∀ l ∈ n.leaves, Answers I E l (again l) (again' l)) →
      Computes I I E (· ∈ n.leaves) (n.assemble again) (n.assemble again') fun σ => .ok (n.value σ)
  | .leaf l, h => (h l (by simp)).computes.congr (by simp) fun _ => rfl
  | .dict _ children, h => by
    have hc := Computes.assembleEntries children fun c hc l hl =>
      h l (Node.mem_leaves_dict hc hl)
    exact (hc.map Value.dict).congr (by simp) fun _ => rfl
  | .list _ children, h => by
    have hc := Computes.assembleItems children fun c hc l hl =>
      h l (Node.mem_leaves_list hc hl)
    exact (hc.map Value.list).congr (by simp) fun _ => rfl

theorem Computes.assembleEntries : ∀ children : List (String × Node),
    (∀ c ∈ children, ∀ l ∈ c.2.leaves, Answers I E l (again l) (again' l)) →
      Computes I I E (fun l => ∃ c ∈ children, l ∈ c.2.leaves)
        (Node.assemble.assembleEntries again children)
        (Node.assemble.assembleEntries again' children) fun σ => .ok (Node.entryValues σ children)
  | [], _ => (Computes.pure []).congr (by simp) fun _ => rfl
  | (k, child) :: children, h => by
    obtain ⟨h₁, h⟩ := List.forall_mem_cons.1 h
    exact ((Computes.assemble child h₁).bind fun v =>
      (Computes.assembleEntries children h).map ((k, v) :: ·)).congr (by simp) fun _ => rfl

theorem Computes.assembleItems : ∀ children : List Node,
    (∀ c ∈ children, ∀ l ∈ c.leaves, Answers I E l (again l) (again' l)) →
      Computes I I E (fun l => ∃ c ∈ children, l ∈ c.leaves)
        (Node.assemble.assembleItems again children)
        (Node.assemble.assembleItems again' children) fun σ => .ok (Node.itemValues σ children)
  | [], _ => (Computes.pure []).congr (by simp) fun _ => rfl
  | child :: children, h => by
    obtain ⟨h₁, h⟩ := List.forall_mem_cons.1 h
    exact ((Computes.assemble child h₁).bind fun v =>
      (Computes.assembleItems children h).map (v :: ·)).congr (by simp) fun _ => rfl

end

end

end Resolution
end TypedConfig
