import TypedConfig.Proofs.Resolution.OpenLeaf

/-!
# Visits

What a visit to a leaf can do is said once (`Ends.visit`), and from it what is kept over a whole
visit (`Answers.visit`). The leaf that a visit starts is in progress until the visit is over, so that
each visit within finds one unstarted leaf less (`Progress.unstarted_enter`).
-/

namespace TypedConfig

namespace Progress

variable {p q : Progress} {l : Leaf} {v : Value} {root : Node}

theorem preset_of_unstarted (h : p.state l = .unstarted) : l.preset = none :=
  preset_of_state l fun v hv => by rw [h] at hv; cases hv

theorem preset_of_inProgress (h : p.state l = .inProgress) : l.preset = none :=
  preset_of_state l fun v hv => by rw [h] at hv; cases hv

theorem state_congr {l' : Leaf} (hpre : l'.preset = l.preset) (hplace : l'.place = l.place) :
    p.state l' = p.state l := by
  rw [state, state, hpre, hplace]

/-- Starting on a leaf changes no leaf that has been started before. -/
theorem state_enter_of_ne (h : p.state l = .unstarted) {l' : Leaf}
    (hne : p.state l' ≠ .unstarted) : (p.enter l).state l' = p.state l' := by
  rw [state_enter, if_neg]
  rintro ⟨hpre, hplace⟩
  exact hne ((state_congr (hpre.trans (preset_of_unstarted h).symm) hplace).trans h)

theorem state_enter_self (h : p.state l = .unstarted) : (p.enter l).state l = .inProgress := by
  rw [state_enter, if_pos ⟨preset_of_unstarted h, rfl⟩]

theorem state_leave_self (h : l.preset = none) : (p.leave l v).state l = .done v := by
  rw [state_leave, if_pos ⟨h, rfl⟩]

/-- Over a whole visit the leaf has come to be done, and nothing else is pending. -/
theorem Grows.leave (h : p.state l = .unstarted) (hq : (p.enter l).Grows q) :
    p.Grows (q.leave l v) := by
  have hstate (l' : Leaf) (hne : p.state l' ≠ .unstarted) :
      (q.leave l v).state l' = q.state l' := by
    rw [state_leave, if_neg]
    rintro ⟨hpre, hplace⟩
    exact hne ((state_congr (hpre.trans (preset_of_unstarted h).symm) hplace).trans h)
  refine ⟨by simp [hq.stack], fun l' w hl' => ?_, fun l' hl' => ?_⟩
  · have hne : p.state l' ≠ .unstarted := by simp [hl']
    rw [hstate l' hne]
    exact hq.done l' w ((state_enter_of_ne h hne).trans hl')
  · have hne : p.state l' ≠ .unstarted := by simp [hl']
    rw [hstate l' hne]
    exact hq.inProgress l' ((state_enter_of_ne h hne).trans hl')

/-! ### Unstarted leaves -/

/-- The number of leaves of a tree that are not started. -/
def unstarted (p : Progress) (root : Node) : Nat :=
  root.leaves.countP fun l => (p.state l).isUnstarted

theorem isUnstarted_iff {s : LeafState} : s.isUnstarted = true ↔ s = .unstarted := by
  cases s <;> simp [LeafState.isUnstarted]

theorem Grows.isUnstarted (h : p.Grows q) (hl : (q.state l).isUnstarted) :
    (p.state l).isUnstarted := by
  rw [isUnstarted_iff] at hl ⊢
  cases hp : p.state l with
  | unstarted => rfl
  | inProgress => rw [h.inProgress l hp] at hl; cases hl
  | done v => rw [h.done l v hp] at hl; cases hl

theorem Grows.unstarted_le (h : p.Grows q) : q.unstarted root ≤ p.unstarted root :=
  List.countP_mono_left fun _ _ hl => h.isUnstarted hl

theorem unstarted_enter (hl : l ∈ root.leaves) (h : p.state l = .unstarted) :
    (p.enter l).unstarted root < p.unstarted root := by
  have hmono (l' : Leaf) (hl' : ((p.enter l).state l').isUnstarted) : (p.state l').isUnstarted := by
    by_cases hne : p.state l' = .unstarted
    · rw [hne]; rfl
    · rwa [state_enter_of_ne h hne] at hl'
  obtain ⟨before, after, hsplit⟩ := List.append_of_mem hl
  have hbefore := List.countP_mono_left (l := before) fun l' _ => hmono l'
  have hafter := List.countP_mono_left (l := after) fun l' _ => hmono l'
  have hself : ((p.enter l).state l).isUnstarted = false := by rw [state_enter_self h]; rfl
  have hwas : (p.state l).isUnstarted = true := by rw [h]; rfl
  simp only [unstarted, hsplit, List.countP_append, List.countP_cons, hself, hwas]
  simp only [Bool.false_eq_true, ↓reduceIte]
  omega

theorem unstarted_le : p.unstarted root ≤ root.openLeaves.length := by
  rw [unstarted, Node.openLeaves, ← List.countP_eq_length_filter]
  refine List.countP_mono_left fun l _ hl => ?_
  rw [isUnstarted_iff] at hl
  rw [preset_of_unstarted hl]
  rfl

end Progress

namespace Resolution

variable {settings : Settings} {root : Node} {again again' : Leaf → Resolution Value}
  {E : Error → Progress → Prop} {l : Leaf}

/-- A visit gives the value of a leaf that is done, finds a cycle at a leaf that is in progress, and
starts and finishes a leaf that is not started. -/
theorem Ends.visit {Q : Value → Progress → Prop} {p : Progress}
    (hdone : ∀ v, p.state l = .done v → Q v p)
    (hprogress : p.state l = .inProgress →
      E (.circularReference l.place (cycle p.stack l.place)) p)
    (hopen : p.state l = .unstarted →
      Ends (resolveOpen settings root (fun n => n.assemble again) l)
        (resolveOpen settings root (fun n => n.assemble again') l)
        (fun v q => Q v (q.leave l v)) E (p.enter l)) :
    Ends (visit settings root again l) (visit settings root again' l) Q E p := by
  refine Ends.bind (ends_get ?_)
  cases hs : p.state l with
  | done v => exact ends_pure (hdone v hs)
  | inProgress => exact Ends.bind (ends_get (ends_throw (hprogress hs)))
  | unstarted =>
    refine Ends.bind (ends_modify (Ends.bind ((hopen hs).mono (fun v q hq => ?_) fun _ _ h => h)))
    exact Ends.bind (ends_modify (ends_pure hq))

/-- A visit keeps `I` if starting on the leaf leads from `I` to `I'`, the visits within keep `I'`,
and finishing the leaf leads back. -/
theorem Answers.visit {I I' J : Progress → Prop}
    (hagain : ∀ l', l.RefersTo settings root l' → Answers I' E l' (again l') (again' l'))
    (hphases : l.Phases settings root I' J)
    (hprogress : ∀ p, I p → p.state l = .inProgress →
      E (.circularReference l.place (cycle p.stack l.place)) p)
    (henter : ∀ p, I p → p.state l = .unstarted → I' (p.enter l))
    (hleave : ∀ p q v, I p → p.Grows (q.leave l v) → J q →
      (∀ l', l.RefersTo settings root l' → q.Done l') →
      q.Determines (fun σ => l.evaluate settings (root.value σ)) (.ok v) → I (q.leave l v))
    (herror : ∀ p e q, I' p →
      resolveOpen settings root (fun n => n.assemble again) l p = .error e q → I' q ∨ J q →
      q.Determines (fun σ => l.evaluate settings (root.value σ)) (.error e) → E e q) :
    Answers I E l (visit settings root again l) (visit settings root again' l) := by
  intro p hp
  refine Ends.visit (fun v hv => ⟨hp, .refl p, hv⟩) (hprogress p hp) fun hs => ?_
  have hpre := Progress.preset_of_unstarted hs
  refine (Computes.resolveOpen hpre hphases hagain _ (henter p hp hs)).mono_of_eq
    (fun v q _ hq => ?_) fun e q hrun hq => ?_
  · obtain ⟨hJ, hgrows, hrefs, hv⟩ := hq
    have hgrows : p.Grows (q.leave l v) := hgrows.leave hs
    exact ⟨hleave p q v hp hgrows hJ hrefs hv, hgrows, Progress.state_leave_self hpre⟩
  · rcases hq with hq | ⟨hq, -, he⟩
    · exact hq
    · exact herror _ e q (henter p hp hs) hrun hq he

end Resolution
end TypedConfig
