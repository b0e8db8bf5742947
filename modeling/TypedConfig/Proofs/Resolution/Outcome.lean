import TypedConfig.Proofs.Resolution.Explanation
import TypedConfig.Resolver

/-!
# How a resolution ends

`ends_resolveTree`: a resolution ends with all leaves done and the value that they determine, or
with an error that has one of two causes. The stack closed a loop of references (`Loop`), or there
is a leaf whose equation gives the error, however the leaves that are not done come out, and which
is the reason of it (`Leaf.Explains`).
-/

namespace TypedConfig

/-- Leaves that refer each to the next one, and the last of them to the first. -/
structure Loop (s : Settings) (root : Node) (first : Leaf) (rest : List Leaf) : Prop where
  mem_leaves : ∀ l ∈ first :: rest, l ∈ root.leaves
  nodup : ((first :: rest).map Leaf.place).Nodup
  chain : (first :: rest ++ [first]).IsChain (Leaf.RefersTo s root)

namespace Loop

variable {s : Settings} {root : Node} {first : Leaf} {rest : List Leaf}

/-- The error that reports the loop. -/
def error (first : Leaf) (rest : List Leaf) : Error :=
  .circularReference first.place ((first :: rest).map Leaf.place ++ [first.place])

theorem transGen_of_isChain {α : Type} {r : α → α → Prop} {a b : α} {l : List α}
    (h : (a :: l ++ [b]).IsChain r) : Relation.TransGen r a b := by
  induction l generalizing a with
  | nil => exact .single (List.isChain_pair.1 h)
  | cons c l ih =>
    obtain ⟨hac, h⟩ := List.isChain_cons_cons.1 h
    exact .head hac (ih h)

theorem transGen (h : Loop s root first rest) :
    Relation.TransGen (Leaf.RefersTo s root) first first :=
  transGen_of_isChain h.chain

end Loop

namespace Resolution

variable {s : Settings} {root : Node} {l : Leaf} {p : Progress} {stack : List Leaf}

theorem cycle_append_cons {before after : List Leaf}
    (h : ((before ++ l :: after).map Leaf.place).Nodup) :
    cycle (before ++ l :: after) l.place = (l :: after).map Leaf.place ++ [l.place] := by
  have hfirst : l.place ∉ before.map Leaf.place := by
    rw [List.map_append, List.map_cons] at h
    exact fun hmem => (List.nodup_append.1 h).2.2 _ hmem _ (List.mem_cons_self ..) rfl
  have hidx : (before.map Leaf.place ++ l.place :: after.map Leaf.place).idxOf? l.place =
      some before.length := by
    have hnone : (before.map Leaf.place).findIdx? (· == l.place) = none :=
      List.findIdx?_eq_none_iff.2 fun place hp => beq_false_of_ne fun heq => hfirst (heq ▸ hp)
    rw [List.idxOf?, List.findIdx?_append, hnone]
    simp [List.findIdx?_cons]
  simp [cycle, hidx]

/-- Coming back to a leaf in progress closes a loop. -/
theorem loop_of_reenter (hroot : root.DistinctPlaces) (h : p.Sound s root stack p.Done)
    (hl : l ∈ root.leaves) (hs : p.state l = .inProgress)
    (href : ∀ a ∈ stack.getLast?, a.RefersTo s root l) :
    ∃ rest, Loop s root l rest ∧
      .circularReference l.place (cycle p.stack l.place) = Loop.error l rest := by
  obtain ⟨rfl, hstacked, -, -⟩ := h
  obtain ⟨before, after, hstack⟩ := List.append_of_mem ((hstacked.mem_iff l).2 ⟨hl, hs⟩)
  have hmem : ∀ l' ∈ before ++ l :: after, l' ∈ root.leaves := fun l' hl' =>
    ((hstacked.mem_iff l').1 (hstack ▸ hl')).1
  have hnodup : ((before ++ l :: after).map Leaf.place).Nodup :=
    (hstack ▸ hstacked.nodup).map_on fun a ha b hb => hroot.eq_of_place (hmem a ha) (hmem b hb)
  refine ⟨after, ⟨fun l' hl' => hmem l' (List.mem_append_right _ hl'), ?_, ?_⟩, ?_⟩
  · rw [List.map_append] at hnodup
    exact (List.nodup_append.1 hnodup).2.1
  · have hchain : (l :: after).IsChain (Leaf.RefersTo s root) :=
      (hstack ▸ hstacked.chain).right_of_append
    refine hchain.append (.singleton l) fun a ha b hb => ?_
    cases hb
    exact href a (by rw [hstack, List.getLast?_append, ha]; rfl)
  · rw [hstack, cycle_append_cons hnodup]
    rfl

/-- The leaf is what it should be, or what it should be is the error. -/
def Concluded (s : Settings) (root : Node) (e : Error) (p : Progress) (l : Leaf) : Prop :=
  p.Done l ∨ p.Determines (fun σ => l.evaluate s (root.value σ)) (.error e)

/-- A resolution that ends in an error. -/
structure Failure (s : Settings) (root : Node) (e : Error) (p : Progress) : Prop where
  settled : p.Settled s root
  accounted : ∃ called, p.Accounted s root called ∧ ∀ l, called l → Concluded s root e p l
  cause : (∃ first rest, Loop s root first rest ∧ e = Loop.error first rest) ∨
    ∃ l ∈ root.leaves, p.Determines (fun σ => l.evaluate s (root.value σ)) (.error e)
  explained : (∃ first rest, Loop s root first rest ∧ e = Loop.error first rest) ∨
    ∃ l ∈ root.leaves, l.preset = none ∧ l.Explains s root e

/-- A resolution that ends in a value. -/
structure Success (s : Settings) (root : Node) (v : Value) (p : Progress) : Prop where
  settled : p.Settled s root
  accounted : p.Accounted s root p.Done
  done : ∀ l ∈ root.leaves, p.Done l
  value : p.Determines (fun σ => root.value σ) v

/-- Visits to leaves that the last leaf of a stack refers to keep what holds with this stack, while
fewer than `n` leaves are unstarted. -/
def Keeps (s : Settings) (root : Node) (n : Nat) (x : Leaf → Resolution Value) : Prop :=
  ∀ stack : List Leaf, ∀ l ∈ root.leaves, (∀ a ∈ stack.getLast?, a.RefersTo s root l) →
    Answers (fun p => p.Sound s root stack p.Done ∧ p.unstarted root < n) (Failure s root) l (x l) (x l)

theorem Keeps.visit (hroot : root.DistinctPlaces) {n : Nat} {again : Leaf → Resolution Value}
    (h : Keeps s root n again) : Keeps s root (n + 1) (visit s root again) := by
  intro stack l hl href
  have hstarted (p : Progress) (hp : p.Sound s root (stack ++ [l]) p.Done) :
      p.state l = .inProgress :=
    ((hp.stacked.mem_iff l).1 (by simp [hp.stack_eq])).2
  have hphases : l.Phases s root
      (fun p => p.Sound s root (stack ++ [l]) p.Done ∧ p.unstarted root < n)
      (fun p => p.Sound s root (stack ++ [l]) (fun l' => p.Done l' ∨ l' = l) ∧
        p.unstarted root < n) := by
    refine ⟨fun p _ hp => ⟨hp.1.lookup, hp.2⟩, fun type ht p _ hp hparsed => ⟨?_, hp.2⟩,
      fun ht p hp => ⟨hp.1.quiet ht, hp.2⟩⟩
    exact hp.1.parse hroot hl (hstarted p hp.1) ht hparsed
  have hagain (l' : Leaf) (hl' : l.RefersTo s root l') :=
    h (stack ++ [l]) l' hl'.mem_leaves (by simpa using hl')
  refine Answers.visit hagain hphases (fun p hp hs => ?progress) (fun p hp hs => ?enter)
    (fun p q v hp hgrows hq hrefs hv => ?leave) fun p e q hp hrun hq he => ?error
  case progress =>
    have hloop := loop_of_reenter hroot hp.1 hl hs href
    exact ⟨hp.1.settled, ⟨_, hp.1.accounted, fun _ => .inl⟩, .inl ⟨l, hloop⟩, .inl ⟨l, hloop⟩⟩
  case enter =>
    have hlt := Progress.unstarted_enter hl hs
    exact ⟨hp.1.enter hroot hl hs href, Nat.lt_of_lt_of_le hlt (Nat.le_of_lt_succ hp.2)⟩
  case leave =>
    exact ⟨hq.1.leave hroot hl hrefs hv, Nat.lt_of_le_of_lt hgrows.unstarted_le hp.2⟩
  case error =>
    have hpre : l.preset = none := Progress.preset_of_inProgress (hstarted p hp.1)
    rcases explains_of_resolveOpen (fun p hp => hp.1.settled) hpre hagain hphases hp hrun with
      hE | hexplains
    · exact hE
    · have hexplained : ∃ l ∈ root.leaves, l.preset = none ∧ l.Explains s root e :=
        ⟨l, hl, hpre, hexplains⟩
      rcases hq with hq | hq
      · exact ⟨hq.1.settled, ⟨_, hq.1.accounted, fun _ => .inl⟩, .inr ⟨l, hl, he⟩, .inr hexplained⟩
      · have hcalled (l' : Leaf) (hl' : q.Done l' ∨ l' = l) : Concluded s root e q l' := by
          rcases hl' with hd | rfl
          · exact .inl hd
          · exact .inr he
        exact ⟨hq.1.settled, ⟨_, hq.1.accounted, hcalled⟩, .inr ⟨l, hl, he⟩, .inr hexplained⟩

theorem keeps_visitWithin (hroot : root.DistinctPlaces) (beyond : Leaf → Resolution Value) (n : Nat) :
    Keeps s root n (visitWithin s root beyond n) := by
  induction n with
  | zero => exact fun _ _ _ _ _ hp => absurd hp.2 (Nat.not_lt_zero _)
  | succ n ih => exact ih.visit hroot

theorem ends_resolveTree (hroot : root.DistinctPlaces) :
    Ends (resolveTree s root) (resolveTree s root) (Success s root) (Failure s root) .start := by
  have hvisits := keeps_visitWithin (s := s) hroot reenter (root.openLeaves.length + 1) []
  refine (Computes.assemble root (fun l hl => hvisits l hl (by simp)) .start
    ⟨.start, Nat.lt_succ_of_le Progress.unstarted_le⟩).mono (fun v q hq => ?_) fun e q hq => ?_
  · obtain ⟨⟨hq, -⟩, -, hdone, hv⟩ := hq
    exact ⟨hq.settled, hq.accounted, hdone, fun σ hσ => Except.ok.inj (hv σ hσ)⟩
  · rcases hq with hq | ⟨-, -, he⟩
    · exact hq
    · cases he _ (q.agrees_assignment fun _ => .null)

end Resolution

namespace Resolver

variable {r : Resolver} {raw : Json} {root : Node}

theorem success_or_failure (hv : r.settings.checkVariables = .ok ())
    (hb : Node.ofConfig r.schema raw = .ok root) :
    (∃ v p, r.run raw = (.ok v, p.trace) ∧ Resolution.Success r.settings root v p) ∨
      ∃ e p, r.run raw = (.error e, p.trace) ∧ Resolution.Failure r.settings root e p := by
  have hends := Resolution.ends_resolveTree (s := r.settings) (Node.distinctPlaces_ofConfig hb)
  cases hres : Resolution.resolveTree r.settings root .start with
  | ok v p => exact .inl ⟨v, p, by simp only [run, hv, hb, hres], hends.eq_ok hres⟩
  | error e p => exact .inr ⟨e, p, by simp only [run, hv, hb, hres], hends.eq_error hres⟩

/-- A configuration that resolves has a tree, and the resolution of the tree ends in the value. -/
theorem exists_success {v : Value} (h : r.resolve raw = .ok v) :
    r.settings.checkVariables = .ok () ∧ ∃ root, Node.ofConfig r.schema raw = .ok root ∧
      ∃ p, Resolution.Success r.settings root v p := by
  cases hv : r.settings.checkVariables with
  | error e => simp [resolve, run, hv] at h
  | ok =>
    cases hb : Node.ofConfig r.schema raw with
    | error e => simp [resolve, run, hv, hb] at h
    | ok root =>
      rcases success_or_failure hv hb with ⟨w, p, hrun, hp⟩ | ⟨e, p, hrun, -⟩
      · rw [resolve, hrun] at h
        cases h
        exact ⟨rfl, root, rfl, p, hp⟩
      · rw [resolve, hrun] at h
        cases h

end Resolver
end TypedConfig
