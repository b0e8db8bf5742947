import Mathlib.Data.List.Chain
import TypedConfig.Proofs.Resolution.ResolvesTo
import TypedConfig.Proofs.Resolution.Visit
import TypedConfig.Proofs.Tree.Places

/-!
# What holds throughout a resolution

`Progress.Sound`: the leaves that are done are what they should be and what they resolve to, and
references from them end (`Settled`); the stack holds the leaves in progress, each of which refers
to the next (`Stacked`); and there was one parser call for each leaf that was to be parsed so far,
on a text for which the parser gives what the leaf should be (`Accounted`). This holds at the start;
starting on a leaf keeps it, and so does finishing one that has become what it should be.
-/

namespace TypedConfig

/-- A parser call: for the leaf at which place, as which type, and on which text. -/
structure ParserCall where
  place : Keypath
  type : LeafType
  text : String
deriving DecidableEq, Repr

/-- The parser call that an event is. -/
def Event.parserCall? : Event → Option ParserCall
  | .lookup .. => none
  | .parse place type text => some ⟨place, type, text⟩

/-- The parser calls of a trace. -/
def parserCalls (trace : List Event) : List ParserCall :=
  trace.filterMap Event.parserCall?

/-- The place of a leaf that is handed to a parser, and the type. -/
def Leaf.parserCall? (l : Leaf) : Option (Keypath × LeafType) := l.parsedAs?.map (l.place, ·)

namespace Progress

/-- Each done leaf is what it should be, whatever becomes of the others; references from it end. -/
structure Settled (s : Settings) (root : Node) (p : Progress) : Prop where
  determined : ∀ l ∈ root.leaves, ∀ v, p.state l = .done v →
    p.Determines (fun σ => l.evaluate s (root.value σ)) (.ok v)
  acc : ∀ l ∈ root.leaves, p.Done l → Acc (fun b a => Leaf.RefersTo s root a b) l
  resolves : ∀ l ∈ root.leaves, ∀ v, p.state l = .done v → l.ResolvesTo s root v

/-- The stack holds the leaves in progress, each of which refers to the next. -/
structure Stacked (s : Settings) (root : Node) (p : Progress) : Prop where
  nodup : p.stack.Nodup
  mem_iff : ∀ l, l ∈ p.stack ↔ l ∈ root.leaves ∧ p.state l = .inProgress
  chain : p.stack.IsChain (Leaf.RefersTo s root)

/-- The call was made for the leaf, and what the parser gives for the text is what the leaf should
be, whatever becomes of the leaves that are not done. -/
structure CallFor (s : Settings) (root : Node) (p : Progress) (l : Leaf) (c : ParserCall) : Prop where
  place : l.place = c.place
  type : l.parsedAs? = some c.type
  determined : p.Determines (fun σ => l.evaluate s (root.value σ))
    (s.parsed l.place c.type l.raw c.text)

/-- The parser calls are those that were due for the given leaves, each made once. -/
structure Accounted (s : Settings) (root : Node) (called : Leaf → Prop) (p : Progress) : Prop where
  nodup : ((parserCalls p.trace).map ParserCall.place).Nodup
  exists_leaf : ∀ c ∈ parserCalls p.trace, ∃ l ∈ root.leaves, called l ∧ p.CallFor s root l c
  exists_call : ∀ l ∈ root.leaves, called l → l.parsedAs?.isSome →
    ∃ c ∈ parserCalls p.trace, p.CallFor s root l c

/-- All of it, with a given stack. -/
structure Sound (s : Settings) (root : Node) (stack : List Leaf) (called : Leaf → Prop)
    (p : Progress) : Prop where
  stack_eq : p.stack = stack
  stacked : p.Stacked s root
  settled : p.Settled s root
  accounted : p.Accounted s root called

variable {s : Settings} {root : Node} {p q : Progress} {l l' : Leaf} {v w : Value}
  {stack : List Leaf} {called : Leaf → Prop}

/-! ### The start -/

theorem preset_of_done_start (h : start.state l = .done v) : l.preset = some v := by
  cases hl : l.preset with
  | none => rw [state_start l hl] at h; cases h
  | some w => rw [state_of_preset _ _ hl] at h; cases h; rfl

theorem not_refersTo_of_done_start (h : start.state l = .done v) : ¬ l.RefersTo s root l' := by
  rintro ⟨name, hname, -⟩
  simp [Leaf.names, preset_of_done_start h] at hname

theorem Sound.start : start.Sound s root [] start.Done where
  stack_eq := rfl
  stacked := by
    refine ⟨List.nodup_nil, fun l => ⟨fun h => absurd h List.not_mem_nil, ?_⟩, .nil⟩
    rintro ⟨-, h⟩
    rw [state_start l (preset_of_inProgress h)] at h
    cases h
  settled := by
    refine ⟨fun l _ v hv σ _ => ?_, fun l _ hd => ⟨_, fun l' href => ?_⟩, fun l _ v hv => ?_⟩
    · simp only [Leaf.evaluate, preset_of_done_start hv]
    · obtain ⟨v, hv⟩ := hd
      exact absurd href (not_refersTo_of_done_start hv)
    · refine .intro (fun _ => .null) (fun l' href => absurd href (not_refersTo_of_done_start hv)) ?_
      simp only [Leaf.evaluate, preset_of_done_start hv]
  accounted := by
    refine ⟨List.nodup_nil, fun c hmem => absurd hmem List.not_mem_nil, fun l _ hd hc => ?_⟩
    obtain ⟨v, hv⟩ := hd
    simp [Leaf.parsedAs?, preset_of_done_start hv] at hc

/-! ### Events -/

theorem Stacked.log (e : Event) (h : p.Stacked s root) : (p.log e).Stacked s root :=
  ⟨h.nodup, h.mem_iff, h.chain⟩

theorem Settled.log (e : Event) (h : p.Settled s root) : (p.log e).Settled s root :=
  ⟨h.determined, h.acc, h.resolves⟩

/-- What the parser gives stays determined as more leaves are done. -/
theorem CallFor.of_agrees {c : ParserCall} (h : p.CallFor s root l c)
    (hagrees : ∀ σ, q.Agrees σ → p.Agrees σ) : q.CallFor s root l c :=
  ⟨h.place, h.type, fun σ hσ => h.determined σ (hagrees σ hσ)⟩

/-- What is known of the calls stays known, with the same leaves to be parsed. -/
theorem Accounted.of_agrees {called' : Leaf → Prop} (h : p.Accounted s root called)
    (hcalls : parserCalls q.trace = parserCalls p.trace) (hagrees : ∀ σ, q.Agrees σ → p.Agrees σ)
    (hcalled : ∀ l ∈ root.leaves, l.parsedAs?.isSome → (called' l ↔ called l)) :
    q.Accounted s root called' := by
  refine ⟨hcalls ▸ h.nodup, fun c hmem => ?_, fun l hl hcall hparsed => ?_⟩
  · obtain ⟨l, hl, hcall, hc⟩ := h.exists_leaf c (hcalls ▸ hmem)
    exact ⟨l, hl, (hcalled l hl (by rw [hc.type]; rfl)).2 hcall, hc.of_agrees hagrees⟩
  · obtain ⟨c, hmem, hc⟩ := h.exists_call l hl ((hcalled l hl hparsed).1 hcall) hparsed
    exact ⟨c, hcalls ▸ hmem, hc.of_agrees hagrees⟩

theorem Sound.lookup {place : Keypath} {name : String} (h : p.Sound s root stack p.Done) :
    (p.log (.lookup place name)).Sound s root stack (p.log (.lookup place name)).Done where
  stack_eq := h.stack_eq
  stacked := h.stacked.log _
  settled := h.settled.log _
  accounted := by
    have hcalls : parserCalls (p.log (.lookup place name)).trace = parserCalls p.trace := by
      simp [parserCalls, Event.parserCall?]
    exact h.accounted.of_agrees hcalls (fun _ hσ => hσ) fun _ _ _ => .rfl

/-- The call for a leaf in progress is a new one. -/
theorem Sound.parse (hroot : root.DistinctPlaces) (hl : l ∈ root.leaves)
    (hs : p.state l = .inProgress) {type : LeafType} {text : String}
    (htype : l.parsedAs? = some type)
    (hparsed : p.Determines (fun σ => l.evaluate s (root.value σ)) (s.parsed l.place type l.raw text))
    (h : p.Sound s root stack p.Done) :
    (p.log (.parse l.place type text)).Sound s root stack fun l' =>
      (p.log (.parse l.place type text)).Done l' ∨ l' = l where
  stack_eq := h.stack_eq
  stacked := h.stacked.log _
  settled := h.settled.log _
  accounted := by
    have hcalls : parserCalls (p.log (.parse l.place type text)).trace =
        parserCalls p.trace ++ [⟨l.place, type, text⟩] := by
      simp [parserCalls, Event.parserCall?]
    have hcall : (p.log (.parse l.place type text)).CallFor s root l ⟨l.place, type, text⟩ :=
      ⟨rfl, htype, hparsed⟩
    refine ⟨?nodup, fun c hmem => ?leaf, fun l' hl' hcalled hparsed => ?call⟩
    case nodup =>
      rw [hcalls, List.map_append, List.nodup_append]
      refine ⟨h.accounted.nodup, List.nodup_singleton _, ?_⟩
      rintro _ hplaces _ hplace rfl
      obtain ⟨c, hmem, rfl⟩ := List.mem_map.1 hplaces
      obtain ⟨l', hl', ⟨v, hv⟩, hc⟩ := h.accounted.exists_leaf c hmem
      have hsame : l'.place = l.place := hc.place.trans (List.mem_singleton.1 hplace)
      obtain rfl : l' = l := hroot.eq_of_place hl' hl hsame
      rw [hs] at hv
      cases hv
    case leaf =>
      rw [hcalls, List.mem_append, List.mem_singleton] at hmem
      rcases hmem with hmem | rfl
      · obtain ⟨l', hl', hd, hc⟩ := h.accounted.exists_leaf c hmem
        exact ⟨l', hl', .inl hd, hc.of_agrees fun _ hσ => hσ⟩
      · exact ⟨l, hl, .inr rfl, hcall⟩
    case call =>
      rw [hcalls]
      rcases hcalled with hd | rfl
      · obtain ⟨c, hmem, hc⟩ := h.accounted.exists_call l' hl' hd hparsed
        exact ⟨c, List.mem_append_left _ hmem, hc.of_agrees fun _ hσ => hσ⟩
      · exact ⟨_, List.mem_append_right _ (List.mem_singleton_self _), hcall⟩

theorem Sound.quiet (hl : l.parsedAs? = none) (h : p.Sound s root stack p.Done) :
    p.Sound s root stack fun l' => p.Done l' ∨ l' = l where
  stack_eq := h.stack_eq
  stacked := h.stacked
  settled := h.settled
  accounted := by
    refine h.accounted.of_agrees rfl (fun _ hσ => hσ) fun l' _ hparsed => or_iff_left ?_
    rintro rfl
    simp [hl] at hparsed

/-! ### Starting on a leaf -/

theorem state_enter_eq_done_iff (h : p.state l = .unstarted) :
    (p.enter l).state l' = .done v ↔ p.state l' = .done v := by
  by_cases hl' : p.state l' = .unstarted
  · rw [hl', state_enter]
    split
    · simp
    · rw [hl']
  · rw [state_enter_of_ne h hl']

theorem Stacked.enter (hroot : root.DistinctPlaces) (hl : l ∈ root.leaves)
    (hs : p.state l = .unstarted) (href : ∀ a ∈ p.stack.getLast?, a.RefersTo s root l)
    (h : p.Stacked s root) : (p.enter l).Stacked s root where
  nodup := by
    have hnot : l ∉ p.stack := fun hmem => by
      have hprogress := ((h.mem_iff l).1 hmem).2
      rw [hs] at hprogress
      cases hprogress
    rw [stack_enter, List.nodup_append]
    refine ⟨h.nodup, List.nodup_singleton _, ?_⟩
    rintro a ha _ hb rfl
    exact hnot (List.mem_singleton.1 hb ▸ ha)
  mem_iff l' := by
    rw [stack_enter, List.mem_append, List.mem_singleton, h.mem_iff]
    constructor
    · rintro (⟨hl', hs'⟩ | rfl)
      · exact ⟨hl', (state_enter_of_ne hs (by simp [hs'])).trans hs'⟩
      · exact ⟨hl, state_enter_self hs⟩
    · rintro ⟨hl', hs'⟩
      rw [state_enter] at hs'
      split at hs'
      · next heq => exact .inr (hroot.eq_of_place hl' hl heq.2)
      · exact .inl ⟨hl', hs'⟩
  chain := by
    rw [stack_enter]
    refine h.chain.append (.singleton l) fun a ha b hb => ?_
    cases hb
    exact href a ha

theorem Sound.enter (hroot : root.DistinctPlaces) (hl : l ∈ root.leaves)
    (hs : p.state l = .unstarted) (href : ∀ a ∈ stack.getLast?, a.RefersTo s root l)
    (h : p.Sound s root stack p.Done) :
    (p.enter l).Sound s root (stack ++ [l]) (p.enter l).Done := by
  obtain ⟨rfl, hstacked, hsettled, haccounted⟩ := h
  have hdone (l' : Leaf) : (p.enter l).Done l' ↔ p.Done l' :=
    exists_congr fun v => state_enter_eq_done_iff hs
  have hagrees (σ : Assignment) (hσ : (p.enter l).Agrees σ) : p.Agrees σ :=
    fun l' v hv => hσ l' v ((state_enter_eq_done_iff hs).2 hv)
  refine ⟨rfl, hstacked.enter hroot hl hs href,
    ⟨fun l' hl' v hv σ hσ => ?_, fun l' hl' hd => ?_, fun l' hl' v hv => ?_⟩,
    haccounted.of_agrees rfl hagrees fun l' _ _ => hdone l'⟩
  · exact hsettled.determined l' hl' v ((state_enter_eq_done_iff hs).1 hv) σ (hagrees σ hσ)
  · exact hsettled.acc l' hl' ((hdone l').1 hd)
  · exact hsettled.resolves l' hl' v ((state_enter_eq_done_iff hs).1 hv)

/-! ### Finishing a leaf -/

theorem Agrees.of_leave (hs : p.state l = .inProgress) {σ : Assignment}
    (hσ : (p.leave l v).Agrees σ) : p.Agrees σ := by
  intro l' w hw
  refine hσ l' w ?_
  rw [state_leave, if_neg]
  · exact hw
  · rintro ⟨hpre, hplace⟩
    have hsame : p.state l' = p.state l :=
      state_congr (hpre.trans (preset_of_inProgress hs).symm) hplace
    rw [hw, hs] at hsame
    cases hsame

theorem state_leave_of_ne (hroot : root.DistinctPlaces) (hl : l ∈ root.leaves)
    (hl' : l' ∈ root.leaves) (hne : l' ≠ l) : (p.leave l v).state l' = p.state l' := by
  rw [state_leave, if_neg]
  exact fun h => hne (hroot.eq_of_place hl' hl h.2)

theorem done_leave_iff (hroot : root.DistinctPlaces) (hl : l ∈ root.leaves)
    (hs : p.state l = .inProgress) (hl' : l' ∈ root.leaves) :
    (p.leave l v).Done l' ↔ p.Done l' ∨ l' = l := by
  by_cases hne : l' = l
  · simp [hne, Done, state_leave_self (preset_of_inProgress hs)]
  · simp [hne, Done, state_leave_of_ne hroot hl hl' hne]

theorem Stacked.leave (hroot : root.DistinctPlaces) (hl : l ∈ root.leaves)
    (hs : p.state l = .inProgress) (hstack : p.stack = stack ++ [l]) (h : p.Stacked s root) :
    (p.leave l v).Stacked s root := by
  have hstack' : (p.leave l v).stack = stack := by simp [hstack]
  have hnodup : (stack ++ [l]).Nodup := hstack ▸ h.nodup
  refine ⟨?_, fun l' => ?_, ?_⟩
  · rw [hstack']
    exact hnodup.sublist (List.sublist_append_left ..)
  · have hmem := h.mem_iff l'
    rw [hstack, List.mem_append, List.mem_singleton] at hmem
    rw [hstack']
    by_cases hne : l' = l
    · subst hne
      have hnot : l' ∉ stack := fun h => (List.nodup_append.1 hnodup).2.2 l' h l' (by simp) rfl
      simp [hnot, state_leave_self (preset_of_inProgress hs)]
    · constructor
      · intro h
        obtain ⟨hl', hs'⟩ := hmem.1 (.inl h)
        exact ⟨hl', (state_leave_of_ne hroot hl hl' hne).trans hs'⟩
      · rintro ⟨hl', hs'⟩
        rw [state_leave_of_ne hroot hl hl' hne] at hs'
        exact (hmem.2 ⟨hl', hs'⟩).resolve_right hne
  · rw [hstack']
    exact (hstack ▸ h.chain).left_of_append

/-- What the done leaves resolve to, as an assignment. -/
theorem Settled.resolvesTo_assignment (h : p.Settled s root) (hl : l ∈ root.leaves)
    (hd : p.Done l) (τ : Assignment) : l.ResolvesTo s root (p.assignment τ l) := by
  obtain ⟨v, hv⟩ := hd
  rw [p.agrees_assignment τ l v hv]
  exact h.resolves l hl v hv

/-- References from the leaf end, since they lead to leaves from which they end. -/
theorem Settled.leave (hroot : root.DistinctPlaces) (hl : l ∈ root.leaves)
    (hs : p.state l = .inProgress) (hrefs : ∀ l', l.RefersTo s root l' → p.Done l')
    (hv : p.Determines (fun σ => l.evaluate s (root.value σ)) (.ok v)) (h : p.Settled s root) :
    (p.leave l v).Settled s root := by
  refine ⟨fun l' hl' w hw σ hσ => ?_, fun l' hl' hd => ?_, fun l' hl' w hw => ?_⟩
  · by_cases hne : l' = l
    · subst hne
      rw [state_leave_self (preset_of_inProgress hs)] at hw
      cases hw
      exact hv σ (hσ.of_leave hs)
    · rw [state_leave_of_ne hroot hl hl' hne] at hw
      exact h.determined l' hl' w hw σ (hσ.of_leave hs)
  · rcases (done_leave_iff hroot hl hs hl').1 hd with hd | rfl
    · exact h.acc l' hl' hd
    · exact ⟨_, fun l'' href => h.acc l'' href.mem_leaves (hrefs l'' href)⟩
  · by_cases hne : l' = l
    · subst hne
      rw [state_leave_self (preset_of_inProgress hs)] at hw
      cases hw
      have hrefs' (l'' : Leaf) (href : l'.RefersTo s root l'') :
          l''.ResolvesTo s root (p.assignment (fun _ => .null) l'') :=
        h.resolvesTo_assignment href.mem_leaves (hrefs l'' href) _
      exact .intro _ hrefs' (hv _ (p.agrees_assignment _))
    · rw [state_leave_of_ne hroot hl hl' hne] at hw
      exact h.resolves l' hl' w hw

theorem Sound.leave (hroot : root.DistinctPlaces) (hl : l ∈ root.leaves)
    (h : p.Sound s root (stack ++ [l]) fun l' => p.Done l' ∨ l' = l)
    (hrefs : ∀ l', l.RefersTo s root l' → p.Done l')
    (hv : p.Determines (fun σ => l.evaluate s (root.value σ)) (.ok v)) :
    (p.leave l v).Sound s root stack (p.leave l v).Done := by
  obtain ⟨hstack, hstacked, hsettled, haccounted⟩ := h
  have hs : p.state l = .inProgress := ((hstacked.mem_iff l).1 (by simp [hstack])).2
  refine ⟨by simp [hstack], hstacked.leave hroot hl hs hstack,
    hsettled.leave hroot hl hs hrefs hv, ?_⟩
  exact haccounted.of_agrees rfl (fun _ hσ => hσ.of_leave hs) fun l' hl' _ =>
    done_leave_iff hroot hl hs hl'

end Progress
end TypedConfig
