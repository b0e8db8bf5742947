import Mathlib
import TypedConfig.Proofs.Resolution.Outcome
import TypedConfig.Proofs.Tree.Arena
import TypedConfig.Proofs.Tree.Outline

/-!
# Parser calls

However often a leaf is referred to, its parser is called once at most, and what the parser gives is
what becomes of the leaf; in a resolution that ends well, a parser is called for exactly the leaves
that have something to be parsed (`Resolver.parserCalls_trace`). These are the leaves of the tree: a
leaf that an arena keeps although another child has taken its key is never visited
(`Resolver.exists_leaf_without_call`).
-/

namespace TypedConfig

variable {s : Settings} {root : Node} {p : Progress} {called : Leaf → Prop} {l : Leaf}
  {c : ParserCall} {e : Error}

/-! ### Calls and leaves -/

/-- The place and the type of the leaf that the call is made for. -/
def ParserCall.due (c : ParserCall) : Keypath × LeafType := (c.place, c.type)

theorem Leaf.place_of_parserCall? {due : Keypath × LeafType} (h : l.parserCall? = some due) :
    l.place = due.1 := by
  obtain ⟨type, -, rfl⟩ := Option.map_eq_some_iff.1 h
  rfl

namespace Progress

theorem CallFor.parserCall? (h : p.CallFor s root l c) : l.parserCall? = some c.due := by
  rw [Leaf.parserCall?, h.type, Option.map_some, h.place]
  rfl

/-- The parser gives the value of a leaf that is done. -/
theorem CallFor.get_eq_ok (h : p.CallFor s root l c) (hp : p.Settled s root) (hl : l ∈ root.leaves)
    {v : Value} (hv : p.state l = .done v) : s.parsers.get c.type c.text = .ok v := by
  have hparsed := h.determined _ (p.agrees_assignment fun _ => .null)
  have hvalue := hp.determined l hl v hv _ (p.agrees_assignment fun _ => .null)
  exact Settings.parsed_eq_ok_iff.1 (hparsed.symm.trans hvalue)

/-- The parser gives an error if what the leaf should be is this error. -/
theorem CallFor.get_eq_error (h : p.CallFor s root l c)
    (he : p.Determines (fun σ => l.evaluate s (root.value σ)) (.error e)) :
    ∃ source, s.parsers.get c.type c.text = .error source ∧
      e = .parse c.place l.raw.scalarText c.text source := by
  have hparsed := h.determined _ (p.agrees_assignment fun _ => .null)
  have herror := he _ (p.agrees_assignment fun _ => .null)
  obtain ⟨source, hget, rfl⟩ := Settings.parsed_eq_error_iff.1 (hparsed.symm.trans herror)
  exact ⟨source, hget, by rw [h.place]⟩

theorem Accounted.perm (hroot : root.DistinctPlaces) (h : p.Accounted s root called)
    (hall : ∀ l ∈ root.leaves, called l) :
    ((parserCalls p.trace).map ParserCall.due).Perm (root.leaves.filterMap Leaf.parserCall?) := by
  have hcalls : ((parserCalls p.trace).map ParserCall.due).Nodup := by
    have hplaces := h.nodup
    rw [show ParserCall.place = Prod.fst ∘ ParserCall.due from rfl, ← List.map_map] at hplaces
    exact hplaces.of_map
  have hdue : (root.leaves.filterMap Leaf.parserCall?).Nodup := by
    have hplaces : root.leaves.Pairwise fun l l' => l.place ≠ l'.place := List.pairwise_map.1 hroot
    rw [List.Nodup, List.pairwise_filterMap]
    refine hplaces.imp fun {l l'} hne c hc c' hc' heq => hne ?_
    rw [Leaf.place_of_parserCall? hc, Leaf.place_of_parserCall? hc', heq]
  refine (List.perm_ext_iff_of_nodup hcalls hdue).2 fun due => ?_
  rw [List.mem_map, List.mem_filterMap]
  constructor
  · rintro ⟨c, hmem, rfl⟩
    obtain ⟨l, hl, -, hc⟩ := h.exists_leaf c hmem
    exact ⟨l, hl, hc.parserCall?⟩
  · rintro ⟨l, hl, hdue⟩
    obtain ⟨type, htype, -⟩ := Option.map_eq_some_iff.1 hdue
    obtain ⟨c, hmem, hc⟩ := h.exists_call l hl (hall l hl) (by rw [htype]; rfl)
    exact ⟨c, hmem, Option.some.inj (hc.parserCall?.symm.trans hdue)⟩

end Progress

namespace Resolver

variable {r : Resolver} {raw : Json}

/-- Each call is for a leaf of its own. The parser gives the value that the leaf resolves to, or the
error that ends the resolution. If the configuration resolves, the calls are for the leaves that have
something to be parsed, and the value has at their places what the parsers give. -/
theorem parserCalls_trace (hb : Node.ofConfig r.schema raw = .ok root) :
    ((parserCalls (r.trace raw)).map ParserCall.place).Nodup ∧
      (∀ c ∈ parserCalls (r.trace raw), ∃ l ∈ root.leaves, l.parserCall? = some c.due ∧
        ((∃ w, r.settings.parsers.get c.type c.text = .ok w ∧ l.ResolvesTo r.settings root w) ∨
          ∃ source, r.settings.parsers.get c.type c.text = .error source ∧
            r.resolve raw = .error (.parse c.place l.raw.scalarText c.text source))) ∧
      ∀ v, r.resolve raw = .ok v →
        ((parserCalls (r.trace raw)).map ParserCall.due).Perm
          (root.leaves.filterMap Leaf.parserCall?) ∧
        ∀ c ∈ parserCalls (r.trace raw), ∃ w,
          r.settings.parsers.get c.type c.text = .ok w ∧ v.reach? c.place.segments = some w := by
  have hroot := Node.distinctPlaces_ofConfig hb
  cases hv : r.settings.checkVariables with
  | error e => simp [trace, resolve, run, hv, parserCalls]
  | ok =>
    rcases success_or_failure hv hb with ⟨v, p, hrun, hp⟩ | ⟨e, p, hrun, hp⟩
    · rw [trace, resolve, hrun]
      refine ⟨hp.accounted.nodup, fun c hmem => ?leaf, fun v' heq => ?value⟩
      case leaf =>
        obtain ⟨l, hl, ⟨w, hw⟩, hc⟩ := hp.accounted.exists_leaf c hmem
        exact ⟨l, hl, hc.parserCall?, .inl ⟨w, hc.get_eq_ok hp.settled hl hw,
          hp.settled.resolves l hl w hw⟩⟩
      case value =>
        cases heq
        refine ⟨hp.accounted.perm hroot hp.done, fun c hmem => ?_⟩
        obtain ⟨l, hl, ⟨w, hw⟩, hc⟩ := hp.accounted.exists_leaf c hmem
        refine ⟨w, hc.get_eq_ok hp.settled hl hw, ?_⟩
        have hagrees := p.agrees_assignment fun _ => .null
        have hvalue : root.value (p.assignment fun _ => .null) = v := hp.value _ hagrees
        obtain ⟨steps, hplace, hreach⟩ := (Node.standsAt_ofConfig hb).reach?_value
          (Node.distinctKeys_ofConfig hb) (p.assignment fun _ => .null) hl
        rw [hvalue, hagrees l w hw] at hreach
        rw [← hc.place, hplace]
        exact hreach
    · obtain ⟨called, haccounted, hconcluded⟩ := hp.accounted
      rw [trace, resolve, hrun]
      refine ⟨haccounted.nodup, fun c hmem => ?_, fun _ h => by cases h⟩
      obtain ⟨l, hl, hcalled, hc⟩ := haccounted.exists_leaf c hmem
      refine ⟨l, hl, hc.parserCall?, ?_⟩
      rcases hconcluded l hcalled with ⟨w, hw⟩ | he
      · exact .inl ⟨w, hc.get_eq_ok hp.settled hl hw, hp.settled.resolves l hl w hw⟩
      · obtain ⟨source, hget, rfl⟩ := hc.get_eq_error he
        exact .inr ⟨source, hget, rfl⟩

/-- One leaf is asked for three times, and another one has nothing to be parsed. -/
theorem parserCalls_of_total :
    let r := ofSchema .any
    let total : Json := .string "$\x7bthis.sum\x7d$\x7bthis.base\x7d"
    let sum : Json := .string "$\x7bthis.base\x7d$\x7bthis.base\x7d"
    let raw : Json :=
      .object [("total", total), ("sum", sum), ("base", .string "x"), ("flag", .bool true)]
    let root : Node := .dict .root [
      ("total", Node.openLeaf (Keypath.root.key "total") .any total),
      ("sum", Node.openLeaf (Keypath.root.key "sum") .any sum),
      ("base", Node.openLeaf (Keypath.root.key "base") .any (.string "x")),
      ("flag", Node.openLeaf (Keypath.root.key "flag") .any (.bool true))]
    let v : Value := .dict [("total", .string "xxx"), ("sum", .string "xx"), ("base", .string "x"),
      ("flag", .bool true)]
    Node.ofConfig r.schema raw = .ok root ∧ r.resolve raw = .ok v ∧
      ((parserCalls (r.trace raw)).map ParserCall.place).Nodup ∧
      ((parserCalls (r.trace raw)).map ParserCall.due).Perm
        [(Keypath.root.key "total", .any), (Keypath.root.key "sum", .any),
          (Keypath.root.key "base", .any)] ∧
      ∀ c ∈ parserCalls (r.trace raw), ∃ w,
        r.settings.parsers.get c.type c.text = .ok w ∧ v.reach? c.place.segments = some w := by
  intro r total sum raw root v
  have hbuild : Node.ofConfig r.schema raw = .ok root := by cbv
  have hresolve : r.resolve raw = .ok v := by cbv
  obtain ⟨hnodup, -, hcalls⟩ := parserCalls_trace hbuild
  exact ⟨hbuild, hresolve, hnodup, hcalls v hresolve⟩

/-- A key that is required, and optional as well: the leaf for the requirement is in the arena and is
to be parsed, but the configuration resolves without a parser call for it. -/
theorem exists_leaf_without_call :
    let r := ofSchema (.dict [("port", .scalar .integer false)]
      [("port", .scalar .string false, none)] none false)
    let raw := Json.object [("port", .string "1")]
    ∃ a v l, Arena.ofConfig r.schema raw = .ok a ∧ r.resolve raw = .ok v ∧
      .leaf l .unstarted ∈ a.cells ∧ l.parserCall? = some (Keypath.root.key "port", .scalar .integer) ∧
      parserCalls (r.trace raw) = [⟨Keypath.root.key "port", .scalar .string, "1"⟩] := by
  intro r raw
  have hbuild : Node.build r.schema .root raw = .ok (.dict .root [
      ("port", Node.openLeaf (Keypath.root.key "port") (.scalar .integer) (.string "1")),
      ("port", Node.openLeaf (Keypath.root.key "port") (.scalar .string) (.string "1"))]) := by cbv
  have harena := (Arena.ofConfig_eq_ok_iff (a := ⟨_, _⟩)).2 ⟨_, hbuild, rfl⟩
  have hresolve : r.resolve raw = .ok (.dict [("port", .string "1")]) := by cbv
  have hcalls : parserCalls (r.trace raw) =
      [⟨Keypath.root.key "port", .scalar .string, "1"⟩] := by cbv
  exact ⟨_, _, _, harena, hresolve, List.mem_cons_self .., rfl, hcalls⟩

end Resolver
end TypedConfig
