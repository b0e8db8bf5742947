import TypedConfig.Proofs.Expression.PointedText
import TypedConfig.Proofs.Resolution.Dependence
import TypedConfig.Proofs.Resolution.Termination
import TypedConfig.Proofs.Resolution.WrittenScalar
import TypedConfig.Proofs.Tree.Presets

/-!
# Values that are referred to

What a reference to a scalar splices in is read back as the scalar by the parser of its type
(`LeafParser.builtin_text`). So a leaf that is nothing but a reference to another leaf of its type
has the value of that leaf, in the equations (`Leaf.Copies.resolvesTo`) and in a visit
(`Resolution.visit_of_copies`).
-/

namespace TypedConfig

/-- The text of a value says all there is to it: a double is finite, a leap second ends its
minute. -/
def Value.IsLegible : Value → Prop
  | .float x => x.isFinite = true
  | .dateTime t => t.time.IsProper
  | _ => True

/-! ### Texts -/

namespace LeafParser

theorem float_text {x : Float} (hx : x.isFinite = true) :
    float (Value.float x).text = .ok (.float x) := by
  rw [float, Value.text, Expression.Arithmetic.evaluate_pointedText hx]
  rfl

theorem boolean_text (b : Bool) : boolean (Value.bool b).text = .ok (.bool b) := by
  cases b <;> cbv

variable {type : ScalarType} {v : Value}

/-- A scalar is read back from its text. -/
theorem builtin_text (hkind : v.kind = type.kind) (hv : v.IsLegible) :
    builtin (.scalar type) v.text = .ok v := by
  cases v with
  | null | list | dict => cases type <;> cases hkind
  | bool b =>
    obtain rfl : .boolean = type := ScalarType.eq_of_kind_eq hkind
    exact boolean_text b
  | integer n =>
    obtain rfl : .integer = type := ScalarType.eq_of_kind_eq hkind
    exact integer_numeral n
  | float x =>
    obtain rfl : .float = type := ScalarType.eq_of_kind_eq hkind
    exact float_text hv
  | string s =>
    obtain rfl : .string = type := ScalarType.eq_of_kind_eq hkind
    rfl
  | date d =>
    obtain rfl : .date = type := ScalarType.eq_of_kind_eq hkind
    exact date_text d
  | dateTime t =>
    obtain rfl : .dateTime = type := ScalarType.eq_of_kind_eq hkind
    exact dateTime_text_eq_ok_iff.2 hv

theorem isLegible_of_builtin {text : String} (h : builtin (.scalar type) text = .ok v)
    (hfinite : ∀ x, v = .float x → x.isFinite = true) : v.IsLegible := by
  cases v with
  | float x => exact hfinite x rfl
  | dateTime t =>
    obtain rfl : .dateTime = type := ScalarType.eq_of_kind_eq (kind_of_builtin h)
    exact isProper_of_dateTime h
  | _ => trivial

end LeafParser

/-! ### Defaults -/

namespace Schema

variable {type : ScalarType} {d : Value}

theorem isLegible_of_defaultOfScalar {j : Json} (h : defaultOfScalar type j = .ok d)
    (hfinite : ∀ x, d = .float x → x.isFinite = true) : d.kind = type.kind ∧ d.IsLegible := by
  unfold defaultOfScalar at h
  split at h
  · cases h; exact ⟨rfl, trivial⟩
  · split at h
    · cases h; exact ⟨rfl, trivial⟩
    · cases h
  · cases h; exact ⟨rfl, hfinite _ rfl⟩
  · cases h; exact ⟨rfl, trivial⟩
  · split at h
    · cases h; exact ⟨rfl, trivial⟩
    · cases h
  · split at h
    · next hliteral => cases h; exact ⟨rfl, Calendar.DateTime.isProper_of_ofLiteral? hliteral⟩
    · cases h
  · cases h

theorem isLegible_of_hasDefault {schema : Schema} (htype : schema.leafType = .scalar type)
    (h : schema.HasDefault d) (hnull : d ≠ .null)
    (hfinite : ∀ x, d = .float x → x.isFinite = true) : d.kind = type.kind ∧ d.IsLegible := by
  cases schema with
  | dict | list | any => cases htype
  | scalar type' nullable =>
    cases htype
    obtain ⟨j, -, h⟩ := h
    unfold defaultValue at h
    split at h
    · split at h
      · cases h; exact absurd rfl hnull
      · cases h
    · exact isLegible_of_defaultOfScalar h hfinite

end Schema

/-! ### References -/

/-- Two leaves of a scalar type, the text of the first being a reference to the second. -/
structure Leaf.Copies (s : Settings) (root : Node) (l l' : Leaf) (type : ScalarType) : Prop where
  preset : l.preset = none
  kind : l.kind = .typed (.scalar type)
  kind' : l'.kind = .typed (.scalar type)
  reference : ∃ template body parts, l.raw = .string template ∧
    Template.scan s.dialect template = ⟨[.reference body], none⟩ ∧
    s.target (Template.name body) = .internal parts ∧ root.locate? parts = some (.leaf l', [])

theorem Template.render_reference {m : Type → Type} [Monad m] [LawfulMonad m]
    (lookup : String → m String) (malformed : Nat → Fault → m String) (body : List Char) :
    (⟨[.reference body], none⟩ : Template).render lookup malformed = lookup (name body) := by
  simp [render, renderPieces, Piece.render]

theorem Settings.exists_of_typedValue_scalar {s : Settings} {world v : Value} {place : Keypath}
    {type : ScalarType} {raw : Json} (h : s.typedValue world place (.scalar type) raw = .ok v) :
    ∃ text, s.parsers.get (.scalar type) text = .ok v := by
  unfold typedValue at h
  split at h
  · obtain ⟨text, -, h⟩ := bind_eq_ok.1 h
    exact ⟨text, parsed_eq_ok_iff.1 h⟩
  · contradiction
  · exact ⟨_, parsed_eq_ok_iff.1 h⟩

namespace Leaf

variable {s : Settings} {root : Node} {l l' : Leaf} {type : ScalarType} {w : Value}

/-- What a leaf of a scalar type resolves to is null, or a scalar of the type that is read back. -/
theorem ResolvesTo.isLegible (h : l.ResolvesTo s root w) (hkind : l.kind = .typed (.scalar type))
    (hpreset : l.PresetDeclared)
    (hparser : s.parsers.get (.scalar type) = LeafParser.builtin (.scalar type))
    (hnull : w ≠ .null) (hfinite : ∀ x, w = .float x → x.isFinite = true) :
    w.kind = type.kind ∧ w.IsLegible := by
  obtain ⟨σ, -, h⟩ := h
  cases hp : l.preset with
  | some d =>
    simp only [evaluate, hp, Except.ok.injEq] at h
    subst h
    rcases hpreset d hp with hd | ⟨schema, htype, hd⟩
    · exact absurd hd hnull
    · rw [hkind, LeafKind.typed.injEq] at htype
      exact Schema.isLegible_of_hasDefault htype.symm hd hnull hfinite
  | none =>
    simp only [evaluate, hp, hkind] at h
    obtain ⟨text, h⟩ := Settings.exists_of_typedValue_scalar h
    rw [hparser] at h
    exact ⟨LeafParser.kind_of_builtin h, LeafParser.isLegible_of_builtin h hfinite⟩

namespace Copies

theorem eq_of_refersTo (h : l.Copies s root l' type) {m : Leaf} (hm : l.RefersTo s root m) :
    m = l' := by
  obtain ⟨template, body, parts, hraw, hscan, htarget, hlocate⟩ := h.reference
  obtain ⟨name, hname, parts', htarget', node, rest, hlocate', hmem⟩ := hm
  simp only [names, h.preset, h.kind, hraw, hscan, Template.names, List.filterMap_cons,
    List.filterMap_nil, List.mem_singleton] at hname
  subst hname
  cases htarget.symm.trans htarget'
  cases hlocate.symm.trans hlocate'
  simpa using hmem

theorem resolvesTo (h : l.Copies s root l' type) (hl' : l'.ResolvesTo s root w)
    (hparse : s.parsers.get (.scalar type) w.text = .ok w) : l.ResolvesTo s root w := by
  refine .intro (fun _ => w) (fun m hm => h.eq_of_refersTo hm ▸ hl') ?_
  obtain ⟨template, body, parts, hraw, hscan, htarget, hlocate⟩ := h.reference
  have hfound : (root.value fun _ => w).descend? parts = some w := by
    rw [Node.descend?_value, hlocate]
    rfl
  have htext : s.textOf (root.value fun _ => w) l.place (Template.name body) = .ok w.text := by
    simp only [Settings.textOf, htarget, hfound]
    rfl
  simp only [evaluate, h.preset, h.kind, hraw, Settings.typedValue, hscan,
    Template.render_reference, htext]
  exact Settings.parsed_eq_ok_iff.2 hparse

end Copies
end Leaf

namespace Resolution

variable {s : Settings} {root : Node} {again : Leaf → Resolution Value} {l l' : Leaf}
  {type : ScalarType} {p : Progress} {w : Value}

theorem visit_of_done (h : p.state l = .done w) : visit s root again l p = .ok w p := by
  refine run_bind_eq_ok.2 ⟨p, p, rfl, ?_⟩
  rw [h]
  rfl

theorem lookup_of_done {place : Keypath} {name : String} {parts : List String}
    (htarget : s.target name = .internal parts) (hlocate : root.locate? parts = some (.leaf l', []))
    (h : p.state l' = .done w) :
    lookup s root (fun n => n.assemble (visit s root again)) place name p =
      .ok w.text (p.log (.lookup place name)) := by
  have hvisit : visit s root again l' (p.log (.lookup place name)) =
      .ok w (p.log (.lookup place name)) := visit_of_done h
  refine run_bind_eq_ok.2 ⟨(), _, rfl, ?_⟩
  simp only [htarget]
  refine run_bind_eq_ok.2 ⟨w, p.log (.lookup place name), ?_, rfl⟩
  simp only [followInternal, hlocate]
  exact run_bind_eq_ok.2 ⟨w, p.log (.lookup place name), hvisit, rfl⟩

/-- A visit to a leaf that copies one that is done gives the value of that one. -/
theorem visit_of_copies (h : l.Copies s root l' type)
    (hparse : s.parsers.get (.scalar type) w.text = .ok w) (hl : p.state l = .unstarted)
    (hl' : p.state l' = .done w) :
    ∃ q, visit s root (visit s root again) l p = .ok w q ∧ q.state l = .done w := by
  obtain ⟨template, body, parts, hraw, hscan, htarget, hlocate⟩ := h.reference
  have hdone : (p.enter l).state l' = .done w :=
    (Progress.state_enter_of_ne hl (by simp [hl'])).trans hl'
  obtain ⟨r, hlookup⟩ : ∃ r, lookup s root (fun n => n.assemble (visit s root again)) l.place
      (Template.name body) (p.enter l) = .ok w.text r := ⟨_, lookup_of_done htarget hlocate hdone⟩
  have hparsed : parse s l.place (.scalar type) (.string template) w.text r =
      .ok w (r.log (.parse l.place (.scalar type) w.text)) := by
    refine run_bind_eq_ok.2 ⟨(), _, rfl, ?_⟩
    rw [hparse]
    rfl
  have hopen : resolveOpen s root (fun n => n.assemble (visit s root again)) l (p.enter l) =
      .ok w (r.log (.parse l.place (.scalar type) w.text)) := by
    simp only [resolveOpen, h.kind, resolveTyped, hraw, hscan, Template.render_reference]
    exact run_bind_eq_ok.2 ⟨w.text, r, hlookup, hparsed⟩
  refine ⟨(r.log (.parse l.place (.scalar type) w.text)).leave l w, ?_,
    Progress.state_leave_self h.preset⟩
  refine run_bind_eq_ok.2 ⟨p, p, rfl, ?_⟩
  rw [hl]
  exact run_bind_eq_ok.2 ⟨(), p.enter l, rfl, run_bind_eq_ok.2 ⟨w, _, hopen, rfl⟩⟩

/-- So does a visit within a resolution of the whole tree, which has an open leaf at least. -/
theorem visitWithin_of_copies (hmem : l ∈ root.leaves) (h : l.Copies s root l' type)
    (hparse : s.parsers.get (.scalar type) w.text = .ok w) (hl : p.state l = .unstarted)
    (hl' : p.state l' = .done w) (beyond : Leaf → Resolution Value) (extra : Nat) :
    ∃ q, visitWithin s root beyond (root.openLeaves.length + 1 + extra) l p = .ok w q ∧
      q.state l = .done w := by
  have hopen : l ∈ root.openLeaves := List.mem_filter.2 ⟨hmem, by rw [h.preset]; rfl⟩
  obtain ⟨n, hn⟩ := Nat.exists_eq_add_of_lt (List.length_pos_of_mem hopen)
  have hdepth : root.openLeaves.length + 1 + extra = n + extra + 1 + 1 := by omega
  rw [hdepth]
  exact visit_of_copies h hparse hl hl'

end Resolution

namespace Resolver

open Resolution

/-- The parser of each type reads the text of a value back, that of a datetime just if its leap second,
if it has one, ends a minute. Each datetime that is read is such, so that a leaf that copies another
one has the same value as soon as this one has it. -/
theorem text_readBack :
    (∀ n, LeafParser.integer (Value.integer n).text = .ok (.integer n)) ∧
    (∀ x : Float, x.isFinite = true → LeafParser.float (Value.float x).text = .ok (.float x)) ∧
    (∀ b, LeafParser.boolean (Value.bool b).text = .ok (.bool b)) ∧
    (∀ d, LeafParser.date (Value.date d).text = .ok (.date d)) ∧
    (∀ t, LeafParser.dateTime (Value.dateTime t).text = .ok (.dateTime t) ↔ t.time.IsProper) ∧
    (∀ text t, LeafParser.dateTime text = .ok (.dateTime t) → t.time.IsProper) ∧
    (∀ s, LeafParser.string (Value.string s).text = .ok (.string s)) ∧
    ∀ (r : Resolver) (raw : Json) (root : Node) (l l' : Leaf) (type : ScalarType) (w : Value),
      r.schema.Accepted → Node.ofConfig r.schema raw = .ok root →
      l ∈ root.leaves → l.Copies r.settings root l' type →
      r.settings.parsers.get (.scalar type) = LeafParser.builtin (.scalar type) →
      l'.ResolvesTo r.settings root w → w ≠ .null → (∀ x, w = .float x → x.isFinite = true) →
      (∀ beyond extra p, p.state l = .unstarted → p.state l' = .done w →
        ∃ q, visitWithin r.settings root beyond (root.openLeaves.length + 1 + extra) l p = .ok w q ∧
          q.state l = .done w) ∧
      ∀ v, r.resolve raw = .ok v → v.reach? l.place.segments = some w := by
  refine ⟨LeafParser.integer_numeral, fun x hx => LeafParser.float_text hx, LeafParser.boolean_text,
    LeafParser.date_text, fun t => LeafParser.dateTime_text_eq_ok_iff,
    fun text t h => LeafParser.isProper_of_dateTime h, fun s => rfl, ?_⟩
  intro r raw root l l' type w hs hb hmem hcopies hparser hl' hnull hfinite
  have hmem' : l' ∈ root.leaves := by
    obtain ⟨template, body, parts, -, -, -, hlocate⟩ := hcopies.reference
    exact Node.mem_leaves_of_locate? hlocate l' (by simp)
  have hpreset : l'.PresetDeclared := Node.presetDeclared_ofConfig hs.wellFormed hb hmem'
  obtain ⟨hkind, hlegible⟩ := hl'.isLegible hcopies.kind' hpreset hparser hnull hfinite
  have hparse : r.settings.parsers.get (.scalar type) w.text = .ok w := by
    rw [hparser]
    exact LeafParser.builtin_text hkind hlegible
  refine ⟨fun beyond extra p hl hdone =>
    visitWithin_of_copies hmem hcopies hparse hl hdone beyond extra, fun v hv => ?_⟩
  obtain ⟨σ, hσ, rfl⟩ := exists_resolvesTo hb hv
  have hvalue : σ l = w := (hσ l hmem).unique (hcopies.resolvesTo hl' hparse)
  obtain ⟨steps, hplace, hreach⟩ :=
    (Node.standsAt_ofConfig hb).reach?_value (Node.distinctKeys_ofConfig hb) σ hmem
  rw [hplace, ← hvalue]
  exact hreach

/-- A half, a leap second before the common era, and a port that is given twice. -/
theorem text_readBack_of_port :
    let r : Resolver := .ofSchema
      (.dict [("port", .scalar .integer false), ("same", .scalar .integer false)] [] none false)
    let port : Leaf := ⟨Keypath.root.key "port", .typed (.scalar .integer), .string "8080", none⟩
    let same : Leaf := ⟨Keypath.root.key "same", .typed (.scalar .integer),
      .string "$\x7bthis.port\x7d", none⟩
    let root : Node := .dict .root [("port", .leaf port), ("same", .leaf same)]
    let half := Decimal.toFloat ⟨5, -1⟩
    let leapSecond : Calendar.DateTime :=
      ⟨⟨-44, 3, 15, by decide, by decide, by decide⟩, ⟨86399, 1250000000, by decide, by decide⟩⟩
    (half.isFinite = true ∧ LeafParser.float (Value.float half).text = .ok (.float half)) ∧
    (leapSecond.time.IsProper ∧
      LeafParser.dateTime (Value.dateTime leapSecond).text = .ok (.dateTime leapSecond)) ∧
    Node.ofConfig r.schema (.object [("port", port.raw), ("same", same.raw)]) = .ok root ∧
    port.ResolvesTo r.settings root (.integer 8080) ∧
    (∃ q, visitWithin r.settings root reenter (root.openLeaves.length + 1 + 0) same
        (Progress.start.leave port (.integer 8080)) = .ok (.integer 8080) q ∧
      q.state same = .done (.integer 8080)) ∧
    (Value.dict [("port", .integer 8080), ("same", .integer 8080)]).reach? same.place.segments =
      some (.integer 8080) := by
  intro r port same root half leapSecond
  obtain ⟨-, hfloat, -, -, hdateTime, -, -, hcopy⟩ := text_readBack
  have hfinite : half.isFinite = true := by decide +kernel
  have hproper : leapSecond.time.IsProper := fun _ => by decide
  have hs : r.schema.Accepted :=
    ⟨.object [("type", .string "dict"),
      ("required_keys", .object [("port", .object [("type", .string "integer")]),
        ("same", .object [("type", .string "integer")])])],
      .object (by simp) (by simp), by cbv⟩
  have hcopies : same.Copies r.settings root port .integer :=
    ⟨rfl, rfl, rfl, _, "this.port".toList, ["port"], rfl, by cbv, by cbv, by cbv⟩
  have hb : Node.ofConfig r.schema (.object [("port", port.raw), ("same", same.raw)]) = .ok root := by
    cbv
  have hnames : port.names .interpolation = [] := by cbv
  have hport : port.ResolvesTo r.settings root (.integer 8080) := by
    refine .intro (fun _ => .null) (fun l' href => ?_) (by cbv)
    obtain ⟨name, hname, -⟩ := href
    have hname : name ∈ ([] : List String) := hnames ▸ hname
    cases hname
  obtain ⟨hvisit, hreach⟩ := hcopy r _ root same port .integer (.integer 8080) hs hb
    (by simp [root]) hcopies rfl hport (by simp) (by simp)
  exact ⟨⟨hfinite, hfloat half hfinite⟩, ⟨hproper, (hdateTime leapSecond).2 hproper⟩, hb, hport,
    hvisit reenter 0 _ (by cbv) (Progress.state_leave_self rfl), hreach _ (by cbv)⟩

/-- What is not read back: a leap second within a minute, which is written as the second after it, and
a list that a parser of one's own makes of a text. -/
theorem exists_not_readBack :
    (let t : Calendar.DateTime :=
      ⟨⟨2016, 12, 31, by decide, by decide, by decide⟩, ⟨45015, 1000000000, by decide, by decide⟩⟩
    let next : Calendar.DateTime :=
      ⟨⟨2016, 12, 31, by decide, by decide, by decide⟩, ⟨45016, 0, by decide, by decide⟩⟩
    (Value.dateTime t).text = "2016-12-31T12:30:16" ∧
      LeafParser.dateTime (Value.dateTime t).text = .ok (.dateTime next) ∧ next ≠ t) ∧
    let schema : Schema :=
      .dict [("text", .scalar .string false), ("same", .scalar .string false)] [] none false
    let parsers := Parsers.none.insert (.scalar .string) fun text => .ok (.list [.string text])
    (Resolver.mk schema { Settings.initial with parsers }).resolve
        (.object [("text", .string "x"), ("same", .string "$\x7bthis.text\x7d")]) =
      .ok (.dict [("text", .list [.string "x"]), ("same", .list [.string "[\"x\"]"])]) := by
  refine ⟨?_, by cbv⟩
  intro t next
  have hwritten : t.time.asWritten = next.time := by cbv
  have hparse : LeafParser.dateTime (Value.dateTime t).text = .ok (.dateTime next) := by
    rw [Value.text, LeafParser.dateTime_text, hwritten]
  exact ⟨by cbv, hparse, fun h => absurd (congrArg (fun t => t.time.nano) h) (by decide)⟩

end Resolver
end TypedConfig
