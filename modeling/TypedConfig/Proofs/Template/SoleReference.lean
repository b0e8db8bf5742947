import TypedConfig.Proofs.Template.Plain
import TypedConfig.Proofs.Template.Render
import TypedConfig.Proofs.Text.Blanks

/-!
# Sole references

A text is a sole reference if nothing is left of it, blanks at its ends aside, but one reference
with no further opening in it (`soleReference?_eq_some_iff_trim`). That is read off its two ends,
while rendering takes the text apart from left to right. The two agree on all texts
(`soleReference?_eq_some_iff`): a text is a sole reference to a name if and only if rendering it is
to look up this one name and to put the answer between the blanks of the text.
-/

namespace TypedConfig

namespace Text

/-- Blanks at the ends are all that trimming takes away from a text that has none there. -/
theorem trim_between {before core after : List Char} (hbefore : ∀ c ∈ before, isBlank c = true)
    (hafter : ∀ c ∈ after, isBlank c = true) (hne : core ≠ [])
    (hhead : ∀ c ∈ core.head?, isBlank c = false) (hlast : ∀ c ∈ core.getLast?, isBlank c = false) :
    trim (before ++ (core ++ after)) = core := by
  have hstart : trimStart (before ++ (core ++ after)) = core ++ after := by
    rw [trimStart, List.dropWhile_append_of_pos hbefore]
    refine trimStart_eq_self fun c hc => hhead c ?_
    rwa [List.head?_append_of_ne_nil _ hne] at hc
  have hafter' : ∀ c ∈ after.reverse, isBlank c = true :=
    fun c hc => hafter c (List.mem_reverse.1 hc)
  rw [trim, hstart, trimEnd, List.reverse_append, List.dropWhile_append_of_pos hafter']
  exact trimEnd_eq_of_last hlast

/-- The blanks that a text starts with. -/
def leadingBlanks (text : String) : String := String.ofList (text.toList.takeWhile isBlank)

/-- The blanks that a text ends with. -/
def trailingBlanks (text : String) : String :=
  String.ofList (text.toList.reverse.takeWhile isBlank).reverse

theorem isBlank_of_mem_leadingBlanks {text : String} {c : Char}
    (h : c ∈ (leadingBlanks text).toList) : isBlank c = true := by
  rw [leadingBlanks, String.toList_ofList] at h
  exact List.mem_takeWhile_imp h

theorem isBlank_of_mem_trailingBlanks {text : String} {c : Char}
    (h : c ∈ (trailingBlanks text).toList) : isBlank c = true := by
  rw [trailingBlanks, String.toList_ofList, List.mem_reverse] at h
  exact List.mem_takeWhile_imp h

end Text

namespace Template

open Text

/-! ### Openings between blanks -/

theorem hasOpening_blanks_append {before : List Char} (h : ∀ c ∈ before, isBlank c = true)
    (cs : List Char) : hasOpening (before ++ cs) = hasOpening cs := by
  induction before with
  | nil => rfl
  | cons c before ih =>
    obtain ⟨hc, hbefore⟩ := List.forall_mem_cons.1 h
    rw [List.cons_append, hasOpening, ih hbefore]
    rintro rest rfl
    cases hc

theorem hasOpening_append_blanks (cs : List Char) {after : List Char}
    (h : ∀ c ∈ after, isBlank c = true) : hasOpening (cs ++ after) = hasOpening cs := by
  induction cs using hasOpening.induct with
  | case1 rest => rfl
  | case2 c cs hne ih =>
    rw [List.cons_append, hasOpening, hasOpening, ih]
    · exact hne
    · rintro rest rfl hrest
      cases cs with
      | nil =>
        rw [List.nil_append] at hrest
        cases h '\x7b' (hrest ▸ List.mem_cons_self ..)
      | cons d cs =>
        cases hrest
        exact hne cs rfl rfl
  | case3 =>
    rw [List.nil_append]
    exact hasOpening_of_not_mem fun hmem => by cases h '$' hmem

theorem hasOpening_trim (cs : List Char) : hasOpening (trim cs) = hasOpening cs := by
  obtain ⟨before, after, hcs, hbefore, hafter⟩ := exists_trim cs
  have hwhole : hasOpening cs = hasOpening (before ++ (trim cs ++ after)) := congrArg hasOpening hcs
  rw [hwhole, hasOpening_blanks_append hbefore, hasOpening_append_blanks _ hafter]

/-! ### What a sole reference is -/

theorem soleReference?_eq_some_iff_trim {text name : String} : soleReference? text = some name ↔
    ∃ body, trim text.toList = '$' :: '\x7b' :: (body ++ ['\x7d']) ∧ '\x7d' ∉ body ∧
      hasOpening body = false ∧ trim body ≠ [] ∧ Template.name body = name := by
  unfold soleReference?
  constructor
  · intro h
    split at h
    · next cs htrim =>
      split at h
      · next reversed hreversed =>
        have hcs : cs = reversed.reverse ++ ['\x7d'] := by
          rw [← List.reverse_cons, ← hreversed, List.reverse_reverse]
        simp only [Option.ite_none_left_eq_some, Bool.or_eq_true, not_or, Option.some.injEq] at h
        obtain ⟨⟨⟨hbrace, hopening⟩, hblank⟩, rfl⟩ := h
        exact ⟨reversed.reverse, by rw [htrim, hcs], by simpa using hbrace, by simpa using hopening,
          by simpa using hblank, rfl⟩
      · cases h
    · cases h
  · rintro ⟨body, htrim, hbrace, hopening, hblank, rfl⟩
    simp [htrim, hbrace, hopening, hblank]

/-! ### Plain pieces -/

theorem Consists.blanks_append {before cs : List Char} {ps : List Piece} {fault : Option Fault}
    (hbefore : ∀ c ∈ before, isBlank c = true) (h : Consists cs ps fault) :
    Consists (before ++ cs) (before.map .char ++ ps) fault := by
  induction before with
  | nil => exact h
  | cons c before ih =>
    obtain ⟨hc, hbefore⟩ := List.forall_mem_cons.1 hbefore
    refine .char ?_ (ih hbefore)
    rintro (⟨rest, heq⟩ | ⟨rest, heq⟩)
    · obtain ⟨rfl, -⟩ := List.cons_eq_cons.1 heq
      cases hc
    · obtain ⟨rfl, -⟩ := List.cons_eq_cons.1 heq
      cases hc

theorem Consists.reference_mem {cs body : List Char} {ps : List Piece} {fault : Option Fault}
    (h : Consists cs ps fault) (hmem : .reference body ∈ ps) : '\x7d' ∉ body ∧ trim body ≠ [] := by
  induction h with
  | nil | unterminated | blank => cases hmem
  | char _ _ ih => exact ih ((List.mem_cons.1 hmem).resolve_left nofun)
  | escape _ ih => exact ih ((List.mem_cons.1 hmem).resolve_left nofun)
  | reference hbody hname _ ih =>
    rcases List.mem_cons.1 hmem with heq | hmem
    · cases heq
      exact ⟨hbody, hname⟩
    · exact ih hmem

theorem Consists.eq_sources {cs : List Char} {ps : List Piece} (h : Consists cs ps none) :
    cs = sources ps := by
  obtain ⟨ps', fault', h', rest, hcs, hrest, -⟩ := exists_consists cs
  obtain ⟨rfl, rfl⟩ := h.unique h'
  rw [hcs, hrest rfl, List.append_nil]

theorem splice_append {ps : List Piece} (h : asked ps = []) (ps' : List Piece)
    (texts : List String) : splice (ps ++ ps') texts = splice ps [] ++ splice ps' texts := by
  induction ps with
  | nil => simp [splice]
  | cons p ps ih =>
    cases p with
    | char c => rw [List.cons_append, splice, splice, ih h, String.append_assoc]
    | escape => rw [List.cons_append, splice, splice, ih h, String.append_assoc]
    | reference body => cases h

/-- Without references, pieces that give blanks are these blanks. -/
theorem sources_of_blank {ps : List Piece} (hasked : asked ps = [])
    (h : ∀ c ∈ (splice ps []).toList, isBlank c = true) : sources ps = (splice ps []).toList := by
  induction ps with
  | nil => rfl
  | cons p ps ih =>
    cases p with
    | char c =>
      rw [splice, String.toList_append] at h ⊢
      rw [← ih hasked fun d hd => h d (List.mem_append_right _ hd)]
      simp [sources, Piece.source, Char.toString]
    | escape =>
      rw [splice, String.toList_append] at h
      cases h '$' (List.mem_append_left _ (by decide))
    | reference body => cases hasked

/-! ### Rendering a sole reference -/

theorem renderPieces_chars_append {m : Type → Type} [Monad m] [LawfulMonad m]
    (lookup : String → m String) (cs : List Char) (ps : List Piece) :
    renderPieces lookup (cs.map .char ++ ps) = do
      let tail ← renderPieces lookup ps
      return String.ofList cs ++ tail := by
  induction cs with
  | nil => simp
  | cons c cs ih =>
    have hcons : String.ofList (c :: cs) = c.toString ++ String.ofList cs := by
      rw [← String.toList_inj]
      simp [Char.toString]
    rw [List.map_cons, List.cons_append, renderPieces, ih, hcons]
    simp [Piece.render, String.append_assoc]

/-- One reference and blanks around it, in pieces. -/
theorem consists_of_blanks {before after body : List Char}
    (hbefore : ∀ c ∈ before, isBlank c = true)
    (hafter : ∀ c ∈ after, isBlank c = true) (hbrace : '\x7d' ∉ body) (hname : trim body ≠ []) :
    Consists (before ++ '$' :: '\x7b' :: (body ++ '\x7d' :: after))
      (before.map .char ++ .reference body :: after.map .char) none := by
  have hrest : Consists after (after.map .char) none := by
    simpa using Consists.blanks_append hafter .nil
  exact .blanks_append hbefore (.reference hbrace hname hrest)

/-- The blanks at the ends of a text that has something else in between. -/
theorem blanks_of_between {text : String} {before core after : List Char}
    (htext : text.toList = before ++ (core ++ after)) (hbefore : ∀ c ∈ before, isBlank c = true)
    (hafter : ∀ c ∈ after, isBlank c = true) (hne : core ≠ [])
    (hhead : ∀ c ∈ core.head?, isBlank c = false) (hlast : ∀ c ∈ core.getLast?, isBlank c = false) :
    leadingBlanks text = String.ofList before ∧ trailingBlanks text = String.ofList after := by
  have hafter' : ∀ c ∈ after.reverse, isBlank c = true :=
    fun c hc => hafter c (List.mem_reverse.1 hc)
  have hnone {cs rest : List Char} (hcs : cs ≠ []) (h : ∀ c ∈ cs.head?, isBlank c = false) :
      (cs ++ rest).takeWhile isBlank = [] := by
    obtain ⟨c, cs, rfl⟩ := List.exists_cons_of_ne_nil hcs
    rw [List.cons_append, List.takeWhile_cons_of_neg (by simp [h c rfl])]
  constructor
  · rw [leadingBlanks, htext, List.takeWhile_append_of_pos hbefore, hnone hne hhead,
      List.append_nil]
  · rw [trailingBlanks, htext, List.reverse_append, List.reverse_append, List.append_assoc,
      List.takeWhile_append_of_pos hafter', hnone (by simpa using hne) (by simpa using hlast),
      List.append_nil, List.reverse_reverse]

variable {ε σ : Type}

/-- A lookup that answers whatever it is asked. -/
def Succeeds (lookup : String → EStateM ε σ String) : Prop :=
  ∀ name s, ∃ text s', lookup name s = .ok text s'

theorem succeeds_noting (answer : List String → String → String) :
    Succeeds (noting (ε := ε) answer) :=
  fun name seen => ⟨answer seen name, seen ++ [name], rfl⟩

/-- Rendering the text looks the name up, that and nothing else, and puts the answer between the
blanks that the text starts and ends with. -/
def RendersAs (text name : String) (lookup : String → EStateM ε σ String)
    (malformed : Nat → Fault → EStateM ε σ String) : Prop :=
  (scan .interpolation text).render lookup malformed = do
    let answer ← lookup name
    return leadingBlanks text ++ answer ++ trailingBlanks text

theorem rendersAs_of_soleReference? {text name : String} (h : soleReference? text = some name)
    (lookup : String → EStateM ε σ String) (malformed : Nat → Fault → EStateM ε σ String) :
    RendersAs text name lookup malformed := by
  obtain ⟨body, htrim, hbrace, -, hblank, rfl⟩ := soleReference?_eq_some_iff_trim.1 h
  obtain ⟨before, after, htext, hbefore, hafter⟩ := exists_trim text.toList
  obtain ⟨hleading, htrailing⟩ := blanks_of_between htext hbefore hafter (by simp [htrim])
    (head_trim _) (last_trim _)
  have hconsists : Consists text.toList
      (before.map .char ++ .reference body :: after.map .char) none := by
    have := consists_of_blanks hbefore hafter hbrace hblank
    rwa [htext, htrim, List.cons_append, List.cons_append, List.append_assoc]
  have hafter : renderPieces lookup (after.map .char) = pure (String.ofList after) := by
    simpa [renderPieces] using renderPieces_chars_append lookup after []
  rw [RendersAs, hconsists.scan_interpolation, hleading, htrailing, render,
    renderPieces_chars_append, renderPieces, hafter]
  simp [Piece.render, String.append_assoc]

/-- A text that is rendered so, is a reference to the name between blanks. Already a lookup that
notes what it is asked, and answers with nothing, shows this. -/
theorem exists_body_of_rendersAs {text name : String}
    (h : RendersAs text name (noting (ε := Unit) fun _ _ => "") fun _ _ => throw ()) :
    ∃ before body after, text.toList = before ++ ('$' :: '\x7b' :: (body ++ ['\x7d']) ++ after) ∧
      (∀ c ∈ before, isBlank c = true) ∧ (∀ c ∈ after, isBlank c = true) ∧ '\x7d' ∉ body ∧
      trim body ≠ [] ∧ Template.name body = name := by
  obtain ⟨ps, fault, hconsists, -⟩ := exists_consists text.toList
  have hrun : (scan .interpolation text).render (noting (ε := Unit) fun _ _ => "")
      (fun _ _ => throw ()) [] =
        .ok (leadingBlanks text ++ "" ++ trailingBlanks text) [name] := congrFun h []
  have hasked : asked ps = [name] := by
    have hseen := @asked_noting Unit (fault.map fun f => (byteLength (sources ps), f)) ps
      (fun _ _ => "") (fun _ _ => ()) []
    rw [← hconsists.scan_interpolation, hrun] at hseen
    rcases hseen with ⟨out, hout⟩ | ⟨e, he⟩
    · exact (EStateM.Result.ok.inj hout).2.symm
    · cases he
  obtain ⟨rfl, texts, hanswers, hout⟩ := hconsists.render_eq_ok.1 hrun
  obtain ⟨ps₁, p, ps₂, rfl, hps₁, hp, hps₂⟩ := List.filterMap_eq_cons_iff.1 hasked
  cases p with
  | char | escape => cases hp
  | reference body =>
    cases hp
    have hplain : asked ps₁ = [] := List.filterMap_eq_nil_iff.2 hps₁
    obtain ⟨answer, rest, seen, rfl, hanswer, hrest⟩ := answers_cons.1 (hasked ▸ hanswers)
    cases hanswer
    obtain ⟨rfl, -⟩ := answers_nil.1 hrest
    rw [splice_append hplain, splice, String.empty_append, String.append_empty] at hout
    have hblank : ∀ c ∈ (splice ps₁ [] ++ splice ps₂ []).toList, isBlank c = true := by
      intro c hc
      rw [← hout, String.toList_append, List.mem_append] at hc
      exact hc.elim isBlank_of_mem_leadingBlanks isBlank_of_mem_trailingBlanks
    rw [String.toList_append] at hblank
    obtain ⟨hblank₁, hblank₂⟩ := List.forall_mem_append.1 hblank
    obtain ⟨hbrace, hname⟩ :=
      hconsists.reference_mem (List.mem_append_right _ (List.mem_cons_self ..))
    refine ⟨(splice ps₁ []).toList, body, (splice ps₂ []).toList, ?_, hblank₁, hblank₂, hbrace,
      hname, rfl⟩
    rw [hconsists.eq_sources, ← sources_of_blank hplain hblank₁, ← sources_of_blank hps₂ hblank₂]
    simp [sources, Piece.source]

/-- A text is a sole reference to a name if and only if there is no opening in the name and
rendering the text, whatever answers the lookups, is to look up that name, once, and to put the
answer between the blanks that the text starts and ends with. -/
theorem soleReference?_eq_some_iff (text name : String) : soleReference? text = some name ↔
    hasOpening name.toList = false ∧
      ∀ (ε σ : Type) (lookup : String → EStateM ε σ String)
        (malformed : Nat → Fault → EStateM ε σ String),
        Succeeds lookup → RendersAs text name lookup malformed := by
  constructor
  · intro h
    refine ⟨?_, fun ε σ lookup malformed _ => rendersAs_of_soleReference? h lookup malformed⟩
    obtain ⟨body, -, -, hopening, -, rfl⟩ := soleReference?_eq_some_iff_trim.1 h
    rw [Template.name, String.toList_ofList, hasOpening_trim, hopening]
  · rintro ⟨hopening, hrenders⟩
    obtain ⟨before, body, after, htext, hbefore, hafter, hbrace, hname, rfl⟩ :=
      exists_body_of_rendersAs (hrenders Unit (List String) _ _ (succeeds_noting _))
    rw [Template.name, String.toList_ofList, hasOpening_trim] at hopening
    refine soleReference?_eq_some_iff_trim.2 ⟨body, ?_, hbrace, hopening, hname, rfl⟩
    have hlast : ∀ c ∈ ('$' :: '\x7b' :: (body ++ ['\x7d'])).getLast?, isBlank c = false := by
      intro c hc
      rw [← List.cons_append, ← List.cons_append, List.getLast?_concat] at hc
      cases hc
      rfl
    rw [htext, trim_between hbefore hafter (by simp) (by simp [isBlank]) hlast]

/-- Up to the first closing brace this is one reference, but a name has no opening in it. -/
example : (scan .interpolation " $\x7ba$\x7bb\x7d").names = ["a$\x7bb"] ∧
    soleReference? " $\x7ba$\x7bb\x7d" = none ∧ soleReference? " $\x7b a\x7d" = some "a" := by
  refine ⟨by cbv, by decide, by decide⟩

end Template
end TypedConfig
