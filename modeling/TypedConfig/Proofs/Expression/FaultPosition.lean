import TypedConfig.Proofs.Expression.Arithmetic
import TypedConfig.Proofs.Expression.Logic
import TypedConfig.Proofs.Expression.Viable
import TypedConfig.Proofs.Template.Render

/-!
# Positions of faults in a text

The tokens of a text start at different places of it, in order (`Splits.sorted`, `Splits.bounds`).
So the position in the message of a malformed expression, of arithmetic or of logic, is the byte
where the text goes wrong (`malformed_pinpoints`), for the sentences that the parse trees spell
(`Arithmetic.sentence_iff`, `Logic.sentence_iff`).
-/

namespace TypedConfig.Expression

open Text

section

variable {τ : Type} {Munches : List Char → List Char → τ → Prop} {position : Nat}
  {cs : List Char} {pts : List (Nat × τ)}

theorem byteLength_pos {cs : List Char} (h : cs ≠ []) : 0 < byteLength cs := by
  obtain ⟨c, cs, rfl⟩ := List.exists_cons_of_ne_nil h
  have := c.utf8Size_pos
  rw [byteLength_cons]
  omega

theorem Splits.bounds (h : Splits Munches position cs pts)
    (hword : ∀ word rest t, Munches word rest t → word ≠ []) :
    ∀ pt ∈ pts, position ≤ pt.1 ∧ pt.1 < position + byteLength cs := by
  induction h with
  | nil => simp
  | @space position c cs ts hc _ ih =>
    intro pt hpt
    have := c.utf8Size_pos
    have hspace : c.utf8Size = 1 := by
      simp only [List.mem_cons, List.not_mem_nil, or_false] at hc
      rcases hc with rfl | rfl | rfl | rfl <;> rfl
    have := ih pt hpt
    rw [byteLength_cons]
    omega
  | @token position word rest t ts hmunches _ ih =>
    intro pt hpt
    have hpos := byteLength_pos (hword _ _ _ hmunches)
    rw [byteLength_append]
    rcases List.mem_cons.1 hpt with rfl | hpt
    · dsimp only
      omega
    · have := ih pt hpt
      omega

theorem Splits.sorted (h : Splits Munches position cs pts)
    (hword : ∀ word rest t, Munches word rest t → word ≠ []) : pts.Pairwise (·.1 < ·.1) := by
  induction h with
  | nil => exact .nil
  | space _ _ ih => exact ih
  | @token position word rest t ts hmunches hrest ih =>
    have hpos := byteLength_pos (hword _ _ _ hmunches)
    refine List.pairwise_cons.2 ⟨fun pt hpt => ?_, ih⟩
    have := hrest.bounds hword pt hpt
    dsimp only
    omega

end

theorem Arithmetic.ne_nil_of_munches (word rest : List Char) (t : Token Float Arithmetic.Sign)
    (h : Munches word rest t) : word ≠ [] := by
  cases h with
  | number hnumeral _ =>
    obtain ⟨c, cs, rfl, -⟩ := hnumeral.exists_cons
    simp
  | _ => simp

theorem Logic.ne_nil_of_munches (word rest : List Char) (t : Token Bool Logic.Connective)
    (h : Munches word rest t) : word ≠ [] := by
  cases h with
  | keyword hkeyword _ => exact (isAlpha_of_keyword hkeyword).1
  | _ => simp

theorem Arithmetic.isFormal_language : Arithmetic.language.IsFormal := by
  intro op f hop v w position fault
  cases op with
  | times =>
    cases hop
    simp
  | «over» =>
    cases hop
    simp only [divide]
    split <;> simp
  | _ => cases hop

theorem Logic.isFormal_language : Logic.language.IsFormal := by
  intro op f hop v w position fault
  cases op with
  | and =>
    cases hop
    simp
  | _ => cases hop

/-- The sentences are what the parse trees spell, of any nesting. -/
theorem Arithmetic.sentence_iff {ts : List (Token Float Arithmetic.Sign)} :
    Sentence Arithmetic.language ts ↔ ∃ t : Arithmetic.Tree .expression, t.tokens = ts := by
  constructor
  · rintro ⟨room, x, h⟩
    obtain ⟨t, ht, -⟩ := Arithmetic.Tree.exists_of_derives h
    exact ⟨t, ht⟩
  · rintro ⟨t, rfl⟩
    exact ⟨t.nesting, _, t.derives (Nat.le_refl _)⟩

theorem Logic.sentence_iff {ts : List (Token Bool Logic.Connective)} :
    Sentence Logic.language ts ↔ ∃ t : Logic.Tree .expression, t.tokens = ts := by
  constructor
  · rintro ⟨room, x, h⟩
    obtain ⟨t, ht, -⟩ := Logic.Tree.exists_of_derives h
    exact ⟨t, ht⟩
  · rintro ⟨t, rfl⟩
    exact ⟨t.nesting, _, t.derives (Nat.le_refl _)⟩

/-- If the tokens of a text make a malformed expression that does not nest too deeply, the position
that is reported is where they go wrong: those before it start an expression, and it is the place
of a token with which they do not, or the end of the text, where all of them start an expression
but are none. -/
theorem malformed_pinpoints :
    (∀ text pts position fault, Arithmetic.tokensFrom 0 text.toList = .ok pts →
      Arithmetic.evaluate text = .error (.malformed position fault) → fault ≠ .nestedTooDeeply →
        Pinpoints Arithmetic.language text.utf8ByteSize pts position) ∧
    (∀ text pts position fault, Logic.tokensFrom 0 text.toList = .ok pts →
      Logic.evaluate text = .error (.malformed position fault) → fault ≠ .nestedTooDeeply →
        Pinpoints Logic.language text.utf8ByteSize pts position) := by
  constructor
  · intro text pts position fault htokens hmalformed hfault
    have hsplits := Arithmetic.lexes.splits htokens
    have hbounds := hsplits.bounds Arithmetic.ne_nil_of_munches
    rw [Arithmetic.evaluate, htokens] at hmalformed
    rw [Template.utf8ByteSize_eq]
    refine pinpoints_of_evaluate Arithmetic.isFormal_language
      (hsplits.sorted Arithmetic.ne_nil_of_munches) (fun pt hpt => ?_) hmalformed hfault
    simpa using (hbounds pt hpt).2
  · intro text pts position fault htokens hmalformed hfault
    have hsplits := Logic.lexes.splits htokens
    have hbounds := hsplits.bounds Logic.ne_nil_of_munches
    rw [Logic.evaluate, htokens] at hmalformed
    rw [Template.utf8ByteSize_eq]
    refine pinpoints_of_evaluate Logic.isFormal_language
      (hsplits.sorted Logic.ne_nil_of_munches) (fun pt hpt => ?_) hmalformed hfault
    simpa using (hbounds pt hpt).2

theorem malformed_pinpoints_of_parentheses :
    Pinpoints Arithmetic.language 3 [(0, .operator .minus), (1, .opening), (2, .closing)] 2 ∧
    Pinpoints Logic.language 5 [(0, .opening), (1, .operand true)] 5 := by
  constructor
  · have htokens : Arithmetic.tokensFrom 0 "-()".toList =
        .ok [(0, .operator .minus), (1, .opening), (2, .closing)] :=
      Arithmetic.lexes.eq_ok (.token (Arithmetic.Munches.minus _)
        (.token (Arithmetic.Munches.opening _) (.token (Arithmetic.Munches.closing _) (.nil _))))
    exact malformed_pinpoints.1 "-()" _ 2 .numberExpected htokens
      (by rw [Arithmetic.evaluate, htokens]; rfl) (by decide)
  · have htokens : Logic.tokensFrom 0 "(true".toList = .ok [(0, .opening), (1, .operand true)] := by
      cbv
    exact malformed_pinpoints.2 "(true" _ 5 .closingExpected htokens
      (by rw [Logic.evaluate, htokens]; rfl) (by decide)

end TypedConfig.Expression
