import TypedConfig.Proofs.Except
import TypedConfig.Proofs.Expression.Arithmetic

/-!
# Blanks between tokens

The blanks of an expression are those that arithmetic skips (`isSpace_of_evaluate`). They are passed
over in front of a token (`tokensFrom_spaces`), and a numeral ends before them (`tokensFrom_numeral`).
-/

namespace TypedConfig.Expression

open Text

theorem Splits.isBlank_mem {τ : Type} {Munches : List Char → List Char → τ → Prop}
    (hwords : ∀ word rest t, Munches word rest t → ∀ c ∈ word, isBlank c = false)
    {position : Nat} {cs : List Char} {ts : List (Nat × τ)} (h : Splits Munches position cs ts) :
    ∀ c ∈ cs, isBlank c = true → c ∈ [' ', '\t', '\r', '\n'] := by
  induction h with
  | nil => simp
  | space hc _ ih => exact List.forall_mem_cons.2 ⟨fun _ => hc, ih⟩
  | token hword _ ih =>
    intro c hc hblank
    rcases List.mem_append.1 hc with hc | hc
    · rw [hwords _ _ _ hword c hc] at hblank
      cases hblank
    · exact ih c hc hblank

namespace Arithmetic

theorem Exponent.not_blank {es : List Char} {e : Int} (h : Exponent es e) :
    ∀ c ∈ es, isBlank c = false := by
  cases h with
  | none => simp
  | @some letter sign ds negative hletter hsign hds =>
    have hletter' : isBlank letter = false := by
      simp only [List.mem_cons, List.not_mem_nil, or_false] at hletter
      rcases hletter with rfl | rfl <;> decide
    have hsign' : ∀ c ∈ sign, isBlank c = false := by
      simp only [List.mem_cons, Prod.mk.injEq, List.not_mem_nil, or_false] at hsign
      rcases hsign with ⟨rfl, -⟩ | ⟨rfl, -⟩ | ⟨rfl, -⟩
      · exact List.forall_mem_nil _
      · exact List.forall_mem_singleton.2 (by decide)
      · exact List.forall_mem_singleton.2 (by decide)
    refine List.forall_mem_cons.2 ⟨hletter', List.forall_mem_append.2 ⟨hsign', ?_⟩⟩
    exact fun c hc => isBlank_of_isDigit (hds c hc)

theorem Numeral.not_blank {word : List Char} {d : Decimal} (h : Numeral word d) :
    ∀ c ∈ word, isBlank c = false := by
  cases h with
  | whole hds _ hes =>
    exact List.forall_mem_append.2 ⟨fun c hc => isBlank_of_isDigit (hds c hc), hes.not_blank⟩
  | point hws hfs _ hes =>
    refine List.forall_mem_append.2 ⟨fun c hc => isBlank_of_isDigit (hws c hc), ?_⟩
    refine List.forall_mem_cons.2 ⟨by decide, List.forall_mem_append.2 ⟨?_, hes.not_blank⟩⟩
    exact fun c hc => isBlank_of_isDigit (hfs c hc)

theorem Munches.not_blank {word rest : List Char} {t : Token Float Sign} (h : Munches word rest t) :
    ∀ c ∈ word, isBlank c = false := by
  cases h with
  | number h => exact h.not_blank
  | _ => exact List.forall_mem_singleton.2 (by decide)

/-- An expression has no blanks but those between its tokens. -/
theorem isSpace_of_evaluate {text : String} {x : Float} (h : evaluate text = .ok x) :
    ∀ c ∈ text.toList, isBlank c = true → isSpace c = true := by
  obtain ⟨ts, hts, -⟩ := bind_eq_ok.1 h
  intro c hc hblank
  exact isSpace_iff.2 ((lexes.splits hts).isBlank_mem (fun _ _ _ h => h.not_blank) c hc hblank)

theorem tokensFrom_spaces {gap : List Char} (hgap : ∀ c ∈ gap, isSpace c = true) (position : Nat)
    (cs : List Char) : tokensFrom position (gap ++ cs) = tokensFrom (position + gap.length) cs := by
  induction gap generalizing position with
  | nil => rfl
  | cons c gap ih =>
    obtain ⟨hc, hgap⟩ := List.forall_mem_cons.1 hgap
    rw [List.cons_append, lexes.space _ _ _ (isSpace_iff.1 hc), ih hgap, List.length_cons]
    congr 1
    omega

/-- A numeral in front of blanks is read to its end. -/
theorem tokensFrom_numeral {word gap : List Char} {d : Decimal} (h : Numeral word d)
    (hblank : ∀ c ∈ gap, isBlank c = true) (hgap : ∀ c ∈ gap, isSpace c = true) (position : Nat) :
    tokensFrom position (word ++ gap) = .ok [(position, .operand d.toFloat)] := by
  have hlongest : ∀ word' d', word' <+: word ++ gap → Numeral word' d' →
      word'.length ≤ word.length := by
    rintro word' d' ⟨rest, hrest⟩ hnumeral
    rcases List.append_eq_append_iff.1 hrest with ⟨more, rfl, -⟩ | ⟨more, rfl, rfl⟩
    · rw [List.length_append]
      omega
    · cases more with
      | nil => simp
      | cons c more =>
        have hc := hnumeral.not_blank c (by simp)
        rw [hblank c (by simp)] at hc
        cases hc
  have hend : tokensFrom (position + byteLength word) gap = .ok [] := by
    rw [← List.append_nil gap, tokensFrom_spaces hgap, lexes.nil]
  rw [lexes.token position word gap _ (.number h hlongest), hend]
  rfl

end Arithmetic
end TypedConfig.Expression
