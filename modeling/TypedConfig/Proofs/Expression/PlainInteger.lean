import TypedConfig.Parsers
import TypedConfig.Proofs.Decimal.WholeNumber
import TypedConfig.Proofs.Expression.WholeResult
import TypedConfig.Proofs.Text.Blanks

/-!
# Plain integers and arithmetic

An integer leaf reads a plain numeral without evaluating it. Such a text is an arithmetic expression
unless the numeral has a plus sign or there are other blanks around it than arithmetic skips, and
if it is one, then up to 2 ^ 53 its value is the same (`LeafParser.integer_agrees_evaluate`).
-/

namespace TypedConfig

namespace Expression

open Text

namespace Arithmetic

/-- No expression starts with a plus sign. -/
theorem evaluate_plus_ne_ok {text : String} {gap cs : List Char}
    (htext : text.toList = gap ++ '+' :: cs) (hgap : ∀ c ∈ gap, isSpace c = true) (x : Float) :
    evaluate text ≠ .ok x := by
  intro h
  obtain ⟨ts, hts, h⟩ := bind_eq_ok.1 h
  have htoken := lexes.token (0 + gap.length) ['+'] cs _ (.plus cs)
  rw [htext, tokensFrom_spaces hgap] at hts
  obtain ⟨us, -, hus⟩ := bind_eq_ok.1 (htoken.symm.trans hts)
  cases hus
  cases h

/-! ### Plain numerals -/

theorem exists_of_integer? {cs : List Char} {k : Int} (h : integer? cs = some k) :
    ∃ sign ds negative, (sign, negative) ∈ [([], false), (['+'], false), (['-'], true)] ∧
      cs = sign ++ ds ∧ ds ≠ [] ∧ (∀ c ∈ ds, c.isDigit = true) ∧
      k = if negative then -(value ds : Int) else value ds := by
  obtain ⟨sign, hsign, hcs⟩ := exists_splitSign cs
  rw [integer?, Option.map_eq_some_iff] at h
  obtain ⟨_, hnatural, hk⟩ := h
  obtain ⟨n, hn, ⟨⟩⟩ := Option.bind_eq_some_iff.1 hnatural
  rw [natural?, Option.ite_none_right_eq_some, Bool.and_eq_true, Bool.not_eq_true',
    List.isEmpty_eq_false_iff, List.all_eq_true] at hn
  obtain ⟨⟨hne, hds⟩, hvalue⟩ := hn
  obtain rfl := Option.some.inj hvalue
  exact ⟨sign, _, _, hsign, hcs, hne, hds, hk.symm⟩

/-- A numeral with a minus sign or none, between blanks that are skipped, is an expression. -/
theorem evaluate_digits {text : String} {before sign ds after : List Char} {negative : Bool}
    (htext : text.toList = before ++ (sign ++ ds ++ after))
    (hsign : (sign, negative) ∈ [([], false), (['-'], true)])
    (hds : ∀ c ∈ ds, c.isDigit = true) (hne : ds ≠ []) (hbefore : ∀ c ∈ before, isSpace c = true)
    (hblank : ∀ c ∈ after, isBlank c = true) (hafter : ∀ c ∈ after, isSpace c = true) :
    evaluate text = .ok (if negative then -(Decimal.toFloat ⟨value ds, 0⟩)
      else Decimal.toFloat ⟨value ds, 0⟩) := by
  rw [evaluate, htext, tokensFrom_spaces hbefore]
  simp only [List.mem_cons, Prod.mk.injEq, List.not_mem_nil, or_false] at hsign
  rcases hsign with ⟨rfl, rfl⟩ | ⟨rfl, rfl⟩
  · rw [List.nil_append, tokensFrom_numeral (.of_digits hds hne) hblank hafter]
    rfl
  · rw [List.append_assoc, lexes.token _ ['-'] _ _ (.minus _),
      tokensFrom_numeral (.of_digits hds hne) hblank hafter]
    rfl

end Arithmetic
end Expression

open Text Expression Arithmetic Decimal

namespace LeafParser

theorem integer_eq_ok_iff {text : String} {n : Int64} : integer text = .ok (.integer n) ↔
    int64? (trim text.toList) = some n ∨
      int64? (trim text.toList) = none ∧ evaluateInteger text = .ok n := by
  rw [integer]
  cases int64? (trim text.toList) with
  | some m => simp
  | none =>
    simp only [reduceCtorEq, true_and, false_or]
    rw [bind_eq_ok]
    constructor
    · rintro ⟨n', hn', ⟨⟩⟩
      exact hn'
    · exact fun hn => ⟨n, hn, rfl⟩

/-- A plain numeral without a plus sign, between blanks that are skipped, is an expression. -/
theorem evaluate_of_int64? {text : String} {n : Int64} (h : int64? (trim text.toList) = some n)
    (hplus : (trim text.toList).head? ≠ some '+')
    (hspace : ∀ c ∈ text.toList, isBlank c = true → isSpace c = true) :
    ∃ x, evaluate text = .ok x ∧
      (n.toInt.natAbs ≤ 2 ^ 53 → rational? x = some (n.toInt : ℚ)) := by
  obtain ⟨before, after, htext, hbefore, hafter⟩ := exists_trim text.toList
  obtain ⟨k, hk, hn⟩ := Option.bind_eq_some_iff.1 h
  obtain ⟨sign, ds, negative, hsign, hcore, hne, hds, hvalue⟩ := exists_of_integer? hk
  rw [hcore] at htext hplus
  have hminus : (sign, negative) ∈ [([], false), (['-'], true)] := by
    simp only [List.mem_cons, Prod.mk.injEq, List.not_mem_nil, or_false] at hsign ⊢
    rcases hsign with hsign | ⟨rfl, -⟩ | hsign
    · exact .inl hsign
    · exact absurd rfl hplus
    · exact .inr hsign
  have hspaces (gap : List Char) (hgap : ∀ c ∈ gap, isBlank c = true)
      (hmem : ∀ c ∈ gap, c ∈ text.toList) : ∀ c ∈ gap, isSpace c = true :=
    fun c hc => hspace c (hmem c hc) (hgap c hc)
  have heval := evaluate_digits htext hminus hds hne
    (hspaces before hbefore fun c hc => by rw [htext]; simp [hc]) hafter
    (hspaces after hafter fun c hc => by rw [htext]; simp [hc])
  refine ⟨_, heval, fun hbound => ?_⟩
  rw [toInt_of_signedWord? hn] at hbound ⊢
  have hle : value ds ≤ 2 ^ 53 := by
    subst hvalue
    split at hbound <;> omega
  have hexact := rational?_toFloat_natural (d := ⟨value ds, 0⟩) (n := value ds) (by simp [toRat]) hle
  subst hvalue
  cases negative with
  | true => simpa using hexact.2
  | false => simpa using hexact.1

/-- Whether a text that an integer leaf accepts is an arithmetic expression, and that its value is
the same then, as far as all integers are doubles. -/
theorem integer_agrees_evaluate {text : String} {n : Int64}
    (h : integer text = .ok (.integer n)) :
    ((∃ x, evaluate text = .ok x) ↔ (trim text.toList).head? ≠ some '+' ∧
      ∀ c ∈ text.toList, isBlank c = true → isSpace c = true) ∧
    ((∃ x, evaluate text = .ok x) → n.toInt.natAbs ≤ 2 ^ 53 → evaluateInteger text = .ok n) := by
  have hform {x : Float} (hx : evaluate text = .ok x) : (trim text.toList).head? ≠ some '+' ∧
      ∀ c ∈ text.toList, isBlank c = true → isSpace c = true := by
    have hspace := isSpace_of_evaluate hx
    refine ⟨fun hplus => ?_, hspace⟩
    obtain ⟨before, after, htext, hbefore, -⟩ := exists_trim text.toList
    obtain ⟨cs, hcs⟩ := List.head?_eq_some_iff.1 hplus
    have hgap : ∀ c ∈ before, isSpace c = true :=
      fun c hc => hspace c (by rw [htext]; simp [hc]) (hbefore c hc)
    rw [hcs] at htext
    exact evaluate_plus_ne_ok htext hgap x hx
  rcases integer_eq_ok_iff.1 h with hplain | ⟨-, hexpression⟩
  · refine ⟨⟨fun ⟨x, hx⟩ => hform hx, fun ⟨hplus, hspace⟩ => ?_⟩, fun ⟨x, hx⟩ hbound => ?_⟩
    · obtain ⟨x, hx, -⟩ := evaluate_of_int64? hplain hplus hspace
      exact ⟨x, hx⟩
    · obtain ⟨hplus, hspace⟩ := hform hx
      obtain ⟨y, hy, hexact⟩ := evaluate_of_int64? hplain hplus hspace
      have hrange : ¬ (n.toInt < -2 ^ 63 ∨ 2 ^ 63 ≤ n.toInt) := by
        have := n.le_toInt
        have := n.toInt_lt
        omega
      rw [evaluateInteger_of_integer hy (hexact hbound), if_neg hrange]
      exact congrArg Except.ok (Int64.toInt_inj.1 (toInt_ofIntClamp hrange))
  · obtain ⟨x, hx, -⟩ := bind_eq_ok.1 hexpression
    exact ⟨iff_of_true ⟨x, hx⟩ (hform hx), fun _ _ => hexpression⟩

/-- Minus 42 with zeros in front and blanks around. -/
theorem integer_agrees_evaluate_padded : integer " -0042\t" = .ok (.integer (-42)) ∧
    (∃ x, evaluate " -0042\t" = .ok x) ∧ evaluateInteger " -0042\t" = .ok (-42) := by
  have hinteger : integer " -0042\t" = .ok (.integer (-42)) := rfl
  have hall : " -0042\t".toList.all (fun c => !isBlank c || isSpace c) = true := rfl
  have hspace : ∀ c ∈ " -0042\t".toList, isBlank c = true → isSpace c = true := by
    intro c hc hblank
    have hc' := List.all_eq_true.1 hall c hc
    rwa [hblank, Bool.not_true, Bool.false_or] at hc'
  obtain ⟨hiff, hvalue⟩ := integer_agrees_evaluate hinteger
  have hevaluate := hiff.2 ⟨by decide, hspace⟩
  exact ⟨hinteger, hevaluate, hvalue hevaluate (by decide)⟩

/-- Five with a plus sign is an integer, but no expression. -/
theorem integer_plus_five : integer "+5" = .ok (.integer 5) ∧
    evaluate "+5" = .error (.malformed 0 .numberExpected) := by
  have hfive : ∀ c ∈ ['5'], c.isDigit = true := List.forall_mem_singleton.2 rfl
  have htokens : tokensFrom 0 "+5".toList =
      .ok [(0, .operator .plus), (1, .operand (toFloat ⟨5, 0⟩))] := by
    have hdigits := tokensFrom_numeral_self (.of_digits hfive (List.cons_ne_nil _ _)) 1
    have hplus := lexes.token 0 ['+'] ['5'] _ (.plus _)
    refine hplus.trans ?_
    change (do return _ :: (← tokensFrom 1 ['5'])) = _
    rw [hdigits]
    rfl
  refine ⟨rfl, ?_⟩
  rw [Arithmetic.evaluate, htokens]
  rfl

end LeafParser
end TypedConfig
