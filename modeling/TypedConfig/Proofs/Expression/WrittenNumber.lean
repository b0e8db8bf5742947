import TypedConfig.Decimal.Layout
import TypedConfig.Expression.Arithmetic
import TypedConfig.Proofs.Text.Digits

/-!
# Written doubles are expressions

The JSON form of a finite double is a number of arithmetic from its first digit to its end, maybe
with a minus sign in front (`Arithmetic.isSignedNumber_jsonText`). So it is an expression, and if
the digits read back as the double, this is its value (`Arithmetic.evaluate_jsonText`).
-/

namespace TypedConfig.Expression.Arithmetic

open Text Decimal

/-! ### Numbers -/

/-- A text that is a number as a whole. -/
def IsNumber (cs : List Char) : Prop :=
  (∃ c rest, cs = c :: rest ∧ c.isDigit = true) ∧ ∃ d, splitNumber? cs = some (d, [])

theorem isNumber_of_parts {ds tail fraction rest : List Char} {e : Int} (hne : ds ≠ [])
    (hds : ∀ c ∈ ds, c.isDigit = true) (htail : ∀ c ∈ tail.head?, c.isDigit = false)
    (hfraction : splitFraction tail = (fraction, rest)) (hrest : splitExponent rest = (e, [])) :
    IsNumber (ds ++ tail) := by
  constructor
  · obtain ⟨c, ds, rfl⟩ := List.exists_cons_of_ne_nil hne
    exact ⟨c, _, rfl, hds c (List.mem_cons_self ..)⟩
  · have hempty : (ds.isEmpty && fraction.isEmpty) = false := by simp [hne]
    simp only [splitNumber?, splitDigits_of_digits hds htail, hfraction, hrest, hempty]
    exact ⟨_, rfl⟩

theorem splitDigits_self {ds : List Char} (hds : ∀ c ∈ ds, c.isDigit = true) :
    splitDigits ds = (ds, []) := by
  have h : splitDigits (ds ++ []) = (ds, []) := splitDigits_of_digits hds (by simp)
  rwa [List.append_nil] at h

theorem splitExponent_mark (negative : Prop) [Decidable negative] (n : Nat) :
    ∃ rest e, (if negative then ['e', '-'] else ['e', '+']) ++ digits n = 'e' :: rest ∧
      splitExponent ('e' :: rest) = (e, []) := by
  have hrun : splitDigits (digits n) = (digits n, []) :=
    splitDigits_self fun c hc => isDigit_of_mem_digits hc
  split
  · exact ⟨_, _, rfl, by simp [splitExponent, splitSign, hrun, digits_ne_nil]; rfl⟩
  · exact ⟨_, _, rfl, by simp [splitExponent, splitSign, hrun, digits_ne_nil]; rfl⟩

/-- What numbers are written with: digits, points, exponents and signs. -/
def IsNumeric (c : Char) : Prop := c.isDigit = true ∨ c ∈ ['.', 'e', 'E', '+', '-']

theorem mem_splitDigits {cs : List Char} {c : Char} (h : c ∈ cs) :
    IsNumeric c ∨ c ∈ (splitDigits cs).2 := by
  rw [← splitDigits_append cs] at h
  refine (List.mem_append.1 h).imp_left fun h => .inl ?_
  exact List.all_eq_true.1 List.all_takeWhile c h

theorem mem_splitFraction {cs : List Char} {c : Char} (h : c ∈ cs) :
    IsNumeric c ∨ c ∈ (splitFraction cs).2 := by
  unfold splitFraction
  split
  · rcases List.mem_cons.1 h with rfl | h
    · exact .inl (.inr (by decide))
    · exact mem_splitDigits h
  · exact .inr h

theorem mem_splitSign {cs : List Char} {c : Char} (h : c ∈ cs) :
    IsNumeric c ∨ c ∈ (splitSign cs).2 := by
  unfold splitSign
  split
  · rcases List.mem_cons.1 h with rfl | h
    · exact .inl (.inr (by decide))
    · exact .inr h
  · rcases List.mem_cons.1 h with rfl | h
    · exact .inl (.inr (by decide))
    · exact .inr h
  · exact .inr h

theorem mem_splitExponent {cs : List Char} {c : Char} (h : c ∈ cs) :
    IsNumeric c ∨ c ∈ (splitExponent cs).2 := by
  cases cs with
  | nil => cases h
  | cons d cs =>
    simp only [splitExponent]
    split
    · next hletter =>
      split
      · exact .inr h
      · rcases List.mem_cons.1 h with rfl | h
        · rcases hletter with rfl | rfl <;> exact .inl (.inr (by decide))
        · exact (mem_splitSign h).elim .inl mem_splitDigits
    · exact .inr h

theorem isNumeric_of_mem {cs : List Char} {c : Char} (hcs : IsNumber cs) (h : c ∈ cs) :
    IsNumeric c := by
  obtain ⟨-, d, hd⟩ := hcs
  simp only [splitNumber?] at hd
  split at hd
  · cases hd
  · have hrest : (splitExponent (splitFraction (splitDigits cs).2).2).2 = [] := by
      simpa using congrArg (Option.map Prod.snd) hd
    rcases mem_splitDigits h with h | h
    · exact h
    · rcases mem_splitFraction h with h | h
      · exact h
      · simpa [hrest] using mem_splitExponent h

/-! ### Layouts -/

theorem isDigit_of_mem_zeroDigits {n : Nat} {c : Char} (h : c ∈ zeroDigits n) :
    c.isDigit = true := by
  rw [List.eq_of_mem_replicate h]
  rfl

theorem isNumber_positional (d : Decimal) : IsNumber (positional d ['.', '0']) := by
  unfold positional
  split
  · refine isNumber_of_parts (by simp [digits_ne_nil]) (fun c hc => ?_) (by simp) rfl rfl
    exact (List.mem_append.1 hc).elim isDigit_of_mem_digits isDigit_of_mem_zeroDigits
  · next hneg =>
    -- the digits are more than the places after the point, so that one is left before it
    simp only
    generalize hds : zeroDigits ((-d.exponent).toNat + 1 - (digits d.coefficient).length) ++
      digits d.coefficient = ds
    have hall : ∀ c ∈ ds, c.isDigit = true := by
      subst hds
      intro c hc
      exact (List.mem_append.1 hc).elim isDigit_of_mem_zeroDigits isDigit_of_mem_digits
    have hlen : (-d.exponent).toNat < ds.length := by
      rw [← hds, List.length_append, zeroDigits, List.length_replicate]
      omega
    have hdrop : splitFraction ('.' :: ds.drop (ds.length - (-d.exponent).toNat)) = (_, []) :=
      splitDigits_self fun c hc => hall c (List.mem_of_mem_drop hc)
    refine isNumber_of_parts ?_ (fun c hc => hall c (List.mem_of_mem_take hc)) (by simp) hdrop rfl
    rw [← List.length_pos_iff, List.length_take]
    omega

theorem isNumber_scientific (d : Decimal) : IsNumber (scientific d) := by
  have hall : ∀ c ∈ digits d.coefficient, c.isDigit = true := fun c hc => isDigit_of_mem_digits hc
  unfold scientific
  cases hds : digits d.coefficient with
  | nil => exact absurd hds (digits_ne_nil _)
  | cons c cs =>
    rw [hds] at hall
    obtain ⟨hc, hcs⟩ := List.forall_mem_cons.1 hall
    have hfirst : ∀ a ∈ [c], a.isDigit = true := by simpa using hc
    obtain ⟨rest, e, hmark, hexponent⟩ := splitExponent_mark
      (d.exponent + ((c :: cs).length - 1 : Nat) < 0)
      (d.exponent + ((c :: cs).length - 1 : Nat)).natAbs
    simp only [List.append_assoc, hmark]
    cases cs with
    | nil => exact isNumber_of_parts (by simp) hfirst (by simp) rfl hexponent
    | cons c' cs =>
      have hfraction : splitFraction ('.' :: (c' :: cs ++ 'e' :: rest)) = (_, _) :=
        splitDigits_of_digits hcs (by simp)
      have h : IsNumber ([c] ++ '.' :: (c' :: cs ++ 'e' :: rest)) :=
        isNumber_of_parts (by simp) hfirst (by simp) hfraction hexponent
      exact h

/-! ### Texts of doubles -/

/-- A number with a minus sign in front or without. -/
def IsSignedNumber (cs : List Char) : Prop := ∃ ds, IsNumber ds ∧ (cs = ds ∨ cs = '-' :: ds)

theorem IsNumber.signText {cs : List Char} (h : IsNumber cs) (s : Float.Model.UnpackedFloat.Sign) :
    IsSignedNumber (signText s ++ cs) := by
  cases s with
  | negative => exact ⟨cs, h, .inr rfl⟩
  | positive => exact ⟨cs, h, .inl rfl⟩

theorem isSignedNumber_jsonText {x : Float} (hx : x.isFinite = true) :
    IsSignedNumber (jsonText x).toList := by
  have hunpack : (unpack x).isFinite = true := hx
  unfold jsonText
  rw [String.toList_ofList]
  cases hu : unpack x with
  | notANumber => rw [hu] at hunpack; cases hunpack
  | infinity s => rw [hu] at hunpack; cases hunpack
  | zero s =>
    have hdigit : ∀ c ∈ ['0'], c.isDigit = true := by simp
    have hzero : IsNumber ['0', '.', '0'] := isNumber_of_parts (by simp) hdigit (by simp) rfl rfl
    exact hzero.signText s
  | finite s m q _ =>
    refine IsNumber.signText ?_ s
    split
    · exact isNumber_positional _
    · exact isNumber_scientific _

theorem isNumeric_of_mem_jsonText {x : Float} (hx : x.isFinite = true) {c : Char}
    (h : c ∈ (jsonText x).toList) : IsNumeric c := by
  obtain ⟨cs, hcs, htext | htext⟩ := isSignedNumber_jsonText hx
  · exact isNumeric_of_mem hcs (htext ▸ h)
  · rw [htext] at h
    rcases List.mem_cons.1 h with rfl | h
    · exact .inr (by decide)
    · exact isNumeric_of_mem hcs h

/-- The digits written for a double stand for it, after a minus sign for its opposite. -/
def ReadsBack (x : Float) : Prop :=
  ∀ cs d, splitNumber? cs = some (d, []) →
    ((jsonText x).toList = cs → d.toFloat = x) ∧ ((jsonText x).toList = '-' :: cs → -d.toFloat = x)

/-! ### Expressions -/

theorem sign?_of_isDigit {c : Char} (hc : c.isDigit = true) :
    isSpace c = false ∧ sign? c = none := by
  constructor
  · simp only [isSpace, Bool.or_eq_false_iff, beq_eq_false_iff_ne]
    refine ⟨⟨⟨?_, ?_⟩, ?_⟩, ?_⟩ <;> rintro rfl <;> cases hc
  · unfold sign?
    split <;> first | rfl | cases hc

theorem tokensFrom_number {cs : List Char} {d : Decimal} (hcs : IsNumber cs)
    (hd : splitNumber? cs = some (d, [])) (position : Nat) :
    tokensFrom position cs = .ok [(position, .operand d.toFloat)] := by
  obtain ⟨⟨c, rest, rfl, hc⟩, -⟩ := hcs
  obtain ⟨hspace, hsign⟩ := sign?_of_isDigit hc
  rw [tokensFrom]
  simp only [hspace, hsign, Bool.false_eq_true, if_false]
  split
  · next heq =>
    cases hd.symm.trans heq
    rw [tokensFrom]
    rfl
  · next heq => cases hd.symm.trans heq

theorem evaluate_jsonText {x : Float} (hx : x.isFinite = true) (hback : ReadsBack x) :
    evaluate (jsonText x) = .ok x := by
  obtain ⟨cs, hcs, htext⟩ := isSignedNumber_jsonText hx
  obtain ⟨d, hd⟩ := hcs.2
  rcases htext with htext | htext
  · have hvalue := (hback cs d hd).1 htext
    rw [evaluate, htext, tokensFrom_number hcs hd, hvalue]
    rfl
  · have hvalue := (hback cs d hd).2 htext
    rw [evaluate, htext, tokensFrom]
    simp only [tokensFrom_number hcs hd]
    rw [← hvalue]
    rfl

end TypedConfig.Expression.Arithmetic
