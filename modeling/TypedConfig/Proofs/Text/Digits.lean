import TypedConfig.Calendar.Written

/-!
# Written digits

Digits are no blanks, and a run of them ends where another character follows. A numeral padded with
zeros has the value of the numeral (`ofDigitChars_padded`) and, if this is wide enough, the given
width (`length_padded`).
-/

namespace TypedConfig.Text

open Calendar (padded)

theorem isDigit_bounds {c : Char} (h : c.isDigit = true) : 48 ≤ c.toNat ∧ c.toNat ≤ 57 := by
  simpa [Char.isDigit, UInt32.le_iff_toNat_le] using h

theorem isBlank_of_isDigit {c : Char} (h : c.isDigit = true) : isBlank c = false := by
  have hc := isDigit_bounds h
  simp only [isBlank, Bool.or_eq_false_iff, Bool.and_eq_false_iff, decide_eq_false_iff_not,
    beq_eq_false_iff_ne]
  omega

theorem isDigit_of_mem_digits {n : Nat} {c : Char} (h : c ∈ digits n) : c.isDigit = true :=
  Nat.isDigit_of_mem_toDigits (by decide) (by decide) h

theorem digits_ne_nil (n : Nat) : digits n ≠ [] := Nat.toDigits_ne_nil

/-! ### Blanks -/

theorem trimStart_eq_self {cs : List Char} (h : ∀ c ∈ cs.head?, isBlank c = false) :
    trimStart cs = cs := by
  cases cs with
  | nil => rfl
  | cons c cs =>
    rw [trimStart, List.dropWhile_cons_of_neg]
    simp [h c rfl]

theorem trimEnd_eq_of_last {cs : List Char} (h : ∀ c ∈ cs.getLast?, isBlank c = false) :
    trimEnd cs = cs := by
  have hend : cs.reverse.dropWhile isBlank = cs.reverse :=
    trimStart_eq_self fun c hc => h c (by rwa [List.head?_reverse] at hc)
  rw [trimEnd, hend, List.reverse_reverse]

theorem trimEnd_eq_self {cs : List Char} (h : ∀ c ∈ cs, isBlank c = false) : trimEnd cs = cs :=
  trimEnd_eq_of_last fun c hc => h c (List.mem_of_mem_getLast? hc)

theorem trim_eq_self {cs : List Char} (h : ∀ c ∈ cs, isBlank c = false) : trim cs = cs := by
  have hstart : trimStart cs = cs :=
    trimStart_eq_self fun c hc => h c (List.mem_of_mem_head? hc)
  rw [trim, hstart, trimEnd_eq_self h]

/-! ### Runs of digits -/

theorem takeWhile_isDigit_append {ds rest : List Char} (hds : ∀ c ∈ ds, c.isDigit = true)
    (hrest : ∀ c ∈ rest.head?, c.isDigit = false) : (ds ++ rest).takeWhile Char.isDigit = ds := by
  rw [List.takeWhile_append_of_pos hds]
  cases rest with
  | nil => simp
  | cons c rest => simp [hrest c rfl]

theorem splitDigits_of_digits {ds rest : List Char} (hds : ∀ c ∈ ds, c.isDigit = true)
    (hrest : ∀ c ∈ rest.head?, c.isDigit = false) : splitDigits (ds ++ rest) = (ds, rest) := by
  rw [splitDigits, takeWhile_isDigit_append hds hrest, List.dropWhile_append_of_pos hds]
  cases rest with
  | nil => rfl
  | cons c rest => rw [List.dropWhile_cons_of_neg (by simp [hrest c rfl])]

/-! ### Padded numerals -/

theorem isDigit_of_mem_padded {width n : Nat} {c : Char} (h : c ∈ padded width n) :
    c.isDigit = true := by
  rcases List.mem_append.1 h with h | h
  · rw [List.eq_of_mem_replicate h]
    rfl
  · exact isDigit_of_mem_digits h

theorem padded_ne_nil (width n : Nat) : padded width n ≠ [] := by
  simp [padded, digits_ne_nil]

theorem padded_eq_cons (width n : Nat) :
    ∃ c cs, padded width n = c :: cs ∧ c.isDigit = true := by
  cases h : padded width n with
  | nil => exact absurd h (padded_ne_nil width n)
  | cons c cs => exact ⟨c, cs, rfl, isDigit_of_mem_padded (h ▸ List.mem_cons_self ..)⟩

theorem ofDigitChars_padded (width n : Nat) : Nat.ofDigitChars 10 (padded width n) 0 = n := by
  rw [padded, Nat.ofDigitChars_append, Nat.ofDigitChars_replicate_zero, Nat.mul_zero, digits,
    Nat.ofDigitChars_ten_toDigits]

theorem length_padded {width n : Nat} (hwidth : 0 < width) (hn : n < Nat.pow 10 width) :
    (padded width n).length = width := by
  have hlen : (digits n).length ≤ width := (Nat.length_toDigits_le_iff (by decide) hwidth).2 hn
  rw [padded, List.length_append, List.length_replicate]
  omega

/-! ### Numerals -/

theorem integer?_numeral (n : Int) : integer? (numeral n).toList = some n := by
  rw [numeral, String.toList_ofList]
  split
  · next hn =>
    have hnat : -(n.natAbs : Int) = n := by omega
    rw [integer?, splitSign]
    simp only [natural?_digits]
    exact congrArg some hnat
  · next hn =>
    cases hd : digits n.natAbs with
    | nil => exact absurd hd (digits_ne_nil _)
    | cons c cs =>
      have hc : c.isDigit = true := isDigit_of_mem_digits (hd ▸ List.mem_cons_self ..)
      have hsign : splitSign (c :: cs) = (false, c :: cs) := by
        unfold splitSign
        split
        · next h => cases h; cases hc
        · next h => cases h; cases hc
        · rfl
      have hnat : (n.natAbs : Int) = n := by omega
      rw [integer?, hsign, ← hd]
      simp only [natural?_digits]
      exact congrArg some hnat

theorem toInt_of_signedWord? {k : Int} {n : Int64} (h : signedWord? k = some n) : n.toInt = k := by
  obtain ⟨⟨hlow, hhigh⟩, hn⟩ := Option.ite_none_right_eq_some.1 h
  rw [← Option.some.inj hn]
  exact Int64.toInt_ofInt_of_le hlow hhigh

theorem mem_numeral {n : Int} {c : Char} (h : c ∈ (numeral n).toList) :
    c = '-' ∨ c.isDigit = true := by
  rw [numeral, String.toList_ofList] at h
  split at h
  · exact (List.mem_cons.1 h).imp_right isDigit_of_mem_digits
  · exact .inr (isDigit_of_mem_digits h)

theorem isBlank_of_mem_numeral {n : Int} {c : Char} (h : c ∈ (numeral n).toList) :
    isBlank c = false := by
  rcases mem_numeral h with rfl | h
  · decide
  · exact isBlank_of_isDigit h

theorem int64?_numeral (n : Int64) : int64? (trim (numeral n.toInt).toList) = some n := by
  rw [trim_eq_self fun c hc => isBlank_of_mem_numeral hc, int64?, integer?_numeral,
    Option.bind_some, signedWord?_toInt]

end TypedConfig.Text
