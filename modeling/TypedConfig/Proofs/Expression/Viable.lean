import TypedConfig.Proofs.Expression.Grammar

/-!
# Where an expression goes wrong

Tokens are viable if they start some sentence of the grammar, however deep it nests. To tell which
tokens are not, no value and no precedence matters: `Outlook` is what is left of the state of an
evaluation without them, and each sentence leads it from the start to the end (`Derives.walk`).

An evaluation that stops because of the form of its tokens stops at the first token with which they
are not viable any more, or at the end of tokens that are viable but no sentence
(`pinpoints_of_evaluate`). Only the limit on nesting stops it earlier.
-/

namespace TypedConfig.Expression

variable {α Op : Type}

/-! ### Sentences and how they start -/

section

variable (lang : Language α Op)

/-- The tokens are an expression, however deep it nests. -/
def Sentence (ts : List (Token α Op)) : Prop := ∃ room x, Derives lang room .expression ts x

/-- Tokens can follow so that all are an expression. -/
def Viable (ts : List (Token α Op)) : Prop := ∃ us, Sentence lang (ts ++ us)

/-- The tokens that start before a position. -/
def tokensBefore (position : Nat) (pts : List (Nat × Token α Op)) : List (Token α Op) :=
  (pts.filter fun pt => pt.1 < position).map Prod.snd

/-- The position is where the tokens go wrong: at the token that makes them the start of no
expression, or at the end of tokens that lack others. -/
def Pinpoints (stop : Nat) (pts : List (Nat × Token α Op)) (position : Nat) : Prop :=
  Viable lang (tokensBefore position pts) ∧
    ((∃ t, (position, t) ∈ pts ∧ ¬ Viable lang (tokensBefore position pts ++ [t])) ∨
      (position = stop ∧ Viable lang (pts.map Prod.snd) ∧ ¬ Sentence lang (pts.map Prod.snd)))

end

variable {lang : Language α Op} {limit room stop : Nat} {frames : List (Frame α)} {level : Level α}
  {ts us : List (Token α Op)} {v : α} {x : Except ParseError α}

theorem Sentence.viable (h : Sentence lang ts) : Viable lang ts := by
  refine ⟨[], ?_⟩
  rw [List.append_nil]
  exact h

theorem Viable.of_append (h : Viable lang (ts ++ us)) : Viable lang ts := by
  obtain ⟨vs, h⟩ := h
  rw [List.append_assoc] at h
  exact ⟨us ++ vs, h⟩

/-! ### Tokens without their values -/

/-- What comes next, and how many parentheses are open. -/
inductive Outlook
  | operand (depth : Nat)
  | operator (depth : Nat)
deriving DecidableEq

/-- The outlook after a token, if the token can come next. -/
def Outlook.next (lang : Language α Op) : Outlook → Token α Op → Option Outlook
  | operand n, .operand _ => some (operator n)
  | operand n, .operator op => if (lang.unary op).isSome then some (operand n) else none
  | operand n, .opening => some (operand (n + 1))
  | operand _, .closing => none
  | operator n, .operator op =>
    if (lang.tight op).isSome || (lang.loose op).isSome then some (operand n) else none
  | operator (n + 1), .closing => some (operator n)
  | operator _, _ => none

variable (lang) in
/-- The outlook after tokens, if they can come next one after the other. -/
def walk (o : Outlook) (ts : List (Token α Op)) : Option Outlook := ts.foldlM (Outlook.next lang) o

@[simp] theorem walk_nil (o : Outlook) : walk lang o [] = some o := rfl

@[simp] theorem walk_cons (o : Outlook) (t : Token α Op) (ts : List (Token α Op)) :
    walk lang o (t :: ts) = (o.next lang t).bind fun o => walk lang o ts := by
  rw [walk, List.foldlM_cons]
  rfl

@[simp] theorem walk_append (o : Outlook) (ts us : List (Token α Op)) :
    walk lang o (ts ++ us) = (walk lang o ts).bind fun o => walk lang o us := by
  rw [walk, List.foldlM_append]
  rfl

/-- A part of an expression stands where an operand is to come, and an operator comes after it. -/
theorem Derives.walk {rank : Rank} (h : Derives lang room rank ts x) (n : Nat) :
    walk lang (.operand n) ts = some (.operator n) := by
  induction h generalizing n with
  | operand v => rfl
  | unary hop _ ih => simp [Outlook.next, hop, ih]
  | group _ ih => simp [Outlook.next, ih]
  | factor _ ih => exact ih n
  | tight hop _ _ ihl ihr => simp [Outlook.next, hop, ihl, ihr]
  | term _ ih => exact ih n
  | loose _ hop _ _ ihl ihr => simp [Outlook.next, hop, ihl, ihr]

theorem Sentence.walk (h : Sentence lang ts) :
    walk lang (.operand 0) ts = some (.operator 0) := by
  obtain ⟨room, x, h⟩ := h
  exact h.walk 0

theorem Viable.walk_ne_none (h : Viable lang ts) : walk lang (.operand 0) ts ≠ none := by
  obtain ⟨us, h⟩ := h
  intro hnone
  have hwalk := h.walk
  rw [walk_append, hnone] at hwalk
  cases hwalk

/-! ### The outlook of an evaluation -/

/-- The number of open parentheses. -/
def groups : List (Frame α) → Nat
  | [] => 0
  | .unary _ :: frames => groups frames
  | .group _ :: frames => groups frames + 1

/-- What the state of an evaluation looks forward to. -/
def Expecting.outlook (frames : List (Frame α)) : Expecting α → Outlook
  | operand => .operand (groups frames)
  | operator _ => .operator (groups frames)

theorem TightSide.walk {f : α → Except ParseError α} (h : TightSide lang room ts f) (n : Nat) :
    walk lang (.operand n) ts = some (.operand n) := by
  rcases h with ⟨rfl, -⟩ | ⟨us, op, f, v, rfl, hop, hterm, -⟩
  · rfl
  · simp [hterm.walk, Outlook.next, hop]

theorem LooseSide.walk {g : α → α} (h : LooseSide lang room ts g) (n : Nat) :
    walk lang (.operand n) ts = some (.operand n) := by
  rcases h with ⟨rfl, -⟩ | ⟨us, op, g, v, rfl, -, hop, hexpression, -⟩
  · rfl
  · simp [hexpression.walk, Outlook.next, hop]

theorem Side.walk (h : Side lang room ts level) (n : Nat) :
    walk lang (.operand n) ts = some (.operand n) := by
  obtain ⟨us, vs, rfl, hloose, htight⟩ := h
  simp [hloose.walk, htight.walk]

theorem Awaits.walk (h : Awaits lang limit room frames level ts) :
    walk lang (.operand 0) ts = some (.operand (groups frames)) := by
  induction h with
  | start hside => exact hside.walk 0
  | unary hop _ ih => simp [ih, Outlook.next, hop, groups]
  | group _ hside ih => simp [ih, Outlook.next, groups, hside.walk]

theorem Opens.walk (h : Opens lang limit room frames ts) :
    walk lang (.operand 0) ts = some (.operand (groups frames)) := by
  cases frames with
  | nil =>
    obtain ⟨-, rfl⟩ := h
    rfl
  | cons frame frames =>
    cases frame with
    | unary f => exact h.elim
    | group outer =>
      obtain ⟨us, rfl, h⟩ := h
      simp [h.walk, Outlook.next, groups]

theorem Reads.walk {expecting : Expecting α} (h : Reads lang limit expecting frames level ts) :
    walk lang (.operand 0) ts = some (expecting.outlook frames) := by
  cases expecting with
  | operand =>
    obtain ⟨room, h⟩ := h
    exact h.walk
  | operator v =>
    obtain ⟨-, room, before, us, vs, rfl, hopens, hloose, hterm⟩ := h
    simp [hopens.walk, hloose.walk, hterm.walk, Expecting.outlook]

/-! ### Completing what has been read -/

theorem TightSide.exists_term {f : α → Except ParseError α} (h : TightSide lang room ts f)
    (hfactor : Derives lang room .factor us x) : ∃ y, Derives lang room .term (ts ++ us) y := by
  rcases h with ⟨rfl, -⟩ | ⟨vs, op, f, v, rfl, hop, hl, -⟩
  · exact ⟨x, .factor hfactor⟩
  · rw [List.append_assoc]
    exact ⟨_, .tight hop hl hfactor⟩

theorem LooseSide.exists_expression {g : α → α} (h : LooseSide lang room ts g)
    (hterm : Derives lang room .term us x) : ∃ y, Derives lang room .expression (ts ++ us) y := by
  rcases h with ⟨rfl, -⟩ | ⟨vs, op, g, v, rfl, htight, hop, hl, -⟩
  · exact ⟨x, .term hterm⟩
  · rw [List.append_assoc]
    exact ⟨_, .loose htight hop hl hterm⟩

theorem Side.exists_expression (h : Side lang room ts level)
    (hfactor : Derives lang room .factor us x) :
    ∃ y, Derives lang room .expression (ts ++ us) y := by
  obtain ⟨ls, rs, rfl, hloose, htight⟩ := h
  obtain ⟨y, hterm⟩ := htight.exists_term hfactor
  rw [List.append_assoc]
  exact hloose.exists_expression hterm

/-- With a factor more, only closing parentheses lack, one for each that is open. -/
theorem Awaits.viable_append (h : Awaits lang limit room frames level ts)
    (hfactor : Derives lang room .factor us x) : Viable lang (ts ++ us) := by
  induction h generalizing us x with
  | start hside => exact Sentence.viable ⟨_, hside.exists_expression hfactor⟩
  | unary hop _ ih =>
    rw [List.append_assoc]
    exact ih (.unary hop hfactor)
  | @group room outer level frames ts ms _ hside ih =>
    obtain ⟨y, hexpression⟩ := hside.exists_expression hfactor
    have hclosed := ih (.group hexpression)
    have hts : ts ++ Token.opening :: (ms ++ us ++ [.closing]) =
        ts ++ Token.opening :: ms ++ us ++ [.closing] := by simp
    rw [hts] at hclosed
    exact hclosed.of_append

theorem Opens.viable_append (h : Opens lang limit room frames ts)
    (hexpression : Derives lang room .expression us x) : Viable lang (ts ++ us) := by
  cases frames with
  | nil =>
    obtain ⟨rfl, rfl⟩ := h
    exact Sentence.viable ⟨_, x, hexpression⟩
  | cons frame frames =>
    cases frame with
    | unary f => exact h.elim
    | group outer =>
      obtain ⟨ts, rfl, h⟩ := h
      have hclosed := h.viable_append (.group hexpression)
      have hts : ts ++ Token.opening :: (us ++ [.closing]) =
          ts ++ [.opening] ++ us ++ [.closing] := by simp
      rw [hts] at hclosed
      exact hclosed.of_append

/-- What an evaluation has read is viable, if there is an operand to go on with. -/
theorem Reads.viable [Inhabited α] {expecting : Expecting α}
    (h : Reads lang limit expecting frames level ts) : Viable lang ts := by
  cases expecting with
  | operand =>
    obtain ⟨room, h⟩ := h
    exact (h.viable_append (.operand default)).of_append
  | operator v =>
    obtain ⟨-, room, before, us, vs, rfl, hopens, hloose, hterm⟩ := h
    exact hopens.viable_append (hloose.expression hterm)

/-! ### Where an evaluation stops -/

/-- No operator fails because of the form of the tokens. -/
def Language.IsFormal (lang : Language α Op) : Prop :=
  ∀ op f, lang.tight op = some f → ∀ v w position fault, f v w ≠ .error (.malformed position fault)

section Stops

variable {position place : Nat} {t : Token α Op} {fault : ExpressionFault}

theorem Side.tight_ne (h : Side lang room ts level) (hlang : lang.IsFormal) :
    level.tight v ≠ .error (.malformed position fault) := by
  obtain ⟨us, vs, -, -, htight⟩ := h
  rcases htight with ⟨-, htight⟩ | ⟨-, op, f, w, -, hop, -, htight⟩
  · rw [htight]
    simp
  · rw [htight]
    exact hlang op f hop w v position fault

theorem Awaits.tight_ne (h : Awaits lang limit room frames level ts) (hlang : lang.IsFormal) :
    level.tight v ≠ .error (.malformed position fault) := by
  induction h with
  | start hside => exact hside.tight_ne hlang
  | unary _ _ ih => exact ih
  | group _ hside _ => exact hside.tight_ne hlang

/-- An evaluation that is still going on may stop at one place or at another. -/
theorem not_forall_evaluateFrom {expecting : Expecting α}
    (h : ∀ rest, evaluateFrom lang stop expecting frames level rest =
      .error (.malformed position fault)) : False := by
  have hend := h []
  cases expecting with
  | operand =>
    have hnext := h [(stop + 1, .closing)]
    simp only [evaluateFrom, Except.error.injEq, ParseError.malformed.injEq] at hend hnext
    omega
  | operator v =>
    have hnext := h [(stop + 1, .opening)]
    cases frames with
    | nil =>
      simp only [evaluateFrom] at hend
      cases hend
    | cons frame frames =>
      simp only [evaluateFrom, Except.error.injEq, ParseError.malformed.injEq] at hend hnext
      omega

/-- A factor does not stop an evaluation because of the form of the tokens. -/
theorem not_forall_finish (h : Awaits lang limit room frames level ts) (hlang : lang.IsFormal)
    (hstop : ∀ rest, finish lang stop frames level rest v = .error (.malformed position fault)) :
    False := by
  simp only [finish] at hstop
  cases hw : level.tight (applyUnary frames v).1 with
  | error e =>
    simp only [hw] at hstop
    exact h.tight_ne hlang (hw.trans (hstop []))
  | ok w =>
    simp only [hw] at hstop
    exact not_forall_evaluateFrom hstop

theorem Awaits.next_eq_none (h : Awaits lang limit room frames level ts) (hlang : lang.IsFormal)
    (hstop : ∀ rest, evaluateFrom lang stop .operand frames level ((place, t) :: rest) =
      .error (.malformed position fault)) (hfault : fault ≠ .nestedTooDeeply) :
    position = place ∧ Outlook.next lang (.operand (groups frames)) t = none := by
  cases t with
  | operand w =>
    simp only [evaluateFrom_operand] at hstop
    exact (not_forall_finish h hlang hstop).elim
  | operator op =>
    simp only [evaluateFrom] at hstop
    cases hop : lang.unary op with
    | none =>
      simp only [hop] at hstop
      cases hstop []
      exact ⟨rfl, by simp [Outlook.next, hop]⟩
    | some f =>
      simp only [hop] at hstop
      by_cases hdeep : frames.length < maxDepth
      · simp only [hdeep, if_true] at hstop
        exact (not_forall_evaluateFrom hstop).elim
      · simp only [hdeep, if_false] at hstop
        cases hstop []
        exact absurd rfl hfault
  | opening =>
    simp only [evaluateFrom] at hstop
    by_cases hdeep : frames.length < maxDepth
    · simp only [hdeep, if_true] at hstop
      exact (not_forall_evaluateFrom hstop).elim
    · simp only [hdeep, if_false] at hstop
      cases hstop []
      exact absurd rfl hfault
  | closing =>
    simp only [evaluateFrom] at hstop
    cases hstop []
    exact ⟨rfl, rfl⟩

theorem Holds.next_eq_none (h : Holds lang limit v frames level ts) (hlang : lang.IsFormal)
    (hstop : ∀ rest, evaluateFrom lang stop (.operator v) frames level ((place, t) :: rest) =
      .error (.malformed position fault)) :
    position = place ∧ Outlook.next lang (.operator (groups frames)) t = none := by
  cases t with
  | operand w =>
    have hplace := hstop []
    simp only [evaluateFrom, Except.error.injEq, ParseError.malformed.injEq] at hplace
    exact ⟨hplace.1.symm, rfl⟩
  | opening =>
    have hplace := hstop []
    simp only [evaluateFrom, Except.error.injEq, ParseError.malformed.injEq] at hplace
    exact ⟨hplace.1.symm, rfl⟩
  | operator op =>
    simp only [evaluateFrom] at hstop
    cases htight : lang.tight op with
    | some f =>
      simp only [htight] at hstop
      exact (not_forall_evaluateFrom hstop).elim
    | none =>
      cases hloose : lang.loose op with
      | some g =>
        simp only [htight, hloose] at hstop
        exact (not_forall_evaluateFrom hstop).elim
      | none =>
        have hplace := hstop []
        simp only [htight, hloose, Except.error.injEq, ParseError.malformed.injEq] at hplace
        exact ⟨hplace.1.symm, by simp [Outlook.next, htight, hloose]⟩
  | closing =>
    obtain ⟨-, room, before, us, vs, -, hopens, -, -⟩ := h
    cases frames with
    | nil =>
      simp only [evaluateFrom] at hstop
      cases hstop []
      exact ⟨rfl, rfl⟩
    | cons frame frames =>
      cases frame with
      | unary f => exact hopens.elim
      | group outer =>
        obtain ⟨ts, -, hawaits⟩ := hopens
        simp only [evaluateFrom_closing] at hstop
        exact (not_forall_finish hawaits hlang hstop).elim

/-- At the end of the tokens an evaluation stops only before the end of a sentence. -/
theorem Reads.not_sentence {expecting : Expecting α}
    (h : Reads lang limit expecting frames level ts)
    (hstop : evaluateFrom lang stop expecting frames level [] =
      .error (.malformed position fault)) :
    position = stop ∧ ¬ Sentence lang ts := by
  have hwalk := h.walk
  cases expecting with
  | operand =>
    simp only [evaluateFrom, Except.error.injEq, ParseError.malformed.injEq] at hstop
    refine ⟨hstop.1.symm, fun hsentence => ?_⟩
    cases hsentence.walk.symm.trans hwalk
  | operator v =>
    obtain ⟨-, room, before, us, vs, -, hopens, -, -⟩ := h
    cases frames with
    | nil =>
      simp only [evaluateFrom] at hstop
      cases hstop
    | cons frame frames =>
      cases frame with
      | unary f => exact hopens.elim
      | group outer =>
        simp only [evaluateFrom, Except.error.injEq, ParseError.malformed.injEq] at hstop
        refine ⟨hstop.1.symm, fun hsentence => ?_⟩
        cases hsentence.walk.symm.trans hwalk

/-- An evaluation stops at the first token with which the tokens are not viable, or at the end. -/
theorem Reads.exists_stop [Inhabited α] {expecting : Expecting α} {pts : List (Nat × Token α Op)}
    (h : Reads lang maxDepth expecting frames level ts) (hlang : lang.IsFormal)
    (hstop : evaluateFrom lang stop expecting frames level pts = .error (.malformed position fault))
    (hfault : fault ≠ .nestedTooDeeply) :
    (∃ before t after, pts = before ++ (position, t) :: after ∧
      Viable lang (ts ++ before.map Prod.snd) ∧
      ¬ Viable lang (ts ++ before.map Prod.snd ++ [t])) ∨
    (position = stop ∧ Viable lang (ts ++ pts.map Prod.snd) ∧
      ¬ Sentence lang (ts ++ pts.map Prod.snd)) := by
  induction pts generalizing expecting frames level ts with
  | nil =>
    simp only [List.map_nil, List.append_nil]
    obtain ⟨hposition, hsentence⟩ := h.not_sentence hstop
    exact .inr ⟨hposition, h.viable, hsentence⟩
  | cons pt pts ih =>
    obtain ⟨place, t⟩ := pt
    rcases h.step stop place t with ⟨e, he⟩ | ⟨expecting', frames', level', h', hrest⟩
    · have hforall : ∀ rest, evaluateFrom lang stop expecting frames level ((place, t) :: rest) =
          .error (.malformed position fault) :=
        fun rest => (he rest).trans ((he pts).symm.trans hstop)
      have hnext : position = place ∧ (expecting.outlook frames).next lang t = none := by
        cases expecting with
        | operand =>
          obtain ⟨room, h⟩ := h
          exact h.next_eq_none hlang hforall hfault
        | operator v => exact Holds.next_eq_none h hlang hforall
      obtain ⟨rfl, hnext⟩ := hnext
      refine .inl ⟨[], t, pts, rfl, by simpa using h.viable, fun hviable => ?_⟩
      refine hviable.walk_ne_none ?_
      simp [h.walk, hnext]
    · rcases ih h' ((hrest pts).symm.trans hstop) with
        ⟨before, u, after, rfl, hviable, hnot⟩ | ⟨hposition, hviable, hsentence⟩
      · refine .inl ⟨(place, t) :: before, u, after, rfl, ?_, ?_⟩
        · simpa using hviable
        · simpa using hnot
      · refine .inr ⟨hposition, ?_, ?_⟩
        · simpa using hviable
        · simpa using hsentence

/-- If tokens stand in order before the end, the position of a fault pinpoints where they go
wrong. -/
theorem pinpoints_of_evaluate [Inhabited α] {pts : List (Nat × Token α Op)}
    (hlang : lang.IsFormal) (hsorted : pts.Pairwise (·.1 < ·.1)) (hend : ∀ pt ∈ pts, pt.1 < stop)
    (hstop : evaluate lang stop pts = .error (.malformed position fault))
    (hfault : fault ≠ .nestedTooDeeply) : Pinpoints lang stop pts position := by
  rcases reads_start.exists_stop hlang hstop hfault with
    ⟨before, t, after, rfl, hviable, hnot⟩ | ⟨rfl, hviable, hsentence⟩
  · have hbefore : tokensBefore position (before ++ (position, t) :: after) =
        before.map Prod.snd := by
      obtain ⟨-, hafter, hcross⟩ := List.pairwise_append.1 hsorted
      have hlt : ∀ pt ∈ before, decide (pt.1 < position) = true := fun pt hpt =>
        decide_eq_true (hcross pt hpt _ (List.mem_cons_self ..))
      have hge : ∀ pt ∈ (position, t) :: after, ¬ decide (pt.1 < position) = true := by
        intro pt hpt
        rcases List.mem_cons.1 hpt with rfl | hpt
        · simp
        · have := (List.pairwise_cons.1 hafter).1 pt hpt
          simpa using Nat.le_of_lt this
      rw [tokensBefore, List.filter_append, List.filter_eq_self.2 hlt, List.filter_eq_nil_iff.2 hge,
        List.append_nil]
    rw [Pinpoints, hbefore]
    exact ⟨hviable, .inl ⟨t, by simp, hnot⟩⟩
  · have hbefore : tokensBefore position pts = pts.map Prod.snd := by
      rw [tokensBefore, List.filter_eq_self.2 fun pt hpt => decide_eq_true (hend pt hpt)]
    rw [Pinpoints, hbefore]
    exact ⟨hviable, .inr ⟨rfl, hviable, hsentence⟩⟩

end Stops

end TypedConfig.Expression
