import TypedConfig.Expression.Basic

/-!
# The grammar of expressions

`Derives` is the grammar, one constructor per production: from which tokens a factor, a term or an
expression is made, how deep it nests at most, and what it evaluates to. The evaluation of a list
of tokens is what the grammar says (`evaluate_of_derives`), and only sentences have a value
(`derives_of_evaluate`).

For the second, `Reads` relates the state of an evaluation to the tokens that it has taken. Each
further token either ends the evaluation with an error or keeps the relation (`Reads.step`).
-/

namespace TypedConfig.Expression

variable {α Op : Type}

/-- The nonterminals of the grammar. -/
inductive Rank
  | expression
  | term
  | factor

/-- The tokens of an expression, a term or a factor, and its value. Unary operators and parentheses
nest in it no deeper than the number says. -/
inductive Derives (lang : Language α Op) :
    Nat → Rank → List (Token α Op) → Except ParseError α → Prop
  | operand {room : Nat} (v : α) : Derives lang room .factor [.operand v] (.ok v)
  | unary {room : Nat} {op : Op} {f : α → α} {ts : List (Token α Op)} {x : Except ParseError α}
      (hop : lang.unary op = some f) (h : Derives lang room .factor ts x) :
      Derives lang (room + 1) .factor (.operator op :: ts) (do return f (← x))
  | group {room : Nat} {ts : List (Token α Op)} {x : Except ParseError α}
      (h : Derives lang room .expression ts x) :
      Derives lang (room + 1) .factor (.opening :: (ts ++ [.closing])) x
  | factor {room : Nat} {ts : List (Token α Op)} {x : Except ParseError α}
      (h : Derives lang room .factor ts x) : Derives lang room .term ts x
  | tight {room : Nat} {op : Op} {f : α → α → Except ParseError α} {ts us : List (Token α Op)}
      {x y : Except ParseError α} (hop : lang.tight op = some f) (hl : Derives lang room .term ts x)
      (hr : Derives lang room .factor us y) :
      Derives lang room .term (ts ++ .operator op :: us) (do f (← x) (← y))
  | term {room : Nat} {ts : List (Token α Op)} {x : Except ParseError α}
      (h : Derives lang room .term ts x) : Derives lang room .expression ts x
  | loose {room : Nat} {op : Op} {g : α → α → α} {ts us : List (Token α Op)}
      {x y : Except ParseError α} (htight : lang.tight op = none) (hop : lang.loose op = some g)
      (hl : Derives lang room .expression ts x) (hr : Derives lang room .term us y) :
      Derives lang room .expression (ts ++ .operator op :: us) (do return g (← x) (← y))

variable (lang : Language α Op) (stop : Nat)

/-- What becomes of a factor: the unary operators in front of it are applied, and it joins its
term. -/
def finish (frames : List (Frame α)) (level : Level α) (rest : List (Nat × Token α Op)) (v : α) :
    Except ParseError α := do
  let (v, frames) := applyUnary frames v
  let w ← level.tight v
  evaluateFrom lang stop (.operator w) frames { level with tight := .ok } rest

variable {lang stop}

theorem evaluateFrom_operand {frames : List (Frame α)} {level : Level α} (position : Nat) (v : α)
    (rest : List (Nat × Token α Op)) :
    evaluateFrom lang stop .operand frames level ((position, .operand v) :: rest) =
      finish lang stop frames level rest v := by
  rw [evaluateFrom]
  rfl

theorem evaluateFrom_closing {frames : List (Frame α)} {outer level : Level α} (position : Nat)
    (v : α) (rest : List (Nat × Token α Op)) :
    evaluateFrom lang stop (.operator v) (.group outer :: frames) level
      ((position, .closing) :: rest) = finish lang stop frames outer rest (level.loose v) := by
  simp only [evaluateFrom]
  rfl

section Complete

variable (lang stop)

/-- No unary operator waits for the next factor. -/
def Clean (frames : List (Frame α)) : Prop := ∀ v, applyUnary frames v = (v, frames)

theorem clean_nil : Clean ([] : List (Frame α)) := fun _ => rfl

theorem clean_group (outer : Level α) (frames : List (Frame α)) : Clean (.group outer :: frames) :=
  fun _ => rfl

/-- How the evaluation takes the tokens of a factor, of a term and of an expression in front of
others. At the end of an expression, the value of its last term waits beside the operators in front
of it, since a factor may still join the term. -/
def Takes (room : Nat) (ts : List (Token α Op)) (x : Except ParseError α) : Rank → Prop
  | .factor => ∀ frames level pts rest, frames.length + room ≤ maxDepth → pts.map Prod.snd = ts →
      evaluateFrom lang stop .operand frames level (pts ++ rest) =
        x >>= finish lang stop frames level rest
  | .term => ∀ frames g pts rest, frames.length + room ≤ maxDepth → Clean frames →
      pts.map Prod.snd = ts → evaluateFrom lang stop .operand frames ⟨.ok, g⟩ (pts ++ rest) =
        x >>= fun v => evaluateFrom lang stop (.operator v) frames ⟨.ok, g⟩ rest
  | .expression => ∃ y : Except ParseError (α × (α → α)), x = (do let (v, g) ← y; return g v) ∧
      ∀ frames pts rest, frames.length + room ≤ maxDepth → Clean frames → pts.map Prod.snd = ts →
        evaluateFrom lang stop .operand frames .start (pts ++ rest) =
          y >>= fun (v, g) => evaluateFrom lang stop (.operator v) frames ⟨.ok, g⟩ rest

variable {lang stop}

theorem Derives.takes {room : Nat} {rank : Rank} {ts : List (Token α Op)} {x : Except ParseError α}
    (h : Derives lang room rank ts x) : Takes lang stop room ts x rank := by
  induction h with
  | operand v =>
    intro frames level pts rest _ hmap
    obtain ⟨⟨p, t⟩, pts, rfl, rfl, hnil⟩ := List.map_eq_cons_iff.1 hmap
    obtain rfl := List.map_eq_nil_iff.1 hnil
    rw [List.singleton_append, evaluateFrom_operand]
    rfl
  | @unary room op f ts x hop _ ih =>
    intro frames level pts rest hroom hmap
    obtain ⟨⟨p, t⟩, pts, rfl, rfl, hpts⟩ := List.map_eq_cons_iff.1 hmap
    have hdeep : frames.length < maxDepth := by omega
    have hinner : (Frame.unary f :: frames).length + room ≤ maxDepth := by
      rw [List.length_cons]
      omega
    rw [List.cons_append, evaluateFrom]
    simp only [hop, hdeep, if_true, bind_assoc, pure_bind]
    exact ih _ level pts rest hinner hpts
  | @group room ts x _ ih =>
    intro frames level pts rest hroom hmap
    obtain ⟨y, rfl, ih⟩ := ih
    obtain ⟨⟨p, t⟩, tail, rfl, rfl, htail⟩ := List.map_eq_cons_iff.1 hmap
    obtain ⟨pts, last, rfl, hpts, hlast⟩ := List.map_eq_append_iff.1 htail
    obtain ⟨⟨q, t⟩, qts, rfl, rfl, hnil⟩ := List.map_eq_cons_iff.1 hlast
    obtain rfl := List.map_eq_nil_iff.1 hnil
    have hdeep : frames.length < maxDepth := by omega
    have hinner : (Frame.group level :: frames).length + room ≤ maxDepth := by
      rw [List.length_cons]
      omega
    rw [List.cons_append, evaluateFrom, if_pos hdeep, List.append_assoc,
      ih _ pts _ hinner (clean_group level frames) hpts, bind_assoc]
    refine bind_congr fun (v, g) => ?_
    rw [pure_bind]
    exact evaluateFrom_closing q v rest
  | factor _ ih =>
    intro frames g pts rest hroom hclean hpts
    rw [ih frames ⟨.ok, g⟩ pts rest hroom hpts]
    refine bind_congr fun v => ?_
    rw [finish, hclean v]
    rfl
  | @tight room op f ts us x y hop _ _ ihl ihr =>
    intro frames g pts rest hroom hclean hmap
    obtain ⟨pts, tail, rfl, hpts, htail⟩ := List.map_eq_append_iff.1 hmap
    obtain ⟨⟨p, t⟩, qts, rfl, rfl, hqts⟩ := List.map_eq_cons_iff.1 htail
    rw [List.append_assoc, ihl frames g pts _ hroom hclean hpts, bind_assoc]
    refine bind_congr fun v => ?_
    simp only [List.cons_append, evaluateFrom, hop]
    rw [ihr frames _ qts rest hroom hqts, bind_assoc]
    refine bind_congr fun w => ?_
    rw [finish, hclean w]
  | @term room ts x _ ih =>
    refine ⟨do return (← x, id), ?_, ?_⟩
    · simp
    · intro frames pts rest hroom hclean hpts
      simp only [bind_assoc, pure_bind]
      exact ih frames id pts rest hroom hclean hpts
  | @loose room op g ts us x y htight hop _ _ ihl ihr =>
    obtain ⟨l, rfl, ihl⟩ := ihl
    refine ⟨do let (v, k) ← l; return (← y, g (k v)), ?_, ?_⟩
    · simp only [bind_assoc, pure_bind]
    · intro frames pts rest hroom hclean hmap
      obtain ⟨pts, tail, rfl, hpts, htail⟩ := List.map_eq_append_iff.1 hmap
      obtain ⟨⟨p, t⟩, qts, rfl, rfl, hqts⟩ := List.map_eq_cons_iff.1 htail
      rw [List.append_assoc, ihl frames pts _ hroom hclean hpts, bind_assoc]
      refine bind_congr fun (v, k) => ?_
      simp only [List.cons_append, evaluateFrom, htight, hop, bind_assoc, pure_bind]
      exact ihr frames _ qts rest hroom hclean hqts

/-- A sentence evaluates to what the grammar says, be it a value or an error. -/
theorem evaluate_of_derives {pts : List (Nat × Token α Op)} {x : Except ParseError α}
    (h : Derives lang maxDepth .expression (pts.map Prod.snd) x) : evaluate lang stop pts = x := by
  obtain ⟨y, rfl, htakes⟩ : Takes lang stop _ _ _ .expression := h.takes
  have hrun := htakes [] pts [] (Nat.le_of_eq (Nat.zero_add _)) clean_nil rfl
  rw [List.append_nil] at hrun
  rw [evaluate, hrun]
  refine bind_congr fun (v, g) => ?_
  simp only [evaluateFrom]
  rfl

end Complete

section Sound

variable (lang)

/-- A term so far with the tight operator after it, or nothing, and what it makes of a factor. -/
def TightSide (room : Nat) (ts : List (Token α Op)) (f : α → Except ParseError α) : Prop :=
  (ts = [] ∧ f = .ok) ∨ ∃ us op h v, ts = us ++ [.operator op] ∧ lang.tight op = some h ∧
    Derives lang room .term us (.ok v) ∧ f = h v

/-- An expression so far with the loose operator after it, or nothing, and what it makes of a
term. -/
def LooseSide (room : Nat) (ts : List (Token α Op)) (g : α → α) : Prop :=
  (ts = [] ∧ g = id) ∨ ∃ us op h v, ts = us ++ [.operator op] ∧ lang.tight op = none ∧
    lang.loose op = some h ∧ Derives lang room .expression us (.ok v) ∧ g = h v

/-- What stands between the last open parenthesis and the factor that comes next. -/
def Side (room : Nat) (ts : List (Token α Op)) (level : Level α) : Prop :=
  ∃ us vs, ts = us ++ vs ∧ LooseSide lang room us level.loose ∧ TightSide lang room vs level.tight

/-- What the tokens say that have been taken when a factor comes next. There is room for further
unary operators and parentheses, up to a limit with those that are open. -/
inductive Awaits (limit : Nat) : Nat → List (Frame α) → Level α → List (Token α Op) → Prop
  | start {level : Level α} {ts : List (Token α Op)} (h : Side lang limit ts level) :
      Awaits limit limit [] level ts
  | unary {room : Nat} {op : Op} {f : α → α} {frames : List (Frame α)} {level : Level α}
      {ts : List (Token α Op)} (hop : lang.unary op = some f)
      (h : Awaits limit (room + 1) frames level ts) :
      Awaits limit room (.unary f :: frames) level (ts ++ [.operator op])
  | group {room : Nat} {outer level : Level α} {frames : List (Frame α)}
      {ts us : List (Token α Op)} (h : Awaits limit (room + 1) frames outer ts)
      (hside : Side lang room us level) :
      Awaits limit room (.group outer :: frames) level (ts ++ .opening :: us)

/-- The tokens up to the last open parenthesis. -/
def Opens (limit room : Nat) : List (Frame α) → List (Token α Op) → Prop
  | [], ts => room = limit ∧ ts = []
  | .group outer :: frames, ts =>
    ∃ us, ts = us ++ [.opening] ∧ Awaits lang limit (room + 1) frames outer us
  | .unary _ :: _, _ => False

/-- What the tokens say that have been taken when an operator comes next, after a term so far. -/
def Holds (limit : Nat) (v : α) (frames : List (Frame α)) (level : Level α)
    (ts : List (Token α Op)) : Prop :=
  level.tight = .ok ∧ ∃ room before us vs, ts = before ++ (us ++ vs) ∧
    Opens lang limit room frames before ∧ LooseSide lang room us level.loose ∧
    Derives lang room .term vs (.ok v)

/-- What the tokens that have been taken say about the state of an evaluation. -/
def Reads (limit : Nat) : Expecting α → List (Frame α) → Level α → List (Token α Op) → Prop
  | .operand, frames, level, ts => ∃ room, Awaits lang limit room frames level ts
  | .operator v, frames, level, ts => Holds lang limit v frames level ts

variable {lang} {limit room : Nat} {frames : List (Frame α)} {level : Level α}
  {ts us : List (Token α Op)} {v w : α}

theorem side_start : Side lang room [] .start := ⟨[], [], rfl, .inl ⟨rfl, rfl⟩, .inl ⟨rfl, rfl⟩⟩

theorem reads_start : Reads lang limit .operand [] .start [] := ⟨_, .start side_start⟩

theorem TightSide.term {f : α → Except ParseError α} (h : TightSide lang room ts f)
    (hfactor : Derives lang room .factor us (.ok v)) (hv : f v = .ok w) :
    Derives lang room .term (ts ++ us) (.ok w) := by
  rcases h with ⟨rfl, rfl⟩ | ⟨vs, op, f, x, rfl, hop, hl, rfl⟩
  · cases hv
    exact .factor hfactor
  · have h := Derives.tight hop hl hfactor
    rw [List.append_assoc, ← hv]
    exact h

theorem LooseSide.expression {g : α → α} (h : LooseSide lang room ts g)
    (hterm : Derives lang room .term us (.ok v)) :
    Derives lang room .expression (ts ++ us) (.ok (g v)) := by
  rcases h with ⟨rfl, rfl⟩ | ⟨vs, op, g, x, rfl, htight, hop, hl, rfl⟩
  · exact .term hterm
  · have h := Derives.loose htight hop hl hterm
    rw [List.append_assoc]
    exact h

theorem Awaits.length_add (h : Awaits lang limit room frames level ts) :
    frames.length + room = limit := by
  induction h with
  | start => exact Nat.zero_add _
  | unary _ _ ih => rw [List.length_cons]; omega
  | group _ _ ih => rw [List.length_cons]; omega

theorem Opens.awaits (h : Opens lang limit room frames ts) (hside : Side lang room us level) :
    Awaits lang limit room frames level (ts ++ us) := by
  cases frames with
  | nil =>
    obtain ⟨rfl, rfl⟩ := h
    exact .start hside
  | cons frame frames =>
    cases frame with
    | unary f => exact h.elim
    | group outer =>
      obtain ⟨vs, rfl, h⟩ := h
      rw [List.append_assoc]
      exact .group h hside

/-- A factor joins its term, after the unary operators in front of it. -/
theorem Awaits.holds (h : Awaits lang limit room frames level ts)
    (hfactor : Derives lang room .factor us (.ok v))
    (hv : level.tight (applyUnary frames v).1 = .ok w) :
    Holds lang limit w (applyUnary frames v).2 { level with tight := .ok } (ts ++ us) := by
  induction h generalizing us v with
  | start hside =>
    obtain ⟨ls, rs, rfl, hloose, htight⟩ := hside
    exact ⟨rfl, _, [], ls, rs ++ us, by simp, ⟨rfl, rfl⟩, hloose, htight.term hfactor hv⟩
  | unary hop _ ih =>
    rw [List.append_assoc]
    exact ih (.unary hop hfactor) hv
  | @group room outer level frames ts ms h hside _ =>
    obtain ⟨ls, rs, rfl, hloose, htight⟩ := hside
    exact ⟨rfl, _, ts ++ [.opening], ls, rs ++ us, by simp, ⟨ts, rfl, h⟩, hloose,
      htight.term hfactor hv⟩

variable (lang) in
/-- An evaluation, as a function of the tokens that are left, either ends with an error, or goes on
in a state about which the tokens say what they must. -/
def Continues (limit : Nat) (ts : List (Token α Op)) (stop : Nat)
    (run : List (Nat × Token α Op) → Except ParseError α) : Prop :=
  (∃ e, ∀ rest, run rest = .error e) ∨
    ∃ expecting frames level, Reads lang limit expecting frames level ts ∧
      ∀ rest, run rest = evaluateFrom lang stop expecting frames level rest

theorem Awaits.continues_finish (h : Awaits lang limit room frames level ts)
    (hfactor : Derives lang room .factor us (.ok v)) (stop : Nat) :
    Continues lang limit (ts ++ us) stop fun rest => finish lang stop frames level rest v := by
  cases hw : level.tight (applyUnary frames v).1 with
  | error e => exact .inl ⟨e, fun rest => by simp only [finish, hw]; rfl⟩
  | ok w =>
    exact .inr ⟨.operator w, _, _, h.holds hfactor hw, fun rest => by simp only [finish, hw]; rfl⟩

theorem Awaits.continues (h : Awaits lang maxDepth room frames level ts) (stop position : Nat)
    (t : Token α Op) : Continues lang maxDepth (ts ++ [t]) stop fun rest =>
      evaluateFrom lang stop .operand frames level ((position, t) :: rest) := by
  have hlen := h.length_add
  cases t with
  | operand v =>
    simp only [evaluateFrom_operand]
    exact h.continues_finish (.operand v) stop
  | operator op =>
    simp only [evaluateFrom]
    cases hop : lang.unary op with
    | none => exact .inl ⟨_, fun _ => rfl⟩
    | some f =>
      by_cases hdeep : frames.length < maxDepth
      · obtain ⟨room, rfl⟩ : ∃ r, room = r + 1 := ⟨room - 1, by omega⟩
        exact .inr ⟨.operand, _, level, ⟨room, .unary hop h⟩, fun _ => if_pos hdeep⟩
      · exact .inl ⟨_, fun _ => if_neg hdeep⟩
  | opening =>
    simp only [evaluateFrom]
    by_cases hdeep : frames.length < maxDepth
    · obtain ⟨room, rfl⟩ : ∃ r, room = r + 1 := ⟨room - 1, by omega⟩
      exact .inr ⟨.operand, _, .start, ⟨room, .group h side_start⟩, fun _ => if_pos hdeep⟩
    · exact .inl ⟨_, fun _ => if_neg hdeep⟩
  | closing =>
    simp only [evaluateFrom]
    exact .inl ⟨_, fun _ => rfl⟩

theorem Holds.continues_operator (h : Holds lang limit v frames level ts) (stop position : Nat)
    (op : Op) : Continues lang limit (ts ++ [.operator op]) stop fun rest =>
      evaluateFrom lang stop (.operator v) frames level ((position, .operator op) :: rest) := by
  obtain ⟨-, room, before, us, vs, rfl, hopens, hloose, hterm⟩ := h
  simp only [evaluateFrom]
  cases hop : lang.tight op with
  | some f =>
    have hside : Side lang room (us ++ (vs ++ [.operator op])) { level with tight := f v } :=
      ⟨us, _, rfl, hloose, .inr ⟨vs, op, f, v, rfl, hop, hterm, rfl⟩⟩
    refine .inr ⟨.operand, frames, _, ⟨room, ?_⟩, fun _ => rfl⟩
    rw [List.append_assoc, List.append_assoc]
    exact hopens.awaits hside
  | none =>
    cases hop' : lang.loose op with
    | none => exact .inl ⟨_, fun _ => rfl⟩
    | some g =>
      have hexpression := hloose.expression hterm
      have hside : Side lang room (us ++ vs ++ [.operator op]) ⟨.ok, g (level.loose v)⟩ :=
        ⟨_, [], (List.append_nil _).symm,
          .inr ⟨us ++ vs, op, g, _, rfl, hop, hop', hexpression, rfl⟩, .inl ⟨rfl, rfl⟩⟩
      refine .inr ⟨.operand, frames, _, ⟨room, ?_⟩, fun _ => rfl⟩
      rw [List.append_assoc]
      exact hopens.awaits hside

theorem Holds.continues_closing (h : Holds lang limit v frames level ts) (stop position : Nat) :
    Continues lang limit (ts ++ [.closing]) stop fun rest =>
      evaluateFrom lang stop (.operator v) frames level ((position, .closing) :: rest) := by
  obtain ⟨-, room, before, us, vs, rfl, hopens, hloose, hterm⟩ := h
  cases frames with
  | nil =>
    simp only [evaluateFrom]
    exact .inl ⟨_, fun _ => rfl⟩
  | cons frame frames =>
    cases frame with
    | unary f => exact hopens.elim
    | group outer =>
      -- the group is a factor of the term outside
      obtain ⟨ts, rfl, ha⟩ := hopens
      have hts : ts ++ [.opening] ++ (us ++ vs) ++ [.closing] =
          ts ++ Token.opening :: (us ++ vs ++ [.closing]) := by simp
      simp only [evaluateFrom_closing, hts]
      exact ha.continues_finish (.group (hloose.expression hterm)) stop

/-- A token after others either ends the evaluation with an error, or leads to a state that the
tokens with it say the same about. -/
theorem Reads.step {expecting : Expecting α} (h : Reads lang maxDepth expecting frames level ts)
    (stop position : Nat) (t : Token α Op) : Continues lang maxDepth (ts ++ [t]) stop fun rest =>
      evaluateFrom lang stop expecting frames level ((position, t) :: rest) := by
  cases expecting with
  | operand =>
    obtain ⟨room, ha⟩ := h
    exact ha.continues stop position t
  | operator v =>
    cases t with
    | operand u => exact .inl ⟨_, fun _ => by simp only [evaluateFrom]; rfl⟩
    | opening => exact .inl ⟨_, fun _ => by simp only [evaluateFrom]; rfl⟩
    | operator op => exact Holds.continues_operator h stop position op
    | closing => exact Holds.continues_closing h stop position

/-- At the end, there is a value only for a sentence. -/
theorem Reads.derives {expecting : Expecting α} (h : Reads lang limit expecting frames level ts)
    {stop : Nat} (hv : evaluateFrom lang stop expecting frames level [] = .ok v) :
    Derives lang limit .expression ts (.ok v) := by
  cases expecting with
  | operand => rw [evaluateFrom] at hv; cases hv
  | operator w =>
    obtain ⟨-, room, before, us, vs, rfl, hopens, hloose, hterm⟩ := h
    cases frames with
    | nil =>
      obtain ⟨rfl, rfl⟩ := hopens
      rw [evaluateFrom] at hv
      cases hv
      exact hloose.expression hterm
    | cons frame frames => rw [evaluateFrom] at hv; cases hv

theorem Reads.run {expecting : Expecting α} {stop : Nat} {pts : List (Nat × Token α Op)}
    (h : Reads lang maxDepth expecting frames level ts)
    (hv : evaluateFrom lang stop expecting frames level pts = .ok v) :
    Derives lang maxDepth .expression (ts ++ pts.map Prod.snd) (.ok v) := by
  induction pts generalizing expecting frames level ts with
  | nil =>
    rw [List.map_nil, List.append_nil]
    exact h.derives hv
  | cons pt pts ih =>
    obtain ⟨position, t⟩ := pt
    rcases h.step stop position t with ⟨e, he⟩ | ⟨expecting', frames', level', h', hrest⟩
    · cases (he pts).symm.trans hv
    · simpa using ih h' ((hrest pts).symm.trans hv)

/-- Only sentences have a value. -/
theorem derives_of_evaluate {stop : Nat} {pts : List (Nat × Token α Op)}
    (h : evaluate lang stop pts = .ok v) :
    Derives lang maxDepth .expression (pts.map Prod.snd) (.ok v) := by
  simpa using reads_start.run h

end Sound

end TypedConfig.Expression
