import TypedConfig.Proofs.Except
import TypedConfig.Template

/-!
# Rendering is one pass over the template

`Consists` takes a text apart from left to right, into plain characters, escaped openings and
references that end at the first closing brace, up to the end of the text or up to an opening that
is no reference. Each text consists of pieces in just one way (`exists_consists`,
`Consists.scan_eq`), whatever the names in it stand for. Rendering asks for the names in order and
splices the texts in as they are; it fails with the first lookup that fails, or, after all lookups,
where the text goes wrong (`render_interpolation`).
-/

namespace TypedConfig.Template

open Text

/-! ### Taking a text apart -/

/-- A reference or an escaped opening stands at the start of the text. -/
def OpensAt (cs : List Char) : Prop :=
  (∃ rest, cs = '$' :: '\x7b' :: rest) ∨ ∃ rest, cs = '$' :: '$' :: '\x7b' :: rest

/-- The pieces of a text, from left to right, and the fault that ends them, if any. -/
inductive Consists : List Char → List Piece → Option Fault → Prop
  | nil : Consists [] [] none
  | char {c : Char} {cs : List Char} {ps : List Piece} {fault : Option Fault}
      (hplain : ¬ OpensAt (c :: cs)) (h : Consists cs ps fault) :
      Consists (c :: cs) (.char c :: ps) fault
  | escape {cs : List Char} {ps : List Piece} {fault : Option Fault} (h : Consists cs ps fault) :
      Consists ('$' :: '$' :: '\x7b' :: cs) (.escape :: ps) fault
  | reference {body cs : List Char} {ps : List Piece} {fault : Option Fault}
      (hbody : '\x7d' ∉ body) (hname : trim body ≠ []) (h : Consists cs ps fault) :
      Consists ('$' :: '\x7b' :: (body ++ '\x7d' :: cs)) (.reference body :: ps) fault
  | unterminated {cs : List Char} (h : '\x7d' ∉ cs) :
      Consists ('$' :: '\x7b' :: cs) [] (some .unterminatedReference)
  | blank {body cs : List Char} (hbody : '\x7d' ∉ body) (hname : trim body = []) :
      Consists ('$' :: '\x7b' :: (body ++ '\x7d' :: cs)) [] (some .emptyReference)

/-- The text that pieces were taken from. -/
def sources (ps : List Piece) : List Char := ps.flatMap (Piece.source .interpolation)

theorem splitAtBrace_append {body : List Char} (h : '\x7d' ∉ body) (rest : List Char) :
    splitAtBrace (body ++ '\x7d' :: rest) = some (body, rest) := by
  have hbody : ∀ c ∈ body, (c != '\x7d') = true := by
    intro c hc
    have hne : c ≠ '\x7d' := by
      rintro rfl
      exact h hc
    simpa using hne
  simp [splitAtBrace, List.takeWhile_append_of_pos hbody, List.dropWhile_append_of_pos hbody]

theorem splitAtBrace_eq_none {cs : List Char} (h : '\x7d' ∉ cs) : splitAtBrace cs = none := by
  cases hs : splitAtBrace cs with
  | none => rfl
  | some found =>
    have hcs := splitAtBrace_eq_some hs
    exact absurd (by simp [hcs]) h

theorem scanInterpolation_reference {body : List Char} (h : '\x7d' ∉ body) (cs : List Char)
    (position : Nat) : scanInterpolation position ('$' :: '\x7b' :: (body ++ '\x7d' :: cs)) =
      if trim body = [] then stop position .emptyReference
      else cons (.reference body) (scanInterpolation (position + 2 + byteLength body + 1) cs) := by
  rw [scanInterpolation]
  split
  · next hs => simp [splitAtBrace_append h] at hs
  · next hs =>
    rw [splitAtBrace_append h] at hs
    cases hs
    rfl

/-- The scanner finds the pieces, and the place of the fault is the length of what is before it. -/
theorem Consists.scan_eq {cs : List Char} {ps : List Piece} {fault : Option Fault}
    (h : Consists cs ps fault) (position : Nat) : scanInterpolation position cs =
      ⟨ps, fault.map fun f => (position + byteLength (sources ps), f)⟩ := by
  induction h generalizing position with
  | nil => rw [scanInterpolation]; rfl
  | @char c cs ps fault hplain _ ih =>
    rw [scanInterpolation, ih]
    · simp [cons, sources, Piece.source, Nat.add_assoc]
    · rintro rest rfl rfl
      exact hplain (.inr ⟨rest, rfl⟩)
    · rintro rest rfl rfl
      exact hplain (.inl ⟨rest, rfl⟩)
  | @escape cs ps fault _ ih =>
    have hlen : byteLength ['$', '$', '\x7b'] = 3 := by decide
    rw [scanInterpolation, ih]
    simp [cons, sources, Piece.source, ← hlen, Nat.add_assoc]
  | @reference body cs ps fault hbody hname _ ih =>
    have hlen : byteLength ['$', '\x7b'] = 2 ∧ byteLength ['\x7d'] = 1 := by decide
    rw [scanInterpolation_reference hbody, if_neg hname, ih]
    simp [cons, sources, Piece.source, ← hlen.1, ← hlen.2, Nat.add_assoc]
  | @unterminated cs h =>
    rw [scanInterpolation]
    split
    · rfl
    · next hs => simp [splitAtBrace_eq_none h] at hs
  | blank hbody hname =>
    rw [scanInterpolation_reference hbody, if_pos hname]
    rfl

/-- Each text consists of pieces; what follows a fault opens a reference. -/
theorem exists_consists (cs : List Char) : ∃ ps fault, Consists cs ps fault ∧
    ∃ rest, cs = sources ps ++ rest ∧ (fault = none → rest = []) ∧
      (fault ≠ none → ∃ after, rest = '$' :: '\x7b' :: after) := by
  induction hn : cs.length using Nat.strongRecOn generalizing cs with
  | ind n ih =>
    subst hn
    have step {p : Piece} {tail : List Char} (htail : tail.length < cs.length)
        (hcs : cs = Piece.source .interpolation p ++ tail)
        (hcons : ∀ ps fault, Consists tail ps fault → Consists cs (p :: ps) fault) :
        ∃ ps fault, Consists cs ps fault ∧ ∃ rest, cs = sources ps ++ rest ∧
          (fault = none → rest = []) ∧ (fault ≠ none → ∃ after, rest = '$' :: '\x7b' :: after) := by
      obtain ⟨ps, fault, h, rest, hrest, hends⟩ := ih _ htail tail rfl
      refine ⟨p :: ps, fault, hcons ps fault h, rest, ?_, hends⟩
      rw [sources, List.flatMap_cons, List.append_assoc, ← sources, ← hrest, hcs]
    by_cases hopen : OpensAt cs
    · rcases hopen with ⟨cs, rfl⟩ | ⟨cs, rfl⟩
      · by_cases hclose : '\x7d' ∈ cs
        · obtain ⟨body, tail, rfl, hbody⟩ := List.eq_append_cons_of_mem hclose
          by_cases hname : trim body = []
          · exact ⟨[], _, .blank hbody hname, _, rfl, by simp, fun _ => ⟨_, rfl⟩⟩
          · exact step (p := .reference body) (by simp; omega) (by simp [Piece.source])
              fun ps fault h => .reference hbody hname h
        · exact ⟨[], _, .unterminated hclose, _, rfl, by simp, fun _ => ⟨_, rfl⟩⟩
      · exact step (p := .escape) (by simp; omega) rfl fun ps fault h => .escape h
    · cases cs with
      | nil => exact ⟨[], none, .nil, [], rfl, fun _ => rfl, fun h => absurd rfl h⟩
      | cons c cs =>
        exact step (p := .char c) (by simp) rfl fun ps fault h => .char hopen h

theorem Consists.unique {cs : List Char} {ps ps' : List Piece} {fault fault' : Option Fault}
    (h : Consists cs ps fault) (h' : Consists cs ps' fault') : ps' = ps ∧ fault' = fault := by
  have heq := (h'.scan_eq 0).symm.trans (h.scan_eq 0)
  rw [Template.mk.injEq] at heq
  obtain ⟨rfl, hfault⟩ := heq
  cases fault <;> cases fault' <;> simp_all

/-! ### Splicing texts in -/

/-- The names that pieces ask for, in order. -/
def asked (ps : List Piece) : List String := names ⟨ps, none⟩

/-- The text of the pieces, with a text for each reference, in order. -/
def splice : List Piece → List String → String
  | .char c :: ps, texts => c.toString ++ splice ps texts
  | .escape :: ps, texts => "$\x7b" ++ splice ps texts
  | .reference _ :: ps, text :: texts => text ++ splice ps texts
  | .reference _ :: _, [] => ""
  | [], _ => ""

variable {ε σ : Type}

/-- Looking names up, one after the other, yields texts. -/
inductive Answers (lookup : String → EStateM ε σ String) :
    List String → σ → List String → σ → Prop
  | nil (s : σ) : Answers lookup [] s [] s
  | cons {name text : String} {names texts : List String} {s s' s'' : σ}
      (h : lookup name s = .ok text s') (hs : Answers lookup names s' texts s'') :
      Answers lookup (name :: names) s (text :: texts) s''

/-- Looking names up, one after the other, fails: all names up to one are answered, that one is
not. -/
def Fails (lookup : String → EStateM ε σ String) (names : List String) (s : σ) (e : ε) (s' : σ) :
    Prop :=
  ∃ before name after texts r, names = before ++ name :: after ∧
    Answers lookup before s texts r ∧ lookup name r = .error e s'

variable {lookup : String → EStateM ε σ String} {s s' : σ}

theorem answers_nil {texts : List String} : Answers lookup [] s texts s' ↔ texts = [] ∧ s' = s := by
  constructor
  · rintro ⟨⟩
    exact ⟨rfl, rfl⟩
  · rintro ⟨rfl, rfl⟩
    exact .nil _

theorem answers_cons {name : String} {names texts : List String} :
    Answers lookup (name :: names) s texts s' ↔
      ∃ text rest r, texts = text :: rest ∧ lookup name s = .ok text r ∧
        Answers lookup names r rest s' := by
  constructor
  · rintro (_ | ⟨h, hs⟩)
    exact ⟨_, _, _, rfl, h, hs⟩
  · rintro ⟨text, rest, r, rfl, h, hs⟩
    exact .cons h hs

theorem fails_nil {e : ε} : ¬ Fails lookup [] s e s' := by
  rintro ⟨before, name, after, texts, r, hnames, -⟩
  simp at hnames

theorem fails_cons {name : String} {names : List String} {e : ε} :
    Fails lookup (name :: names) s e s' ↔ lookup name s = .error e s' ∨
      ∃ text r, lookup name s = .ok text r ∧ Fails lookup names r e s' := by
  constructor
  · rintro ⟨before, last, after, texts, r, hnames, ha, hlast⟩
    cases ha with
    | nil =>
      obtain ⟨rfl, -⟩ : name = last ∧ names = after := by simpa using hnames
      exact .inl hlast
    | cons h hs =>
      obtain ⟨rfl, hrest⟩ : name = _ ∧ names = _ := by simpa using hnames
      exact .inr ⟨_, _, h, _, last, after, _, r, hrest, hs, hlast⟩
  · rintro (h | ⟨text, r, h, before, last, after, texts, r', rfl, ha, hlast⟩)
    · exact ⟨[], name, names, [], s, rfl, .nil _, h⟩
    · exact ⟨name :: before, last, after, text :: texts, r', rfl, .cons h ha, hlast⟩

/-- Rendering pieces asks for the names in order and splices the answers in. -/
theorem renderPieces_eq_ok {ps : List Piece} {out : String} :
    renderPieces lookup ps s = .ok out s' ↔
      ∃ texts, Answers lookup (asked ps) s texts s' ∧ out = splice ps texts := by
  induction ps generalizing s out s' with
  | nil =>
    have hnil : asked [] = [] := rfl
    rw [hnil, renderPieces]
    simp only [answers_nil]
    constructor
    · rintro ⟨⟩
      exact ⟨[], ⟨rfl, rfl⟩, rfl⟩
    · rintro ⟨_, ⟨rfl, rfl⟩, rfl⟩
      rfl
  | cons p ps ih =>
    have plain {text : String} (hp : p.render lookup = pure text)
        (hasked : asked (p :: ps) = asked ps)
        (hsplice : ∀ texts, splice (p :: ps) texts = text ++ splice ps texts) :
        renderPieces lookup (p :: ps) s = .ok out s' ↔
          ∃ texts, Answers lookup (asked (p :: ps)) s texts s' ∧ out = splice (p :: ps) texts := by
      rw [renderPieces, hp, pure_bind, run_bind_eq_ok, hasked]
      simp only [hsplice, ih]
      constructor
      · rintro ⟨tail, r, ⟨texts, ha, rfl⟩, hout⟩
        cases hout
        exact ⟨texts, ha, rfl⟩
      · rintro ⟨texts, ha, rfl⟩
        exact ⟨_, _, ⟨texts, ha, rfl⟩, rfl⟩
    cases p with
    | char c => exact plain rfl rfl fun _ => rfl
    | escape => exact plain rfl rfl fun _ => rfl
    | reference body =>
      have hasked : asked (.reference body :: ps) = name body :: asked ps := rfl
      rw [renderPieces, run_bind_eq_ok, hasked]
      simp only [run_bind_eq_ok, ih, answers_cons, Piece.render]
      constructor
      · rintro ⟨text, r, htext, tail, r', ⟨texts, ha, rfl⟩, hout⟩
        cases hout
        exact ⟨text :: texts, ⟨text, texts, r, rfl, htext, ha⟩, rfl⟩
      · rintro ⟨_, ⟨text, texts, r, rfl, htext, ha⟩, rfl⟩
        exact ⟨text, r, htext, _, _, ⟨texts, ha, rfl⟩, rfl⟩

/-- Rendering pieces fails where the first lookup fails. -/
theorem renderPieces_eq_error {ps : List Piece} {e : ε} :
    renderPieces lookup ps s = .error e s' ↔ Fails lookup (asked ps) s e s' := by
  induction ps generalizing s with
  | nil =>
    have hnil : asked [] = [] := rfl
    rw [hnil, renderPieces]
    exact ⟨fun h => (by cases h), fun h => (fails_nil h).elim⟩
  | cons p ps ih =>
    have rest {text : String} {r : σ} : (do
          let tail ← renderPieces lookup ps
          return text ++ tail : EStateM ε σ String) r = .error e s' ↔
        Fails lookup (asked ps) r e s' := by
      rw [run_bind_eq_error, ih]
      constructor
      · rintro (h | ⟨tail, r', -, h⟩)
        · exact h
        · cases h
      · exact .inl
    cases p with
    | char c => rw [renderPieces, Piece.render, pure_bind, rest]; rfl
    | escape => rw [renderPieces, Piece.render, pure_bind, rest]; rfl
    | reference body =>
      have hasked : asked (.reference body :: ps) = name body :: asked ps := rfl
      rw [renderPieces, run_bind_eq_error, hasked, fails_cons]
      simp only [rest, Piece.render]

/-- A lookup that always succeeds and keeps the names that it is asked for. -/
def noting (answer : List String → String → String) (name : String) :
    EStateM ε (List String) String :=
  fun seen => .ok (answer seen name) (seen ++ [name])

theorem answers_noting (answer : List String → String → String) (names seen : List String) :
    ∃ texts, Answers (ε := ε) (noting answer) names seen texts (seen ++ names) := by
  induction names generalizing seen with
  | nil => exact ⟨[], by rw [List.append_nil]; exact .nil _⟩
  | cons name names ih =>
    obtain ⟨texts, h⟩ := ih (seen ++ [name])
    rw [List.append_assoc] at h
    exact ⟨answer seen name :: texts, .cons rfl h⟩

theorem asked_noting {fault : Option (Nat × Fault)} {ps : List Piece}
    (answer : List String → String → String) (malformed : Nat → Fault → ε) (seen : List String) :
    (∃ out, (⟨ps, fault⟩ : Template).render (noting (ε := ε) answer)
        (fun p f => throw (malformed p f)) seen = .ok out (seen ++ asked ps)) ∨
      ∃ e, (⟨ps, fault⟩ : Template).render (noting (ε := ε) answer)
        (fun p f => throw (malformed p f)) seen = .error e (seen ++ asked ps) := by
  obtain ⟨texts, ha⟩ := answers_noting (ε := ε) answer (asked ps) seen
  have hpieces := renderPieces_eq_ok.2 ⟨texts, ha, rfl⟩
  rw [render]
  cases fault with
  | none => exact .inl ⟨_, run_bind_eq_ok.2 ⟨_, _, hpieces, rfl⟩⟩
  | some fault => exact .inr ⟨_, run_bind_eq_error.2 (.inr ⟨_, _, hpieces, rfl⟩)⟩

/-! ### The whole pass -/

theorem utf8ByteSize_eq (text : String) : text.utf8ByteSize = byteLength text.toList := by
  have hchars (cs : List Char) : (String.ofList cs).utf8ByteSize = byteLength cs := by
    induction cs with
    | nil => rfl
    | cons c cs ih =>
      have hcons : String.ofList (c :: cs) = String.singleton c ++ String.ofList cs := by
        rw [String.singleton_eq_ofList, ← String.ofList_append, List.singleton_append]
      rw [hcons, String.utf8ByteSize_append, String.utf8ByteSize_singleton, ih, byteLength_cons]
  simpa using hchars text.toList

namespace Consists

variable {text : String} {ps : List Piece} {fault : Option Fault}

theorem scan_interpolation (h : Consists text.toList ps fault) : scan .interpolation text =
    ⟨ps, fault.map fun f => (byteLength (sources ps), f)⟩ := by
  rw [scan, h.scan_eq]
  simp only [Nat.zero_add]

/-- Where a text goes wrong, an opening follows the pieces. -/
theorem exists_opening {f : Fault} (h : Consists text.toList ps (some f)) :
    ∃ before after : String, text = before ++ "$\x7b" ++ after ∧ before.toList = sources ps := by
  obtain ⟨ps', fault', h', rest, htext, -, hopens⟩ := exists_consists text.toList
  obtain ⟨rfl, rfl⟩ := h'.unique h
  obtain ⟨after, rfl⟩ := hopens (by simp)
  refine ⟨String.ofList (sources ps), String.ofList after, ?_, String.toList_ofList⟩
  rw [← String.toList_inj, htext]
  simp

variable {malformed : Nat → Fault → ε}

theorem render_eq_ok (h : Consists text.toList ps fault) {out : String} :
    (scan .interpolation text).render lookup (fun p f => throw (malformed p f)) s = .ok out s' ↔
      fault = none ∧ ∃ texts, Answers lookup (asked ps) s texts s' ∧ out = splice ps texts := by
  rw [h.scan_interpolation, render, run_bind_eq_ok]
  simp only [renderPieces_eq_ok]
  constructor
  · rintro ⟨text, r, ⟨texts, ha, rfl⟩, hout⟩
    cases fault with
    | none =>
      cases hout
      exact ⟨rfl, texts, ha, rfl⟩
    | some f => cases hout
  · rintro ⟨rfl, texts, ha, rfl⟩
    exact ⟨_, _, ⟨texts, ha, rfl⟩, rfl⟩

theorem render_eq_error (h : Consists text.toList ps fault) {e : ε} :
    (scan .interpolation text).render lookup (fun p f => throw (malformed p f)) s = .error e s' ↔
      Fails lookup (asked ps) s e s' ∨
      ∃ before after f texts, text = before ++ "$\x7b" ++ after ∧ before.toList = sources ps ∧
        fault = some f ∧ Answers lookup (asked ps) s texts s' ∧
        e = malformed before.utf8ByteSize f := by
  rw [h.scan_interpolation, render, run_bind_eq_error, renderPieces_eq_error]
  refine or_congr_right ?_
  simp only [renderPieces_eq_ok]
  constructor
  · rintro ⟨_, r, ⟨texts, ha, rfl⟩, hout⟩
    cases fault with
    | none => cases hout
    | some f =>
      obtain ⟨before, after, htext, hbefore⟩ := h.exists_opening
      rw [← hbefore, ← utf8ByteSize_eq] at hout
      cases hout
      exact ⟨before, after, f, texts, htext, hbefore, rfl, ha, rfl⟩
  · rintro ⟨before, after, f, texts, -, hbefore, rfl, ha, rfl⟩
    refine ⟨_, _, ⟨texts, ha, rfl⟩, ?_⟩
    rw [utf8ByteSize_eq, hbefore]
    rfl

end Consists

/-- Each text consists of pieces in one way. Rendering it asks for the names of its references in
order and gives the answers spliced in as they are. It fails as the first lookup that fails does,
or, all names being answered, at the byte where the opening stands that is no reference. Lookups
that always succeed are all asked for the same names. -/
theorem render_interpolation (text : String) : ∃ ps fault, Consists text.toList ps fault ∧
    (∀ ps' fault', Consists text.toList ps' fault' → ps' = ps ∧ fault' = fault) ∧
    (∀ (ε σ : Type) (lookup : String → EStateM ε σ String) (malformed : Nat → Fault → ε) (s s' : σ),
      (∀ out, (scan .interpolation text).render lookup (fun p f => throw (malformed p f)) s =
          .ok out s' ↔
        fault = none ∧ ∃ texts, Answers lookup (asked ps) s texts s' ∧ out = splice ps texts) ∧
      (∀ e, (scan .interpolation text).render lookup (fun p f => throw (malformed p f)) s =
          .error e s' ↔
        Fails lookup (asked ps) s e s' ∨
        ∃ before after f texts, text = before ++ "$\x7b" ++ after ∧ before.toList = sources ps ∧
          fault = some f ∧ Answers lookup (asked ps) s texts s' ∧
          e = malformed before.utf8ByteSize f)) ∧
    (∀ (ε : Type) (answer : List String → String → String) (malformed : Nat → Fault → ε),
      (∃ out, (scan .interpolation text).render (noting (ε := ε) answer)
          (fun p f => throw (malformed p f)) [] = .ok out (asked ps)) ∨
      ∃ e, (scan .interpolation text).render (noting (ε := ε) answer)
          (fun p f => throw (malformed p f)) [] = .error e (asked ps)) := by
  obtain ⟨ps, fault, h, -⟩ := exists_consists text.toList
  refine ⟨ps, fault, h, fun ps' fault' h' => h.unique h', ?_, ?_⟩
  · intro ε σ lookup malformed s s'
    exact ⟨fun out => h.render_eq_ok, fun e => h.render_eq_error⟩
  · intro ε answer malformed
    rw [h.scan_interpolation]
    exact asked_noting answer malformed []

end TypedConfig.Template
