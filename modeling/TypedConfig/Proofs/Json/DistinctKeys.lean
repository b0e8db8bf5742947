import TypedConfig.Json.Reader

/-!
# Distinct keys in documents

In a document that is read from a text, no object has a key twice (`Json.distinctKeys_ofText`): an
entry goes into its object by `Entries.insert`, so that a key that comes again takes the place of the
earlier one.
-/

namespace TypedConfig

/-- No object in a document has a key twice. -/
inductive Json.DistinctKeys : Json → Prop
  | null : DistinctKeys .null
  | bool (b : Bool) : DistinctKeys (.bool b)
  | number (n : Json.Number) : DistinctKeys (.number n)
  | string (s : String) : DistinctKeys (.string s)
  | array {items : List Json} (hitems : ∀ j ∈ items, DistinctKeys j) : DistinctKeys (.array items)
  | object {entries : List (String × Json)} (hkeys : (entries.map Prod.fst).Nodup)
      (hentries : ∀ e ∈ entries, DistinctKeys e.2) : DistinctKeys (.object entries)

namespace Json

/-! ### Documents as given -/

attribute [simp] DistinctKeys.null DistinctKeys.bool DistinctKeys.number DistinctKeys.string

@[simp] theorem distinctKeys_array {items : List Json} :
    (array items).DistinctKeys ↔ ∀ j ∈ items, j.DistinctKeys := by
  refine ⟨fun h => ?_, .array⟩
  cases h with
  | array hitems => exact hitems

@[simp] theorem distinctKeys_object {entries : List (String × Json)} :
    (object entries).DistinctKeys ↔
      (entries.map Prod.fst).Nodup ∧ ∀ e ∈ entries, e.2.DistinctKeys := by
  refine ⟨fun h => ?_, fun h => .object h.1 h.2⟩
  cases h with
  | object hkeys hentries => exact ⟨hkeys, hentries⟩

/-! ### Documents that are read -/

theorem DistinctKeys.insert {key : String} {value : Json} {entries : List (String × Json)}
    (h : DistinctKeys (.object entries)) (hv : DistinctKeys value) :
    DistinctKeys (.object (Entries.insert key value entries)) := by
  cases h with
  | object hkeys hentries =>
    refine .object (Entries.nodup_insert hkeys) fun e he => ?_
    rcases Entries.mem_insert he with rfl | he
    · exact hv
    · exact hentries e he

/-- A token with a document in it holds one with distinct keys. -/
def Token.DistinctKeys : Token → Prop
  | scalar j => j.DistinctKeys
  | _ => True

theorem distinctKeys_readToken {cs rest : List Char} {t : Token}
    (h : readToken cs = some (t, rest)) : t.DistinctKeys := by
  unfold readToken at h
  split at h <;> simp only [Option.some.injEq, Prod.mk.injEq, Option.map_eq_some_iff] at h
  case h_11 =>
    obtain ⟨⟨n, rest'⟩, -, rfl, -⟩ := h
    exact .number n
  case h_7 =>
    obtain ⟨⟨s, rest'⟩, -, rfl, -⟩ := h
    trivial
  all_goals obtain ⟨rfl, -⟩ := h
  case h_8 => exact .null
  case h_9 | h_10 => exact .bool _
  all_goals trivial

theorem distinctKeys_tokens {rounds : Nat} {cs : List Char} {done ts : List Token}
    (hdone : ∀ t ∈ done, t.DistinctKeys) (h : tokens?.go rounds cs done = some ts) :
    ∀ t ∈ ts, t.DistinctKeys := by
  induction rounds generalizing cs done with
  | zero =>
    unfold tokens?.go at h
    split at h
    · cases h; simpa using hdone
    · cases h
    · contradiction
  | succ rounds ih =>
    unfold tokens?.go at h
    split at h
    · cases h; simpa using hdone
    · contradiction
    · next hr _ =>
      cases hr
      split at h
      · next t rest ht =>
        refine ih (fun t' ht' => ?_) h
        rcases List.mem_cons.1 ht' with rfl | ht'
        · exact distinctKeys_readToken ht
        · exact hdone t' ht'
      · cases h

/-- What an open container holds has distinct keys. -/
def Frame.DistinctKeys : Frame → Prop
  | array reversed => ∀ j ∈ reversed, j.DistinctKeys
  | object entries => (Json.object entries).DistinctKeys
  | entry entries _ => (Json.object entries).DistinctKeys

namespace Reading

/-- What has been read has distinct keys. -/
def DistinctKeys : Reading → Prop
  | value stack | valueOrEnd stack | separator stack | key stack | keyOrEnd stack | colon stack =>
    ∀ f ∈ stack, f.DistinctKeys
  | complete j => j.DistinctKeys

theorem distinctKeys_put {j : Json} {stack : List Frame} {r : Reading} (hj : j.DistinctKeys)
    (hs : ∀ f ∈ stack, f.DistinctKeys) (h : put j stack = some r) : r.DistinctKeys := by
  cases stack with
  | nil => cases h; exact hj
  | cons frame stack =>
    obtain ⟨hframe, hstack⟩ := List.forall_mem_cons.1 hs
    cases frame with
    | array items =>
      cases h
      exact List.forall_mem_cons.2 ⟨List.forall_mem_cons.2 ⟨hj, hframe⟩, hstack⟩
    | entry entries k =>
      cases h
      have hentries : (Json.object entries).DistinctKeys := hframe
      exact List.forall_mem_cons.2 ⟨hentries.insert hj, hstack⟩
    | object => cases h

theorem distinctKeys_takeValue {maxDepth : Nat} {stack : List Frame} {t : Token} {r : Reading}
    (ht : t.DistinctKeys) (hs : ∀ f ∈ stack, f.DistinctKeys)
    (h : takeValue maxDepth stack t = some r) : r.DistinctKeys := by
  cases t with
  | scalar j => exact distinctKeys_put ht hs h
  | text s => exact distinctKeys_put (.string s) hs h
  | arrayStart =>
    obtain ⟨-, h⟩ := Option.ite_none_right_eq_some.1 h
    cases h
    exact List.forall_mem_cons.2 ⟨by simp [Frame.DistinctKeys], hs⟩
  | objectStart =>
    obtain ⟨-, h⟩ := Option.ite_none_right_eq_some.1 h
    cases h
    exact List.forall_mem_cons.2 ⟨.object (by simp) (by simp), hs⟩
  | _ => cases h

theorem distinctKeys_close {stack : List Frame} {t : Token} {r : Reading}
    (hs : ∀ f ∈ stack, f.DistinctKeys) (h : close stack t = some r) : r.DistinctKeys := by
  unfold close at h
  split at h
  · next items stack =>
    have hitems : ∀ j ∈ items, j.DistinctKeys := hs _ (List.mem_cons_self ..)
    exact distinctKeys_put (.array (by simpa using hitems))
      (fun f hf => hs f (List.mem_cons_of_mem _ hf)) h
  · next entries stack =>
    have hentries : (Json.object entries).DistinctKeys := hs _ (List.mem_cons_self ..)
    exact distinctKeys_put hentries (fun f hf => hs f (List.mem_cons_of_mem _ hf)) h
  · cases h

theorem distinctKeys_takeKey {stack : List Frame} {t : Token} {r : Reading}
    (hs : ∀ f ∈ stack, f.DistinctKeys) (h : takeKey stack t = some r) : r.DistinctKeys := by
  unfold takeKey at h
  split at h
  · cases h
    exact List.forall_mem_cons.2 ⟨hs (.object _) (List.mem_cons_self ..),
      fun f hf => hs f (List.mem_cons_of_mem _ hf)⟩
  · cases h

theorem distinctKeys_step {maxDepth : Nat} {r r' : Reading} {t : Token} (hr : r.DistinctKeys)
    (ht : t.DistinctKeys) (h : step maxDepth r t = some r') : r'.DistinctKeys := by
  unfold step at h
  split at h
  · exact distinctKeys_takeValue ht hr h
  · rcases Option.or_eq_some_iff.1 ((Option.orElse_eq_or ..).symm.trans h) with h | ⟨-, h⟩
    · exact distinctKeys_close hr h
    · exact distinctKeys_takeValue ht hr h
  · rcases Option.or_eq_some_iff.1 ((Option.orElse_eq_or ..).symm.trans h) with h | ⟨-, h⟩
    · exact distinctKeys_close hr h
    · exact distinctKeys_takeKey hr h
  · exact distinctKeys_takeKey hr h
  · cases h; exact hr
  · cases h; exact hr
  · cases h; exact hr
  · exact distinctKeys_close hr h
  · cases h

end Reading

/-- A document that is read from a text has distinct keys. -/
theorem distinctKeys_ofText {maxDepth : Nat} {cs : List Char} {j : Json}
    (h : ofText? maxDepth cs = some j) : j.DistinctKeys := by
  obtain ⟨ts, hts, h⟩ := Option.bind_eq_some_iff.1 h
  obtain ⟨r, hr, h⟩ := Option.bind_eq_some_iff.1 h
  have hts := distinctKeys_tokens (by simp) hts
  have run : ∀ {ts : List Token} {r r' : Reading}, (∀ t ∈ ts, t.DistinctKeys) → r.DistinctKeys →
      ts.foldlM (Reading.step maxDepth) r = some r' → r'.DistinctKeys := by
    intro ts
    induction ts with
    | nil => intro r r' _ hr h; cases h; exact hr
    | cons t ts ih =>
      intro r r' hts hr h
      obtain ⟨r₁, h₁, h⟩ := Option.bind_eq_some_iff.1 h
      exact ih (fun t ht => hts t (List.mem_cons_of_mem _ ht))
        (Reading.distinctKeys_step hr (hts t (List.mem_cons_self ..)) h₁) h
  have hr := run hts (by simp [Reading.DistinctKeys]) hr
  split at h
  · cases h; exact hr
  · cases h

end Json
end TypedConfig
