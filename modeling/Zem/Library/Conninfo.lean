import Mathlib.Data.List.Nodup
import Mathlib.Data.List.Perm.Subperm
import Zem.Library.CString

/-!
# Connection strings of keyword/value pairs

The documented grammar of a conninfo string: pairs `keyword=value` apart by white space, blanks
allowed around the `=`, and a value that is bare up to white space or stands in single quotes; in
both a backslash takes the next character as it is.  A later pair overrides an earlier one with
the same keyword.

* `scan`, `parse` — the reader of such strings; `lookup` — what the pairs mean.
* `join` — pairs written one after the other, with nothing quoted.
* `weight_le` — a string is never shorter than the pairs read from it, written that way;
  `renders_of_tight` — if it is not longer either, it is those pairs written that way, with values
  that need no quotes.
* `parse_join_iff` — joined pairs mean what they are exactly if no value needs quotes.
-/

set_option autoImplicit false

namespace Conninfo

open CString

/-- A keyword and its value. -/
abbrev Pair := List UInt8 × List UInt8

def equals : UInt8 := 61
def quote : UInt8 := 39
def backslash : UInt8 := 92

/-! ## Reading -/

/-- Where the reader is, and what it has of the pair it is in. -/
inductive State where
  | between
  | keyword (k : List UInt8)
  | beforeEquals (k : List UInt8)
  | afterEquals (k : List UInt8)
  | bare (k v : List UInt8)
  | bareEscape (k v : List UInt8)
  | quoted (k v : List UInt8)
  | quotedEscape (k v : List UInt8)
  deriving DecidableEq, Repr

/-- The pairs of the rest of a string; `none` for a syntax error: no `=` behind a keyword, no
    keyword in front of it, a quote that is not closed. -/
def scan : State → List UInt8 → Option (List Pair)
  | .between, [] => some []
  | .between, c :: s =>
    if isSpace c then scan .between s
    else if c = equals then none
    else scan (.keyword [c]) s
  | .keyword _, [] => none
  | .keyword k, c :: s =>
    if c = equals then scan (.afterEquals k) s
    else if isSpace c then scan (.beforeEquals k) s
    else scan (.keyword (k ++ [c])) s
  | .beforeEquals _, [] => none
  | .beforeEquals k, c :: s =>
    if c = equals then scan (.afterEquals k) s
    else if isSpace c then scan (.beforeEquals k) s
    else none
  | .afterEquals k, [] => some [(k, [])]
  | .afterEquals k, c :: s =>
    if isSpace c then scan (.afterEquals k) s
    else if c = quote then scan (.quoted k []) s
    else if c = backslash then scan (.bareEscape k []) s
    else scan (.bare k [c]) s
  | .bare k v, [] => some [(k, v)]
  | .bare k v, c :: s =>
    if isSpace c then (scan .between s).map ((k, v) :: ·)
    else if c = backslash then scan (.bareEscape k v) s
    else scan (.bare k (v ++ [c])) s
  | .bareEscape k v, [] => some [(k, v)]
  | .bareEscape k v, c :: s => scan (.bare k (v ++ [c])) s
  | .quoted _ _, [] => none
  | .quoted k v, c :: s =>
    if c = quote then (scan .between s).map ((k, v) :: ·)
    else if c = backslash then scan (.quotedEscape k v) s
    else scan (.quoted k (v ++ [c])) s
  | .quotedEscape _ _, [] => none
  | .quotedEscape k v, c :: s => scan (.quoted k (v ++ [c])) s

/-- The pairs of a string, which the library takes as a C string. -/
def parse (text : List UInt8) : Option (List Pair) := scan .between (CString.ofText text).bytes

/-- The value of a keyword: that of its last pair. -/
def lookup : List Pair → List UInt8 → Option (List UInt8)
  | [], _ => none
  | (k, v) :: ps, k' => (lookup ps k').or (if k = k' then some v else none)

/-! ## Writing -/

/-- The pairs one after the other, with a blank between two of them. -/
def join : List Pair → List UInt8
  | [] => []
  | [(k, v)] => k ++ equals :: v
  | (k, v) :: p :: ps => k ++ equals :: (v ++ 32 :: join (p :: ps))

/-- A keyword as the reader takes it. -/
def IsKeyword (k : List UInt8) : Prop := k ≠ [] ∧ ∀ c ∈ k, isSpace c = false ∧ c ≠ equals

instance (k : List UInt8) : Decidable (IsKeyword k) :=
  decidable_of_iff (k ≠ [] ∧ k.all (fun c => isSpace c = false ∧ c ≠ equals) = true)
    (by simp [IsKeyword])

/-- A value that is read as it stands when it is not quoted. -/
def IsBare (v : List UInt8) : Prop :=
  (∀ c ∈ v, isSpace c = false ∧ c ≠ backslash) ∧ v.head? ≠ some quote

instance (v : List UInt8) : Decidable (IsBare v) :=
  decidable_of_iff
    (v.all (fun c => isSpace c = false ∧ c ≠ backslash) = true ∧ v.head? ≠ some quote)
    (by simp [IsBare])

/-- The text is the pairs, with bare values and one white space between two of them. -/
inductive Renders : List Pair → List UInt8 → Prop where
  | last {k v : List UInt8} (hk : IsKeyword k) (hv : IsBare v) :
    Renders [(k, v)] (k ++ equals :: v)
  | cons {k v s : List UInt8} {c : UInt8} {ps : List Pair} (hk : IsKeyword k) (hv : IsBare v)
    (hne : v ≠ []) (hc : isSpace c = true) (hps : Renders ps s) :
    Renders ((k, v) :: ps) (k ++ equals :: (v ++ c :: s))

theorem Renders.bare {ps : List Pair} {s : List UInt8} (h : Renders ps s) :
    ∀ p ∈ ps, IsBare p.2 := by
  induction h with
  | last hk hv =>
    intro p hp
    rw [List.mem_singleton.mp hp]
    exact hv
  | cons hk hv hne hc hps ih =>
    intro p hp
    rcases List.mem_cons.mp hp with rfl | hp
    · exact hv
    · exact ih p hp

theorem renders_join {ps : List Pair} (hnil : ps ≠ []) (hk : ∀ p ∈ ps, IsKeyword p.1)
    (hv : ∀ p ∈ ps, IsBare p.2) (hne : ∀ p ∈ ps, p.2 ≠ []) : Renders ps (join ps) := by
  induction ps with
  | nil => exact absurd rfl hnil
  | cons p ps ih =>
    have hk' := hk p (by simp)
    have hv' := hv p (by simp)
    cases ps with
    | nil => exact .last hk' hv'
    | cons q ps =>
      apply Renders.cons hk' hv' (hne p (by simp)) (by decide)
      exact ih (by simp) (fun p hp => hk p (by simp [hp])) (fun p hp => hv p (by simp [hp]))
        fun p hp => hne p (by simp [hp])

/-! ## What is written is read -/

theorem scan_keyword {k : List UInt8} (hk : ∀ c ∈ k, isSpace c = false ∧ c ≠ equals)
    (k₀ s : List UInt8) :
    scan (.keyword k₀) (k ++ equals :: s) = scan (.afterEquals (k₀ ++ k)) s := by
  induction k generalizing k₀ with
  | nil => simp [scan]
  | cons c k ih =>
    obtain ⟨hspace, heq⟩ := hk c (by simp)
    rw [List.cons_append, scan, if_neg heq, if_neg (ne_true_of_eq_false hspace),
      ih (fun c hc => hk c (by simp [hc])), List.append_assoc]
    rfl

theorem scan_bare {v : List UInt8} (hv : ∀ c ∈ v, isSpace c = false ∧ c ≠ backslash)
    (k v₀ s : List UInt8) : scan (.bare k v₀) (v ++ s) = scan (.bare k (v₀ ++ v)) s := by
  induction v generalizing v₀ with
  | nil => simp
  | cons c v ih =>
    obtain ⟨hspace, hback⟩ := hv c (by simp)
    rw [List.cons_append, scan, if_neg (ne_true_of_eq_false hspace), if_neg hback,
      ih (fun c hc => hv c (by simp [hc])), List.append_assoc]
    rfl

/-- The reader behind the `=`, at a bare value. -/
theorem scan_afterEquals {v : List UInt8} (hv : IsBare v) (hne : v ≠ []) (k s : List UInt8) :
    scan (.afterEquals k) (v ++ s) = scan (.bare k v) s := by
  obtain ⟨c, v, rfl⟩ := List.exists_cons_of_ne_nil hne
  obtain ⟨hspace, hback⟩ := hv.1 c (by simp)
  have hquote : c ≠ quote := fun h => hv.2 (by rw [h]; rfl)
  rw [List.cons_append, scan, if_neg (ne_true_of_eq_false hspace), if_neg hquote,
    if_neg hback, scan_bare fun c hc => hv.1 c (by simp [hc])]
  rfl

/-- The reader in front of a keyword. -/
theorem scan_between {k : List UInt8} (hk : IsKeyword k) (s : List UInt8) :
    scan .between (k ++ equals :: s) = scan (.afterEquals k) s := by
  obtain ⟨hne, hk⟩ := hk
  obtain ⟨c, k, rfl⟩ := List.exists_cons_of_ne_nil hne
  obtain ⟨hspace, heq⟩ := hk c (by simp)
  rw [List.cons_append, scan, if_neg (ne_true_of_eq_false hspace), if_neg heq,
    scan_keyword fun c hc => hk c (by simp [hc])]
  rfl

theorem scan_of_renders {ps : List Pair} {s : List UInt8} (h : Renders ps s) :
    scan .between s = some ps := by
  induction h with
  | last hk hv =>
    rename_i k v
    rw [scan_between hk]
    by_cases hne : v = []
    · rw [hne]
      rfl
    · rw [← List.append_nil v, scan_afterEquals hv hne, List.append_nil]
      rfl
  | cons hk hv hne hc hps ih =>
    rw [scan_between hk, scan_afterEquals hv hne, scan, if_pos hc, ih]
    rfl

/-! ## The weight of what is read -/

/-- The length of a pair written by `join`, with a blank behind it. -/
def weight (ps : List Pair) : Nat := (ps.map fun p => p.1.length + p.2.length + 2).sum

/-- What the reader has of a pair, written by `join`. -/
def State.held : State → List UInt8
  | .between => []
  | .keyword k | .beforeEquals k => k
  | .afterEquals k => k ++ [equals]
  | .bare k v | .bareEscape k v | .quoted k v | .quotedEscape k v => k ++ equals :: v

@[simp] theorem weight_nil : weight [] = 0 := rfl

@[simp] theorem weight_cons (p : Pair) (ps : List Pair) :
    weight (p :: ps) = p.1.length + p.2.length + 2 + weight ps := by
  simp [weight]

theorem weight_append (ps qs : List Pair) : weight (ps ++ qs) = weight ps + weight qs := by
  simp [weight]

theorem weight_perm {ps qs : List Pair} (h : ps.Perm qs) : weight ps = weight qs :=
  (h.map _).sum_nat

theorem weight_join {ps : List Pair} (hnil : ps ≠ []) : weight ps = (join ps).length + 1 := by
  induction ps with
  | nil => exact absurd rfl hnil
  | cons p ps ih =>
    cases ps with
    | nil =>
      simp [join]
      omega
    | cons q ps =>
      have := ih (by simp)
      simp only [weight_cons, join, List.length_append, List.length_cons] at this ⊢
      omega

/-- **Nothing is read twice**: the pairs read, written by `join`, are not longer than the text. -/
theorem weight_le {s : List UInt8} {st : State} {ps : List Pair} (h : scan st s = some ps) :
    weight ps ≤ st.held.length + s.length + 1 := by
  induction s generalizing st ps with
  | nil =>
    cases st with
    | between | afterEquals k | bare k v | bareEscape k v =>
      cases h
      simp [State.held]
      try omega
    | keyword k | beforeEquals k | quoted k v | quotedEscape k v => cases h
  | cons c s ih =>
    have hnext : ∀ st' : State, scan st' s = some ps → st'.held.length ≤ st.held.length + 1 →
        weight ps ≤ st.held.length + (c :: s).length + 1 := by
      intro st' h' hle
      have := ih h'
      rw [List.length_cons]
      omega
    -- a pair is complete, and the reader goes on behind it
    have hpair : ∀ k v : List UInt8, (scan .between s).map ((k, v) :: ·) = some ps →
        weight ps ≤ (k ++ equals :: v).length + (c :: s).length + 1 := by
      intro k v h
      obtain ⟨qs, hqs, rfl⟩ := Option.map_eq_some_iff.mp h
      have := ih hqs
      simp only [State.held, weight_cons, List.length_append, List.length_cons,
        List.length_nil] at this ⊢
      omega
    cases st with
    | between =>
      rw [scan] at h
      split at h
      · exact hnext _ h (by simp [State.held])
      split at h
      · cases h
      · exact hnext _ h (by simp [State.held])
    | keyword k =>
      rw [scan] at h
      split at h
      · exact hnext _ h (by simp [State.held])
      split at h
      · exact hnext _ h (by simp [State.held])
      · exact hnext _ h (by simp [State.held])
    | beforeEquals k =>
      rw [scan] at h
      split at h
      · exact hnext _ h (by simp [State.held])
      split at h
      · exact hnext _ h (by simp [State.held])
      · cases h
    | afterEquals k =>
      rw [scan] at h
      split at h
      · exact hnext _ h (by simp [State.held])
      split at h
      · exact hnext _ h (by simp [State.held])
      split at h
      · exact hnext _ h (by simp [State.held])
      · exact hnext _ h (by simp [State.held])
    | bare k v | quoted k v =>
      rw [scan] at h
      split at h
      · exact hpair k v h
      split at h
      · exact hnext _ h (by simp [State.held])
      · exact hnext _ h (by simp [State.held]; omega)
    | bareEscape k v | quotedEscape k v =>
      rw [scan] at h
      exact hnext _ h (by simp [State.held]; omega)

/-! ## Texts that are no longer than what is read from them -/

/-- Nothing of the pair is quoted or escaped so far. -/
def State.Plain : State → Prop
  | .between => True
  | .keyword k | .afterEquals k => IsKeyword k
  | .bare k v => IsKeyword k ∧ IsBare v ∧ v ≠ []
  | .beforeEquals _ | .bareEscape _ _ | .quoted _ _ | .quotedEscape _ _ => False

theorem IsKeyword.append {k : List UInt8} (h : IsKeyword k) {c : UInt8}
    (hspace : isSpace c = false) (hne : c ≠ equals) : IsKeyword (k ++ [c]) := by
  refine ⟨by simp, fun d hd => ?_⟩
  rcases List.mem_append.mp hd with hd | hd
  · exact h.2 d hd
  · rw [List.mem_singleton.mp hd]
    exact ⟨hspace, hne⟩

theorem IsBare.append {v : List UInt8} (h : IsBare v) (hne : v ≠ []) {c : UInt8}
    (hspace : isSpace c = false) (hback : c ≠ backslash) : IsBare (v ++ [c]) := by
  refine ⟨fun d hd => ?_, ?_⟩
  · rcases List.mem_append.mp hd with hd | hd
    · exact h.1 d hd
    · rw [List.mem_singleton.mp hd]
      exact ⟨hspace, hback⟩
  · rw [List.head?_append_of_ne_nil v hne]
    exact h.2

/-- **A text no longer than the pairs read from it** is those pairs, bare.  Every blank too many,
    every quote and every escape would have made the text longer. -/
theorem renders_of_tight {s : List UInt8} {st : State} {ps : List Pair}
    (h : scan st s = some ps) (hst : st.Plain)
    (hw : weight ps = st.held.length + s.length + 1) : Renders ps (st.held ++ s) := by
  induction s generalizing st ps with
  | nil =>
    cases st with
    | between =>
      cases h
      cases hw
    | keyword k => cases h
    | afterEquals k =>
      cases h
      rw [List.append_nil]
      exact .last hst ⟨fun c hc => (List.not_mem_nil hc).elim, by simp⟩
    | bare k v =>
      cases h
      rw [List.append_nil]
      exact .last hst.1 hst.2.1
    | beforeEquals k | bareEscape k v | quoted k v | quotedEscape k v => cases hst
  | cons c s ih =>
    -- a character that the pairs do not account for
    have hwaste : ∀ st' : State, st'.held.length = st.held.length →
        scan st' s ≠ some ps := by
      intro st' hlen h'
      have := weight_le h'
      rw [List.length_cons] at hw
      omega
    -- a character that goes to the pair in the making
    have hnext : ∀ st' : State, scan st' s = some ps → st'.Plain →
        st'.held = st.held ++ [c] → Renders ps (st.held ++ c :: s) := by
      intro st' h' hst' hheld
      have hr := ih h' hst' (by
        rw [hheld, List.length_append, List.length_singleton, hw, List.length_cons]
        omega)
      rwa [hheld, List.append_assoc] at hr
    cases st with
    | between =>
      rw [scan] at h
      split at h
      · exact absurd h (hwaste _ rfl)
      rename_i hspace
      rw [Bool.not_eq_true] at hspace
      split at h
      · cases h
      rename_i heq
      refine hnext _ h ⟨by simp, fun d hd => ?_⟩ rfl
      rw [List.mem_singleton.mp hd]
      exact ⟨hspace, heq⟩
    | keyword k =>
      rw [scan] at h
      split at h
      · rename_i heq
        exact hnext _ h hst (by rw [heq]; rfl)
      rename_i heq
      split at h
      · exact absurd h (hwaste _ rfl)
      rename_i hspace
      rw [Bool.not_eq_true] at hspace
      exact hnext _ h (hst.append hspace heq) rfl
    | afterEquals k =>
      rw [scan] at h
      split at h
      · exact absurd h (hwaste _ rfl)
      rename_i hspace
      rw [Bool.not_eq_true] at hspace
      split at h
      · exact absurd h (hwaste _ rfl)
      rename_i hquote
      split at h
      · exact absurd h (hwaste _ rfl)
      rename_i hback
      refine hnext _ h ⟨hst, ⟨fun d hd => ?_, ?_⟩, by simp⟩ (by simp [State.held])
      · rw [List.mem_singleton.mp hd]
        exact ⟨hspace, hback⟩
      · simpa using hquote
    | bare k v =>
      obtain ⟨hk, hv, hne⟩ := hst
      rw [scan] at h
      split at h
      · rename_i hspace
        obtain ⟨qs, hqs, rfl⟩ := Option.map_eq_some_iff.mp h
        have hrest := ih hqs trivial (by
          simp only [State.held, weight_cons, List.length_append, List.length_cons,
            List.length_nil] at hw ⊢
          omega)
        have hall := Renders.cons hk hv hne hspace hrest
        simpa [State.held] using hall
      rename_i hspace
      rw [Bool.not_eq_true] at hspace
      split at h
      · exact absurd h (hwaste _ rfl)
      rename_i hback
      exact hnext _ h ⟨hk, hv.append hne hspace hback, by simp⟩ (by simp [State.held])
    | beforeEquals k | bareEscape k v | quoted k v | quotedEscape k v => cases hst

/-- Keywords end at the first `=`. -/
theorem keyword_ext {k k' s s' : List UInt8} (hk : IsKeyword k) (hk' : IsKeyword k')
    (h : k ++ equals :: s = k' ++ equals :: s') : k = k' ∧ s = s' := by
  have htake : ∀ {k s : List UInt8}, IsKeyword k →
      (k ++ equals :: s).takeWhile (· != equals) = k := by
    intro k s hk
    rw [List.takeWhile_append_of_pos fun c hc => by simpa using (hk.2 c hc).2]
    simp
  have hkk : k = k' := by rw [← htake hk, h, htake hk']
  subst hkk
  exact ⟨rfl, List.cons_inj_right _ |>.mp (List.append_cancel_left h)⟩

/-- Bare pairs whose text is that of the same pairs joined are these pairs in their order. -/
theorem renders_join_unique {es : List Pair} :
    ∀ {ps : List Pair}, Renders ps (join es) → ps.Perm es → (es.map Prod.fst).Nodup →
      (∀ p ∈ es, IsKeyword p.1) → ps = es := by
  induction es with
  | nil => exact fun _ hperm _ _ => hperm.eq_nil
  | cons e es ih =>
    intro ps hr hperm hnodup hk
    obtain ⟨k, v⟩ := e
    obtain ⟨hnew, hnodup⟩ := List.nodup_cons.mp hnodup
    obtain ⟨rest, hjoin⟩ : ∃ rest, join ((k, v) :: es) = k ++ equals :: rest := by
      cases es with
      | nil => exact ⟨_, rfl⟩
      | cons e es => exact ⟨_, rfl⟩
    -- the first pair has the first keyword, and there is one pair only with that keyword
    have hfirst : ∀ {k' v' : List UInt8} {s : List UInt8} {qs : List Pair}, IsKeyword k' →
        (k', v') :: qs = ps → k' ++ equals :: s = k ++ equals :: rest →
        (k', v') = (k, v) ∧ s = rest := by
      intro k' v' s qs hk' hps h
      obtain ⟨rfl, hs⟩ := keyword_ext hk' (hk (k, v) (by simp)) h
      have hmem : (k', v') ∈ (k', v) :: es := hperm.mem_iff.mp (hps ▸ List.mem_cons_self)
      rcases List.mem_cons.mp hmem with heq | hmem
      · exact ⟨heq, hs⟩
      · exact absurd (List.mem_map_of_mem (f := Prod.fst) hmem) hnew
    generalize htext : join ((k, v) :: es) = text at hr
    rw [hjoin] at htext
    cases hr with
    | last hk' hv' =>
      obtain ⟨heq, _⟩ := hfirst hk' rfl htext.symm
      rw [heq] at hperm ⊢
      rw [(List.perm_cons _).mp hperm |>.symm.eq_nil]
    | cons hk' hv' hne hc hps =>
      rename_i k' v' s c qs
      obtain ⟨heq, hs⟩ := hfirst hk' rfl htext.symm
      cases heq
      have hperm := (List.perm_cons _).mp hperm
      cases es with
      | nil =>
        rw [hperm.eq_nil]
      | cons e es =>
        have hrest : rest = v ++ 32 :: join (e :: es) := by
          have : k ++ equals :: (v ++ 32 :: join (e :: es)) = k ++ equals :: rest := hjoin
          exact (List.cons_inj_right _ |>.mp (List.append_cancel_left this)).symm
        rw [hrest] at hs
        have hs := (List.cons.inj (List.append_cancel_left hs)).2
        rw [hs] at hps
        rw [ih hps hperm hnodup fun p hp => hk p (by simp [hp])]

/-! ## What joined pairs mean -/

theorem mem_of_lookup {ps : List Pair} {k v : List UInt8} (h : lookup ps k = some v) :
    (k, v) ∈ ps := by
  induction ps with
  | nil => cases h
  | cons p ps ih =>
    obtain ⟨k', v'⟩ := p
    rw [lookup] at h
    rcases Option.or_eq_some_iff.mp h with h | ⟨_, h⟩
    · exact List.mem_cons_of_mem _ (ih h)
    · split at h
      · rename_i heq
        cases h
        rw [heq]
        exact List.mem_cons_self
      · cases h

theorem lookup_of_mem {ps : List Pair} (hnodup : (ps.map Prod.fst).Nodup) {p : Pair}
    (hp : p ∈ ps) : lookup ps p.1 = some p.2 := by
  induction ps with
  | nil => cases hp
  | cons q ps ih =>
    obtain ⟨k, v⟩ := q
    obtain ⟨hnew, hnodup⟩ := List.nodup_cons.mp hnodup
    rw [lookup]
    rcases List.mem_cons.mp hp with rfl | hp
    · have hnone : lookup ps k = none := by
        cases hl : lookup ps k with
        | none => rfl
        | some w => exact absurd (List.mem_map_of_mem (f := Prod.fst) (mem_of_lookup hl)) hnew
      rw [hnone]
      simp
    · rw [ih hnodup hp]
      rfl

/-- Pairs that give the keywords of `es` their values are those of `es`, if they weigh no more. -/
theorem perm_of_lookup {es ps : List Pair} (hnodup : (es.map Prod.fst).Nodup)
    (hw : weight ps ≤ weight es) (h : ∀ p ∈ es, lookup ps p.1 = some p.2) : ps.Perm es := by
  have hsub : es.Subperm ps :=
    List.subperm_of_subset (hnodup.of_map) fun p hp => mem_of_lookup (h p hp)
  obtain ⟨es', hperm, hsub⟩ := hsub
  obtain ⟨extra, hextra⟩ := hsub.exists_perm_append
  have hall : ps.Perm (es ++ extra) := hextra.trans (hperm.append_right extra)
  have hsum := weight_perm hall
  rw [weight_append] at hsum
  cases extra with
  | nil => rwa [List.append_nil] at hall
  | cons p extra =>
    rw [weight_cons] at hsum
    omega

/-- The value can stand without quotes, in a C string. -/
def IsPlain (v : List UInt8) : Prop := IsBare v ∧ ∀ c ∈ v, c ≠ 0

instance (v : List UInt8) : Decidable (IsPlain v) :=
  decidable_of_iff (IsBare v ∧ v.all (fun c => c ≠ 0) = true) (by simp [IsPlain])

theorem mem_join_value {ps : List Pair} {p : Pair} (hp : p ∈ ps) {c : UInt8} (hc : c ∈ p.2) :
    c ∈ join ps := by
  induction ps with
  | nil => cases hp
  | cons q ps ih =>
    cases ps with
    | nil =>
      rw [List.mem_singleton.mp hp] at hc
      simp [join, hc]
    | cons r ps =>
      rcases List.mem_cons.mp hp with rfl | hp
      · simp [join, hc]
      · simp [join, ih hp]

theorem join_ne_null {ps : List Pair} (hk : ∀ p ∈ ps, ∀ c ∈ p.1, c ≠ 0)
    (hv : ∀ p ∈ ps, ∀ c ∈ p.2, c ≠ 0) : ∀ c ∈ join ps, c ≠ 0 := by
  induction ps with
  | nil => exact fun c hc => absurd hc List.not_mem_nil
  | cons p ps ih =>
    have hk' := hk p (by simp)
    have hv' := hv p (by simp)
    have hequals : equals ≠ 0 := by decide
    cases ps with
    | nil =>
      intro c hc
      simp only [join, List.mem_append, List.mem_cons] at hc
      rcases hc with hc | rfl | hc
      · exact hk' c hc
      · exact hequals
      · exact hv' c hc
    | cons q ps =>
      intro c hc
      simp only [join, List.mem_append, List.mem_cons] at hc
      rcases hc with hc | rfl | hc | rfl | hc
      · exact hk' c hc
      · exact hequals
      · exact hv' c hc
      · decide
      · exact ih (fun p hp => hk p (by simp [hp])) (fun p hp => hv p (by simp [hp])) c hc

theorem parse_join {es : List Pair} (hnil : es ≠ [])
    (hk : ∀ p ∈ es, IsKeyword p.1 ∧ ∀ c ∈ p.1, c ≠ 0) (hne : ∀ p ∈ es, p.2 ≠ [])
    (hv : ∀ p ∈ es, IsPlain p.2) : parse (join es) = some es := by
  have hcut : (ofText (join es)).bytes = join es :=
    ofText_of_ne_null (join_ne_null (fun p hp => (hk p hp).2) fun p hp => (hv p hp).2)
  rw [parse, hcut]
  exact scan_of_renders (renders_join hnil (fun p hp => (hk p hp).1) (fun p hp => (hv p hp).1) hne)

/-- **Joined pairs** mean what they are exactly if no value needs quotes: not one of the values
    that do can be made up for by the others. -/
theorem parse_join_iff {es : List Pair} (hnil : es ≠ [])
    (hk : ∀ p ∈ es, IsKeyword p.1 ∧ ∀ c ∈ p.1, c ≠ 0) (hne : ∀ p ∈ es, p.2 ≠ [])
    (hnodup : (es.map Prod.fst).Nodup) :
    (∃ ps, parse (join es) = some ps ∧ ∀ p ∈ es, lookup ps p.1 = some p.2) ↔
      ∀ p ∈ es, IsPlain p.2 := by
  constructor
  · rintro ⟨ps, hparse, hlookup⟩
    have hle : (ofText (join es)).bytes.length ≤ (join es).length :=
      (ofText_start (join es)).length_le
    have hweight : weight ps ≤ (ofText (join es)).bytes.length + 1 := by
      simpa [State.held] using weight_le hparse
    have hjoin := weight_join hnil
    have hperm := perm_of_lookup hnodup (by omega) hlookup
    have hsame := weight_perm hperm
    have hcut : (ofText (join es)).bytes = join es :=
      (ofText_start (join es)).eq_of_length_le (by omega)
    rw [parse, hcut] at hparse
    have hrenders : Renders ps (join es) :=
      renders_of_tight hparse trivial (by simp [State.held]; omega)
    have heq := renders_join_unique hrenders hperm hnodup fun p hp => (hk p hp).1
    intro p hp
    refine ⟨hrenders.bare p (heq ▸ hp), fun c hc => ?_⟩
    have hmem := mem_join_value hp hc
    rw [← hcut] at hmem
    exact (ofText (join es)).no_null c hmem
  · intro hv
    exact ⟨es, parse_join hnil hk hne hv, fun p hp => lookup_of_mem hnodup hp⟩

end Conninfo
