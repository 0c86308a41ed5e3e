import Reckoner.Proofs.Infix.Obstacle
import Reckoner.Proofs.Infix.WellFormed

/-!
# Where tokens are put out

Equal operators cannot be told apart in a postfix list, but their places in the infix list can. A
marked reordering carries them along (`exists_runs`). All that is put out or held, in the order in which
it would go out now, is its line: what has been put out, then what is held from the top. Letting go of an
operator moves it along the line without changing it, and every token that is read is put into the line
behind all operands (`Step.line_eq`), so that operands keep their order and no operator overtakes one
(`Arranged`). What is read between two parentheses that match is worked off as if nothing were held
below, so that it is put out in one piece (`Runs.group`).
-/

namespace Reckoner

/-- Is the token an operator, binary or a function? -/
def Token.isOperator : Token → Bool
  | .operator _ => true
  | _ => false

/-- Do the places hold parentheses that match, the opening one first? -/
structure Infix.Encloses (ts : List Token) (i j : Nat) : Prop where
  lt : i < j
  opens : ts[i]? = some .openParen
  closes : ts[j]? = some .closeParen
  matched : depthAfter 0 ((ts.take j).drop (i + 1)) = some 0

namespace Reordering

/-- A reordering in which every token comes with its place. -/
structure Marked where
  output : List (Token × Nat)
  held : List (Held × Nat)

def markedToken? (h : Held × Nat) : Option (Token × Nat) := h.1.token?.map (·, h.2)

namespace Marked

open Infix (depthAfter depthAfter_cons depthAfter_cons_of_ne)

variable {m m' m₁ base g : Marked} {p : Token × Nat} {ps : List (Token × Nat)}

def plain (m : Marked) : Reordering := ⟨m.output.map Prod.fst, m.held.map Prod.fst⟩

/-- Everything put out or held, in the order in which it would go out. -/
def line (m : Marked) : List (Token × Nat) := m.output.reverse ++ m.held.filterMap markedToken?

def start : Marked := ⟨[], []⟩

/-! ## Runs with places -/

/-- Held operators go out from the top. -/
inductive Frees : Marked → Marked → Prop
  | none (m : Marked) : Frees m m
  | one {op : Operator} {i : Nat} {out : List (Token × Nat)} {held : List (Held × Nat)} {m' : Marked} :
    Frees ⟨(.operator op, i) :: out, held⟩ m' → Frees ⟨out, (.operator op, i) :: held⟩ m'

/-- What a token does, with its place. -/
inductive Step : Marked → Token × Nat → Marked → Prop
  | operand {m : Marked} {x : Operand} {i : Nat} : Step m (.operand x, i) ⟨(.operand x, i) :: m.output, m.held⟩
  | operator {m m' : Marked} {op : Operator} {i : Nat} :
    Frees m m' → Step m (.operator op, i) ⟨m'.output, (.operator op, i) :: m'.held⟩
  | openParen {m : Marked} {i : Nat} : Step m (.openParen, i) ⟨m.output, (.openParen, i) :: m.held⟩
  | separator {m m' : Marked} {i : Nat} : Frees m m' → Step m (.separator, i) m'
  | closeParen {m m' : Marked} {i j : Nat} {out : List (Token × Nat)} {held : List (Held × Nat)} :
    Frees m ⟨out, (.openParen, j) :: held⟩ → Frees ⟨out, held⟩ m' → Step m (.closeParen, i) m'

inductive Runs : Marked → List (Token × Nat) → Marked → Prop
  | nil (m : Marked) : Runs m [] m
  | cons {m m₁ m' : Marked} {p : Token × Nat} {ps : List (Token × Nat)} :
    Step m p m₁ → Runs m₁ ps m' → Runs m (p :: ps) m'

theorem exists_releaseAbove (n : Nat) (m : Marked) :
    ∃ m', Frees m m' ∧ m'.plain = releaseAbove n m.plain.output m.plain.held := by
  obtain ⟨out, held⟩ := m
  induction held generalizing out with
  | nil => exact ⟨_, .none _, rfl⟩
  | cons h held ih =>
    obtain ⟨op | _, i⟩ := h
    · by_cases hlt : n < op.priority.level
      · obtain ⟨m', hfrees, hplain⟩ := ih ((.operator op, i) :: out)
        exact ⟨m', .one hfrees, by simpa [plain, releaseAbove, hlt] using hplain⟩
      · exact ⟨_, .none _, by simp [plain, releaseAbove, hlt]⟩
    · exact ⟨_, .none _, rfl⟩

theorem exists_releaseAll (m : Marked) : ∃ m', Frees m m' ∧ m'.plain = releaseAll m.plain.output m.plain.held := by
  obtain ⟨out, held⟩ := m
  induction held generalizing out with
  | nil => exact ⟨_, .none _, rfl⟩
  | cons h held ih =>
    obtain ⟨op | _, i⟩ := h
    · obtain ⟨m', hfrees, hplain⟩ := ih ((.operator op, i) :: out)
      exact ⟨m', .one hfrees, hplain⟩
    · exact ⟨_, .none _, rfl⟩

theorem exists_releaseFunction (m : Marked) : ∃ m', Frees m m' ∧ m'.plain = releaseFunction m.plain := by
  obtain ⟨out, _ | ⟨⟨op | _, i⟩, held⟩⟩ := m
  · exact ⟨_, .none _, rfl⟩
  · cases op with
    | binary op => exact ⟨_, .none _, rfl⟩
    | function f => exact ⟨_, .one (.none _), rfl⟩
  · exact ⟨_, .none _, rfl⟩

/-- A parenthesis on top is held with its place. -/
theorem exists_openParen {held : List Held} (h : m.plain.held = .openParen :: held) :
    ∃ j rest, m.held = (.openParen, j) :: rest ∧ rest.map Prod.fst = held := by
  obtain ⟨⟨_, j⟩, rest, e, rfl, hrest⟩ := List.map_eq_cons_iff.1 h
  exact ⟨j, rest, e, hrest⟩

/-- Every step of a reordering can be taken with places. -/
theorem exists_step {t : Token} {r : Reordering} (h : m.plain.step t = .ok r) (i : Nat) :
    ∃ m', Step m (t, i) m' ∧ m'.plain = r := by
  cases t with
  | operand x => cases h; exact ⟨_, .operand, rfl⟩
  | operator op =>
    cases h
    cases op with
    | function f => exact ⟨_, .operator (.none m), rfl⟩
    | binary op =>
      obtain ⟨m', hfrees, hplain⟩ := exists_releaseAbove (Operator.binary op).priority.level m
      refine ⟨_, .operator hfrees, ?_⟩
      show (⟨m'.plain.output, .operator (.binary op) :: m'.plain.held⟩ : Reordering) = _
      rw [hplain]
      rfl
  | openParen => cases h; exact ⟨_, .openParen, rfl⟩
  | separator =>
    obtain ⟨m', hfrees, hplain⟩ := exists_releaseAll m
    simp only [Reordering.step] at h
    split at h <;> cases h
    exact ⟨m', .separator hfrees, hplain⟩
  | closeParen =>
    obtain ⟨⟨out, held⟩, hfrees, hplain⟩ := exists_releaseAll m
    simp only [Reordering.step, ← hplain] at h
    rcases held_releaseAll m.plain.output m.plain.held with e | ⟨rest, e⟩ <;> rw [← hplain] at e <;> rw [e] at h <;>
      cases h
    obtain ⟨j, rest, rfl, rfl⟩ := exists_openParen e
    obtain ⟨m', hfunction, hplain'⟩ := exists_releaseFunction ⟨out, rest⟩
    exact ⟨m', .closeParen hfrees hfunction, hplain'⟩
  | unknown => cases h

theorem exists_runs {r : Reordering} (h : m.plain.steps (ps.map Prod.fst) = .ok r) :
    ∃ m', Runs m ps m' ∧ m'.plain = r := by
  induction ps generalizing m with
  | nil => cases h; exact ⟨m, .nil m, rfl⟩
  | cons p ps ih =>
    rw [List.map_cons, steps_cons] at h
    obtain ⟨r₁, ht, h⟩ := bind_eq_ok h
    obtain ⟨m₁, hstep, rfl⟩ := exists_step ht p.2
    obtain ⟨m', hruns, hplain⟩ := ih h
    exact ⟨m', .cons hstep hruns, hplain⟩

theorem Runs.of_append {qs : List (Token × Nat)} (h : Runs m (ps ++ qs) m') :
    ∃ m₁, Runs m ps m₁ ∧ Runs m₁ qs m' := by
  induction ps generalizing m with
  | nil => exact ⟨m, .nil m, h⟩
  | cons p ps ih =>
    cases h with
    | cons hstep hruns =>
      obtain ⟨m₂, hps, hqs⟩ := ih hruns
      exact ⟨m₂, .cons hstep hps, hqs⟩

/-! ## The line -/

theorem Frees.line_eq (h : Frees m m') : m'.line = m.line := by
  induction h with
  | none m => rfl
  | one h ih => simpa [line, markedToken?, Held.token?] using ih

/-- Nothing that is held is an operand. -/
theorem not_isOperand_of_held {held : List (Held × Nat)} {q : Token × Nat} (h : q ∈ held.filterMap markedToken?) :
    q.1.isOperand = false := by
  obtain ⟨⟨op | _, i⟩, -, hq⟩ := List.mem_filterMap.1 h
  · cases hq; rfl
  · cases hq

/-- A token that is read is put into the line, if it is an operand or an operator, and no operand comes
after it. -/
theorem Step.line_eq (h : Step m p m') :
    ∃ l r, m.line = l ++ r ∧ m'.line = l ++ ([p].filter (·.1.isKept) ++ r) ∧ ∀ q ∈ r, q.1.isOperand = false := by
  cases h with
  | operand => exact ⟨m.output.reverse, _, rfl, by simp [line, Token.isKept], fun _ => not_isOperand_of_held⟩
  | @operator m₁ op i hfrees =>
    refine ⟨m₁.output.reverse, _, hfrees.line_eq.symm, ?_, fun _ => not_isOperand_of_held⟩
    simp [line, Token.isKept, markedToken?, Held.token?]
  | openParen => exact ⟨m.output.reverse, _, rfl, rfl, fun _ => not_isOperand_of_held⟩
  | separator hfrees => exact ⟨m'.output.reverse, _, hfrees.line_eq.symm, rfl, fun _ => not_isOperand_of_held⟩
  | @closeParen _ _ j out held hfrees hfrees' =>
    -- the parenthesis that goes is not in the line
    have hparen : line ⟨out, (.openParen, j) :: held⟩ = line ⟨out, held⟩ := rfl
    refine ⟨m'.output.reverse, _, ?_, rfl, fun _ => not_isOperand_of_held⟩
    rw [← hfrees.line_eq, hparen, ← hfrees'.line_eq]
    rfl

/-- Tokens with places, put into a line after they have been read in another order: none is lost or put in
twice, operands keep their order, and whatever comes before an operand was read before it. -/
structure Arranged (read line : List (Token × Nat)) : Prop where
  perm : line.Perm (read.filter (·.1.isKept))
  operands : line.filter (·.1.isOperand) = read.filter (·.1.isOperand)
  early : line.Pairwise fun p q => q.1.isOperand = true → p.2 < q.2

theorem Arranged.step {read : List (Token × Nat)} (h : Arranged read m.line) (hs : Step m p m')
    (hp : ∀ q ∈ read, q.2 < p.2) : Arranged (read ++ [p]) m'.line := by
  obtain ⟨l, r, hm, hm', hr⟩ := hs.line_eq
  obtain ⟨hperm, hoperands, hearly⟩ := h
  rw [hm] at hperm hoperands hearly
  have hread : ∀ q ∈ l ++ r, q ∈ read := fun q hq => (List.mem_filter.1 (hperm.subset hq)).1
  obtain ⟨hl, hr₂, hlr⟩ := List.pairwise_append.1 hearly
  have hmem : ∀ q ∈ [p].filter (·.1.isKept), q = p := fun q hq => List.mem_singleton.1 (List.mem_filter.1 hq).1
  rw [hm']
  refine ⟨?_, ?_, ?_⟩
  · rw [List.filter_append]
    exact ((List.perm_append_comm.append_left l).trans (by rw [← List.append_assoc])).trans (hperm.append_right _)
  · have hr₀ : r.filter (·.1.isOperand) = [] := List.filter_eq_nil_iff.2 fun q hq => by simp [hr q hq]
    have hp₀ : ([p].filter (·.1.isKept)).filter (·.1.isOperand) = [p].filter (·.1.isOperand) := by
      rw [List.filter_filter]
      refine List.filter_congr fun q _ => ?_
      obtain ⟨_ | _ | _ | _ | _ | _, i⟩ := q <;> rfl
    rw [List.filter_append, hr₀, List.append_nil] at hoperands
    rw [List.filter_append, List.filter_append, hr₀, List.append_nil, hp₀, hoperands, List.filter_append]
  · refine List.pairwise_append.2 ⟨hl, List.pairwise_append.2 ⟨?_, hr₂, ?_⟩, ?_⟩
    · exact (List.pairwise_singleton _ p).filter _
    · intro q _ q' hq' hoperand
      rw [hr q' hq'] at hoperand
      cases hoperand
    · intro q hq q' hq' hoperand
      rcases List.mem_append.1 hq' with hq' | hq'
      · rw [hmem q' hq']
        exact hp q (hread q (by simp [hq]))
      · exact hlr q hq q' hq' hoperand

theorem Arranged.runs {read : List (Token × Nat)} (h : Arranged read m.line) (hs : Runs m ps m')
    (hp : (read ++ ps).Pairwise (·.2 < ·.2)) : Arranged (read ++ ps) m'.line := by
  induction hs generalizing read with
  | nil m => rwa [List.append_nil]
  | @cons m m₁ m' p ps hstep hruns ih =>
    rw [List.append_cons] at hp ⊢
    have hlast := (List.pairwise_append.1 (List.pairwise_append.1 hp).1).2.2
    exact ih (h.step hstep fun q hq => hlast q hq p (by simp)) hp

/-! ## Between two parentheses -/

/-- What is put out stays. -/
theorem Frees.output_suffix (h : Frees m m') : m.output <:+ m'.output := by
  induction h with
  | none m => exact List.suffix_refl _
  | one h ih => exact (List.suffix_cons _ _).trans ih

theorem Step.output_suffix (h : Step m p m') : m.output <:+ m'.output := by
  cases h with
  | operand => exact List.suffix_cons _ _
  | operator h => exact h.output_suffix
  | openParen => exact List.suffix_refl _
  | separator h => exact h.output_suffix
  | closeParen h h' => exact h.output_suffix.trans h'.output_suffix

theorem Runs.output_suffix (h : Runs m ps m') : m.output <:+ m'.output := by
  induction h with
  | nil m => exact List.suffix_refl _
  | cons h _ ih => exact h.output_suffix.trans ih

/-- The state with another one below it. -/
def onto (g base : Marked) : Marked := ⟨g.output ++ base.output, g.held ++ base.held⟩

def openCount (m : Marked) : Nat := Reordering.openCount m.plain.held

theorem Frees.openCount_eq (h : Frees m m') : m'.openCount = m.openCount := by
  induction h with
  | none m => rfl
  | one h ih => rw [ih]; exact (openCount_operator _ _).symm

/-- Letting go of operators does not reach below a parenthesis. -/
theorem Frees.of_onto {j : Nat} {below : List (Held × Nat)} (hbase : base.held = (.openParen, j) :: below)
    (h : Frees (g.onto base) m') : ∃ g', m' = g'.onto base ∧ Frees g g' := by
  generalize hm : g.onto base = m at h
  induction h generalizing g with
  | none m => exact ⟨g, hm.symm, .none g⟩
  | @one op i out held m' h ih =>
    obtain ⟨gout, gheld⟩ := g
    simp only [onto, hbase, mk.injEq] at hm
    obtain ⟨hout, hheld⟩ := hm
    cases gheld with
    | nil => simp at hheld
    | cons t gheld =>
      obtain ⟨rfl, hbelow⟩ := List.cons.inj hheld
      have hrest : onto ⟨(.operator op, i) :: gout, gheld⟩ base = ⟨(.operator op, i) :: out, held⟩ := by
        rw [onto, hbase, List.cons_append, hout]
        exact congrArg _ hbelow
      obtain ⟨g', hg', hfrees⟩ := ih hrest
      exact ⟨g', hg', .one hfrees⟩

/-- A token that does not close the parenthesis below works as if nothing were held there. -/
theorem Step.of_onto {j d : Nat} {below : List (Held × Nat)} (hbase : base.held = (.openParen, j) :: below)
    (h : Step (g.onto base) p m') (hd : depthAfter g.openCount [p.1] = some d) :
    ∃ g', m' = g'.onto base ∧ Step g p g' ∧ g'.openCount = d := by
  cases h with
  | operand =>
    rw [depthAfter_cons_of_ne (by simp) (by simp)] at hd
    cases hd
    exact ⟨_, rfl, .operand, rfl⟩
  | operator h =>
    rw [depthAfter_cons_of_ne (by simp) (by simp)] at hd
    cases hd
    obtain ⟨g₁, rfl, hfrees⟩ := h.of_onto hbase
    exact ⟨_, rfl, .operator hfrees, (openCount_operator _ _).trans hfrees.openCount_eq⟩
  | openParen =>
    cases hd
    exact ⟨_, rfl, .openParen, openCount_openParen _⟩
  | separator h =>
    rw [depthAfter_cons_of_ne (by simp) (by simp)] at hd
    cases hd
    obtain ⟨g₁, rfl, hfrees⟩ := h.of_onto hbase
    exact ⟨g₁, rfl, .separator hfrees, hfrees.openCount_eq⟩
  | @closeParen _ _ j out held h h' =>
    obtain ⟨⟨out₁, held₁⟩, hg₁, hfrees⟩ := h.of_onto hbase
    have hcount := hfrees.openCount_eq
    cases held₁ with
    | nil =>
      -- the parenthesis below would close
      rw [← hcount] at hd
      cases hd
    | cons t held₁ =>
      simp only [onto, List.cons_append, mk.injEq, List.cons.injEq] at hg₁
      obtain ⟨rfl, rfl, rfl⟩ := hg₁
      obtain ⟨g', rfl, hfrees'⟩ := Frees.of_onto (g := ⟨out₁, held₁⟩) hbase h'
      refine ⟨g', rfl, .closeParen hfrees hfrees', ?_⟩
      have hcount' : g.openCount = openCount ⟨out₁, held₁⟩ + 1 := hcount.symm.trans (openCount_openParen _)
      rw [hcount'] at hd
      cases hd
      exact hfrees'.openCount_eq

theorem Runs.of_onto {j d : Nat} {below : List (Held × Nat)} (hbase : base.held = (.openParen, j) :: below)
    (h : Runs (g.onto base) ps m') (hd : depthAfter g.openCount (ps.map Prod.fst) = some d) :
    ∃ g', m' = g'.onto base ∧ Runs g ps g' ∧ g'.openCount = d := by
  induction ps generalizing g with
  | nil =>
    cases h
    cases hd
    exact ⟨g, rfl, .nil g, rfl⟩
  | cons p ps ih =>
    cases h with
    | cons hstep hruns =>
      rw [List.map_cons, depthAfter_cons] at hd
      obtain ⟨d₁, hd₁, hd⟩ := Option.bind_eq_some_iff.1 hd
      obtain ⟨g₁, rfl, hstep', rfl⟩ := hstep.of_onto hbase hd₁
      obtain ⟨g', rfl, hruns', rfl⟩ := ih hruns hd
      exact ⟨g', rfl, .cons hstep' hruns', rfl⟩

/-- What is read between two parentheses that match goes out in one piece, in the order of a line of its
own, as soon as the second one is read. -/
theorem Runs.group {i j : Nat} (hd : depthAfter 0 (ps.map Prod.fst) = some 0)
    (h : Runs m ((.openParen, i) :: (ps ++ [(.closeParen, j)])) m') :
    ∃ g, Runs start ps g ∧ g.line.reverse ++ m.output <:+ m'.output := by
  cases h with
  | @cons _ m₁ _ _ _ hopen hruns =>
  cases hopen
  have hbase : (⟨m.output, (.openParen, i) :: m.held⟩ : Marked).held = (.openParen, i) :: m.held := rfl
  obtain ⟨m₂, hps, hclose⟩ := hruns.of_append
  obtain ⟨g, rfl, hg, hcount⟩ := Runs.of_onto (g := start) hbase hps hd
  cases hclose with
  | cons hclose hnil =>
  cases hnil
  cases hclose with
  | closeParen hfrees hfrees' =>
  obtain ⟨⟨out₁, held₁⟩, hg₁, hfrees₁⟩ := hfrees.of_onto hbase
  have hcount₁ := hfrees₁.openCount_eq.trans hcount
  have hline := hfrees₁.line_eq
  cases held₁ with
  | cons t held₁ =>
    -- a parenthesis of its own would be open
    simp only [onto, List.cons_append, mk.injEq, List.cons.injEq] at hg₁
    obtain ⟨-, rfl, -⟩ := hg₁
    exact absurd ((openCount_openParen _).symm.trans hcount₁) (Nat.succ_ne_zero _)
  | nil =>
    simp only [onto, List.nil_append, mk.injEq, List.cons.injEq] at hg₁
    obtain ⟨rfl, -, rfl⟩ := hg₁
    refine ⟨g, hg, ?_⟩
    have hout : g.line.reverse = out₁ := by
      rw [← hline]
      simp [line]
    rw [hout]
    exact hfrees'.output_suffix

end Marked
end Reordering

open Reordering Infix

/-! ## The arrangement of a postfix list -/

/-- The places of a list are in order. -/
theorem pairwise_zipIdx (ts : List Token) : ts.zipIdx.Pairwise (·.2 < ·.2) := by
  rw [← List.pairwise_map, List.zipIdx_map_snd]
  exact List.pairwise_lt_range' ..

/-- A list that has a postfix list is worked off with places, and what is put out in the end is arranged. -/
theorem exists_marked {ts ps : List Token} (h : toPostfix ts = .ok ps) :
    ∃ (m : Marked) (qs : List (Token × Nat)), Marked.Runs .start ts.zipIdx m ∧ Marked.Frees m ⟨qs.reverse, []⟩ ∧
      qs.map Prod.fst = ps := by
  unfold toPostfix at h
  obtain ⟨r, hr, hfin⟩ := bind_eq_ok h
  have hrun : Marked.start.plain.steps (ts.zipIdx.map Prod.fst) = .ok r := by rwa [List.zipIdx_map_fst]
  obtain ⟨m, hm, rfl⟩ := Marked.exists_runs hrun
  obtain ⟨⟨out, held⟩, hfrees, hplain⟩ := Marked.exists_releaseAll m
  simp only [finish, ← hplain] at hfin
  split at hfin <;> cases hfin
  rename_i hempty
  obtain rfl : held = [] := by simpa [Marked.plain] using hempty
  exact ⟨m, out.reverse, hm, by rwa [List.reverse_reverse], by simp [Marked.plain]⟩

/-- The tokens between two places. -/
theorem mem_between {ts : List Token} {i j : Nat} {q : Token × Nat} :
    q ∈ (ts.zipIdx.take j).drop (i + 1) ↔ q ∈ ts.zipIdx ∧ i < q.2 ∧ q.2 < j := by
  simp only [List.mem_iff_getElem? (a := q), List.getElem?_drop, List.getElem?_take]
  constructor
  · rintro ⟨k, hk⟩
    split at hk
    · rename_i hlt
      refine ⟨⟨_, hk⟩, ?_⟩
      rw [List.getElem?_zipIdx, Option.map_eq_some_iff] at hk
      obtain ⟨t, -, rfl⟩ := hk
      simp only
      omega
    · cases hk
  · rintro ⟨⟨k, hk⟩, hi, hj⟩
    obtain rfl : k = q.2 := by
      rw [List.getElem?_zipIdx, Option.map_eq_some_iff] at hk
      obtain ⟨t, -, rfl⟩ := hk
      simp
    refine ⟨q.2 - (i + 1), ?_⟩
    have hplace : i + 1 + (q.2 - (i + 1)) = q.2 := by omega
    rw [hplace, if_pos hj, hk]

/-- A list with places is parted by two parentheses that match. -/
theorem Infix.Encloses.zipIdx_eq {ts : List Token} {i j : Nat} (h : Encloses ts i j) :
    ts.zipIdx = ts.zipIdx.take i ++
      ((.openParen, i) :: ((ts.zipIdx.take j).drop (i + 1) ++ [(.closeParen, j)]) ++ ts.zipIdx.drop (j + 1)) := by
  obtain ⟨hlt, hopens, hcloses, -⟩ := h
  have hi : (ts.zipIdx.take j)[i]? = some (.openParen, i) := by simp [hlt, hopens]
  have hj : ts.zipIdx[j]? = some (.closeParen, j) := by simp [hcloses]
  have hleft : ts.zipIdx.take j = ts.zipIdx.take i ++ (.openParen, i) :: (ts.zipIdx.take j).drop (i + 1) := by
    have hsplit := List.take_append_drop i (ts.zipIdx.take j)
    rw [List.take_take, Nat.min_eq_left (Nat.le_of_lt hlt), List.drop_eq_getElem?_toList_append, hi] at hsplit
    exact hsplit.symm
  have hright : ts.zipIdx.drop j = (.closeParen, j) :: ts.zipIdx.drop (j + 1) := by
    rw [List.drop_eq_getElem?_toList_append, hj]
    rfl
  calc ts.zipIdx
      _ = ts.zipIdx.take j ++ ts.zipIdx.drop j := (List.take_append_drop ..).symm
      _ = ts.zipIdx.take i ++ (.openParen, i) :: (ts.zipIdx.take j).drop (i + 1) ++
          (.closeParen, j) :: ts.zipIdx.drop (j + 1) := by rw [← hleft, ← hright]
      _ = _ := by simp

/-- A postfix list with a place of the infix list for every token: each place of an operand or operator
once, such that whatever comes before an operand comes before it in the infix list, too, and what stands
between two parentheses that match is in one piece. -/
structure Arrangement (ts ps : List Token) (qs : List (Token × Nat)) : Prop where
  tokens : qs.map Prod.fst = ps
  once : qs.Perm (ts.zipIdx.filter (·.1.isKept))
  early : qs.Pairwise fun p q => q.1.isOperand = true → p.2 < q.2
  together : ∀ i j, Encloses ts i j →
    ∃ left inner right, qs = left ++ (inner ++ right) ∧ ∀ q ∈ qs, q ∈ inner ↔ i < q.2 ∧ q.2 < j

/-- The places of what a marked reordering has put out in the end arrange it. -/
theorem arrangement_of_runs {ts : List Token} {m : Marked} {qs : List (Token × Nat)}
    (hruns : Marked.Runs .start ts.zipIdx m) (hfrees : Marked.Frees m ⟨qs.reverse, []⟩) :
    Marked.Arranged ts.zipIdx qs ∧ Arrangement ts (qs.map Prod.fst) qs := by
  have hline : m.line = qs := by
    rw [← hfrees.line_eq]
    simp [Marked.line]
  have hnil : Marked.Arranged [] Marked.start.line := ⟨.nil, rfl, .nil⟩
  have harranged := hnil.runs hruns (pairwise_zipIdx ts)
  rw [List.nil_append, hline] at harranged
  refine ⟨harranged, rfl, harranged.perm, harranged.early, fun i j hij => ?_⟩
  rw [hij.zipIdx_eq] at hruns
  obtain ⟨m₁, -, hruns⟩ := hruns.of_append
  obtain ⟨m₂, hgroup, hrest⟩ := hruns.of_append
  obtain ⟨g, hg, hsuffix⟩ := hgroup.group (by simpa [List.map_drop, List.map_take] using hij.matched)
  obtain ⟨out, hout⟩ := (hsuffix.trans hrest.output_suffix).trans hfrees.output_suffix
  have hsorted : (([] : List (Token × Nat)) ++ (ts.zipIdx.take j).drop (i + 1)).Pairwise (·.2 < ·.2) :=
    (pairwise_zipIdx ts).sublist ((List.drop_sublist ..).trans (List.take_sublist ..))
  have hinner := (hnil.runs hg hsorted).perm
  refine ⟨m₁.output.reverse, g.line, out.reverse, ?_, fun q hq => ?_⟩
  · have hqs : qs.reverse = out ++ (g.line.reverse ++ m₁.output) := hout.symm
    rw [← List.reverse_reverse qs, hqs]
    simp
  · obtain ⟨hread, hkept⟩ := List.mem_filter.1 (harranged.perm.subset hq)
    rw [hinner.mem_iff, List.mem_filter, List.nil_append, mem_between]
    simp [hread, hkept]

/-- **Nothing is lost or doubled, and groups stay together.** A postfix list consists of operands and
operators only: the operands of the infix list in the same order, and the same operators. Its tokens can
be given places of the infix list so that no operator comes before an operand that it follows there, and
what stands between two parentheses that match is put out in one piece. -/
theorem toPostfix_arrangement {ts ps : List Token} (h : toPostfix ts = .ok ps) :
    (∀ t ∈ ps, t.isKept = true) ∧
    ps.filter Token.isOperand = ts.filter Token.isOperand ∧
    (ps.filter Token.isOperator).Perm (ts.filter Token.isOperator) ∧
    ∃ qs, Arrangement ts ps qs := by
  obtain ⟨m, qs, hruns, hfrees, rfl⟩ := exists_marked h
  have hperm := perm_of_toPostfix h
  obtain ⟨harranged, harrangement⟩ := arrangement_of_runs hruns hfrees
  refine ⟨fun t ht => (List.mem_filter.1 (hperm.subset ht)).2, ?_, ?_, qs, harrangement⟩
  · calc (qs.map Prod.fst).filter Token.isOperand
        _ = (qs.filter (·.1.isOperand)).map Prod.fst := List.filter_map
        _ = (ts.zipIdx.filter (·.1.isOperand)).map Prod.fst := by rw [harranged.operands]
        _ = (ts.zipIdx.map Prod.fst).filter Token.isOperand := by rw [List.filter_map]; rfl
        _ = ts.filter Token.isOperand := by rw [List.zipIdx_map_fst]
  · have hoperators := hperm.filter Token.isOperator
    rw [List.filter_filter] at hoperators
    have hkept : ∀ t ∈ ts, (t.isOperator && t.isKept) = t.isOperator := by
      rintro (_ | _ | _ | _ | _ | _) - <;> rfl
    rwa [List.filter_congr hkept] at hoperators

/-- Equal operators within a call of two arguments, between it and a group, and in the group. -/
theorem toPostfix_arrangement_call :
    let ts : List Token := [.function .abs, .openParen, .var "x", .separator, .var "y", .binary .add, .var "x", .closeParen,
      .binary .add, .openParen, .var "u", .binary .add, .var "v", .closeParen, .binary .pow, .var "x"]
    let ps : List Token := [.var "x", .var "y", .var "x", .binary .add, .function .abs, .var "u", .var "v", .binary .add,
      .var "x", .binary .pow, .binary .add]
    toPostfix ts = .ok ps ∧ Encloses ts 9 13 ∧ ps.filter Token.isOperand = ts.filter Token.isOperand ∧
    ∃ qs, Arrangement ts ps qs ∧
      ∃ left inner right, qs = left ++ (inner ++ right) ∧ ∀ q ∈ qs, q ∈ inner ↔ 9 < q.2 ∧ q.2 < 13 := by
  intro ts ps
  have hreordered : toPostfix ts = .ok ps := rfl
  have hgroup : Encloses ts 9 13 := ⟨by decide, rfl, rfl, rfl⟩
  obtain ⟨-, hoperands, -, qs, hqs⟩ := toPostfix_arrangement hreordered
  exact ⟨hreordered, hgroup, hoperands, qs, hqs, hqs.together 9 13 hgroup⟩

end Reckoner
