import Reckoner.Proofs.Scan.Nesting

/-!
# Fewer functions

A scan asks for the known functions at one place only, where a parenthesis opens after a name. With fewer of them it
goes on in step with the scan that knows them all until it meets the first one that it lacks, and stops there
(`step_restricts`, `steps_restricts`); from then on nothing is said of the other scan but that it keeps what it has
read (`added_steps`).
-/

namespace Reckoner

/-! ## Functions by their names -/

namespace Fn

theorem name_injective {f g : Fn} (h : f.name = g.name) : f = g := by
  revert h
  cases f <;> cases g <;> decide

theorem ofName?_eq_some_iff {known : List Fn} {name : String} {f : Fn} :
    ofName? known name = some f ↔ f ∈ known ∧ f.name = name := by
  constructor
  · intro h
    exact ⟨List.mem_of_find?_eq_some h, by simpa using List.find?_some h⟩
  · rintro ⟨hmem, rfl⟩
    cases hg : ofName? known f.name with
    | none => simpa using List.find?_eq_none.1 hg f hmem
    | some g =>
      have hname : g.name = f.name := by simpa using List.find?_some hg
      rw [name_injective hname]

/-- A name is that of no function, of one in the list, or of one outside it. -/
theorem ofName?_restricts (known : List Fn) (name : String) :
    ofName? known name = ofName? all name ∨
    ∃ f, f ∉ known ∧ f.name = name ∧ ofName? known name = none ∧ ofName? all name = some f := by
  cases hall : ofName? all name with
  | none =>
    refine Or.inl (Option.eq_none_iff_forall_ne_some.2 fun f hf => ?_)
    rw [ofName?_eq_some_iff.2 ⟨mem_all f, (ofName?_eq_some_iff.1 hf).2⟩] at hall
    cases hall
  | some f =>
    obtain ⟨-, rfl⟩ := ofName?_eq_some_iff.1 hall
    by_cases hf : f ∈ known
    · exact Or.inl (ofName?_eq_some_iff.2 ⟨hf, rfl⟩)
    · refine Or.inr ⟨f, hf, rfl, Option.eq_none_iff_forall_ne_some.2 fun g hg => ?_, rfl⟩
      obtain ⟨hmem, hname⟩ := ofName?_eq_some_iff.1 hg
      exact hf (name_injective hname ▸ hmem)

end Fn

/-! ## Functions among tokens -/

def Within (known : List Fn) (ts : List Token) : Prop := ∀ f, .function f ∈ ts → f ∈ known

/-- Is the function outside the list, and the first of the tokens that is? -/
def FirstOutside (known : List Fn) (ts : List Token) (f : Fn) : Prop :=
  f ∉ known ∧ ∃ l r, ts = l ++ .function f :: r ∧ Within known l

variable {known : List Fn} {ts us : List Token} {f : Fn}

theorem Within.append (hts : Within known ts) (hus : Within known us) : Within known (ts ++ us) := by
  intro f hf
  exact (List.mem_append.1 hf).elim (hts f) (hus f)

theorem FirstOutside.append (h : FirstOutside known ts f) (us : List Token) : FirstOutside known (ts ++ us) f := by
  obtain ⟨hf, l, r, rfl, hl⟩ := h
  exact ⟨hf, l, r ++ us, by simp, hl⟩

theorem FirstOutside.not_within (h : FirstOutside known ts f) : ¬ Within known ts := by
  obtain ⟨hf, l, r, rfl, -⟩ := h
  exact fun hts => hf (hts f (by simp))

namespace Scan

/-! ## What a scan adds -/

/-- Has the scan gone on to `s'` without losing a token, and added no function but those of the list? -/
def Added (known : List Fn) (s s' : Scan) : Prop := ∃ us, s'.tokens = us ++ s.tokens ∧ Within known us

variable {s s' : Scan} {c : Char}

theorem Added.trans {s'' : Scan} (h : Added known s s') (h' : Added known s' s'') : Added known s s'' := by
  obtain ⟨us, hus, hw⟩ := h
  obtain ⟨vs, hvs, hw'⟩ := h'
  exact ⟨vs ++ us, by rw [hvs, hus, List.append_assoc], hw'.append hw⟩

theorem added_of_eq (h : s'.tokens = s.tokens) : Added known s s' := ⟨[], h, nofun⟩

theorem added_flush (h : s.flush = .ok s') : Added known s s' := by
  rcases flush_eq_ok h with rfl | ⟨x, rfl⟩
  · exact added_of_eq rfl
  · exact ⟨[.operand x], rfl, by simp [Within]⟩

theorem added_stepNumber (s : Scan) (c : Char) : Added known s (s.stepNumber c) := by
  unfold stepNumber
  split
  · exact added_of_eq rfl
  · exact added_of_eq rfl
  · exact ⟨[.var _], rfl, by simp [Within]⟩

theorem added_stepWord (h : s.stepWord c = .ok s') : Added known s s' := by
  unfold stepWord at h
  split at h
  · cases h; exact added_of_eq rfl
  · obtain ⟨t, ht, rfl⟩ := map_eq_ok h
    obtain ⟨x, -, rfl⟩ := numberToken_eq_ok ht
    exact ⟨[.binary .mul, .real x], rfl, by simp [Within]⟩
  · cases h; exact added_of_eq rfl

theorem added_stepOpen (h : s.stepOpen known = .ok s') : Added known s s' := by
  unfold stepOpen at h
  split at h
  · split at h <;> cases h
    rename_i f hf
    refine ⟨[.openParen, .function f], rfl, fun g hg => ?_⟩
    obtain rfl : g = f := by simpa using hg
    exact (Fn.ofName?_eq_some_iff.1 hf).1
  · obtain ⟨t, ht, rfl⟩ := map_eq_ok h
    obtain ⟨x, -, rfl⟩ := numberToken_eq_ok ht
    exact ⟨[.openParen, .binary .mul, .real x], rfl, by simp [Within]⟩
  · split at h <;> cases h
    · exact ⟨[.openParen, .binary .mul], rfl, by simp [Within]⟩
    · exact ⟨[.openParen], rfl, by simp [Within]⟩

theorem added_step (h : s.step known c = .ok s') : Added known s s' := by
  -- a flush followed by a token that is no function
  have after_flush : ∀ {t : Token} {f : Scan → Scan}, s.flush.map f = .ok s' →
      (∀ s₁ : Scan, (f s₁).tokens = t :: s₁.tokens) → (∀ g, t ≠ .function g) → Added known s s' := by
    intro t f h htokens ht
    obtain ⟨s₁, hf, rfl⟩ := map_eq_ok h
    exact (added_flush hf).trans ⟨[t], htokens s₁, fun g hg => absurd (List.mem_singleton.1 hg).symm (ht g)⟩
  unfold step at h
  split at h
  · cases h; exact added_stepNumber s c
  split at h
  · exact added_stepWord h
  split at h
  · exact after_flush h (fun _ => rfl) nofun
  split at h
  · exact added_stepOpen h
  split at h
  · unfold stepClose at h
    split at h
    · cases h
    split at h
    · cases h
    · exact after_flush h (fun _ => rfl) nofun
  split at h
  · exact after_flush h (fun _ => rfl) nofun
  split at h
  · exact added_flush h
  · cases h

theorem added_steps {cs : List Char} (h : s.steps known cs = .ok s') : Added known s s' := by
  induction cs generalizing s with
  | nil => cases h; exact added_of_eq rfl
  | cons c cs ih =>
    rw [steps_cons] at h
    obtain ⟨s₁, hc, h⟩ := bind_eq_ok h
    exact (added_step hc).trans (ih h)

theorem added_finish (known : List Fn) (h : s.finish = .ok ts) : ∃ us, ts = s.tokens.reverse ++ us ∧ Within known us := by
  unfold finish at h
  split at h
  · obtain ⟨s', hf, rfl⟩ := map_eq_ok h
    obtain ⟨us, hus, hw⟩ : Added known s s' := added_flush hf
    exact ⟨us.reverse, by rw [hus, List.reverse_append], fun f hf => hw f (List.mem_reverse.1 hf)⟩
  · cases h

/-! ## Two scans in step -/

/-- How a computation in which all functions are known and the one that knows those of the list end: alike, with
functions of the list only; or the second has stopped at a function outside the list, which is the first such one in
what the other gives, if it gives anything. `read` says which tokens a result has. -/
inductive Restricts (known : List Fn) {α : Type} (read : α → List Token) :
    Except ExprError α → Except ExprError α → Prop
  | ok {a : α} (within : Within known (read a)) : Restricts known read (.ok a) (.ok a)
  | error (e : ExprError) : Restricts known read (.error e) (.error e)
  | outside {r : Except ExprError α} {f : Fn} (unknown : f ∉ known) (first : ∀ a, r = .ok a → FirstOutside known (read a) f) :
    Restricts known read r (.error (.unrecognizedFunction f.name))

/-- The tokens of a scan in the order in which they have been read. -/
def readSoFar (s : Scan) : List Token := s.tokens.reverse

theorem within_of_added (hs : Within known s.readSoFar) (h : Added known s s') : Within known s'.readSoFar := by
  obtain ⟨us, hus, hw⟩ := h
  rw [readSoFar, hus, List.reverse_append]
  exact hs.append fun f hf => hw f (List.mem_reverse.1 hf)

theorem restricts_of_eq {r : Except ExprError Scan} (hs : Within known s.readSoFar)
    (hr : ∀ s', r = .ok s' → Added known s s') : Restricts known readSoFar r r := by
  cases r with
  | error e => exact .error e
  | ok s' => exact .ok (within_of_added hs (hr s' rfl))

theorem stepOpen_restricts (hs : Within known s.readSoFar) :
    Restricts known readSoFar (s.stepOpen Fn.all) (s.stepOpen known) := by
  by_cases heq : s.stepOpen known = s.stepOpen Fn.all
  · rw [← heq]
    exact restricts_of_eq hs fun s' => added_stepOpen
  obtain ⟨ts, pending, d⟩ := s
  cases pending with
  | none => exact absurd rfl heq
  | number cs => exact absurd rfl heq
  | word cs =>
    rcases Fn.ofName?_restricts known (.ofList cs.reverse) with hsame | ⟨f, hf, hname, hnone, hsome⟩
    · simp only [stepOpen, hsame, not_true_eq_false] at heq
    · simp only [stepOpen, hnone, hsome]
      rw [← hname]
      refine .outside hf fun a ha => ?_
      cases ha
      exact ⟨hf, ts.reverse, [.openParen], by simp [readSoFar], hs⟩

/-- One character: the scans go on in step, or a parenthesis opens after a function outside the list. -/
theorem step_restricts (hs : Within known s.readSoFar) (c : Char) :
    Restricts known readSoFar (s.step Fn.all c) (s.step known c) := by
  by_cases hc : c = '('
  · subst hc
    have hopen : ∀ functions, s.step functions '(' = s.stepOpen functions := by
      intro functions
      have hnumber : s.takesAsNumber '(' = false := by unfold takesAsNumber; split <;> rfl
      simp only [step, hnumber]
      rfl
    rw [hopen, hopen]
    exact stepOpen_restricts hs
  · have heq : s.step Fn.all c = s.step known c := by simp only [step, hc, if_false]
    rw [heq]
    exact restricts_of_eq hs fun s' => added_step

/-- What goes on from scans in step keeps the first function outside the list. -/
theorem Restricts.bind {α : Type} {read : α → List Token} {x y : Except ExprError Scan} {g h : Scan → Except ExprError α}
    (hxy : Restricts known readSoFar x y)
    (hok : ∀ s, Within known s.readSoFar → Restricts known read (g s) (h s))
    (hkeeps : ∀ s a, g s = .ok a → ∃ us, read a = s.readSoFar ++ us) : Restricts known read (x >>= g) (y >>= h) := by
  cases hxy with
  | ok within => exact hok _ within
  | error e => exact .error e
  | @outside r f unknown first =>
    refine .outside unknown fun a ha => ?_
    obtain ⟨s, rfl, ha⟩ := bind_eq_ok ha
    obtain ⟨us, hus⟩ := hkeeps s a ha
    rw [hus]
    exact (first s rfl).append us

theorem steps_restricts (hs : Within known s.readSoFar) (cs : List Char) :
    Restricts known readSoFar (s.steps Fn.all cs) (s.steps known cs) := by
  induction cs generalizing s with
  | nil => exact .ok hs
  | cons c cs ih =>
    rw [steps_cons, steps_cons]
    refine (step_restricts hs c).bind (fun s₁ hs₁ => ih hs₁) fun s₁ s₂ h => ?_
    obtain ⟨us, hus, -⟩ := added_steps h
    exact ⟨us.reverse, by rw [readSoFar, hus, List.reverse_append]; rfl⟩

theorem finish_restricts (hs : Within known s.readSoFar) : Restricts known id s.finish s.finish := by
  cases h : s.finish with
  | error e => exact .error e
  | ok ts =>
    obtain ⟨us, rfl, hus⟩ := added_finish known h
    exact .ok (hs.append hus)

end Scan

/-! ## Expressions -/

open Scan (Restricts)

theorem tokenize_restricts (known : List Fn) (text : String) :
    Restricts known id (tokenize text) (tokenizeWith known text) := by
  have hstart : Within known Scan.start.readSoFar := nofun
  refine (Scan.steps_restricts hstart _).bind (fun s hs => Scan.finish_restricts hs) fun s ts h => ?_
  obtain ⟨us, rfl, -⟩ := Scan.added_finish known h
  exact ⟨us, rfl⟩

/-- **Fewer functions.** With any of the functions left out an expression is read exactly if it is read with all of them
and has none of those that are left out, and it has the same tokens then. If it has one, the error names the first
of them. An expression that is not read at all keeps its error, or the error names a function that is left out. -/
theorem tokenizeWith_restricted (known : List Fn) (text : String) :
    (∀ ts, tokenizeWith known text = .ok ts ↔ tokenize text = .ok ts ∧ ∀ f, .function f ∈ ts → f ∈ known) ∧
    (∀ ts, tokenize text = .ok ts → (∃ f, .function f ∈ ts ∧ f ∉ known) →
      ∃ f l r, ts = l ++ .function f :: r ∧ f ∉ known ∧ (∀ g, .function g ∈ l → g ∈ known) ∧
        tokenizeWith known text = .error (.unrecognizedFunction f.name)) ∧
    ∀ e, tokenize text = .error e → tokenizeWith known text = .error e ∨
      ∃ f, f ∉ known ∧ tokenizeWith known text = .error (.unrecognizedFunction f.name) := by
  have h := tokenize_restricts known text
  generalize tokenize text = r, tokenizeWith known text = r' at h
  cases h with
  | @ok ts within =>
    refine ⟨fun us => ⟨fun hus => ?_, And.left⟩, fun us hus => ?_, fun e he => ?_⟩
    · cases hus
      exact ⟨rfl, within⟩
    · rintro ⟨f, hmem, hf⟩
      cases hus
      exact absurd (within f hmem) hf
    · cases he
  | error e =>
    refine ⟨fun ts => ?_, fun ts hts => ?_, fun e' he => Or.inl he⟩
    · simp
    · cases hts
  | @outside r f unknown first =>
    refine ⟨fun ts => iff_of_false (by simp) ?_, fun ts hts _ => ?_, fun e _ => Or.inr ⟨f, unknown, rfl⟩⟩
    · rintro ⟨hts, within⟩
      exact (first ts hts).not_within within
    · obtain ⟨hf, l, r, hsplit, hl⟩ := first ts hts
      exact ⟨f, l, r, hsplit, hf, hl, rfl⟩

end Reckoner
