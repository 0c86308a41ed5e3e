import Reckoner.Proofs.Infix.Obstacle
import Reckoner.Proofs.Infix.WellFormed

/-!
# Which lists are reordered

Whether and how a reordering fails can be read off a list by counting parentheses: it stops at the
first token of no kind, or separator or closing parenthesis outside all parentheses, and else fails
only if parentheses are left open (`toPostfix_verdict`). Operands and operators have no part in it:
leaving them out keeps the count of open parentheses at every place (`ends_filter`).
-/

namespace Reckoner

namespace Infix

/-! ## Places where a reordering stops -/

def netDepth (ts : List Token) : Int := (ts.count .openParen : Int) - ts.count .closeParen

/-- Does the place hold a token of no kind, or a separator or closing parenthesis outside all
parentheses? -/
def StopsAt (ts : List Token) (i : Nat) : Prop :=
  ts[i]? = some .unknown ∨ (ts[i]? = some .separator ∨ ts[i]? = some .closeParen) ∧ netDepth (ts.take i) = 0

instance (ts : List Token) (i : Nat) : Decidable (StopsAt ts i) := by
  unfold StopsAt
  infer_instance

theorem netDepth_of_depthAfter {ts : List Token} {d : Nat} (h : depthAfter 0 ts = some d) : netDepth ts = d := by
  have := (depthAfter_eq_some_iff.1 h).2
  unfold netDepth
  omega

/-- A reordering stops at a place with a depth exactly if an obstacle stands there. -/
theorem stopsAt_iff_obstacle {l us : List Token} {t : Token} {d : Nat} (hd : depthAfter 0 l = some d) :
    StopsAt (l ++ t :: us) l.length ↔ ∃ e, obstacle d t = some e := by
  simp only [StopsAt, List.getElem?_append_right (Nat.le_refl _), Nat.sub_self, List.getElem?_cons_zero,
    List.take_left, netDepth_of_depthAfter hd]
  rcases t with _ | _ | _ | _ | _ | _ <;> rcases d with _ | d <;> simp [obstacle] <;> omega

/-- A beginning of a list has the places of the list at which a reordering stops. -/
theorem stopsAt_take {ts : List Token} {i j : Nat} (hj : j < i) : StopsAt (ts.take i) j ↔ StopsAt ts j := by
  simp only [StopsAt, List.getElem?_take_of_lt hj, List.take_take, Nat.min_eq_left (Nat.le_of_lt hj)]

theorem clear_of_not_stopsAt {ts : List Token} (h : ∀ i, ¬ StopsAt ts i) : Clear 0 ts := by
  rintro l t us d rfl hd
  cases ht : obstacle d t with
  | none => rfl
  | some e => exact absurd ((stopsAt_iff_obstacle hd).2 ⟨e, ht⟩) (h l.length)

/-- Up to the first place where a reordering stops the list is clear. -/
theorem clear_take {ts : List Token} {i : Nat} (h : ∀ j < i, ¬ StopsAt ts j) : Clear 0 (ts.take i) := by
  refine clear_of_not_stopsAt fun j hstops => ?_
  by_cases hj : j < i
  · exact h j hj ((stopsAt_take hj).1 hstops)
  · have hnone : (ts.take i)[j]? = none := List.getElem?_take_eq_none (by omega)
    simp [StopsAt, hnone] at hstops

end Infix

open Infix

/-! ## Verdicts -/

/-- Is the list refused with an error of the kind and wording? -/
def Refused (ts : List Token) (kind : ErrorKind) (message : String) : Prop :=
  ∃ e, toPostfix ts = .error e ∧ e.kind = kind ∧ e.message = message

/-- A list parted at a place. -/
theorem exists_append_of_getElem? {ts : List Token} {i : Nat} {t : Token} (h : ts[i]? = some t) :
    ∃ l us, ts = l ++ t :: us ∧ l.length = i := by
  obtain ⟨hi, rfl⟩ := List.getElem?_eq_some_iff.1 h
  exact ⟨ts.take i, ts.drop (i + 1), by rw [List.getElem_cons_drop, List.take_append_drop],
    List.length_take_of_le (Nat.le_of_lt hi)⟩

/-- The token at the first place where a reordering stops is an obstacle, and with its error the list
fails, whatever follows. -/
theorem toPostfix_of_stopsAt {ts : List Token} {i : Nat} {t : Token} (hstops : StopsAt ts i)
    (hfirst : ∀ j < i, ¬ StopsAt ts j) (ht : ts[i]? = some t) (us : List Token) :
    ∃ d e, obstacle d t = some e ∧ toPostfix (ts.take (i + 1) ++ us) = .error e := by
  obtain ⟨l, rest, rfl, rfl⟩ := exists_append_of_getElem? ht
  have hclear := clear_take hfirst
  rw [List.take_left] at hclear
  obtain ⟨d, hd⟩ := hclear.exists_depthAfter
  obtain ⟨e, he⟩ := (stopsAt_iff_obstacle hd).1 hstops
  refine ⟨d, e, he, ?_⟩
  have hbegin : (l ++ t :: rest).take (l.length + 1) ++ us = l ++ t :: us := by simp [List.take_length_add_append]
  rw [hbegin]
  exact toPostfix_of_obstacle hclear hd he

namespace Reordering

variable {r r' : Reordering}

/-- How a reordering ends after tokens, whatever list it puts out. -/
def ends (r : Reordering) (ts : List Token) : Except ExprError Unit := (r.steps ts >>= finish).map fun _ => ()

theorem ends_cons_of_ok {t : Token} (h : r.step t = .ok r') (ts : List Token) : r.ends (t :: ts) = r'.ends ts := by
  rw [ends, steps_cons_of_ok h, ends]

theorem ends_cons_of_error {t : Token} {e : ExprError} (h : r.step t = .error e) (ts : List Token) :
    r.ends (t :: ts) = .error e := by
  rw [ends, steps_cons, h]
  rfl

theorem ends_nil (r : Reordering) :
    r.ends [] = if openCount r.held = 0 then .ok () else .error (.parentheses .missingClose) := by
  show r.finish.map _ = _
  cases hd : openCount r.held with
  | zero =>
    obtain ⟨ps, hps⟩ := finish_of_closed hd
    rw [hps]
    rfl
  | succ d =>
    rw [finish_of_open hd]
    rfl

/-- Operands and operators neither fail nor open or close a parenthesis. -/
theorem step_of_isKept {t : Token} (h : t.isKept = true) (r : Reordering) :
    ∃ r', r.step t = .ok r' ∧ openCount r'.held = openCount r.held := by
  cases t with
  | operand x => exact ⟨_, rfl, rfl⟩
  | operator op => exact ⟨_, rfl, openCount_hold r op⟩
  | openParen | closeParen | separator | unknown => cases h

/-- The count of open parentheses decides how a reordering ends, and operands and operators can be
left out. -/
theorem ends_filter (r r' : Reordering) (h : openCount r'.held = openCount r.held) (ts : List Token) :
    r'.ends (ts.filter (!·.isKept)) = r.ends ts := by
  induction ts generalizing r r' with
  | nil => simp only [List.filter_nil, ends_nil, h]
  | cons t ts ih =>
    by_cases ht : t.isKept = true
    · obtain ⟨r₁, hr₁, hcount⟩ := step_of_isKept ht r
      rw [List.filter_cons_of_neg (by simp [ht]), ends_cons_of_ok hr₁]
      exact ih r₁ r' (h.trans hcount.symm)
    rw [List.filter_cons_of_pos (by simp [ht])]
    cases hobstacle : obstacle (openCount r.held) t with
    | some e => rw [ends_cons_of_error (step_of_obstacle hobstacle), ends_cons_of_error (step_of_obstacle (h ▸ hobstacle))]
    | none =>
      obtain ⟨r₁, hr₁, hd₁⟩ := step_of_clear hobstacle
      obtain ⟨r₂, hr₂, hd₂⟩ := step_of_clear (h ▸ hobstacle)
      rw [h, hd₁] at hd₂
      rw [ends_cons_of_ok hr₁, ends_cons_of_ok hr₂]
      exact ih r₁ r₂ (Option.some.inj hd₂).symm

end Reordering

/-- **What a reordering accepts.** It stops at the first token of no kind, or separator or closing
parenthesis outside all parentheses, with the error of that token and whatever follows it. A list
without such a token is refused if it leaves parentheses open and has a postfix list otherwise. A list
without the operands and operators ends as the whole list does. -/
theorem toPostfix_verdict (ts : List Token) :
    (∀ i, StopsAt ts i → (∀ j < i, ¬ StopsAt ts j) → ∀ us,
      (ts[i]? = some .unknown → Refused (ts.take (i + 1) ++ us) .conversion "Unexpected token: Token()") ∧
      (ts[i]? = some .separator → Refused (ts.take (i + 1) ++ us) .conversion
        "Either argument separator (,) is misplaced, or parentheses are unbalanced.") ∧
      (ts[i]? = some .closeParen → Refused (ts.take (i + 1) ++ us) .improperParentheses
        "Mismatched parentheses; missing opening parenthesis.")) ∧
    ((∀ i, ¬ StopsAt ts i) →
      (0 < netDepth ts → Refused ts .improperParentheses "Mismatched parentheses.") ∧
      (¬ 0 < netDepth ts → ∃ ps, toPostfix ts = .ok ps)) ∧
    (toPostfix ts).map (fun _ => ()) = (toPostfix (ts.filter (!·.isKept))).map fun _ => () := by
  refine ⟨fun i hstops hfirst us => ⟨fun ht => ?_, fun ht => ?_, fun ht => ?_⟩, fun hnone => ?_,
    (Reordering.ends_filter .start .start rfl ts).symm⟩
  · obtain ⟨d, e, he, h⟩ := toPostfix_of_stopsAt hstops hfirst ht us
    cases d <;> cases he <;> exact ⟨_, h, rfl, rfl⟩
  · obtain ⟨d, e, he, h⟩ := toPostfix_of_stopsAt hstops hfirst ht us
    cases d <;> cases he
    exact ⟨_, h, rfl, rfl⟩
  · obtain ⟨d, e, he, h⟩ := toPostfix_of_stopsAt hstops hfirst ht us
    cases d <;> cases he
    exact ⟨_, h, rfl, rfl⟩
  · have hclear := clear_of_not_stopsAt hnone
    obtain ⟨d, hd⟩ := hclear.exists_depthAfter
    have hnet := netDepth_of_depthAfter hd
    refine ⟨fun hopen => ?_, fun hclosed => ?_⟩
    · obtain ⟨d, rfl⟩ : ∃ d', d = d' + 1 := ⟨d - 1, by omega⟩
      exact ⟨_, toPostfix_of_open hclear hd, rfl, rfl⟩
    · obtain rfl : d = 0 := by omega
      exact toPostfix_of_clear hclear hd

end Reckoner
