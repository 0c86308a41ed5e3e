import Reckoner.Exchange
import Reckoner.Proofs.Store

/-!
# Sessions side by side

However requests to several sessions are interleaved, each session replies and ends as if its own requests had
been all. A request writes the table of its session and the journal, and reads no other table
(`Handle.run_serve`, `Handle.frame_serve`). Sessions that have been made refer to tables of their own
(`Opening`), so that a request to one is lost on the others; settings they may share, as no request writes them.
-/

namespace Reckoner

/-! ## One session alone -/

namespace Session

def serveEach : Session → List Request → List Reply × Session
  | s, [] => ([], s)
  | s, request :: rest =>
    let (reply, s) := s.serve request
    let (replies, last) := s.serveEach rest
    (reply :: replies, last)

theorem serveEach_cons (s : Session) (request : Request) (rest : List Request) :
    s.serveEach (request :: rest) =
      ((s.serve request).1 :: ((s.serve request).2.serveEach rest).1, ((s.serve request).2.serveEach rest).2) := rfl

theorem length_serveEach (s : Session) (requests : List Request) :
    (s.serveEach requests).1.length = requests.length := by
  induction requests generalizing s with
  | nil => rfl
  | cons request rest ih => simp [serveEach_cons, ih]

/-- No request changes the settings. -/
@[simp] theorem settings_serve (s : Session) (request : Request) : (s.serve request).2.settings = s.settings := by
  cases request with
  | calculate text =>
    simp only [serve, calculate]
    repeat' split
    all_goals rfl
  | bind name x =>
    simp only [serve, Session.bind]
    cases x.value s.bindings <;> rfl
  | evaluate | get | describe => rfl

theorem settings_serveEach (s : Session) (requests : List Request) :
    (s.serveEach requests).2.settings = s.settings := by
  induction requests generalizing s with
  | nil => rfl
  | cons request rest ih => rw [serveEach_cons, ih, settings_serve]

def events (s : Session) : Request → List Event
  | .calculate text => (s.calculate text).events
  | .evaluate text => (evaluate text s.bindings).events
  | .bind .. | .get _ | .describe _ => []

end Session

/-! ## One request -/

variable {st st' : Store} {h h' : Handle}

/-- A reply with the bindings in a table after a computation has written them there. -/
theorem run_bind_table {α : Type} {a : Address} {m : StateM Store α} {x : α} {b : Bindings} {es : List Event}
    (f : α → Bindings → Reply) (hm : m.run st = (x, st.after a b es)) :
    (do return f (← m) ((← get).tables a) : StateM Store Reply).run st = (f x b, st.after a b es) := by
  rw [run_bind_of hm]
  show (f x ((st.after a b es).tables a), _) = _
  rw [Store.tables_after]

/-- A session in the store replies as the session it comes to, and leaves its bindings in its table. -/
theorem Handle.run_serve (h : Handle) (request : Request) (hfunctions : st.functions = Fn.all) :
    (h.serve request).run st =
      (((st.session h).serve request).1,
        st.after h.table ((st.session h).serve request).2.bindings ((st.session h).events request)) := by
  cases request with
  | calculate text =>
    exact run_bind_table (fun answer b => .report (answer.report text) b) (h.run_calculate text hfunctions)
  | evaluate text => exact run_bind_table .outcome (run_evaluateAt text h.table hfunctions)
  | bind name x =>
    let f (result : Except ExprError Binary64) (b : Bindings) : Reply := .outcome (result.map fun v => some (.real v)) b
    have hbind := run_bindAt h.table name x st
    simp only [Session.serve, Session.bind, Session.events, Store.bindings_session]
    cases hx : x.value (st.tables h.table) with
    | error e =>
      have hkept : (bindAt h.table name x).run.run st = (.error e, st.after h.table (st.tables h.table) []) := by
        rw [hbind, hx, Store.after_tables]
      exact run_bind_table f hkept
    | ok v =>
      rw [hx] at hbind
      exact run_bind_table f hbind
  -- nothing is written
  | get name => exact Prod.ext rfl Store.after_tables.symm
  | describe x => exact Prod.ext rfl Store.after_tables.symm

/-- A request writes the table of its session and the journal, and nothing else. -/
theorem Handle.frame_serve (h : Handle) (request : Request) (hfunctions : st.functions = Fn.all) :
    Store.Frame (· = h.table) st ((h.serve request).run st).2 := by
  rw [h.run_serve request hfunctions]
  exact Store.frame_after ..

theorem Handle.reply_serve (h : Handle) (request : Request) (hfunctions : st.functions = Fn.all) :
    ((h.serve request).run st).1 = ((st.session h).serve request).1 := by
  rw [h.run_serve request hfunctions]

theorem Handle.session_serve (h : Handle) (request : Request) (hfunctions : st.functions = Fn.all) :
    ((h.serve request).run st).2.session h = ((st.session h).serve request).2 := by
  rw [h.run_serve request hfunctions, Store.session_after]
  show (⟨_, (st.session h).settings⟩ : Session) = _
  rw [← Session.settings_serve (st.session h) request]

/-! ## Requests to the sessions of a row -/

/-- The requests addressed to a place, in order. -/
def requestsTo (i : Nat) (requests : List (Nat × Request)) : List Request :=
  (requests.filter (·.1 = i)).map Prod.snd

/-- The replies to the requests addressed to a place, in order. -/
def repliesTo (i : Nat) (requests : List (Nat × Request)) (replies : List (Option Reply)) : List (Option Reply) :=
  ((requests.zip replies).filter (·.1.1 = i)).map Prod.snd

theorem requestsTo_cons (i j : Nat) (request : Request) (rest : List (Nat × Request)) :
    requestsTo i ((j, request) :: rest) = if j = i then request :: requestsTo i rest else requestsTo i rest := by
  by_cases h : j = i <;> simp [requestsTo, h]

theorem repliesTo_cons (i j : Nat) (request : Request) (rest : List (Nat × Request)) (reply : Option Reply)
    (replies : List (Option Reply)) :
    repliesTo i ((j, request) :: rest) (reply :: replies) =
      if j = i then reply :: repliesTo i rest replies else repliesTo i rest replies := by
  by_cases h : j = i <;> simp [repliesTo, h]

/-- Where all requests are addressed to one place, all replies are to it. -/
theorem repliesTo_map (i : Nat) {requests : List Request} {replies : List (Option Reply)}
    (hlength : replies.length = requests.length) : repliesTo i (requests.map (i, ·)) replies = replies := by
  induction requests generalizing replies with
  | nil => rw [List.length_eq_zero_iff.1 hlength]; rfl
  | cons request rest ih =>
    cases replies with
    | nil => cases hlength
    | cons reply replies =>
      rw [List.map_cons, repliesTo_cons, if_pos rfl, ih (Nat.succ.inj hlength)]

theorem requestsTo_map (i : Nat) (requests : List Request) : requestsTo i (requests.map (i, ·)) = requests := by
  induction requests with
  | nil => rfl
  | cons request rest ih => rw [List.map_cons, requestsTo_cons, if_pos rfl, ih]

variable {handles : List Handle} {i : Nat}

theorem run_serveAll_of_none (hi : handles[i]? = none) (request : Request) (rest : List (Nat × Request)) (st : Store) :
    (serveAll handles ((i, request) :: rest)).run st =
      (none :: ((serveAll handles rest).run st).1, ((serveAll handles rest).run st).2) := by
  simp only [serveAll, hi]
  rfl

theorem run_serveAll_of_some (hi : handles[i]? = some h) (request : Request) (rest : List (Nat × Request))
    (st : Store) :
    (serveAll handles ((i, request) :: rest)).run st =
      (some ((h.serve request).run st).1 :: ((serveAll handles rest).run ((h.serve request).run st).2).1,
        ((serveAll handles rest).run ((h.serve request).run st).2).2) := by
  simp only [serveAll, hi]
  rfl

/-- Requests write the tables of their sessions and the journal, and nothing else. -/
theorem frame_serveAll (handles : List Handle) (requests : List (Nat × Request))
    (hfunctions : st.functions = Fn.all) :
    Store.Frame (fun a => ∃ h ∈ handles, a = h.table) st ((serveAll handles requests).run st).2 := by
  induction requests generalizing st with
  | nil => exact .refl _ st
  | cons r rest ih =>
    obtain ⟨i, request⟩ := r
    cases hi : handles[i]? with
    | none =>
      rw [run_serveAll_of_none hi]
      exact ih hfunctions
    | some h =>
      have hframe := h.frame_serve request hfunctions
      have hmem : h ∈ handles := List.mem_of_getElem? hi
      rw [run_serveAll_of_some hi]
      exact (hframe.mono fun a ha => ⟨h, hmem, ha⟩).trans (ih (hframe.functions.trans hfunctions))

/-- Every request has a place among the replies. -/
theorem length_serveAll (requests : List (Nat × Request)) (st : Store) :
    ((serveAll handles requests).run st).1.length = requests.length := by
  induction requests generalizing st with
  | nil => rfl
  | cons r rest ih =>
    obtain ⟨i, request⟩ := r
    cases hi : handles[i]? with
    | none => rw [run_serveAll_of_none hi, List.length_cons, ih, List.length_cons]
    | some h => rw [run_serveAll_of_some hi, List.length_cons, ih, List.length_cons]

/-- Sessions that refer to tables of their own. -/
def Apart (handles : List Handle) : Prop :=
  ∀ ⦃i j : Nat⦄ ⦃h h' : Handle⦄, handles[i]? = some h → handles[j]? = some h' → i ≠ j → h.table ≠ h'.table

/-- A session with a table of its own serves the requests addressed to it, and no others. -/
theorem serveAll_getElem? (hapart : Apart handles) (hi : handles[i]? = some h) (requests : List (Nat × Request))
    (hfunctions : st.functions = Fn.all) :
    repliesTo i requests ((serveAll handles requests).run st).1 =
      ((st.session h).serveEach (requestsTo i requests)).1.map some ∧
    ((serveAll handles requests).run st).2.session h = ((st.session h).serveEach (requestsTo i requests)).2 := by
  induction requests generalizing st with
  | nil => exact ⟨rfl, rfl⟩
  | cons r rest ih =>
    obtain ⟨j, request⟩ := r
    rw [requestsTo_cons]
    cases hj : handles[j]? with
    | none =>
      have hne : j ≠ i := by
        rintro rfl
        rw [hi] at hj
        cases hj
      rw [run_serveAll_of_none hj, repliesTo_cons, if_neg hne, if_neg hne]
      exact ih hfunctions
    | some h' =>
      have hframe := h'.frame_serve request hfunctions
      have hrest := ih (hframe.functions.trans hfunctions)
      rw [run_serveAll_of_some hj, repliesTo_cons]
      by_cases hji : j = i
      · subst hji
        obtain rfl : h = h' := Option.some.inj (hi.symm.trans hj)
        rw [h.session_serve request hfunctions] at hrest
        rw [if_pos rfl, if_pos rfl, h.reply_serve request hfunctions, hrest.1, hrest.2]
        exact ⟨rfl, rfl⟩
      · rw [hframe.session (hapart hi hj (Ne.symm hji))] at hrest
        rw [if_neg hji, if_neg hji]
        exact hrest

/-! ## Making sessions -/

/-- What making sessions does to a store: their tables come behind those that are there, one for each, and are
copies of the constants. -/
structure Opening (configs : List Address) (st : Store) (handles : List Handle) (st' : Store) : Prop where
  handles : ∀ i, handles[i]? = configs[i]?.map (Handle.mk (st.next + i))
  made : ∀ i < configs.length, st'.tables (st.next + i) = st.tables Store.constantsAt
  kept : ∀ a < st.next, st'.tables a = st.tables a
  settings : st'.settings = st.settings
  functions : st'.functions = st.functions

theorem run_openAll_cons (c : Address) (cs : List Address) (st : Store) :
    (openAll (c :: cs)).run st =
      (⟨st.next, c⟩ :: ((openAll cs).run st.grown).1, ((openAll cs).run st.grown).2) := rfl

theorem Store.tables_grown {a : Address} (h : a ≠ st.next) : st.grown.tables a = st.tables a := tables_setTable_ne h

theorem opening_openAll (st : Store) (configs : List Address) (hnext : Store.constantsAt < st.next) :
    Opening configs st ((openAll configs).run st).1 ((openAll configs).run st).2 := by
  induction configs generalizing st with
  | nil =>
    refine ⟨fun i => rfl, fun i hi => ?_, fun _ _ => rfl, rfl, rfl⟩
    cases hi
  | cons c cs ih =>
    have hrest := ih st.grown (Nat.lt_succ_of_lt hnext)
    have hconstants : st.grown.tables Store.constantsAt = st.tables Store.constantsAt :=
      Store.tables_grown (Nat.ne_of_lt hnext)
    rw [run_openAll_cons]
    refine ⟨fun i => ?_, fun i hi => ?_, fun a ha => ?_, hrest.settings, hrest.functions⟩
    · cases i with
      | zero => rfl
      | succ i =>
        rw [List.getElem?_cons_succ, List.getElem?_cons_succ, hrest.handles i, ← Nat.succ_add_eq_add_succ]
        rfl
    · cases i with
      -- the table made first lies below those made after it
      | zero => exact (hrest.kept st.next (Nat.lt_succ_self _)).trans Store.tables_setTable
      | succ i =>
        have hmade := hrest.made i (Nat.lt_of_succ_lt_succ hi)
        rw [hconstants] at hmade
        rw [← hmade, ← Nat.succ_add_eq_add_succ]
        rfl
    · rw [hrest.kept a (Nat.lt_succ_of_lt ha), Store.tables_grown (Nat.ne_of_lt ha)]

theorem Opening.apart {configs : List Address} {handles : List Handle} (ho : Opening configs st handles st') :
    Apart handles := by
  intro i j h h' hi hj hij
  rw [ho.handles i] at hi
  rw [ho.handles j] at hj
  obtain ⟨c, -, rfl⟩ := Option.map_eq_some_iff.1 hi
  obtain ⟨c', -, rfl⟩ := Option.map_eq_some_iff.1 hj
  exact fun heq => hij (Nat.add_left_cancel heq)

theorem Opening.session {configs : List Address} {handles : List Handle} (ho : Opening configs st handles st')
    {i : Nat} {c : Address} (hi : configs[i]? = some c) :
    ∃ h, handles[i]? = some h ∧ st'.session h = ⟨st.tables Store.constantsAt, st.settings c⟩ := by
  refine ⟨⟨st.next + i, c⟩, by rw [ho.handles, hi]; rfl, ?_⟩
  simp only [Store.session, ho.made i (List.getElem?_eq_some_iff.1 hi).1, ho.settings]

/-! ## Isolation -/

/-- Among sessions that have just been made, one replies and ends as a fresh session does which is asked what is
addressed to it. -/
theorem exchange_eq_serveEach (settings : Address → Settings) {configs : List Address} {i : Nat} {c : Address}
    (hi : configs[i]? = some c) (requests : List (Nat × Request)) :
    repliesTo i requests (exchange settings configs requests).replies =
      ((Session.fresh (settings c)).serveEach (requestsTo i requests)).1.map some ∧
    (exchange settings configs requests).session? i =
      some ((Session.fresh (settings c)).serveEach (requestsTo i requests)).2 := by
  have hopening := opening_openAll (.initial settings) configs Nat.zero_lt_one
  obtain ⟨h, hh, hsession⟩ := hopening.session hi
  obtain ⟨hreplies, hlast⟩ := serveAll_getElem? hopening.apart hh requests hopening.functions
  have hfresh : (⟨(Store.initial settings).tables Store.constantsAt, (Store.initial settings).settings c⟩ : Session) =
    .fresh (settings c) := rfl
  rw [hsession, hfresh] at hreplies hlast
  refine ⟨hreplies, ?_⟩
  show ((openAll configs).run (.initial settings)).1[i]?.map _ = _
  rw [hh, ← hlast]
  rfl

theorem length_replies (settings : Address → Settings) (configs : List Address) (requests : List (Nat × Request)) :
    (exchange settings configs requests).replies.length = requests.length := length_serveAll requests _

/-- What is made once stays as it was: no exchange writes the constants, the settings or the functions that the
lexer knows. -/
theorem exchange_shared (settings : Address → Settings) (configs : List Address) (requests : List (Nat × Request)) :
    (exchange settings configs requests).store.tables Store.constantsAt = .constants ∧
    (exchange settings configs requests).store.settings = settings ∧
    (exchange settings configs requests).store.functions = Fn.all := by
  have hopening := opening_openAll (.initial settings) configs Nat.zero_lt_one
  have hframe := frame_serveAll ((openAll configs).run (.initial settings)).1 requests hopening.functions
  refine ⟨?_, hframe.settings.trans hopening.settings, hframe.functions.trans hopening.functions⟩
  have hapart : ¬ ∃ h ∈ ((openAll configs).run (.initial settings)).1, Store.constantsAt = h.table := by
    rintro ⟨h, hh, heq⟩
    obtain ⟨i, hi⟩ := List.mem_iff_getElem?.1 hh
    rw [hopening.handles i] at hi
    obtain ⟨c, -, rfl⟩ := Option.map_eq_some_iff.1 hi
    exact Nat.ne_of_lt (Nat.lt_of_lt_of_le Nat.zero_lt_one (Nat.le_add_right _ i)) heq
  exact (hframe.tables _ hapart).trans (hopening.kept _ Nat.zero_lt_one)

/-- A session that is made after an exchange is fresh, whatever the others have bound. -/
theorem session_openSession (settings : Address → Settings) (configs : List Address) (requests : List (Nat × Request))
    (c : Address) :
    ((openSession c).run (exchange settings configs requests).store).2.session
      ((openSession c).run (exchange settings configs requests).store).1 = .fresh (settings c) := by
  obtain ⟨hconstants, hsettings, -⟩ := exchange_shared settings configs requests
  generalize (exchange settings configs requests).store = st at hconstants hsettings
  show (⟨st.grown.tables st.next, st.settings c⟩ : Session) = _
  have hmade : st.grown.tables st.next = st.tables Store.constantsAt := Store.tables_setTable
  rw [hmade, hconstants, hsettings, Session.fresh]

/-- **Isolation.** However requests to several sessions are interleaved, those addressed to one session have the
replies, and leave the session, that they have and leave when they alone are made to a session made alone with
equal settings. -/
theorem exchange_isolated {settings settings' : Address → Settings} {configs : List Address} {i : Nat}
    {c c' : Address} (hi : configs[i]? = some c) (hc : settings' c' = settings c) (requests : List (Nat × Request)) :
    ∃ (replies : List Reply) (last : Session),
      replies.length = (requestsTo i requests).length ∧ last.settings = settings c ∧
      (exchange settings' [c'] ((requestsTo i requests).map (0, ·))).replies = replies.map some ∧
      (exchange settings' [c'] ((requestsTo i requests).map (0, ·))).session? 0 = some last ∧
      (exchange settings configs requests).replies.length = requests.length ∧
      repliesTo i requests (exchange settings configs requests).replies = replies.map some ∧
      (exchange settings configs requests).session? i = some last := by
  obtain ⟨hreplies, hlast⟩ := exchange_eq_serveEach settings hi requests
  have hfirst : [c'][0]? = some c' := rfl
  have halone := exchange_eq_serveEach settings' hfirst ((requestsTo i requests).map (0, ·))
  rw [requestsTo_map, hc, repliesTo_map 0 (by rw [length_replies, List.length_map])] at halone
  exact ⟨_, _, Session.length_serveEach _ _, Session.settings_serveEach _ _, halone.1, halone.2,
    length_replies settings configs requests, hreplies, hlast⟩

/-- Settings that show two decimals at one address, and six at all others. -/
def coarseOrFine (a : Address) : Settings := if a = 0 then .standard else { Settings.standard with precision := 6 }

/-- Requests by turns that write the same name in several sessions, and fail before and after they write. -/
def byTurns : List (Nat × Request) :=
  [(0, .calculate "x=2"), (1, .calculate "x=y"), (1, .evaluate "x=3"), (0, .calculate "(x=5)/y"), (2, .get "x"),
    (3, .get "x"), (1, .bind "y" (.var "z")), (2, .bind "x" (.var "pi")), (0, .get "x"), (1, .describe (.var "x"))]

-- the last two of the three sessions refer to the same settings
theorem exchange_isolated_byTurns :
    [0, 7, 7][1]? = some 7 ∧ coarseOrFine 1 = coarseOrFine 7 ∧
    ∃ (replies : List Reply) (last : Session),
      replies.length = (requestsTo 1 byTurns).length ∧ last.settings = coarseOrFine 7 ∧
      (exchange coarseOrFine [1] ((requestsTo 1 byTurns).map (0, ·))).replies = replies.map some ∧
      (exchange coarseOrFine [1] ((requestsTo 1 byTurns).map (0, ·))).session? 0 = some last ∧
      (exchange coarseOrFine [0, 7, 7] byTurns).replies.length = byTurns.length ∧
      repliesTo 1 byTurns (exchange coarseOrFine [0, 7, 7] byTurns).replies = replies.map some ∧
      (exchange coarseOrFine [0, 7, 7] byTurns).session? 1 = some last := by
  have hi : [0, 7, 7][1]? = some 7 := rfl
  have hc : coarseOrFine 1 = coarseOrFine 7 := rfl
  exact ⟨hi, hc, exchange_isolated hi hc byTurns⟩

/-- Sessions that were given one table are not isolated. -/
example (x : Binary64) :
    ((serveAll [⟨1, 0⟩, ⟨1, 0⟩] [(0, .bind "x" (.real x)), (1, .get "x")]).run (.initial coarseOrFine)).1[1]? =
      some (some (.found (some x))) := rfl

end Reckoner
