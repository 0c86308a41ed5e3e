import Reckoner.Store

/-!
# Requests to several sessions

Several sessions in one store are asked in any order; every request is addressed to one of them by its place.
Sessions are made before the first request, each with its own reference to settings, which may be the same for
several (`SPEC_FULL.md` 5, 133-135).
-/

namespace Reckoner

inductive Request where
  | calculate (text : String)
  | evaluate (text : String)
  | bind (name : String) (x : Operand)
  | get (name : String)
  | describe (x : Operand)

/-- What a session replies. Where it may have changed its bindings, they come with the reply. -/
inductive Reply where
  | report (r : Report) (b : Bindings)
  | outcome (result : Except ExprError (Option Operand)) (b : Bindings)
  | found (value : Option Binary64)
  | display (text : String)

/-- What a session replies to a request, and the session after it, when the session is all there is. -/
def Session.serve (s : Session) : Request → Reply × Session
  | .calculate text =>
    let c := s.calculate text
    (.report (c.answer.report text) c.session.bindings, c.session)
  | .evaluate text =>
    let ev := evaluate text s.bindings
    (.outcome ev.result ev.bindings, { s with bindings := ev.bindings })
  | .bind name x =>
    match s.bind name x with
    | .ok (v, s) => (.outcome (.ok (some (.real v))) s.bindings, s)
    | .error e => (.outcome (.error e) s.bindings, s)
  | .get name => (.found (s.bindings.get? name), s)
  | .describe x => (.display (s.describe x), s)

def Handle.serve (h : Handle) : Request → StateM Store Reply
  | .calculate text => do
    let answer ← h.calculate text
    return .report (answer.report text) ((← get).tables h.table)
  | .evaluate text => do
    let result ← (evaluateAt text h.table).run
    return .outcome result ((← get).tables h.table)
  | .bind name x => do
    let result ← (bindAt h.table name x).run
    return .outcome (result.map fun v => some (.real v)) ((← get).tables h.table)
  | .get name => do return .found (((← get).tables h.table).get? name)
  | .describe x => do return .display (← h.describe x)

/-- Serves requests one after another, each by the session at its place; a place without a session
has no reply. -/
def serveAll (handles : List Handle) : List (Nat × Request) → StateM Store (List (Option Reply))
  | [] => return []
  | (i, request) :: rest => do
    let reply ← handles[i]?.mapM (·.serve request)
    return reply :: (← serveAll handles rest)

structure Exchange where
  handles : List Handle
  replies : List (Option Reply)
  store : Store

/-- Makes sessions with the settings at the addresses `configs`, and serves requests by them. -/
def exchange (settings : Address → Settings) (configs : List Address) (requests : List (Nat × Request)) : Exchange :=
  let (handles, opened) := (openAll configs).run (.initial settings)
  let (replies, store) := (serveAll handles requests).run opened
  ⟨handles, replies, store⟩

/-- What the session at a place has come to. -/
def Exchange.session? (x : Exchange) (i : Nat) : Option Session := x.handles[i]?.map x.store.session

end Reckoner
