import TyphoonZero.NetConnect

/-! A server with its acceptor strand, the sessions it accepts, and the counter that is copied
into every session: the last copy that is dropped posts the final stop of the server. -/
namespace TyphoonZero.NetServer
open Transition NetConnect

/-- The disconnect of a session: posted to its strand, on the way to the session manager, and
before `HandleDisconnect`. -/
inductive Stage
  | task (old : NetState)
  | erase (old : NetState)
  | handle
  deriving DecidableEq

/-- `holds` is the copy of the counter of the start `start`; it is dropped by the base `Stop`. -/
structure Session where
  start : ℕ
  state : NetState := .starting
  holds : Bool := true
  inSessionMgr : Bool := false
  stage : Option Stage := none
  deriving DecidableEq

/-- Where the acceptor strand is in the start of a session: after `FireAccept`, at the
compare-and-swap of `DoneConnect`, after `FireConnect`, at `JoinSession`, or in the handler of the
exception. -/
inductive AcceptPc
  | recheck
  | connect
  | check
  | join
  | fail
  deriving DecidableEq

/-- The two assertions that end the process. -/
inductive Crash
  | counterFinalStop
  | sessionNetState
  deriving DecidableEq

/-- `counter` is the server's own copy, `finals` are the posted final stops; `stops` and `handled`
record the starts that `DoStop` stopped and those for which `HandleStop` ran. -/
structure Server where
  state : NetState := .stopped
  starts : ℕ := 0
  counter : Bool := false
  sessions : List Session := []
  accepting : Option (ℕ × AcceptPc) := none
  stopTasks : ℕ := 0
  finals : List ℕ := []
  stops : List ℕ := []
  handled : List ℕ := []
  crashed : Option Crash := none

/-- `input` is an exception or a timeout while the session starts. -/
inductive Op
  | start
  | handleStart
  | doStop
  | stopTask
  | final
  | accept
  | acceptStep (input : Bool)
  | disconnect (i : ℕ)
  | disconnectTask (i : ℕ)
  | erase (i : ℕ)
  | handleDisconnect (i : ℕ)

/-- The steps of what has begun: no caller takes them. -/
def Op.Internal : Op → Prop
  | .stopTask | .final | .acceptStep _ | .disconnectTask _ | .erase _ | .handleDisconnect _ => True
  | _ => False

/-- Of the two compare-and-swaps at most one finds its state. -/
def Session.doDisconnect (x : Session) : Session :=
  match x.state with
  | .started => { x with state := .stopping, stage := some (.task .started) }
  | .starting => { x with state := .stopping, stage := some (.task .starting) }
  | _ => x

namespace Server
variable (s : Server)

def setSession (i : ℕ) (x : Session) : Server := { s with sessions := s.sessions.set i x }

/-- No copy of the counter of a start is left. -/
def unheld (start : ℕ) : Bool :=
  !(s.counter && s.starts = start) && s.sessions.all fun x => !(x.holds && x.start = start)

/-- The deleter of the counter runs when the last copy is dropped. -/
def dropped (start : ℕ) : Server :=
  if s.unheld start then { s with finals := s.finals ++ [start] } else s

/-- One step of the acceptor strand in the start of the session at `i`. -/
def acceptStep (input : Bool) (i : ℕ) (x : Session) : AcceptPc → Server
  | .recheck =>
    if input = false ∧ x.state = .starting then { s with accepting := some (i, .connect) }
    else { s with accepting := some (i, .fail) }
  | .connect =>
    if input = false ∧ x.state = .starting then
      { s.setSession i { x with state := .started } with accepting := some (i, .check) }
    else { s with accepting := some (i, .fail) }
  | .check =>
    if x.state = .started then { s with accepting := some (i, .join) }
    else { s with accepting := some (i, .fail) }
  | .join => { s.setSession i { x with inSessionMgr := true } with accepting := none }
  | .fail => { s.setSession i x.doDisconnect with accepting := none }

/-- A start is one step from its compare-and-swap to the making of its counter, so that every stop comes
after this. Tasks of the acceptor strand do not run while it starts a session. -/
def run : Op → Option Server
  | .start =>
    if s.state = .stopped then
      some { s with state := .starting, starts := s.starts + 1, counter := true }
    else none
  | .handleStart => if s.state = .starting then some { s with state := .started } else none
  | .doStop =>
    if s.state = .starting ∨ s.state = .started then
      some { s with
        state := .stopping, stopTasks := s.stopTasks + 1, stops := s.stops ++ [s.starts] }
    else none
  | .stopTask =>
    if s.accepting = none ∧ 0 < s.stopTasks then
      let t := { s with
        stopTasks := s.stopTasks - 1
        sessions := s.sessions.map fun x => if x.inSessionMgr then x.doDisconnect else x
        counter := false }
      some (if s.counter then t.dropped s.starts else t)
    else none
  | .final =>
    match s.finals with
    | [] => none
    | start :: rest =>
      if s.accepting = none then
        if s.state = .stopping then
          some { s with state := .stopped, finals := rest, handled := s.handled ++ [start] }
        else some { s with finals := rest, crashed := some .counterFinalStop }
      else none
  | .accept =>
    if s.accepting = none ∧ s.state = .started then
      some { s with
        sessions := s.sessions ++ [{ start := s.starts, holds := s.counter }]
        accepting := some (s.sessions.length, .recheck) }
    else none
  | .acceptStep input =>
    match s.accepting with
    | none => none
    | some (i, pc) =>
      match s.sessions[i]? with
      | none => none
      | some x => some (s.acceptStep input i x pc)
  | .disconnect i =>
    match s.sessions[i]? with
    | none => none
    | some x => some (s.setSession i x.doDisconnect)
  | .disconnectTask i =>
    match s.sessions[i]? with
    | none => none
    | some x =>
      match x.stage with
      | some (.task old) => some (s.setSession i { x with stage := some (.erase old) })
      | _ => none
  | .erase i =>
    match s.sessions[i]? with
    | none => none
    | some x =>
      match x.stage with
      | some (.erase old) =>
        if s.accepting ≠ none then none
        else if x.state = .stopping then
          if old = .started then
            some (s.setSession i { x with
              inSessionMgr := false, state := .stopped, stage := some .handle })
          else some { s with crashed := some .sessionNetState }
        else some (s.setSession i { x with inSessionMgr := false, stage := none })
      | _ => none
  | .handleDisconnect i =>
    match s.sessions[i]? with
    | none => none
    | some x =>
      if x.stage = some .handle then
        let t := s.setSession i { x with stage := none, holds := false }
        some (if x.holds then t.dropped x.start else t)
      else none

/-- A failed assertion ends the process. -/
def exec (op : Op) : Option Server := if s.crashed = none then s.run op else none

/-- Nothing is left to run. -/
def Finished : Prop :=
  s.crashed ≠ none ∨ (s.accepting = none ∧ s.stopTasks = 0 ∧ s.finals = [] ∧
    ∀ x ∈ s.sessions, x.stage = none)

/-- `HandleStop` runs once for each start that is stopped, after all its sessions have dropped the
counter, and the assertion of the deleter holds. -/
structure StopsOnce : Prop where
  noCrash : s.crashed ≠ some .counterFinalStop
  once : s.handled.Nodup
  stopped : ∀ start ∈ s.handled, start ∈ s.stops
  last : ∀ start ∈ s.handled, ∀ x ∈ s.sessions, x.start = start → x.holds = false
  done : s.Finished → ∀ start ∈ s.stops, start ∈ s.handled

/-- No `DoDisconnect` takes a session from `Starting` to `Stopping`. -/
def Settled : Op → Prop
  | .disconnect i => ∀ x, s.sessions[i]? = some x → x.state ≠ .starting
  | .acceptStep _ => ∀ i x, s.accepting = some (i, .fail) → s.sessions[i]? = some x →
      x.state ≠ .starting
  | _ => True

end Server

def serverRuns : System Server Op where
  init s := s = {}
  step s op t := s.exec op = some t

/-- Where the acceptor strand is with the session at `i`. -/
def Server.busyAt (accepting : Option (ℕ × AcceptPc)) (i : ℕ) : Option AcceptPc :=
  match accepting with
  | none => none
  | some (j, pc) => if j = i then some pc else none

/-- A session is on its way, and holds the counter until its disconnect is through. -/
def Session.Ok (x : Session) (busy : Option AcceptPc) (starts : ℕ) : Prop :=
  (x.holds = true → x.start = starts) ∧ x.start ≤ starts ∧
  match x.state with
  | .starting => x.stage = none ∧ x.holds = true ∧
      (busy = some .recheck ∨ busy = some .connect ∨ busy = some .fail)
  | .started => x.stage = none ∧ x.holds = true ∧ (x.inSessionMgr = true ∨ busy ≠ none)
  | .stopping => x.holds = true ∧
      (x.stage = some (.task .started) ∨ x.stage = some (.erase .started))
  | .stopped => (x.stage = some .handle ∧ x.holds = true) ∨ (x.stage = none ∧ x.holds = false)

def Session.Live (x : Session) : Prop := x.state = .starting ∨ x.state = .started

/-- What the server has posted and recorded in each of its states. -/
def Server.Phase (s : Server) : Prop :=
  match s.state with
  | .stopped => s.counter = false ∧ s.stopTasks = 0 ∧ s.finals = [] ∧ s.accepting = none ∧
      (∀ x ∈ s.sessions, x.holds = false) ∧ s.stops = s.handled ∧ ∀ k ∈ s.handled, k ≤ s.starts
  | .starting => s.counter = true ∧ s.stopTasks = 0 ∧ s.finals = [] ∧ s.accepting = none ∧
      (∀ x ∈ s.sessions, x.holds = false) ∧ s.stops = s.handled ∧ ∀ k ∈ s.handled, k < s.starts
  | .started => s.counter = true ∧ s.stopTasks = 0 ∧ s.finals = [] ∧
      s.stops = s.handled ∧ ∀ k ∈ s.handled, k < s.starts
  | .stopping => s.stops = s.handled ++ [s.starts] ∧ (∀ k ∈ s.handled, k < s.starts) ∧
      ((s.counter = true ∧ s.stopTasks = 1 ∧ s.finals = []) ∨
        (s.counter = false ∧ s.stopTasks = 0 ∧ s.accepting = none ∧ (∀ x ∈ s.sessions, ¬ x.Live) ∧
          ((s.finals = [] ∧ ∃ x ∈ s.sessions, x.holds = true) ∨
            (s.finals = [s.starts] ∧ ∀ x ∈ s.sessions, x.holds = false))))

structure Server.Inv (s : Server) : Prop where
  crashed : s.crashed = none
  phase : s.Phase
  sessions : ∀ i (x : Session), s.sessions[i]? = some x → x.Ok (Server.busyAt s.accepting i) s.starts
  handled : s.handled.Pairwise (· < ·)

end TyphoonZero.NetServer
