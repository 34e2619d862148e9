import TyphoonZero.NetConnect

/-! Starts of a server or a client: the io pool, the steps that can throw, and the tasks that are
posted, which run one after the other on the strand of the endpoint. -/
namespace TyphoonZero.NetStart
open NetConnect (NetState)

/-- `ios` is the number of contexts, `stopped` the flag; a stop that waits for its threads has set
the flag and has workers left. -/
structure Pool where
  ios : ℕ
  stopped : Bool := true
  workers : ℕ := 0
  threads : ℕ := 0

namespace Pool
variable (spawns : ℕ → Bool) (p : Pool)

/-- A worker and a thread for each context that is left; `spawns i` says whether the thread of the
context `i` can be created. -/
def spawn : ℕ → Pool → Pool × Bool
  | 0, p => (p, true)
  | n + 1, p =>
    let q := { p with workers := p.workers + 1 }
    if spawns q.threads then spawn n { q with threads := q.threads + 1 } else (q, false)

/-- `none` is an exception. -/
def start : Pool × Option Bool :=
  if p.stopped = false then (p, some false)
  else if p.workers ≠ 0 ∨ p.threads ≠ 0 then (p, some false)
  else
    match spawn spawns p.ios p with
    | (q, true) => ({ q with stopped := false }, some true)
    | (q, false) => (q, none)

/-- The pool runs already, or no stop is under way and all its threads can be created. -/
def CanRun : Prop := p.stopped = false ∨ (p.workers = 0 ∧ p.threads = 0 ∧ ∀ i < p.ios, spawns i = true)

/-- `IoPoolStop` has nothing to wait for. -/
def StopsAtOnce : Prop := p.stopped = true ∨ (p.workers = 0 ∧ p.threads = 0)

structure Ok : Prop where
  ios : 0 < p.ios
  running : p.stopped = false → p.workers = p.ios ∧ p.threads = p.ios

end Pool

/-- What a start of a server calls and what can throw a system error, `FireInit` and `FireStart`
being the user's. -/
inductive ServerStep
  | resolve
  | openAcceptor
  | setOption
  | fireInit
  | bind
  | listen
  | fireStart
  deriving DecidableEq

inductive ServerTask
  | stop
  | final
  | postAccept
  deriving DecidableEq

/-- `counter` is the counter of the current start, which no session holds before the first accept;
`counterTimer` and `accepting` are operations that are outstanding. -/
structure Server where
  state : NetState := .stopped
  pool : Pool
  counter : Bool := false
  acceptorOpen : Bool := false
  counterTimer : Bool := false
  accepting : Bool := false
  posted : List ServerTask := []
  crashed : Bool := false

namespace Server
variable (spawns : ℕ → Bool) (throws : ServerStep → Bool) (s : Server)

def isStarted : Bool := s.state = .started && s.acceptorOpen

def post (task : ServerTask) : Server := { s with posted := s.posted ++ [task] }

/-- `PostStop` follows on either of the two compare-and-swaps. -/
def doStop : Server :=
  if s.state = .starting ∨ s.state = .started then { s with state := .stopping }.post .stop else s

/-- An error, a state that has changed and an exception of `FireStart` all end in `DoStop`. -/
def handleStart (ec : Bool) : Server :=
  let t := if ec = false ∧ s.state = .starting then { s with state := .started } else s
  if throws .fireStart then t.doStop
  else if ec = false ∧ s.state = .starting then t.post .postAccept
  else t.doStop

/-- From the closing of the acceptor to `listen`; `false` when a step throws. -/
def listenOn : Server × Bool :=
  let s := { s with acceptorOpen := false }
  if throws .resolve then (s, false)
  else if throws .openAcceptor then (s, false)
  else
    let s := { s with acceptorOpen := true }
    (s, !(throws .setOption || throws .fireInit || throws .bind || throws .listen))

def doStart : Server × Bool :=
  if s.state ≠ .stopped then (s, false)
  else
    let s := { s with state := .starting }
    match s.pool.start spawns with
    | (p, none) => ({ s with pool := p }.handleStart throws true, false)
    | (p, some _) =>
      let s := { s with pool := p }
      if p.stopped then (s, false)
      else
        match { s with counter := true }.listenOn throws with
        | (s, false) => (s.handleStart throws true, false)
        | (s, true) => (s.handleStart throws false, (s.handleStart throws false).isStarted)

/-- The reset of the counter runs its deleter, which posts the final stop. -/
def run : ServerTask → Server
  | .stop =>
    let t := { s with counterTimer := true, counter := false }
    if s.counter then t.post .final else t
  | .final =>
    if s.state = .stopping then
      { s with state := .stopped, counterTimer := false, accepting := false, acceptorOpen := false }
    else { s with crashed := true }
  | .postAccept => if s.isStarted then { s with accepting := true } else s

/-- The strand belongs to the first context. -/
def runTask : Server :=
  match s.posted with
  | [] => s
  | task :: rest => if 0 < s.pool.threads then { s with posted := rest }.run task else s

def Drains (t : Server) : Prop := ∃ n, runTask^[n] s = t ∧ t.posted = []

/-- Without a failing step the next start succeeds. -/
def Accepts : Prop := (s.doStart (fun _ => true) (fun _ => false)).2 = true

def StopReturns : Prop :=
  s.pool.StopsAtOnce ∨ ∃ t, s.doStop.Drains t ∧ t.counterTimer = false ∧ t.accepting = false

structure Idle : Prop where
  state : s.state = .stopped
  pool : s.pool.Ok
  counter : s.counter = false
  counterTimer : s.counterTimer = false
  accepting : s.accepting = false
  posted : s.posted = []

end Server

/-- What a failed start of a server leaves: once its tasks have run, the server can be started again. -/
structure Server.Restartable (r : Server × Bool) : Prop where
  returns : r.2 = false
  drains : ∃ t, r.1.Drains t ∧ t.state = .stopped ∧ t.acceptorOpen = false ∧ t.Accepts ∧ t.StopReturns

/-- What a start of a client calls and what can fail: `ioPool` is a stop of the pool by another
thread before the second check, `timeout` the expiry of the connect timer. -/
inductive ClientStep
  | reconnectTimer
  | ioPool
  | openSocket
  | setOption
  | fireInit
  | bind
  | resolve
  | connect
  | timeout
  | fireConnect
  deriving DecidableEq

/-- What the deferred task of a disconnect puts into the event queue. -/
inductive Defer
  | wake
  | stop
  deriving DecidableEq

inductive ClientTask
  | connectTimer
  | connectTimerHandler
  | resolve
  | resolved
  | connected (ec : Bool)
  | startRecv
  | disconnect (defer : Defer)
  | wake
  | reconnectHandler
  | stopReconnect
  | stop
  deriving DecidableEq

/-- The tasks of a connection; the others stop and wake the timers, at any time. -/
def ClientTask.isCore : ClientTask → Bool
  | connectTimer | resolve | resolved | connected _ | startRecv | disconnect _ => true
  | connectTimerHandler | wake | reconnectHandler | stopReconnect | stop => false

/-- `reconnectTimer`, `connectTimer` and `receiving` are operations that are outstanding;
`promised` says that the future of a synchronous start is set. -/
structure Client where
  state : NetState := .stopped
  pool : Pool
  socketOpen : Bool := false
  reconnectEnable : Bool := true
  reconnectRunning : Bool := false
  reconnectCanceled : Bool := false
  reconnectTimer : Bool := false
  connectTimer : Bool := false
  timeoutFlag : Bool := false
  receiving : Bool := false
  promised : Bool := false
  posted : List ClientTask := []
  crashed : Bool := false

namespace Client
variable (isAsync : Bool) (spawns : ℕ → Bool) (throws : ClientStep → Bool) (c : Client)

def isStarted : Bool := c.state = .started && c.socketOpen

def post (task : ClientTask) : Client := { c with posted := c.posted ++ [task] }

/-- A timer that is cancelled posts its handler. -/
def cancelReconnectTimer : Client :=
  if c.reconnectTimer then { c with reconnectTimer := false }.post .reconnectHandler else c

def stopReconnectTimer : Client := { c with reconnectCanceled := true }.cancelReconnectTimer

def stopConnectTimeoutTimer : Client :=
  if c.connectTimer then { c with connectTimer := false }.post .connectTimerHandler else c

/-- The event of the disconnect posts its task; the queue holds no other event while a start fails. -/
def doDisconnect (defer : Defer) : Client :=
  if c.state = .started ∨ c.state = .starting then
    { c with state := .stopping }.post (.disconnect defer)
  else
    match defer with
    | .wake => c
    | .stop => c.post .stop

/-- Without an error the state goes on to `Started`; an exception of `FireConnect` and an error both
end in `DoDisconnect`. -/
def doneConnect (ec : Bool) : Client :=
  let ec := ec || c.timeoutFlag
  let c := c.stopConnectTimeoutTimer
  if ec = false ∧ c.state = .starting then
    let c := { c with state := .started }
    if throws .fireConnect then c.doDisconnect .wake else c.post .startRecv
  else c.doDisconnect .wake

def makeReconnectTimer : Client :=
  if c.reconnectRunning then c else { c with reconnectRunning := true, reconnectTimer := true }

/-- `none` is a synchronous start that waits for its future. -/
def clientStartConnect : Client × Option Bool :=
  let c := if throws .ioPool then { c with pool := { c.pool with stopped := true } } else c
  if c.pool.stopped then (c, some false)
  else
    let c := { c with socketOpen := false }
    if throws .openSocket then (c.doneConnect throws true, some false)
    else
      let c := { c with socketOpen := true }
      if throws .setOption || throws .fireInit || throws .bind then
        (c.doneConnect throws true, some false)
      else
        let c := ({ c with promised := false }.post .connectTimer).post .resolve
        (c, if isAsync then some true else none)

def doConnect : Client × Option Bool :=
  if c.state ≠ .stopped then (c, some false)
  else
    let c := { c with state := .starting }
    match c.pool.start spawns with
    | (p, none) => ({ c with pool := p }.doneConnect throws true, some false)
    | (p, some _) =>
      let c := { c with pool := p }
      if p.stopped then (c, some false)
      else if throws .reconnectTimer then
        ({ c with reconnectRunning := true }.doneConnect throws true, some false)
      else c.makeReconnectTimer.clientStartConnect isAsync throws

/-- The connect timer closes the socket, so that the connection is aborted. -/
def run : ClientTask → Client
  | .connectTimer => { c with timeoutFlag := false, connectTimer := true }
  | .connectTimerHandler => { c with promised := true }
  | .resolve => c.post .resolved
  | .resolved =>
    if throws .resolve then c.doneConnect throws true
    else if throws .timeout then
      { c with connectTimer := false, timeoutFlag := true, socketOpen := false, promised := true }.post
        (.connected true)
    else c.post (.connected (throws .connect))
  | .connected ec => c.doneConnect throws ec
  | .startRecv => if c.isStarted then { c with receiving := true } else c
  | .disconnect defer =>
    if c.state = .stopping then
      { c with state := .stopped, socketOpen := false, receiving := false }.post
        (match defer with
          | .wake => .wake
          | .stop => .stop)
    else { c with crashed := true }
  | .wake => if c.reconnectEnable then c.cancelReconnectTimer else c
  | .reconnectHandler =>
    if c.reconnectCanceled then { c with reconnectRunning := false }
    else { c with reconnectTimer := true }
  | .stopReconnect => c.stopReconnectTimer
  | .stop => c.stopReconnectTimer.stopConnectTimeoutTimer

/-- The strand belongs to the first context. -/
def runTask : Client :=
  match c.posted with
  | [] => c
  | task :: rest => if 0 < c.pool.threads then { c with posted := rest }.run throws task else c

def Drains (t : Client) : Prop := ∃ n, (runTask throws)^[n] c = t ∧ t.posted = []

/-- What `Stop` does before it stops the io pool. -/
def stop : Client := (c.post .stopReconnect).doDisconnect .stop

/-- Without a failing step the next start, of either kind, is not refused. -/
def Accepts : Prop := ∀ isAsync, (c.doConnect isAsync (fun _ => true) (fun _ => false)).2 ≠ some false

def StopReturns : Prop :=
  c.pool.StopsAtOnce ∨ ∃ t, c.stop.Drains throws t ∧
    t.reconnectTimer = false ∧ t.connectTimer = false ∧ t.receiving = false

def core : List ClientTask := c.posted.filter ClientTask.isCore

/-- A client has one context. A stop or a wake may still be posted, and the reconnect timer be armed. -/
structure Idle : Prop where
  state : c.state = .stopped
  pool : c.pool.Ok
  ios : c.pool.ios = 1
  connectTimer : c.connectTimer = false
  receiving : c.receiving = false
  core : c.core = []

/-- A synchronous start returns what `IsStarted` says at any time after its future is set. -/
structure ReturnsFalse (r : Client × Option Bool) : Prop where
  value : ∀ b, r.2 = some b → b = false
  promised : r.2 = none → ∃ n, ((runTask throws)^[n] r.1).promised = true
  waited : r.2 = none → ∀ n, ((runTask throws)^[n] r.1).promised = true →
    ((runTask throws)^[n] r.1).isStarted = false

end Client

/-- What a failed start of a client leaves: once its tasks have run, the client can be started again. -/
structure Client.Restartable (throws : ClientStep → Bool) (r : Client × Option Bool) : Prop where
  returns : Client.ReturnsFalse throws r
  drains : ∃ t, r.1.Drains throws t ∧ t.state = .stopped ∧ t.socketOpen = false ∧ t.Accepts ∧
    t.StopReturns throws

/-- The steps that throw before `AsyncStart` returns. -/
def ClientStep.isEarly : ClientStep → Bool
  | reconnectTimer | openSocket | setOption | fireInit | bind => true
  | ioPool | resolve | connect | timeout | fireConnect => false

/-- The io pool runs and is not stopped before the second check, and an asynchronous start fails
before it returns. -/
structure Client.Recovers (isAsync : Bool) (spawns : ℕ → Bool) (throws : ClientStep → Bool) (c : Client) :
    Prop where
  ioPool : c.pool.CanRun spawns
  stays : throws .ioPool = true → throws .reconnectTimer = true
  early : isAsync = true → ∃ step, step.isEarly = true ∧ throws step = true

/-- A start of a server or a client, with the steps that would throw in it. -/
inductive Start
  | server (s : Server) (throws : ServerStep → Bool)
  | client (c : Client) (isAsync : Bool) (throws : ClientStep → Bool)

namespace Start
variable (spawns : ℕ → Bool)

def Idle : Start → Prop
  | server s _ => s.Idle
  | client c _ _ => c.Idle

/-- The io pool does not run, or a step throws. -/
def Fails : Start → Prop
  | server s throws => ¬s.pool.CanRun spawns ∨ ∃ step, throws step = true
  | client c _ throws => ¬c.pool.CanRun spawns ∨ ∃ step, throws step = true

def Restartable : Start → Prop
  | server s throws => Server.Restartable (s.doStart spawns throws)
  | client c isAsync throws => Client.Restartable throws (c.doConnect isAsync spawns throws)

def Recovers : Start → Prop
  | server s _ => s.pool.CanRun spawns
  | client c isAsync throws => c.Recovers isAsync spawns throws

end Start
end TyphoonZero.NetStart
