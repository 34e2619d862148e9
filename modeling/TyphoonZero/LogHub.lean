import TyphoonZero.AsyncLogger
import TyphoonZero.ViewMap
import Mathlib.Logic.Function.Basic

/-! The log hub: the loggers it knows by name, the default one and the settings it hands out. -/
namespace TyphoonZero.Log
open ViewMap
open AsyncLogger (LogLevel)
variable {ErrHandler : Type}

/-- `flushed` counts how often the appenders were told to flush, and `pool` is the pool to which an
`AsyncLogger` leaves that. -/
structure Logger (ErrHandler : Type) where
  name : String
  level : LogLevel
  flushLevel : LogLevel
  errHandler : Option ErrHandler
  flushed : ℕ
  pool : Option ℕ

namespace Logger

def create (name : String) (pool : Option ℕ) : Logger ErrHandler := ⟨name, .off, .off, none, 0, pool⟩

def setLogLevel (level : LogLevel) (logger : Logger ErrHandler) : Logger ErrHandler :=
  { logger with level := level }

def setFlushLevel (level : LogLevel) (logger : Logger ErrHandler) : Logger ErrHandler :=
  { logger with flushLevel := level }

def setErrHandler (handler : Option ErrHandler) (logger : Logger ErrHandler) : Logger ErrHandler :=
  { logger with errHandler := handler }

def flush (logger : Logger ErrHandler) : Logger ErrHandler :=
  { logger with flushed := logger.flushed + 1 }

end Logger

/-- Loggers are numbered as they are made; `held` lists the pointers that the program has beside
those of the hub, and `pools` the thread pools that have not been destroyed. -/
structure LogHub (ErrHandler : Type) where
  made : ℕ
  heap : ℕ → Logger ErrHandler
  held : List ℕ
  pools : List ℕ
  loggers : List (Entry ℕ)
  levels : String → Option LogLevel
  globalLogLevel : LogLevel
  globalFlushLevel : LogLevel
  globalErrHandler : Option ErrHandler
  defaultLogger : Option ℕ
  automaticRegistration : Bool

namespace LogHub

/-- A hub before `init`, for which the configuration has given the levels by name. -/
def empty (levels : String → Option LogLevel) : LogHub ErrHandler where
  made := 0
  heap := fun _ => Logger.create "" none
  held := []
  pools := []
  loggers := []
  levels := levels
  globalLogLevel := .debug
  globalFlushLevel := .debug
  globalErrHandler := none
  defaultLogger := none
  automaticRegistration := true

variable (s : LogHub ErrHandler)

def getName (l : ℕ) : String := (s.heap l).name

/-- Some pointer keeps the logger from being destroyed. -/
def Alive (l : ℕ) : Prop :=
  l ∈ s.held ∨ (∃ e ∈ s.loggers, e.value = l) ∨ s.defaultLogger = some l

/-- No key of the map is a view of the name of a destroyed logger. -/
def KeysAlive : Prop := ∀ e ∈ s.loggers, s.Alive e.view

instance (l : ℕ) : Decidable (s.Alive l) := inferInstanceAs (Decidable (_ ∨ _ ∨ _))

instance : Decidable s.KeysAlive := inferInstanceAs (Decidable (∀ _ ∈ _, _))

def modify (l : ℕ) (f : Logger ErrHandler → Logger ErrHandler) : LogHub ErrHandler :=
  { s with heap := Function.update s.heap l (f (s.heap l)) }

/-- The loops over the registered loggers. -/
def applyAll (f : Logger ErrHandler → Logger ErrHandler) : LogHub ErrHandler :=
  s.loggers.foldl (fun s e => s.modify e.value f) s

def getLoggerByName (name : String) : Option ℕ :=
  (find s.getName s.loggers name).map Entry.value

def throwIfExists (name : String) : Option String :=
  if (find s.getName s.loggers name).isSome then
    some ("LogHub::ThrowIfExists logger_name " ++ name ++ " already exists")
  else none

/-- Returns the message of the exception, if one is thrown. -/
def doRegisterLogger (l : ℕ) : LogHub ErrHandler × Option String :=
  match s.throwIfExists (s.getName l) with
  | some message => (s, some message)
  | none => ({ s with loggers := assign s.getName s.loggers l }, none)

def registerLogger (l : ℕ) : LogHub ErrHandler × Option String := s.doRegisterLogger l

/-- What a new logger is told before it is registered. -/
def handSettings (l : ℕ) : LogHub ErrHandler :=
  let s1 := if s.globalErrHandler.isSome then
    s.modify l (Logger.setErrHandler s.globalErrHandler) else s
  let newLevel := (s1.levels (s1.getName l)).getD s1.globalLogLevel
  let s2 := s1.modify l (Logger.setLogLevel newLevel)
  s2.modify l (Logger.setFlushLevel s2.globalFlushLevel)

/-- The settings stay when the registration throws. -/
def initializeLogger (l : ℕ) : LogHub ErrHandler × Option String :=
  let s1 := s.handSettings l
  if s1.automaticRegistration then s1.doRegisterLogger l else (s1, none)

def setDefaultLogger (newDefaultLogger : Option ℕ) : LogHub ErrHandler :=
  let s1 := match s.defaultLogger with
    | some d => { s with loggers := erase s.getName s.loggers (s.getName d) }
    | none => s
  let s2 := match newDefaultLogger with
    | some l => { s1 with loggers := assign s1.getName s1.loggers l }
    | none => s1
  { s2 with defaultLogger := newDefaultLogger }

def setGlobalLevel (level : LogLevel) : LogHub ErrHandler :=
  { s with globalLogLevel := level }.applyAll (Logger.setLogLevel level)

def setGlobalFlushLevel (level : LogLevel) : LogHub ErrHandler :=
  { s with globalFlushLevel := level }.applyAll (Logger.setFlushLevel level)

/-- An `AsyncLogger` whose pool is gone throws. -/
def Flushes (l : ℕ) : Prop := ∀ p ∈ (s.heap l).pool, p ∈ s.pools

instance (l : ℕ) : Decidable (s.Flushes l) := inferInstanceAs (Decidable (∀ _ ∈ _, _))

def flushLogger (l : ℕ) : LogHub ErrHandler × Option String :=
  if s.Flushes l then (s.modify l Logger.flush, none)
  else (s, some "Async Log: thread pool doesn't exist anymore")

/-- The first exception ends the loop. -/
def flushLoop (s : LogHub ErrHandler) : List (Entry ℕ) → LogHub ErrHandler × Option String
  | [] => (s, none)
  | e :: entries =>
    match s.flushLogger e.value with
    | (s1, none) => flushLoop s1 entries
    | (s1, some message) => (s1, some message)

/-- Returns the message of the exception, if one is thrown. -/
def flushAll : LogHub ErrHandler × Option String := s.flushLoop s.loggers

def setErrHandler (handler : Option ErrHandler) : LogHub ErrHandler :=
  { s with globalErrHandler := handler }.applyAll (Logger.setErrHandler handler)

def drop (name : String) : LogHub ErrHandler :=
  let s1 := { s with loggers := erase s.getName s.loggers name }
  match s1.defaultLogger with
  | some d => if s1.getName d = name then { s1 with defaultLogger := none } else s1
  | none => s1

def dropAll : LogHub ErrHandler := { s with defaultLogger := none, loggers := [] }

/-- The flusher and the pointer to the pool, which are let go of here too, are not of the registry. -/
def shutdown : LogHub ErrHandler × Option String :=
  match s.flushAll with
  | (s1, none) => (s1.dropAll, none)
  | (s1, some message) => (s1, some message)

def setAutomaticRegistration (automaticRegistration : Bool) : LogHub ErrHandler :=
  { s with automaticRegistration := automaticRegistration }

/-- The program makes a logger of its own, which has a pool if it is an `AsyncLogger`. -/
def make (name : String) (pool : Option ℕ) : LogHub ErrHandler :=
  { s with
    made := s.made + 1
    heap := Function.update s.heap s.made (Logger.create name pool)
    held := s.made :: s.held }

/-- The program keeps a pointer that the hub has returned. -/
def hold (l : Option ℕ) : LogHub ErrHandler := { s with held := l.toList ++ s.held }

def giveUp (l : ℕ) : LogHub ErrHandler := { s with held := s.held.erase l }

def makePool (p : ℕ) : LogHub ErrHandler := { s with pools := p :: s.pools }

/-- The last pointer to a pool is given up, that of the hub or of the program. -/
def dropPool (p : ℕ) : LogHub ErrHandler := { s with pools := s.pools.filter (· ≠ p) }

end LogHub

/-- What the program, and the flusher beside it, do with the hub; each call is under its lock. -/
inductive Op (ErrHandler : Type)
  | make (name : String) (pool : Option ℕ)
  | giveUp (l : ℕ)
  | makePool (p : ℕ)
  | dropPool (p : ℕ)
  | setLogLevel (l : ℕ) (level : LogLevel)
  | registerLogger (l : ℕ)
  | initializeLogger (l : ℕ)
  | getLoggerByName (name : String)
  | getDefaultLogger
  | setDefaultLogger (l : Option ℕ)
  | setGlobalLevel (level : LogLevel)
  | setGlobalFlushLevel (level : LogLevel)
  | flushAll
  | setErrHandler (handler : Option ErrHandler)
  | drop (name : String)
  | dropAll
  | shutdown
  | setAutomaticRegistration (automaticRegistration : Bool)

/-- The pointers a call is given. -/
def Op.given : Op ErrHandler → List ℕ
  | .giveUp l | .setLogLevel l _ | .registerLogger l | .initializeLogger l => [l]
  | .setDefaultLogger l => l.toList
  | _ => []

namespace LogHub
variable (s : LogHub ErrHandler)

def exec : Op ErrHandler → LogHub ErrHandler
  | .make name pool => s.make name pool
  | .giveUp l => s.giveUp l
  | .makePool p => s.makePool p
  | .dropPool p => s.dropPool p
  | .setLogLevel l level => s.modify l (Logger.setLogLevel level)
  | .registerLogger l => (s.registerLogger l).1
  | .initializeLogger l => (s.initializeLogger l).1
  | .getLoggerByName name => s.hold (s.getLoggerByName name)
  | .getDefaultLogger => s.hold s.defaultLogger
  | .setDefaultLogger l => s.setDefaultLogger l
  | .setGlobalLevel level => s.setGlobalLevel level
  | .setGlobalFlushLevel level => s.setGlobalFlushLevel level
  | .flushAll => s.flushAll.1
  | .setErrHandler handler => s.setErrHandler handler
  | .drop name => s.drop name
  | .dropAll => s.dropAll
  | .shutdown => s.shutdown.1
  | .setAutomaticRegistration automaticRegistration =>
    s.setAutomaticRegistration automaticRegistration

/-- The program passes pointers it has. Nothing is said of a hub with a key that dangles: the next
search may read the destroyed name. -/
def step (op : Op ErrHandler) : Option (LogHub ErrHandler) :=
  if s.KeysAlive ∧ ∀ l ∈ op.given, l ∈ s.held then some (s.exec op) else none

def run (ops : List (Op ErrHandler)) : Option (LogHub ErrHandler) := ops.foldlM step s

variable {s} {s' : LogHub ErrHandler} {op : Op ErrHandler}

lemma step_cases (h : s.step op = some s') :
    s.KeysAlive ∧ (∀ l ∈ op.given, l ∈ s.held) ∧ s' = s.exec op := by
  unfold step at h
  split at h
  · rename_i hok
    exact ⟨hok.1, hok.2, (Option.some.inj h).symm⟩
  · cases h

lemma step_exec (halive : s.KeysAlive) (hgiven : ∀ l ∈ op.given, l ∈ s.held) :
    s.step op = some (s.exec op) :=
  if_pos ⟨halive, hgiven⟩

end LogHub

end TyphoonZero.Log
