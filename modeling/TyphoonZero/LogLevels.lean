import TyphoonZero.LogHubRegistry
import TyphoonZero.Tokenizer

/-! The start of the log hub, with the levels of the loggers as the configuration gives them. -/
namespace TyphoonZero.Log
open Utils
open AsyncLogger (LogLevel)

abbrev Bytes := List UInt8

/-- `s_log_level_names`, with the levels that are their places. -/
def logLevelNames : List (Bytes × LogLevel) :=
  [("OFF".toUTF8.toList, .off), ("TRACE".toUTF8.toList, .trace), ("DEBUG".toUTF8.toList, .debug),
    ("INFO".toUTF8.toList, .info), ("WARN".toUTF8.toList, .warn), ("ERROR".toUTF8.toList, .error),
    ("FATAL".toUTF8.toList, .fatal)]

/-- A text that is no name stands for `Off`. -/
def toLogLevelEnum (name : Bytes) : LogLevel := (logLevelNames.lookup name).getD .off

/-- `;` and `-`. -/
def pairDelimiter : UInt8 := 0x3B
def levelDelimiter : UInt8 := 0x2D

/-- One turn of the loop over the pairs; `none` is the failed assertion on their size. -/
def readPair (levels : Bytes → Option LogLevel) (pair : Bytes) : Option (Bytes → Option LogLevel) := do
  match ← tokenizer pair [0] levelDelimiter true with
  | [name, level] => some (Function.update levels name (some (toLogLevelEnum level)))
  | _ => none

/-- The levels that `Init` reads. -/
def readLevels (levelsStr : Bytes) : Option (Bytes → Option LogLevel) :=
  if levelsStr = [] then some fun _ => none
  else do (← tokenizer levelsStr [0] pairDelimiter true).foldlM readPair fun _ => none

/-- An entry as a configuration has it. -/
def writePair (entry : Bytes × Bytes) : Bytes := entry.1 ++ levelDelimiter :: entry.2

def writeLevels (entries : List (Bytes × Bytes)) : Bytes :=
  [pairDelimiter].intercalate (entries.map writePair)

/-- Neither part holds a delimiter or a NUL, and the level is not left out. -/
structure Writable (entry : Bytes × Bytes) : Prop where
  name : ∀ c ∈ entry.1, c ≠ 0 ∧ c ≠ levelDelimiter ∧ c ≠ pairDelimiter
  level : ∀ c ∈ entry.2, c ≠ 0 ∧ c ≠ levelDelimiter ∧ c ≠ pairDelimiter
  nonempty : entry.2 ≠ []

/-- The pieces of a text with its NUL behind it. -/
lemma tokenizer_text {src : Bytes} {delimiter : UInt8} (hsrc : ∀ c ∈ src, c ≠ 0) (hd : delimiter ≠ 0) :
    tokenizer src [0] delimiter true = some (keptPieces true (src.splitOn delimiter)) := by
  obtain ⟨cut, new, hloop, hnew⟩ := @tokenizerLoop_pieces delimiter true hd src hsrc [] (by simp) [] []
  simp only [List.nil_append, List.append_nil, List.length_nil] at hloop hnew
  simp [tokenizer, hloop, hnew]

/-- Pieces that do not end in an empty one are all kept. -/
lemma keptPieces_all {pieces : List Bytes} (h : pieces.getLast? ≠ some []) :
    keptPieces true pieces = pieces := by
  simp [keptPieces, h]

section Entries
variable {entry : Bytes × Bytes} {entries : List (Bytes × Bytes)}

lemma Writable.ne_zero (h : Writable entry) : ∀ c ∈ writePair entry, c ≠ 0 := by
  intro c hc
  rcases List.mem_append.mp hc with hc | hc
  · exact (h.name c hc).1
  · rcases List.mem_cons.mp hc with rfl | hc
    · decide
    · exact (h.level c hc).1

lemma Writable.one_pair (h : Writable entry) : pairDelimiter ∉ writePair entry := by
  intro hc
  rcases List.mem_append.mp hc with hc | hc
  · exact (h.name _ hc).2.2 rfl
  · rcases List.mem_cons.mp hc with heq | hc
    · exact absurd heq (by decide)
    · exact (h.level _ hc).2.2 rfl

lemma Writable.tokens (h : Writable entry) :
    tokenizer (writePair entry) [0] levelDelimiter true = some [entry.1, entry.2] := by
  have hname : levelDelimiter ∉ entry.1 := fun hc => (h.name _ hc).2.1 rfl
  have hlevel : levelDelimiter ∉ entry.2 := fun hc => (h.level _ hc).2.1 rfl
  have hsplit : (writePair entry).splitOn levelDelimiter = [entry.1, entry.2] := by
    rw [writePair, List.splitOn_append_cons_self_of_not_mem hname, List.splitOn_eq_singleton hlevel]
  rw [tokenizer_text h.ne_zero (by decide), hsplit, keptPieces_all (by simpa using h.nonempty)]

lemma readPair_written (h : Writable entry) (levels : Bytes → Option LogLevel) :
    readPair levels (writePair entry) =
      some (Function.update levels entry.1 (some (toLogLevelEnum entry.2))) := by
  simp [readPair, h.tokens]

/-- The last entry of a name is the one that counts. -/
lemma readPairs_written (h : ∀ entry ∈ entries, Writable entry) (levels : Bytes → Option LogLevel) :
    (entries.map writePair).foldlM readPair levels = some fun name =>
      ((entries.reverse.lookup name).map toLogLevelEnum).or (levels name) := by
  induction entries generalizing levels with
  | nil => rfl
  | cons entry entries ih =>
    have hentry : Writable entry := h entry List.mem_cons_self
    have hrest : ∀ entry ∈ entries, Writable entry := fun entry hmem => h entry (List.mem_cons_of_mem _ hmem)
    rw [List.map_cons, List.foldlM_cons, readPair_written hentry]
    refine (ih hrest _).trans (congrArg some (funext fun name => ?_))
    rw [List.reverse_cons, List.lookup_append]
    cases hfound : entries.reverse.lookup name with
    | some level => simp
    | none =>
      by_cases hname : name = entry.1
      · subst hname
        simp [List.lookup]
      · have hother : (name == entry.1) = false := by simpa using hname
        simp [List.lookup, hname, hother]

lemma writeLevels_ne_zero (h : ∀ entry ∈ entries, Writable entry) : ∀ c ∈ writeLevels entries, c ≠ 0 := by
  induction entries with
  | nil => simp [writeLevels]
  | cons entry entries ih =>
    have hentry : ∀ c ∈ writePair entry, c ≠ 0 := (h entry List.mem_cons_self).ne_zero
    have hrest := ih fun entry hmem => h entry (List.mem_cons_of_mem _ hmem)
    cases entries with
    | nil => simpa [writeLevels] using hentry
    | cons next entries =>
      intro c hc
      simp only [writeLevels, List.map_cons, List.intercalate_cons_cons, List.mem_append,
        List.mem_singleton] at hc
      rcases hc with (hc | rfl) | hc
      · exact hentry c hc
      · decide
      · exact hrest c hc

lemma writeLevels_ne_nil (hne : entries ≠ []) : writeLevels entries ≠ [] := by
  match entries with
  | [entry] => simp [writeLevels, writePair]
  | entry :: next :: entries => simp [writeLevels, List.intercalate_cons_cons]

lemma tokens_written (h : ∀ entry ∈ entries, Writable entry) (hne : entries ≠ []) :
    tokenizer (writeLevels entries) [0] pairDelimiter true = some (entries.map writePair) := by
  have hpairs : ∀ pair ∈ entries.map writePair, pairDelimiter ∉ pair := by
    intro pair hpair
    obtain ⟨entry, hmem, rfl⟩ := List.mem_map.mp hpair
    exact (h entry hmem).one_pair
  have hsplit : (writeLevels entries).splitOn pairDelimiter = entries.map writePair :=
    List.splitOn_intercalate _ hpairs (by simpa using hne)
  have hlast : (entries.map writePair).getLast? ≠ some [] := by
    rw [List.getLast?_map]
    cases entries.getLast? with
    | none => simp
    | some entry => simp [writePair]
  rw [tokenizer_text (writeLevels_ne_zero h) (by decide), hsplit, keptPieces_all hlast]

end Entries

/-- What `Init` reads from the configuration, as far as the registry is concerned. -/
structure LogConfig where
  automaticRegistration : Bool := true
  globalLevel : Bytes := "DEBUG".toUTF8.toList
  globalFlushLevel : Bytes := "DEBUG".toUTF8.toList
  loggerLevels : Bytes := []
  defaultLoggerName : String := "default"

section Init
variable {ErrHandler : Type} {config : LogConfig}

/-- The hub before the default logger is made. -/
def LogConfig.hub (config : LogConfig) (levels : Bytes → Option LogLevel) : LogHub ErrHandler :=
  { LogHub.empty fun name => levels name.toUTF8.toList with
    automaticRegistration := config.automaticRegistration
    globalLogLevel := toLogLevelEnum config.globalLevel
    globalFlushLevel := toLogLevelEnum config.globalFlushLevel }

/-- The default logger is made with the pool, initialized and handed over. -/
def LogConfig.start (config : LogConfig) (levels : Bytes → Option LogLevel) : LogHub ErrHandler :=
  let s := ((config.hub levels).makePool 0).make config.defaultLoggerName (some 0)
  ((s.initializeLogger 0).1.setDefaultLogger (some 0)).giveUp 0

/-- The first `Init` of the hub; a second one would begin with the levels of the first. -/
def LogHub.init (config : LogConfig) : Option (LogHub ErrHandler) :=
  (readLevels config.loggerLevels).map config.start

namespace LogHub
variable {s : LogHub ErrHandler} {l : ℕ}

lemma initializeLogger_held (s : LogHub ErrHandler) (l : ℕ) :
    (s.initializeLogger l).1.held = s.held ∧ (s.initializeLogger l).1.made = s.made := by
  have hk : Keeps s (s.handSettings l) := keeps_handSettings s l
  rcases initializeLogger_cases s l with heq | heq
  · rw [heq]
    exact ⟨hk.held, hk.made⟩
  · rw [heq]
    rcases doRegisterLogger_cases (s.handSettings l) l with hsame | ⟨-, hnew⟩
    · rw [hsame]
      exact ⟨hk.held, hk.made⟩
    · rw [hnew]
      exact ⟨hk.held, hk.made⟩

lemma setDefaultLogger_held (s : LogHub ErrHandler) (l : ℕ) :
    (s.setDefaultLogger (some l)).held = s.held ∧ (s.setDefaultLogger (some l)).made = s.made := by
  cases hd : s.defaultLogger <;> simp [setDefaultLogger, hd]

/-- The program still holds every logger that was made. -/
lemma Agrees.keysAlive (h : Agrees s) (hheld : ∀ l < s.made, l ∈ s.held) : s.KeysAlive :=
  fun e he => Or.inl (hheld e.view (h.views e he))

end LogHub

open LogHub

/-- A logger that is initialized is told the level of its name, or else the global one. -/
lemma handSettings_level (s : LogHub ErrHandler) (l : ℕ) :
    ((s.handSettings l).heap l).level = (s.levels (s.getName l)).getD s.globalLogLevel := by
  unfold handSettings
  cases hhandler : s.globalErrHandler <;> simp [LogHub.modify, Logger.setLogLevel, Logger.setFlushLevel,
    Logger.setErrHandler, getName]

lemma initializeLogger_level (s : LogHub ErrHandler) (l : ℕ) :
    ((s.initializeLogger l).1.heap l).level = (s.levels (s.getName l)).getD s.globalLogLevel := by
  rw [← handSettings_level]
  rcases initializeLogger_cases s l with heq | heq
  · rw [heq]
  · rw [heq]
    rcases doRegisterLogger_cases (s.handSettings l) l with hsame | ⟨-, hnew⟩
    · rw [hsame]
    · rw [hnew]

lemma foldl_levels (f : Logger ErrHandler → Logger ErrHandler) (entries : List (ViewMap.Entry ℕ))
    (s : LogHub ErrHandler) : (entries.foldl (fun s e => s.modify e.value f) s).levels = s.levels := by
  induction entries generalizing s with
  | nil => rfl
  | cons e entries ih => exact (ih _).trans rfl

lemma applyAll_levels (s : LogHub ErrHandler) (f : Logger ErrHandler → Logger ErrHandler) :
    (s.applyAll f).levels = s.levels :=
  foldl_levels f s.loggers s

lemma flushAll_levels (s : LogHub ErrHandler) : s.flushAll.1.levels = s.levels := by
  rw [LogHub.flushAll, (flushLoop_eq s.loggers s).1]
  exact foldl_levels Logger.flush _ s

/-- No call writes the levels of the configuration. -/
lemma exec_levels (s : LogHub ErrHandler) (op : Op ErrHandler) : (s.exec op).levels = s.levels := by
  cases op with
  | registerLogger l =>
    rcases doRegisterLogger_cases s l with heq | ⟨-, heq⟩ <;> simp [exec, registerLogger, heq]
  | initializeLogger l =>
    have hset : (s.handSettings l).levels = s.levels := by
      unfold handSettings
      split <;> rfl
    rcases initializeLogger_cases s l with heq | heq
    · simp [exec, heq, hset]
    · rcases doRegisterLogger_cases (s.handSettings l) l with hreg | ⟨-, hreg⟩ <;>
        simp [exec, heq, hreg, hset]
  | setDefaultLogger l =>
    have hout : s.withoutDefault.levels = s.levels := by
      unfold LogHub.withoutDefault
      split <;> rfl
    cases l with
    | none => simp [exec, setDefaultLogger_none, hout]
    | some l => simp [exec, setDefaultLogger_some, hout]
  | drop name =>
    simp only [exec, LogHub.drop]
    split
    · split <;> rfl
    · rfl
  | setGlobalLevel level => exact applyAll_levels _ _
  | setGlobalFlushLevel level => exact applyAll_levels _ _
  | flushAll => exact flushAll_levels s
  | setErrHandler handler => exact applyAll_levels _ _
  | shutdown =>
    simp only [exec]
    rcases shutdown_cases s with heq | heq
    · rw [heq]
      exact flushAll_levels s
    · rw [heq]
      exact flushAll_levels s
  | _ => rfl

lemma levels_of_traces {levels : String → Option LogLevel} {ops : List (Op ErrHandler)}
    {s : LogHub ErrHandler} (h : Transition.Traces (registry levels) ops s) : s.levels = levels := by
  refine h.induction (I := fun _ s => s.levels = levels) (fun _ hs => hs ▸ rfl) ?_
  intro _ s op t hs hstep
  obtain ⟨-, -, rfl⟩ := step_cases hstep
  exact (exec_levels s op).trans hs

/-- While `Init` runs there is one logger, and it holds it, so that no key can dangle. -/
lemma initializing_call {levels : String → Option LogLevel} {ops : List (Op ErrHandler)}
    {s : LogHub ErrHandler} {op : Op ErrHandler} (h : Transition.Traces (registry levels) ops s)
    (hs : s.held = [0] ∧ s.made = 1) (hop : op.given = [0]) :
    Transition.Traces (registry levels) (ops ++ [op]) (s.exec op) := by
  have hheld : ∀ l < s.made, l ∈ s.held := by
    intro l hl
    rw [hs.2] at hl
    rw [hs.1, Nat.lt_one_iff.mp hl]
    exact List.mem_singleton_self 0
  refine h.snoc (step_exec ((Agrees.of_traces h).keysAlive hheld) fun l hl => ?_)
  rw [hop] at hl
  exact hs.1.symm ▸ hl

/-- The hub that `Init` leaves is a state of a run. -/
lemma start_traces (config : LogConfig) (levels : Bytes → Option LogLevel) :
    ∃ ops : List (Op ErrHandler),
      Transition.Traces (registry fun name => levels name.toUTF8.toList) ops (config.start levels) := by
  let s0 : LogHub ErrHandler := ((config.hub levels).makePool 0).make config.defaultLoggerName (some 0)
  let s1 := (s0.initializeLogger 0).1
  let s2 := s1.setDefaultLogger (some 0)
  have hrun : [Op.setAutomaticRegistration config.automaticRegistration,
      .setGlobalLevel (toLogLevelEnum config.globalLevel),
      .setGlobalFlushLevel (toLogLevelEnum config.globalFlushLevel),
      .makePool 0, .make config.defaultLoggerName (some 0)].foldlM LogHub.step
        (LogHub.empty fun name => levels name.toUTF8.toList) = some s0 := rfl
  have h0 : Transition.Traces (registry fun name => levels name.toUTF8.toList) _ s0 :=
    Transition.Traces.of_foldlM (S := registry fun name => levels name.toUTF8.toList)
      (fun _ _ _ hstep => hstep) (.nil rfl) hrun
  have hheld : s0.held = [0] ∧ s0.made = 1 := ⟨rfl, rfl⟩
  have hheld1 : s1.held = [0] ∧ s1.made = 1 := initializeLogger_held s0 0
  have hheld2 : s2.held = [0] ∧ s2.made = 1 := by
    rw [(setDefaultLogger_held s1 0).1, (setDefaultLogger_held s1 0).2]
    exact hheld1
  have h1 : Transition.Traces _ (_ ++ [Op.initializeLogger 0]) s1 := initializing_call h0 hheld rfl
  have h2 : Transition.Traces _ (_ ++ [Op.setDefaultLogger (some 0)]) s2 := initializing_call h1 hheld1 rfl
  have h3 : Transition.Traces _ (_ ++ [Op.giveUp 0]) (s2.giveUp 0) := initializing_call h2 hheld2 rfl
  exact ⟨_, h3⟩

/-- The heap that `Init` leaves is the one after the default logger was initialized. -/
lemma start_heap (config : LogConfig) (levels : Bytes → Option LogLevel) :
    (config.start levels : LogHub ErrHandler).heap =
      ((((config.hub levels).makePool 0).make config.defaultLoggerName (some 0)).initializeLogger 0).1.heap := by
  rw [LogConfig.start, LogHub.giveUp, setDefaultLogger_some]
  unfold LogHub.withoutDefault
  split <;> rfl

lemma start_name (config : LogConfig) (levels : Bytes → Option LogLevel) :
    (config.start levels : LogHub ErrHandler).getName 0 = config.defaultLoggerName := by
  let s0 : LogHub ErrHandler := ((config.hub levels).makePool 0).make config.defaultLoggerName (some 0)
  have hkept : (s0.initializeLogger 0).1.getName 0 = s0.getName 0 := by
    have hset : (s0.handSettings 0).getName 0 = s0.getName 0 :=
      congrFun (keeps_handSettings s0 0).names 0
    rcases initializeLogger_cases s0 0 with heq | heq
    · rw [heq, hset]
    · rcases doRegisterLogger_cases (s0.handSettings 0) 0 with hreg | ⟨-, hreg⟩
      · rw [heq, hreg, hset]
      · rw [heq, hreg, ← hset]
        rfl
  calc (config.start levels : LogHub ErrHandler).getName 0
      = (s0.initializeLogger 0).1.getName 0 := by rw [getName, start_heap]; rfl
    _ = s0.getName 0 := hkept
    _ = config.defaultLoggerName := rfl

lemma readLevels_written {entries : List (Bytes × Bytes)} (h : ∀ entry ∈ entries, Writable entry) :
    readLevels (writeLevels entries) =
      some fun name => (entries.reverse.lookup name).map toLogLevelEnum := by
  by_cases hempty : entries = []
  · subst hempty
    rfl
  · have hwritten : writeLevels entries ≠ [] := writeLevels_ne_nil hempty
    rw [readLevels, if_neg hwritten, tokens_written h hempty]
    simpa using readPairs_written h fun _ => none

/-- After `Init` with entries in the configuration, a logger that is initialized in any state of any
run of the hub is told the level of the last entry with its name, or else the global one of then.
The default logger was, and is registered. -/
theorem init_levels {entries : List (Bytes × Bytes)} (hentries : ∀ entry ∈ entries, Writable entry)
    (hconfig : config.loggerLevels = writeLevels entries) :
    ∃ s : LogHub ErrHandler, LogHub.init config = some s ∧
      (∀ ops s', s.run ops = some s' → ∀ l, ((s'.initializeLogger l).1.heap l).level =
        ((entries.reverse.lookup (s'.getName l).toUTF8.toList).map toLogLevelEnum).getD
          s'.globalLogLevel) ∧
      s.defaultLogger = some 0 ∧ s.getLoggerByName config.defaultLoggerName = some 0 ∧
      (s.heap 0).level =
        ((entries.reverse.lookup config.defaultLoggerName.toUTF8.toList).map toLogLevelEnum).getD
          (toLogLevelEnum config.globalLevel) := by
  have hread := readLevels_written hentries
  rw [← hconfig] at hread
  obtain ⟨ops, htrace⟩ := @start_traces ErrHandler config
    fun name => (entries.reverse.lookup name).map toLogLevelEnum
  have hdefault : (config.start fun name => (entries.reverse.lookup name).map toLogLevelEnum :
      LogHub ErrHandler).defaultLogger = some 0 := by
    rw [LogConfig.start, LogHub.giveUp, setDefaultLogger_some]
  refine ⟨_, by rw [LogHub.init, hread]; rfl, fun more s' hrun l => ?_, hdefault, ?_, ?_⟩
  · have htrace' := Transition.Traces.of_foldlM (S := registry _) (fun _ _ _ hstep => hstep) htrace hrun
    rw [initializeLogger_level, levels_of_traces htrace']
  · obtain ⟨e, he, heq⟩ := (Agrees.of_traces htrace).default 0 hdefault
    have hfound := (Agrees.of_traces htrace).getLoggerByName he
    rwa [heq, start_name] at hfound
  · rw [start_heap, initializeLogger_level]
    rfl

/-- A configuration with two levels, the last of them for the default logger. -/
theorem init_levels_default :
    ∃ s : LogHub Unit, LogHub.init { loggerLevels := "net-WARN;default-INFO".toUTF8.toList } = some s ∧
      s.defaultLogger = some 0 ∧ (s.heap 0).level = .info := by
  have hentries : ∀ entry ∈ [("net".toUTF8.toList, "WARN".toUTF8.toList),
      ("default".toUTF8.toList, "INFO".toUTF8.toList)], Writable entry := by
    intro entry hmem
    fin_cases hmem
    · exact ⟨by decide +kernel, by decide +kernel, by decide +kernel⟩
    · exact ⟨by decide +kernel, by decide +kernel, by decide +kernel⟩
  obtain ⟨s, hinit, -, hdefault, -, hlevel⟩ := @init_levels Unit
    { loggerLevels := "net-WARN;default-INFO".toUTF8.toList } _ hentries (by decide +kernel)
  have hinfo : ([("net".toUTF8.toList, "WARN".toUTF8.toList), ("default".toUTF8.toList,
      "INFO".toUTF8.toList)].reverse.lookup "default".toUTF8.toList).map toLogLevelEnum = some .info := by
    decide +kernel
  exact ⟨s, hinit, hdefault, hlevel.trans (congrArg (Option.getD · _) hinfo)⟩

end Init

end TyphoonZero.Log
