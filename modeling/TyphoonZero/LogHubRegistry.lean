import TyphoonZero.LogHub
import TyphoonZero.Transition

/-! What the registry of the log hub keeps over every run. -/
namespace TyphoonZero.Log
open ViewMap
open AsyncLogger (LogLevel)
variable {ErrHandler : Type}

namespace LogHub
variable {s s' s'' : LogHub ErrHandler} {op : Op ErrHandler} {l : ℕ}
  {l' : Option ℕ}

/-- The two hubs differ in settings only. -/
structure Keeps (s s' : LogHub ErrHandler) : Prop where
  made : s'.made = s.made
  held : s'.held = s.held
  loggers : s'.loggers = s.loggers
  default : s'.defaultLogger = s.defaultLogger
  names : s'.getName = s.getName

lemma Keeps.refl (s : LogHub ErrHandler) : Keeps s s := ⟨rfl, rfl, rfl, rfl, rfl⟩

lemma Keeps.trans (h : Keeps s s') (h' : Keeps s' s'') : Keeps s s'' where
  made := h'.made.trans h.made
  held := h'.held.trans h.held
  loggers := h'.loggers.trans h.loggers
  default := h'.default.trans h.default
  names := h'.names.trans h.names

section Settings
variable {f : Logger ErrHandler → Logger ErrHandler} (hf : ∀ logger, (f logger).name = logger.name)
include hf

lemma keeps_modify (s : LogHub ErrHandler) (l : ℕ) : Keeps s (s.modify l f) where
  made := rfl
  held := rfl
  loggers := rfl
  default := rfl
  names := by
    funext i
    unfold getName modify
    by_cases hi : i = l
    · subst hi
      simp [hf]
    · simp [hi]

lemma keeps_foldl (entries : List (Entry ℕ)) (s : LogHub ErrHandler) :
    Keeps s (entries.foldl (fun s e => s.modify e.value f) s) := by
  induction entries generalizing s with
  | nil => exact Keeps.refl s
  | cons e entries ih => exact (keeps_modify hf s e.value).trans (ih _)

lemma keeps_applyAll (s : LogHub ErrHandler) : Keeps s (s.applyAll f) :=
  keeps_foldl hf s.loggers s

end Settings

/-- A loop over loggers that are all different reaches each of them once. -/
lemma foldl_heap (f : Logger ErrHandler → Logger ErrHandler) {entries : List (Entry ℕ)}
    (hnodup : (entries.map Entry.value).Nodup) (s : LogHub ErrHandler) (l : ℕ) :
    (entries.foldl (fun s e => s.modify e.value f) s).heap l =
      if l ∈ entries.map Entry.value then f (s.heap l) else s.heap l := by
  induction entries generalizing s with
  | nil => simp
  | cons e entries ih =>
    have hrest := List.nodup_cons.mp hnodup
    rw [List.foldl_cons, ih hrest.2]
    by_cases hl : l = e.value
    · subst hl
      simp [hrest.1, modify]
    · simp [hl, modify]

lemma flushes_modify (s : LogHub ErrHandler) (l i : ℕ) : (s.modify l Logger.flush).Flushes i ↔ s.Flushes i := by
  unfold Flushes modify
  by_cases hi : i = l
  · subst hi
    simp [Logger.flush]
  · simp [hi]

/-- The loop flushes the loggers before the first one whose pool is gone. -/
lemma flushLoop_eq (entries : List (Entry ℕ)) (s : LogHub ErrHandler) :
    (s.flushLoop entries).1 = (entries.takeWhile fun e => s.Flushes e.value).foldl
        (fun s e => s.modify e.value Logger.flush) s ∧
      ((s.flushLoop entries).2 = none ↔ ∀ e ∈ entries, s.Flushes e.value) := by
  induction entries generalizing s with
  | nil => exact ⟨rfl, by simp [flushLoop]⟩
  | cons e entries ih =>
    by_cases hflushes : s.Flushes e.value
    · obtain ⟨hloop, hnone⟩ := ih (s.modify e.value Logger.flush)
      simp only [flushes_modify] at hloop hnone
      simp only [flushLoop, flushLogger, if_pos hflushes, List.forall_mem_cons]
      refine ⟨?_, hnone.trans (and_iff_right hflushes).symm⟩
      rw [hloop, List.takeWhile_cons_of_pos (by simpa using hflushes), List.foldl_cons]
    · simp [flushLoop, flushLogger, hflushes]

/-- Every logger is filed under its name, the default one too, and all pointers are to loggers that
were made. -/
structure Agrees (s : LogHub ErrHandler) : Prop where
  filed : Filed s.getName s.loggers
  default : ∀ d, s.defaultLogger = some d → ∃ e ∈ s.loggers, e.value = d
  values : ∀ e ∈ s.loggers, e.value < s.made
  views : ∀ e ∈ s.loggers, e.view < s.made
  held : ∀ l ∈ s.held, l < s.made

lemma Agrees.empty (levels : String → Option LogLevel) :
    Agrees (LogHub.empty levels : LogHub ErrHandler) where
  filed := Filed.nil
  default := by simp [LogHub.empty]
  values := by simp [LogHub.empty]
  views := by simp [LogHub.empty]
  held := by simp [LogHub.empty]

lemma Agrees.keeps (h : Agrees s) (hk : Keeps s s') : Agrees s' where
  filed := by
    rw [hk.loggers, hk.names]
    exact h.filed
  default := by
    rw [hk.loggers, hk.default]
    exact h.default
  values := by
    rw [hk.loggers, hk.made]
    exact h.values
  views := by
    rw [hk.loggers, hk.made]
    exact h.views
  held := by
    rw [hk.held, hk.made]
    exact h.held

lemma Agrees.found {name : String} (h : Agrees s) (hl : s.getLoggerByName name = some l) :
    ∃ e ∈ s.loggers, e.value = l ∧ s.getName l = name := by
  obtain ⟨e, hfind, rfl⟩ := Option.map_eq_some_iff.mp hl
  have hmem : e ∈ s.loggers := List.mem_of_find?_eq_some hfind
  have hkey : e.key s.getName = name := by simpa using List.find?_some hfind
  exact ⟨e, hmem, rfl, (h.filed.named e hmem).trans hkey⟩

lemma Agrees.getLoggerByName {e : Entry ℕ} (h : Agrees s) (he : e ∈ s.loggers) :
    s.getLoggerByName (s.getName e.value) = some e.value := by
  unfold LogHub.getLoggerByName
  rw [h.filed.find he]
  rfl

lemma Agrees.make (h : Agrees s) (name : String) (pool : Option ℕ) : Agrees (s.make name pool) where
  filed := h.filed.congr fun e he => by
    have hview := h.views e he
    have hvalue := h.values e he
    simp [LogHub.make, getName, Nat.ne_of_lt hview, Nat.ne_of_lt hvalue]
  default := h.default
  values e he := Nat.lt_succ_of_lt (h.values e he)
  views e he := Nat.lt_succ_of_lt (h.views e he)
  held l hl := by
    rcases List.mem_cons.mp hl with rfl | hl
    · exact Nat.lt_succ_self _
    · exact Nat.lt_succ_of_lt (h.held l hl)

lemma Agrees.giveUp (h : Agrees s) (l : ℕ) : Agrees (s.giveUp l) :=
  ⟨h.filed, h.default, h.values, h.views, fun i hi => h.held i (List.mem_of_mem_erase hi)⟩

lemma Agrees.hold (h : Agrees s) {found : Option ℕ} (hfound : ∀ l, found = some l → l < s.made) :
    Agrees (s.hold found) where
  filed := h.filed
  default := h.default
  values := h.values
  views := h.views
  held l hl := by
    rcases List.mem_append.mp hl with hl | hl
    · exact hfound l (Option.mem_toList.mp hl)
    · exact h.held l hl

lemma Agrees.lt_made {name : String} (h : Agrees s) (hl : s.getLoggerByName name = some l) :
    l < s.made := by
  obtain ⟨e, he, rfl, -⟩ := h.found hl
  exact h.values e he

lemma Agrees.default_lt (h : Agrees s) (hl : s.defaultLogger = some l) : l < s.made := by
  obtain ⟨e, he, rfl⟩ := h.default l hl
  exact h.values e he

/-- The same logger stays the default one, or there is none. -/
lemma Agrees.drop (h : Agrees s) (name : String) : Agrees (s.drop name) := by
  have hfiled : Filed s.getName (erase s.getName s.loggers name) := h.filed.erase
  have hvalues : ∀ e ∈ erase s.getName s.loggers name, e.value < s.made :=
    fun e he => h.values e (mem_erase.mp he).1
  have hviews : ∀ e ∈ erase s.getName s.loggers name, e.view < s.made :=
    fun e he => h.views e (mem_erase.mp he).1
  cases hd : s.defaultLogger with
  | none =>
    simp only [LogHub.drop, hd]
    exact ⟨hfiled, fun d hdef => by simp at hdef, hvalues, hviews, h.held⟩
  | some d =>
    simp only [LogHub.drop, hd]
    split
    · exact ⟨hfiled, fun d hdef => by simp at hdef, hvalues, hviews, h.held⟩
    · rename_i hname
      refine ⟨hfiled, fun d' hdef => ?_, hvalues, hviews, h.held⟩
      obtain rfl : d = d' := Option.some.inj hdef
      obtain ⟨e, he, rfl⟩ := h.default d hd
      have hkey : e.key s.getName ≠ name := fun hk => hname ((h.filed.named e he).trans hk)
      exact ⟨e, mem_erase.mpr ⟨he, hkey⟩, rfl⟩

lemma Agrees.dropAll (h : Agrees s) : Agrees s.dropAll where
  filed := Filed.nil
  default := by simp [LogHub.dropAll]
  values := by simp [LogHub.dropAll]
  views := by simp [LogHub.dropAll]
  held := h.held

/-- A logger is filed, and the default one is still there or is replaced by it. -/
lemma Agrees.assign (h : Agrees s) (hl : l < s.made) {d' : Option ℕ}
    (hd : ∀ d, d' = some d → d = l ∨ ∃ e ∈ s.loggers, e.value = d ∧ e.key s.getName ≠ s.getName l) :
    Agrees { s with loggers := assign s.getName s.loggers l, defaultLogger := d' } where
  filed := h.filed.assign
  default d hdef := by
    rcases hd d hdef with rfl | ⟨e, he, hval, hk⟩
    · exact exists_assign
    · exact ⟨e, mem_assign_of_ne he hk, hval⟩
  values e he := by
    rcases mem_assign he with ⟨hval, -⟩ | ⟨hmem, -⟩
    · exact hval ▸ hl
    · exact h.values e hmem
  views e he := by
    rcases view_assign he with hview | ⟨d, hmem, hview⟩
    · exact hview ▸ hl
    · exact hview ▸ h.views d hmem
  held := h.held

lemma doRegisterLogger_cases (s : LogHub ErrHandler) (l : ℕ) :
    (s.doRegisterLogger l).1 = s ∨ (∀ e ∈ s.loggers, e.key s.getName ≠ s.getName l) ∧
      (s.doRegisterLogger l).1 = { s with loggers := assign s.getName s.loggers l } := by
  by_cases hfound : (find s.getName s.loggers (s.getName l)).isSome
  · left
    simp [doRegisterLogger, throwIfExists, hfound]
  · right
    refine ⟨fun e he hk => hfound (find_isSome.mpr ⟨e, he, hk⟩), ?_⟩
    simp [doRegisterLogger, throwIfExists, hfound]

lemma Agrees.doRegisterLogger (h : Agrees s) (hl : l < s.made) :
    Agrees (s.doRegisterLogger l).1 := by
  rcases doRegisterLogger_cases s l with hsame | ⟨hfree, hnew⟩
  · rw [hsame]
    exact h
  · rw [hnew]
    refine h.assign hl fun d hd => Or.inr ?_
    obtain ⟨e, he, hval⟩ := h.default d hd
    exact ⟨e, he, hval, hfree e he⟩

lemma keeps_handSettings (s : LogHub ErrHandler) (l : ℕ) : Keeps s (s.handSettings l) := by
  have hlevel : ∀ (level : LogLevel) (s : LogHub ErrHandler),
      Keeps s (s.modify l (Logger.setLogLevel level)) := fun _ s => keeps_modify (by intro; rfl) s l
  have hflush : ∀ (level : LogLevel) (s : LogHub ErrHandler),
      Keeps s (s.modify l (Logger.setFlushLevel level)) := fun _ s => keeps_modify (by intro; rfl) s l
  unfold handSettings
  split
  · exact ((keeps_modify (by intro; rfl) s l).trans (hlevel _ _)).trans (hflush _ _)
  · exact (hlevel _ _).trans (hflush _ _)

lemma initializeLogger_cases (s : LogHub ErrHandler) (l : ℕ) :
    (s.initializeLogger l).1 = s.handSettings l ∨
      (s.initializeLogger l).1 = ((s.handSettings l).doRegisterLogger l).1 := by
  unfold LogHub.initializeLogger
  by_cases hauto : (s.handSettings l).automaticRegistration <;> simp [hauto]

lemma Agrees.initializeLogger (h : Agrees s) (hl : l < s.made) :
    Agrees (s.initializeLogger l).1 := by
  have hk : Keeps s (s.handSettings l) := keeps_handSettings s l
  have h' : Agrees (s.handSettings l) := h.keeps hk
  rcases initializeLogger_cases s l with heq | heq
  · rw [heq]
    exact h'
  · rw [heq]
    exact h'.doRegisterLogger (hk.made.symm ▸ hl)

/-- The hub after the old default logger has been taken out. -/
def withoutDefault (s : LogHub ErrHandler) : LogHub ErrHandler :=
  match s.defaultLogger with
  | some d => { s with loggers := erase s.getName s.loggers (s.getName d), defaultLogger := none }
  | none => { s with defaultLogger := none }

lemma Agrees.withoutDefault (h : Agrees s) : Agrees s.withoutDefault := by
  unfold LogHub.withoutDefault
  split
  · exact ⟨h.filed.erase, fun d hd => by simp at hd, fun e he => h.values e (mem_erase.mp he).1,
      fun e he => h.views e (mem_erase.mp he).1, h.held⟩
  · exact ⟨h.filed, fun d hd => by simp at hd, h.values, h.views, h.held⟩

lemma withoutDefault_names (s : LogHub ErrHandler) : s.withoutDefault.getName = s.getName := by
  unfold LogHub.withoutDefault
  split <;> rfl

lemma withoutDefault_made (s : LogHub ErrHandler) : s.withoutDefault.made = s.made := by
  unfold LogHub.withoutDefault
  split <;> rfl

lemma setDefaultLogger_none (s : LogHub ErrHandler) :
    s.setDefaultLogger none = s.withoutDefault := by
  cases hd : s.defaultLogger <;> simp [LogHub.setDefaultLogger, LogHub.withoutDefault, hd]

lemma setDefaultLogger_some (s : LogHub ErrHandler) (l : ℕ) : s.setDefaultLogger (some l) =
    { s.withoutDefault with
      loggers := assign s.withoutDefault.getName s.withoutDefault.loggers l
      defaultLogger := some l } := by
  cases hd : s.defaultLogger with
  | none =>
    simp only [LogHub.setDefaultLogger, LogHub.withoutDefault, hd]
    rfl
  | some d =>
    simp only [LogHub.setDefaultLogger, LogHub.withoutDefault, hd]
    rfl

lemma Agrees.setDefaultLogger (h : Agrees s) (hl : ∀ i, l' = some i → i < s.made) :
    Agrees (s.setDefaultLogger l') := by
  cases l' with
  | none =>
    rw [setDefaultLogger_none]
    exact h.withoutDefault
  | some i =>
    rw [setDefaultLogger_some]
    refine h.withoutDefault.assign ?_ fun d hd => Or.inl (Option.some.inj hd).symm
    rw [withoutDefault_made]
    exact hl i rfl

/-- The settings the program and the hub write are never the name. -/
lemma keeps_settings (s : LogHub ErrHandler) :
    (∀ level, Keeps s (s.setGlobalLevel level)) ∧ (∀ level, Keeps s (s.setGlobalFlushLevel level)) ∧
      (∀ handler, Keeps s (s.setErrHandler handler)) ∧ Keeps s s.flushAll.1 ∧
      ∀ l level, Keeps s (s.modify l (Logger.setLogLevel level)) := by
  refine ⟨fun level => ?_, fun level => ?_, fun handler => ?_, ?_, fun l level => ?_⟩
  · unfold LogHub.setGlobalLevel
    refine Keeps.trans ?_ (keeps_applyAll (by intro; rfl) _)
    exact ⟨rfl, rfl, rfl, rfl, rfl⟩
  · unfold LogHub.setGlobalFlushLevel
    refine Keeps.trans ?_ (keeps_applyAll (by intro; rfl) _)
    exact ⟨rfl, rfl, rfl, rfl, rfl⟩
  · unfold LogHub.setErrHandler
    refine Keeps.trans ?_ (keeps_applyAll (by intro; rfl) _)
    exact ⟨rfl, rfl, rfl, rfl, rfl⟩
  · rw [LogHub.flushAll, (flushLoop_eq s.loggers s).1]
    exact keeps_foldl (by intro; rfl) _ s
  · exact keeps_modify (by intro; rfl) s l

lemma shutdown_cases (s : LogHub ErrHandler) :
    s.shutdown.1 = s.flushAll.1.dropAll ∨ s.shutdown.1 = s.flushAll.1 := by
  unfold LogHub.shutdown
  split
  · rename_i hflush
    rw [hflush]
    exact Or.inl rfl
  · rename_i hflush
    rw [hflush]
    exact Or.inr rfl

theorem Agrees.step (h : Agrees s) (hstep : s.step op = some s') : Agrees s' := by
  obtain ⟨-, hgiven, rfl⟩ := step_cases hstep
  obtain ⟨hlevel, hflushLevel, herr, hflush, hset⟩ := keeps_settings s
  cases op with
  | make name pool => exact h.make name pool
  | giveUp l => exact h.giveUp l
  | makePool p => exact h.keeps ⟨rfl, rfl, rfl, rfl, rfl⟩
  | dropPool p => exact h.keeps ⟨rfl, rfl, rfl, rfl, rfl⟩
  | setLogLevel l level => exact h.keeps (hset l level)
  | registerLogger l => exact h.doRegisterLogger (h.held l (hgiven l (by simp [Op.given])))
  | initializeLogger l => exact h.initializeLogger (h.held l (hgiven l (by simp [Op.given])))
  | getLoggerByName name => exact h.hold fun l hl => h.lt_made hl
  | getDefaultLogger => exact h.hold fun l hl => h.default_lt hl
  | setDefaultLogger l =>
    exact h.setDefaultLogger fun i hi => h.held i (hgiven i (by simp [Op.given, hi]))
  | setGlobalLevel level => exact h.keeps (hlevel level)
  | setGlobalFlushLevel level => exact h.keeps (hflushLevel level)
  | flushAll => exact h.keeps hflush
  | setErrHandler handler => exact h.keeps (herr handler)
  | drop name => exact h.drop name
  | dropAll => exact h.dropAll
  | shutdown =>
    simp only [exec]
    rcases shutdown_cases s with heq | heq
    · rw [heq]
      exact (h.keeps hflush).dropAll
    · rw [heq]
      exact h.keeps hflush
  | setAutomaticRegistration b => exact h.keeps ⟨rfl, rfl, rfl, rfl, rfl⟩

/-- The hub keeps every name that its keys are views of, whatever pointers the program gives up. -/
def KeysKept (s : LogHub ErrHandler) : Prop := ({ s with held := [] } : LogHub ErrHandler).KeysAlive

lemma keysKept_iff (h : Agrees s) : s.KeysKept ↔ Own s.loggers := by
  constructor
  · intro hkept e he
    have hvalue : ∃ d ∈ s.loggers, d.value = e.view := by
      rcases hkept e he with hl | hl | hl
      · exact absurd hl List.not_mem_nil
      · exact hl
      · exact h.default e.view hl
    obtain ⟨d, hd, hval⟩ := hvalue
    have hkey : d.key s.getName = e.key s.getName := by
      have hname := h.filed.named d hd
      rw [hval] at hname
      exact hname.symm
    obtain rfl := h.filed.unique hd he hkey
    exact hval.symm
  · intro hown e he
    exact Or.inr (Or.inl ⟨e, he, (hown e he).symm⟩)

/-- The one call that can leave a key in the name of a logger which the hub lets go of: making a
logger the default one while another, not the default one, is registered under its name. -/
def Safe (s : LogHub ErrHandler) : Op ErrHandler → Prop
  | .setDefaultLogger (some l) => ∀ r, s.getLoggerByName (s.getName l) = some r →
      r = l ∨ s.defaultLogger = some r
  | _ => True

lemma own_doRegisterLogger (h : Own s.loggers) (l : ℕ) : Own (s.doRegisterLogger l).1.loggers := by
  rcases doRegisterLogger_cases s l with hsame | ⟨hfree, hnew⟩
  · rwa [hsame]
  · rw [hnew]
    exact (own_assign h).mpr fun e he hk => absurd hk (hfree e he)

lemma own_withoutDefault (h : Own s.loggers) : Own s.withoutDefault.loggers := by
  unfold LogHub.withoutDefault
  split
  · exact h.erase
  · exact h

/-- Only the entry of the old default logger is taken out. -/
lemma mem_withoutDefault (h : Agrees s) {e : Entry ℕ} :
    e ∈ s.withoutDefault.loggers ↔ e ∈ s.loggers ∧ s.defaultLogger ≠ some e.value := by
  cases hd : s.defaultLogger with
  | none => simp [LogHub.withoutDefault, hd]
  | some d =>
    simp only [LogHub.withoutDefault, hd, mem_erase]
    refine and_congr_right fun he => not_congr ?_
    constructor
    · intro hk
      obtain ⟨e', he', rfl⟩ := h.default d hd
      have hkey := h.filed.unique he he' (hk.trans (h.filed.named e' he'))
      rw [hkey]
    · intro hval
      rw [← h.filed.named e he, Option.some.inj hval]

lemma own_setDefaultLogger (h : Agrees s) (hown : Own s.loggers) :
    Own (s.setDefaultLogger (some l)).loggers ↔ Safe s (.setDefaultLogger (some l)) := by
  rw [setDefaultLogger_some]
  refine (own_assign (own_withoutDefault hown)).trans ?_
  rw [withoutDefault_names]
  constructor
  · intro hfree r hr
    obtain ⟨e, he, rfl, hname⟩ := h.found hr
    by_cases hd : s.defaultLogger = some e.value
    · exact Or.inr hd
    · exact Or.inl (hfree e ((mem_withoutDefault h).mpr ⟨he, hd⟩) ((h.filed.named e he).symm.trans hname))
  · intro hsafe e he hk
    obtain ⟨hmem, hd⟩ := (mem_withoutDefault h).mp he
    have hfound := h.getLoggerByName hmem
    rw [h.filed.named e hmem, hk] at hfound
    exact (hsafe e.value hfound).resolve_right hd

lemma own_drop (h : Own s.loggers) (name : String) : Own (s.drop name).loggers := by
  have herase : Own (erase s.getName s.loggers name) := h.erase
  cases hd : s.defaultLogger with
  | none => simpa only [LogHub.drop, hd] using herase
  | some d =>
    simp only [LogHub.drop, hd]
    split
    · exact herase
    · exact herase

lemma own_exec (h : Agrees s) (hown : Own s.loggers) (op : Op ErrHandler) :
    Own (s.exec op).loggers ↔ Safe s op := by
  obtain ⟨hlevel, hflushLevel, herr, hflush, -⟩ := keeps_settings s
  have hsame : ∀ {s'}, Keeps s s' → Own s'.loggers := fun hk => hk.loggers.symm ▸ hown
  cases op with
  | setDefaultLogger l =>
    cases l with
    | none =>
      simp only [exec, setDefaultLogger_none, Safe, iff_true]
      exact own_withoutDefault hown
    | some l => exact own_setDefaultLogger h hown
  | make name pool => exact iff_of_true hown trivial
  | giveUp l => exact iff_of_true hown trivial
  | makePool p => exact iff_of_true hown trivial
  | dropPool p => exact iff_of_true hown trivial
  | setLogLevel l level => exact iff_of_true hown trivial
  | registerLogger l => exact iff_of_true (own_doRegisterLogger hown l) trivial
  | initializeLogger l =>
    refine iff_of_true ?_ trivial
    have hset : Own (s.handSettings l).loggers := hsame (keeps_handSettings s l)
    simp only [exec]
    rcases initializeLogger_cases s l with heq | heq
    · rwa [heq]
    · rw [heq]
      exact own_doRegisterLogger hset l
  | getLoggerByName name => exact iff_of_true hown trivial
  | getDefaultLogger => exact iff_of_true hown trivial
  | setGlobalLevel level => exact iff_of_true (hsame (hlevel level)) trivial
  | setGlobalFlushLevel level => exact iff_of_true (hsame (hflushLevel level)) trivial
  | flushAll => exact iff_of_true (hsame hflush) trivial
  | setErrHandler handler => exact iff_of_true (hsame (herr handler)) trivial
  | drop name => exact iff_of_true (own_drop hown name) trivial
  | dropAll => exact iff_of_true Own.nil trivial
  | shutdown =>
    refine iff_of_true ?_ trivial
    simp only [exec]
    rcases shutdown_cases s with heq | heq
    · rw [heq]
      exact Own.nil
    · rw [heq]
      exact hsame hflush
  | setAutomaticRegistration b => exact iff_of_true hown trivial

/-- The hub and the program around it, from a hub whose configuration gives some levels by name. -/
def registry (levels : String → Option LogLevel) :
    Transition.System (LogHub ErrHandler) (Op ErrHandler) where
  init s := s = empty levels
  step s op t := s.step op = some t

lemma Agrees.of_traces {levels : String → Option LogLevel} {ops : List (Op ErrHandler)}
    (h : Transition.Traces (registry levels) ops s) : Agrees s :=
  h.induction (I := fun _ s => Agrees s) (fun _ hs => hs ▸ Agrees.empty levels)
    fun _ _ _ _ hs hstep => hs.step hstep

end LogHub

open LogHub

/-- In every run, the keys of the registry stay in names that the hub itself keeps, after every
step of it, exactly when no call of the run makes a logger the default one under a name at which
another logger, not the default one, is registered. -/
theorem keys_kept {levels : String → Option LogLevel} {ops : List (Op ErrHandler)}
    {s : LogHub ErrHandler} (h : Transition.Traces (registry levels) ops s) :
    Transition.Along (registry levels) (fun _ _ t => KeysKept t) ops ↔
      Transition.Traces ((registry levels).restrict Safe) ops s := by
  refine h.along_iff (I := fun s => Agrees s ∧ Own s.loggers) ?_ ?_ ?_ ?_ ?_
  · intro s t hs ht
    exact hs.trans ht.symm
  · intro s op t u ht hu
    exact Option.some.inj (ht.symm.trans hu)
  · intro s hs
    subst hs
    exact ⟨Agrees.empty levels, Own.nil⟩
  · intro s op t hs hstep
    have hagrees : Agrees t := hs.1.step hstep
    obtain ⟨-, -, rfl⟩ := step_cases hstep
    exact (keysKept_iff hagrees).trans (own_exec hs.1 hs.2 op)
  · intro s op t hs hsafe hstep
    have hagrees : Agrees t := hs.1.step hstep
    obtain ⟨-, -, rfl⟩ := step_cases hstep
    exact ⟨hagrees, (own_exec hs.1 hs.2 op).mpr hsafe⟩

/-- The second logger of a name takes the place of the first, whose name the key is still a view of. -/
theorem keys_kept_default :
    ∃ s, Transition.Traces (registry fun _ => none : Transition.System (LogHub Unit) (Op Unit))
        [.make "default" none, .registerLogger 0, .make "default" none, .setDefaultLogger (some 1)] s ∧
      ¬Transition.Along (registry fun _ => none : Transition.System (LogHub Unit) (Op Unit))
        (fun _ _ t => KeysKept t)
        [.make "default" none, .registerLogger 0, .make "default" none, .setDefaultLogger (some 1)] := by
  obtain ⟨s, hrun⟩ : ∃ s, (LogHub.empty fun _ => none : LogHub Unit).run
      [.make "default" none, .registerLogger 0, .make "default" none, .setDefaultLogger (some 1)] = some s :=
    ⟨_, rfl⟩
  have htrace : Transition.Traces (registry fun _ => none : Transition.System (LogHub Unit) (Op Unit))
      [.make "default" none, .registerLogger 0, .make "default" none, .setDefaultLogger (some 1)] s :=
    Transition.Traces.of_foldlM (S := registry fun _ => none) (fun _ _ _ hstep => hstep) (.nil rfl) hrun
  refine ⟨s, htrace, fun halong => ?_⟩
  obtain ⟨t, hfirst⟩ : ∃ t, (LogHub.empty fun _ => none : LogHub Unit).run
      [.make "default" none, .registerLogger 0, .make "default" none] = some t ∧
        t.getLoggerByName (t.getName 1) = some 0 ∧ t.defaultLogger = none := ⟨_, rfl, rfl, rfl⟩
  have htrace' : Transition.Traces (registry fun _ => none : Transition.System (LogHub Unit) (Op Unit))
      [.make "default" none, .registerLogger 0, .make "default" none] t :=
    Transition.Traces.of_foldlM (S := registry fun _ => none) (fun _ _ _ hstep => hstep) (.nil rfl) hfirst.1
  obtain ⟨u, hu, hsafe, -⟩ := @Transition.Traces.snoc_inv _ _ _ [_, _, _] (Op.setDefaultLogger (some 1)) _
    ((keys_kept htrace).mp halong)
  have hsame : u = t := by
    refine Transition.Traces.unique ?_ ?_ hu.of_restrict htrace'
    · intro s t hs ht
      exact hs.trans ht.symm
    · intro s op t u ht hu
      exact Option.some.inj (ht.symm.trans hu)
  subst hsame
  rcases hsafe 0 hfirst.2.1 with h | h
  · cases h
  · rw [hfirst.2.2] at h
    cases h

end TyphoonZero.Log
