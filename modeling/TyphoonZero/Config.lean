import Mathlib.Tactic

/-! The configuration manager: a file is read and parsed into a document, whose members the
getters look up. -/
namespace TyphoonZero.Config

abbrev Text := List Char

/-- A document; `F` are the floating-point numbers. -/
inductive Json (F : Type)
  | null
  | bool (b : Bool)
  | string (strv : Text)
  | int (n : ℤ)
  | double (x : F)
  | array (values : List (Json F))
  | object (members : List (Text × Json F))

inductive GetFault
  | loadBefore
  | notObject
  | wrongType
  deriving DecidableEq

structure ConfigMgr (F : Type) where
  path : Text := []
  args : List Text := []
  document : Json F := .null

/-- The file system as the manager finds it. A path without characters is no file. -/
structure FileSystem where
  absolute : Text → Except Text Text
  fopen : Text → Option Text
  fileSize : Text → Except Text ℕ
  allocate : ℕ → Except Text Unit
  fileSize_nil : ∃ what, fileSize [] = .error what

inductive ReadFault
  | caught (what : Text)
  | threw (what : Text)
  | assertion

inductive Outcome
  | loaded
  | failed (message : Text)
  | threw (what : Text)
  | assertion

/-- The contents of the file. The path is made absolute outside of the `try` block. -/
def FileSystem.read (fs : FileSystem) (path : Text) : Except ReadFault Text :=
  match fs.absolute path with
  | .error what => .error (.threw what)
  | .ok jsonFile =>
    let fp := fs.fopen jsonFile
    match fs.fileSize path with
    | .error what => .error (.caught what)
    | .ok len =>
      match fs.allocate (len + 1) with
      | .error what => .error (.caught what)
      | .ok () =>
        match fp with
        | none => .error .assertion
        | some contents => if len + 1 < 4 then .error .assertion else .ok contents

namespace ConfigMgr
variable {F : Type} (parse : Text → Option (Json F)) (fs : FileSystem) (s : ConfigMgr F)

def load (path : Text) (args : List Text) (reload : Bool) : Outcome × ConfigMgr F :=
  let s := if reload then s else { s with path := path, args := args }
  match fs.read path with
  | .error (.caught what) => (.failed (what ++ " (".toList ++ s.path ++ ") ".toList), s)
  | .error (.threw what) => (.threw what, s)
  | .error .assertion => (.assertion, s)
  | .ok contents =>
    match parse contents with
    | none => (.failed ("parse error (".toList ++ s.path ++ ") ".toList), { s with document := .null })
    | some document => (.loaded, { s with document := document })

def reload : Outcome × ConfigMgr F := s.load parse fs [] [] true

/-- A member of the type that the getter is for, else the default if there is no member. -/
def getDefault {V : Type} (typed : Json F → Option V) (key : Text) (default : V) : Except GetFault V :=
  match s.document with
  | .null => .error .loadBefore
  | .object members =>
    match members.lookup key with
    | none => .ok default
    | some member =>
      match typed member with
      | none => .error .wrongType
      | some value => .ok value
  | _ => .error .notObject

def asString : Json F → Option Text
  | .string strv => some strv
  | _ => none

def asBool : Json F → Option Bool
  | .bool b => some b
  | _ => none

def asInteger (lo hi : ℤ) : Json F → Option ℤ
  | .int n => if lo ≤ n ∧ n < hi then some n else none
  | _ => none

def asDouble (inRange : F → Bool) : Json F → Option F
  | .double x => if inRange x then some x else none
  | _ => none

def getStringDefault := s.getDefault asString

def getBoolDefault := s.getDefault asBool

def getI32Default := s.getDefault (asInteger (-2 ^ 31) (2 ^ 31))

def getI64Default := s.getDefault (asInteger (-2 ^ 63) (2 ^ 63))

def getU32Default := s.getDefault (asInteger 0 (2 ^ 32))

def getU64Default := s.getDefault (asInteger 0 (2 ^ 64))

/-- A number in the range of `float`, which is narrowed to it. -/
def getFloatDefault (inRange : F → Bool) (narrow : F → F) :=
  s.getDefault fun value => (asDouble inRange value).map narrow

def getDoubleDefault := s.getDefault (asDouble fun _ => true)

/-- The results of all getters are the same. -/
structure SameGetters (s t : ConfigMgr F) : Prop where
  string : t.getStringDefault = s.getStringDefault
  bool : t.getBoolDefault = s.getBoolDefault
  i32 : t.getI32Default = s.getI32Default
  i64 : t.getI64Default = s.getI64Default
  u32 : t.getU32Default = s.getU32Default
  u64 : t.getU64Default = s.getU64Default
  float : t.getFloatDefault = s.getFloatDefault
  double : t.getDoubleDefault = s.getDoubleDefault

structure SameResults (s t : ConfigMgr F) : Prop extends SameGetters s t where
  path : t.path = s.path
  args : t.args = s.args

inductive Op
  | load (path : Text) (args : List Text)
  | reload

def run : Op → Outcome × ConfigMgr F
  | .load path args => s.load parse fs path args false
  | .reload => s.reload parse fs

end ConfigMgr

/-- The manager, with the path and the contents of the last file that a load has loaded. -/
structure Site (F : Type) where
  mgr : ConfigMgr F := {}
  file : Option (Text × Text) := none

namespace ConfigMgr
variable {F : Type} (parse : Text → Option (Json F)) (fs : FileSystem) (h : Site F)

def file (file : Option (Text × Text)) : Op → Outcome → Option (Text × Text)
  | .load path _, .loaded => (fs.read path).toOption.map fun contents => (path, contents)
  | _, _ => file

def exec (op : Op) : Outcome × Site F :=
  let r := h.mgr.run parse fs op
  (r.1, ⟨r.2, file fs h.file op r.1⟩)

/-- A call that returns an error changes no result. A reload of the file that was loaded, when that has
not changed, returns no error and changes no getter. -/
structure Atomic (op : Op) : Prop where
  failed : ∀ message, (exec parse fs h op).1 = .failed message → SameResults h.mgr (exec parse fs h op).2.mgr
  reloads : op = .reload → ∀ path contents, h.file = some (path, contents) → fs.read path = .ok contents →
    (exec parse fs h op).1 = .loaded ∧ SameGetters h.mgr (exec parse fs h op).2.mgr

/-- A load keeps the results only if it fails with the path and the arguments that are stored already,
and parses nothing while a document is loaded; nothing is expected of a reload only if there is no loaded
file that it could read again. -/
def KeepsResults : Op → Prop
  | .reload => ∀ path contents, h.file = some (path, contents) → fs.read path ≠ .ok contents
  | .load path args =>
    match fs.read path with
    | .error (.caught _) => path = h.mgr.path ∧ args = h.mgr.args
    | .error (.threw _) => True
    | .error .assertion => True
    | .ok contents =>
      parse contents = none → h.mgr.document = .null ∧ path = h.mgr.path ∧ args = h.mgr.args

section
variable {parse fs h} {s t : ConfigMgr F}

lemma getDefault_congr {V : Type} {typed : Json F → Option V} (h : t.document = s.document) :
    t.getDefault typed = s.getDefault typed := by
  unfold getDefault
  rw [h]

lemma sameGetters_of_document (h : t.document = s.document) : SameGetters s t := by
  refine ⟨?_, ?_, ?_, ?_, ?_, ?_, ?_, ?_⟩
  · exact getDefault_congr h
  · exact getDefault_congr h
  · exact getDefault_congr h
  · exact getDefault_congr h
  · exact getDefault_congr h
  · exact getDefault_congr h
  · funext inRange narrow
    exact getDefault_congr h
  · exact getDefault_congr h

lemma getDefault_loadBefore_iff {V : Type} {typed : Json F → Option V} {key : Text} {default : V} :
    s.getDefault typed key default = .error .loadBefore ↔ s.document = .null := by
  unfold getDefault
  cases s.document with
  | null => exact iff_of_true rfl rfl
  | object members =>
    dsimp only
    cases members.lookup key with
    | none => simp
    | some member =>
      dsimp only
      cases typed member <;> simp
  | _ => simp

/-- The getters tell whether a document is loaded. -/
lemma sameGetters_null_iff (h : t.document = .null) : SameGetters s t ↔ s.document = .null := by
  constructor
  · intro hsame
    have hnull := (@getDefault_loadBefore_iff _ t _ asBool [] false).mpr h
    have hbool : t.getDefault asBool = s.getDefault asBool := hsame.bool
    rw [hbool] at hnull
    exact getDefault_loadBefore_iff.mp hnull
  · exact fun hs => sameGetters_of_document (h.trans hs.symm)

/-- A reload looks for the path without characters. -/
lemma reload_eq (parse : Text → Option (Json F)) (fs : FileSystem) (s : ConfigMgr F) :
    ∃ outcome, s.reload parse fs = (outcome, s) ∧ outcome ≠ .loaded := by
  obtain ⟨what, hsize⟩ := fs.fileSize_nil
  unfold reload load FileSystem.read
  cases fs.absolute [] with
  | error what => exact ⟨_, rfl, nofun⟩
  | ok jsonFile =>
    dsimp only
    rw [hsize]
    exact ⟨_, rfl, nofun⟩

lemma sameResults_stored {path : Text} {args : List Text} :
    SameResults s { s with path := path, args := args } ↔ path = s.path ∧ args = s.args :=
  ⟨fun h => ⟨h.path, h.args⟩, fun h => ⟨sameGetters_of_document rfl, h.1, h.2⟩⟩

/-- A load that returns no error promises nothing. -/
lemma atomic_load_of_run {path : Text} {args : List Text}
    (hfailed : ∀ message, (h.mgr.load parse fs path args false).1 ≠ .failed message) :
    Atomic parse fs h (.load path args) :=
  ⟨fun message hmessage => absurd hmessage (hfailed message), nofun⟩

lemma atomic_failed_iff {path : Text} {args : List Text} {message : Text}
    (hrun : h.mgr.load parse fs path args false = (.failed message, t)) :
    Atomic parse fs h (.load path args) ↔ SameResults h.mgr t := by
  have hexec : (exec parse fs h (.load path args)).2.mgr = t := congrArg Prod.snd hrun
  constructor
  · intro hatomic
    have hsame := hatomic.failed message (congrArg Prod.fst hrun)
    rwa [hexec] at hsame
  · intro hsame
    refine ⟨fun _ _ => ?_, nofun⟩
    rwa [hexec]

lemma atomic_reload_iff : Atomic parse fs h .reload ↔ KeepsResults parse fs h .reload := by
  obtain ⟨outcome, heq, hne⟩ := reload_eq parse fs h.mgr
  have hrun : h.mgr.run parse fs .reload = (outcome, h.mgr) := heq
  have hfst : (exec parse fs h .reload).1 = outcome := congrArg Prod.fst hrun
  have hmgr : (exec parse fs h .reload).2.mgr = h.mgr := congrArg Prod.snd hrun
  constructor
  · intro hatomic path contents hfile hread
    have hloaded := (hatomic.reloads rfl path contents hfile hread).1
    exact hne (hfst.symm.trans hloaded)
  · intro hkeeps
    refine ⟨fun _ _ => ?_, fun _ path contents hfile hread => absurd hread (hkeeps path contents hfile)⟩
    rw [hmgr]
    exact ⟨sameGetters_of_document rfl, rfl, rfl⟩

lemma atomic_load_iff (path : Text) (args : List Text) :
    Atomic parse fs h (.load path args) ↔ KeepsResults parse fs h (.load path args) := by
  have hrun : h.mgr.load parse fs path args false = h.mgr.load parse fs path args false := rfl
  conv_rhs at hrun => unfold load
  simp only [Bool.false_eq_true, if_false] at hrun
  dsimp only [KeepsResults]
  cases hread : fs.read path with
  | error fault =>
    rw [hread] at hrun
    cases fault with
    | caught what => exact (atomic_failed_iff hrun).trans sameResults_stored
    | threw what => exact iff_of_true (atomic_load_of_run (by rw [hrun]; exact fun _ => nofun)) trivial
    | assertion => exact iff_of_true (atomic_load_of_run (by rw [hrun]; exact fun _ => nofun)) trivial
  | ok contents =>
    rw [hread] at hrun
    dsimp only at hrun ⊢
    cases hparse : parse contents with
    | none =>
      rw [hparse] at hrun
      rw [atomic_failed_iff hrun]
      simp only [true_imp_iff]
      constructor
      · exact fun hsame => ⟨(sameGetters_null_iff rfl).mp hsame.toSameGetters, hsame.path, hsame.args⟩
      · exact fun hsame => ⟨(sameGetters_null_iff rfl).mpr hsame.1, hsame.2.1, hsame.2.2⟩
    | some document =>
      rw [hparse] at hrun
      exact iff_of_true (atomic_load_of_run (by rw [hrun]; exact fun _ => nofun)) nofun

end

/-- There is one file, with an object that has no members. -/
def oneFile : FileSystem where
  absolute path := .ok ('/' :: path)
  fopen path := if path = "/a".toList then some "{  }".toList else none
  fileSize path := if path = "a".toList then .ok 4 else .error "No such file or directory".toList
  allocate _ := .ok ()
  fileSize_nil := ⟨_, rfl⟩

/-- The manager after the file was loaded. -/
def loadedFile : Site Unit := (exec (fun _ => some (.object [])) oneFile {} (.load "a".toList [])).2

end ConfigMgr
end TyphoonZero.Config
