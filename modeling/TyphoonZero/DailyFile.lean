import TyphoonZero.CircularQueueRun
import TyphoonZero.PackedTime

/-! The daily log file: one file for each calendar day, a time of day at which the next one is
opened, and a queue of the files that are kept. -/
namespace TyphoonZero.Log
open Calendar CircularQueue
open ByteBuffer (Zone Tm epoch)

abbrev Text := List Char

section Names

/-- `{:0w}`: the sign and the digits of a number, with zeros between them up to the width. -/
def padded (width : ℕ) (n : ℤ) : Text :=
  let sign : Text := if n < 0 then ['-'] else []
  let digits := Nat.toDigits 10 n.natAbs
  sign ++ (List.replicate (width - sign.length - digits.length) '0' ++ digits)

def rfind (path : Text) (ch : Char) : Option ℕ := (path.reverse.findIdx? (· = ch)).map (path.length - 1 - ·)

/-- A dot at either end, or one that begins the name of a file, begins no extension. -/
def splitByExtension (path : Text) : Text × Text :=
  match rfind path '.' with
  | none => (path, [])
  | some exist =>
    if exist = 0 ∨ exist = path.length - 1 then (path, [])
    else match rfind path '/' with
      | none => (path.take exist, path.drop exist)
      | some folderIndex => if folderIndex ≥ exist - 1 then (path, []) else (path.take exist, path.drop exist)

def calcFilename (filename : Text) (nowTm : Tm) : Text :=
  let (basename, ext) := splitByExtension filename
  basename ++ ('_' :: padded 4 (nowTm.year + 1900) ++
    ('-' :: padded 2 (nowTm.mon + 1) ++ ('-' :: padded 2 nowTm.mday ++ ext)))

end Names

/-- The clock counts nanoseconds; a day has 24 hours. -/
abbrev nanosPerSecond : ℤ := 1000000000

abbrev nanosPerDay : ℤ := 86400 * nanosPerSecond

/-- The whole seconds; how a time is rounded is open in the standard, and one before 1970 is rounded down here. -/
def toTimeT (time : ℤ) : ℤ := time / nanosPerSecond

def fromTimeT (time : ℤ) : ℤ := time * nanosPerSecond

structure AppenderDailyFile where
  baseName : Text
  rotationH : ℤ
  rotationM : ℤ
  rotationTp : ℤ
  maxFiles : ℕ
  helperPath : Text
  pathQ : CircularQueue Text := {}

/-- The appender, the files that exist and the clock at the last call. -/
structure Logging where
  appender : AppenderDailyFile
  files : Text → Bool
  now : ℤ

inductive DailyFault
  | rotationTime
  | queue (fault : Fault)

def liftQueue {α : Type} : Except Fault α → Except DailyFault α
  | .ok a => .ok a
  | .error fault => .error (.queue fault)

section
variable (z : Zone)

def nextRotationTp (rotationH rotationM now : ℤ) : ℤ :=
  let date := z.localtime (toTimeT now)
  let rotationTime := fromTimeT (z.mktime { date with hour := rotationH, min := rotationM, sec := 0 })
  if rotationTime > now then rotationTime else rotationTime + nanosPerDay

/-- The files of the last days, from today on back to the first one that does not exist. -/
def existing (files : Text → Bool) (baseName : Text) : ℕ → ℤ → List Text
  | 0, _ => []
  | n + 1, now =>
    let filename := calcFilename baseName (z.localtime (toTimeT now))
    if files filename then filename :: existing files baseName n (now - nanosPerDay) else []

/-- `Init`: the oldest file is put in first. -/
def init (files : Text → Bool) (baseName : Text) (maxFiles : ℕ) (now : ℤ) :
    Except Fault (CircularQueue Text) := do
  let pathQ ← CircularQueue.new maxFiles
  (existing z files baseName maxFiles now).reverse.foldlM CircularQueue.enQueue pathQ

/-- The constructor. It reads the clock for the name of the file, for the next rotation and in `Init`; a file that is
opened exists. -/
def create (files : Text → Bool) (baseName : Text) (rotationH rotationM : ℤ) (maxFiles : ℕ)
    (opening rotation now : ℤ) : Except DailyFault Logging := do
  if rotationH < 0 ∨ rotationH > 23 ∨ rotationM < 0 ∨ rotationM > 59 then .error .rotationTime
  let filename := calcFilename baseName (z.localtime (toTimeT opening))
  let files := Function.update files filename true
  let pathQ ← if maxFiles > 0 then liftQueue (init z files baseName maxFiles now) else pure {}
  pure { appender :=
           { baseName := baseName, rotationH := rotationH, rotationM := rotationM,
             rotationTp := nextRotationTp z rotationH rotationM rotation, maxFiles := maxFiles,
             helperPath := filename, pathQ := pathQ },
         files := files, now := now }

/-- Removals succeed. -/
def deleteOld (s : Logging) : Except DailyFault Logging := do
  let full ← liftQueue s.appender.pathQ.isFull
  if full then
    let oldFilename ← liftQueue s.appender.pathQ.getFront
    let pathQ ← liftQueue s.appender.pathQ.deQueue
    let pathQ ← liftQueue (pathQ.enQueue s.appender.helperPath)
    pure { s with
      appender := { s.appender with pathQ := pathQ }
      files := oldFilename.elim s.files fun path => Function.update s.files path false }
  else
    let pathQ ← liftQueue (s.appender.pathQ.enQueue s.appender.helperPath)
    pure { s with appender := { s.appender with pathQ := pathQ } }

/-- The time of the message is the clock at the call; for the next rotation the clock is read again. -/
def doLog (s : Logging) (time rotation : ℤ) : Except DailyFault Logging :=
  let s := { s with now := time }
  if time ≥ s.appender.rotationTp then
    let filename := calcFilename s.appender.baseName (z.localtime (toTimeT time))
    let s := { s with
      files := Function.update s.files filename true
      appender := { s.appender with
        helperPath := filename
        rotationTp := nextRotationTp z s.appender.rotationH s.appender.rotationM rotation } }
    if s.appender.maxFiles > 0 then deleteOld s else .ok s
  else .ok s

end

section Names

lemma padded_digits {n : ℤ} (h : 0 ≤ n) (width : ℕ) : ∀ ch ∈ padded width n, ch.isDigit = true := by
  intro ch hch
  unfold padded at hch
  rw [if_neg (not_lt.mpr h)] at hch
  rcases List.mem_append.mp hch with hch | hch
  · cases hch
  · rcases List.mem_append.mp hch with hch | hch
    · rw [List.eq_of_mem_replicate hch]
      rfl
    · exact Nat.isDigit_of_mem_toDigits (by decide) (by decide) hch

lemma ofDigitChars_padded (k n : ℕ) :
    Nat.ofDigitChars 10 (List.replicate k '0' ++ Nat.toDigits 10 n) 0 = n := by
  rw [Nat.ofDigitChars_append, Nat.ofDigitChars_replicate_zero, Nat.mul_zero, Nat.ofDigitChars_ten_toDigits]

lemma padded_neg {n : ℤ} (h : n < 0) (width : ℕ) :
    ∃ k, padded width n = '-' :: (List.replicate k '0' ++ Nat.toDigits 10 n.natAbs) := by
  unfold padded
  rw [if_pos h]
  exact ⟨_, rfl⟩

lemma padded_nonneg {n : ℤ} (h : 0 ≤ n) (width : ℕ) :
    padded width n = List.replicate (width - (Nat.toDigits 10 n.natAbs).length) '0' ++ Nat.toDigits 10 n.natAbs := by
  unfold padded
  rw [if_neg (not_lt.mpr h)]
  rfl

/-- Sign and digits give the number back. -/
lemma padded_injective {width : ℕ} {n m : ℤ} (h : padded width n = padded width m) : n = m := by
  have hsign : ∀ a b : ℤ, a < 0 → 0 ≤ b → padded width a ≠ padded width b := by
    intro a b ha hb heq
    obtain ⟨k, hk⟩ := padded_neg ha width
    have hminus : '-' ∈ padded width b := by
      rw [← heq, hk]
      exact List.mem_cons_self
    exact absurd (padded_digits hb width '-' hminus) (by decide)
  rcases lt_or_ge n 0 with hn | hn <;> rcases lt_or_ge m 0 with hm | hm
  · obtain ⟨k, hk⟩ := padded_neg hn width
    obtain ⟨l, hl⟩ := padded_neg hm width
    rw [hk, hl] at h
    have habs := congrArg (fun text => Nat.ofDigitChars 10 text 0) (List.cons.inj h).2
    simp only [ofDigitChars_padded] at habs
    omega
  · exact absurd h (hsign n m hn hm)
  · exact absurd h.symm (hsign m n hm hn)
  · rw [padded_nonneg hn, padded_nonneg hm] at h
    have habs := congrArg (fun text => Nat.ofDigitChars 10 text 0) h
    simp only [ofDigitChars_padded] at habs
    omega

lemma length_padded_two {n : ℤ} (h : 0 ≤ n) (hlt : n < 100) : (padded 2 n).length = 2 := by
  have hle := (Nat.length_toDigits_le_iff (b := 10) (n := n.natAbs) (k := 2) (by decide) (by decide)).mpr (by omega)
  rw [padded_nonneg h, List.length_append, List.length_replicate]
  omega

/-- Two days have two names. -/
lemma calcFilename_inj {filename : Text} {a b : Tm} (hamon : 0 ≤ a.mon ∧ a.mon < 12)
    (hbmon : 0 ≤ b.mon ∧ b.mon < 12) (haday : 1 ≤ a.mday ∧ a.mday ≤ 31) (hbday : 1 ≤ b.mday ∧ b.mday ≤ 31)
    (h : calcFilename filename a = calcFilename filename b) :
    a.year = b.year ∧ a.mon = b.mon ∧ a.mday = b.mday := by
  have hamon2 := @length_padded_two (a.mon + 1) (by omega) (by omega)
  have hbmon2 := @length_padded_two (b.mon + 1) (by omega) (by omega)
  have haday2 := @length_padded_two a.mday (by omega) (by omega)
  have hbday2 := @length_padded_two b.mday (by omega) (by omega)
  unfold calcFilename at h
  have htext := List.append_cancel_left h
  obtain ⟨hyear, hrest⟩ := List.append_inj' htext (by
    simp only [List.length_append, List.length_cons]
    omega)
  obtain ⟨hmon, hday⟩ := List.append_inj' (List.cons.inj hrest).2 (by
    simp only [List.length_append, List.length_cons]
    omega)
  have hday' := List.append_cancel_right (List.cons.inj hday).2
  have hy := padded_injective (List.cons.inj hyear).2
  have hm := padded_injective hmon
  exact ⟨by omega, by omega, padded_injective hday'⟩

end Names
end TyphoonZero.Log
