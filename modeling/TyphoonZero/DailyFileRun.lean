import TyphoonZero.DailyFile

/-! The files that the daily log keeps, over whole runs. -/
namespace TyphoonZero.Log
open Transition Calendar CircularQueue
open ByteBuffer (Zone Tm epoch)

section
variable (z : Zone)

/-- The calendar day of a time, counted from 1970. -/
def dayOf (time : ℤ) : ℤ := (toTimeT time + z.offset) / 86400

/-- The date alone. -/
def dateTm (day : ℤ) : Tm :=
  let date := ofDays (day + epoch)
  { min := 0, hour := 0, mday := date.day, mon := date.month, year := date.year - 1900 }

def fileOf (baseName : Text) (day : ℤ) : Text := calcFilename baseName (dateTm day)

/-- The queue holds the files of the days, the oldest first; they exist, and the last one is written. -/
structure Tracked (s : Logging) (days : List ℤ) : Prop where
  queue : Represents s.appender.pathQ
    { bound := s.appender.maxFiles, items := days.map (fileOf s.appender.baseName) }
  ordered : days.Pairwise (· < ·)
  exist : ∀ day ∈ days, s.files (fileOf s.appender.baseName day) = true
  written : ∃ day, days.getLast? = some day ∧ s.appender.helperPath = fileOf s.appender.baseName day ∧
    day ≤ dayOf z s.now

/-- The file being written exists and is tracked, at most `maxFiles` are, without repetition and oldest first. -/
structure Retains (s : Logging) : Prop where
  tracked : ∃ days, Tracked z s days ∧ days.length ≤ s.appender.maxFiles ∧
    s.appender.helperPath ∈ days.map (fileOf s.appender.baseName)
  written : s.files s.appender.helperPath = true

/-- Only the oldest tracked file is removed, and only when `maxFiles` later ones are left. -/
def RemovesOldest (s t : Logging) : Prop :=
  ∀ path, s.files path = true → t.files path = false →
    ∃ days days' oldest, Tracked z s days ∧ Tracked z t days' ∧ days.head? = some oldest ∧
      path = fileOf s.appender.baseName oldest ∧ days'.length = t.appender.maxFiles ∧
      ∀ day ∈ days', oldest < day

/-- A rotation opens the file of another day than the one that is written. -/
def OtherDay (s : Logging) (time : ℤ) : Prop :=
  time ≥ s.appender.rotationTp →
    calcFilename s.appender.baseName (z.localtime (toTimeT time)) ≠ s.appender.helperPath

/-- The calls, with what they read from the clock and the files that the constructor meets. -/
inductive Call
  | construct (files : Text → Bool) (baseName : Text) (rotationH rotationM : ℤ) (maxFiles : ℕ)
    (opening rotation now : ℤ)
  | doLog (time rotation : ℤ)

/-- The constructor opens its file on the day of which `Init` looks for the files, and no rotation falls on the day
of the file that is written. -/
def DaysApart : Option Logging → Call → Prop
  | _, .construct _ _ _ _ _ opening _ now => dayOf z opening = dayOf z now
  | some s, .doLog time _ => OtherDay z s time
  | none, .doLog _ _ => True

def dailyRuns : System (Option Logging) Call where
  init s := s = none
  step
    | none, .construct files baseName rotationH rotationM maxFiles opening rotation now, t =>
      1 ≤ maxFiles ∧ maxFiles < 2 ^ 16 ∧ opening ≤ rotation ∧ rotation ≤ now ∧
        ∃ s, t = some s ∧ create z files baseName rotationH rotationM maxFiles opening rotation now = .ok s
    | some s, .doLog time rotation, t =>
      s.now ≤ time ∧ time ≤ rotation ∧ ∃ s', t = some s' ∧ doLog z s time rotation = .ok s'
    | _, _, _ => False

end

section Days
variable {z : Zone}

lemma dayOf_mono {time time' : ℤ} (h : time ≤ time') : dayOf z time ≤ dayOf z time' := by
  have hsec : toTimeT time ≤ toTimeT time' := Int.ediv_le_ediv (by norm_num) h
  exact Int.ediv_le_ediv (by norm_num) (by omega)

lemma dayOf_before (time : ℤ) : dayOf z (time - nanosPerDay) = dayOf z time - 1 := by
  have hsec : (time - 86400 * 1000000000) / 1000000000 = time / 1000000000 - 86400 := by omega
  change ((time - 86400 * 1000000000) / 1000000000 + z.offset) / 86400 = (time / 1000000000 + z.offset) / 86400 - 1
  rw [hsec]
  omega

lemma calcFilename_localtime (baseName : Text) (time : ℤ) :
    calcFilename baseName (z.localtime (toTimeT time)) = fileOf baseName (dayOf z time) := rfl

lemma dateTm_inRange (day : ℤ) : (0 ≤ (dateTm day).mon ∧ (dateTm day).mon < 12) ∧
    1 ≤ (dateTm day).mday ∧ (dateTm day).mday ≤ 31 := by
  have hvalid := (ofDays_spec (day + epoch)).1
  have hm := hvalid.month
  have hd := hvalid.first
  have hl := hvalid.last
  have hlong := (daysBeforeMonth_le (ofDays (day + epoch)).leap _ hm).2
  dsimp only [dateTm]
  omega

lemma date_ext {d e : Date} (hyear : d.year = e.year) (hmonth : d.month = e.month) (hday : d.day = e.day) : d = e := by
  cases d
  cases e
  exact (Date.mk_eq _ _ _ _).mpr ⟨hyear, hmonth, hday⟩

lemma fileOf_injective (baseName : Text) : Function.Injective (fileOf baseName) := by
  intro a b h
  obtain ⟨hamon, haday⟩ := dateTm_inRange a
  obtain ⟨hbmon, hbday⟩ := dateTm_inRange b
  obtain ⟨hyear, hmon, hmday⟩ := calcFilename_inj hamon hbmon haday hbday h
  dsimp only [dateTm] at hyear hmon hmday
  have hdate : ofDays (a + epoch) = ofDays (b + epoch) :=
    date_ext (by omega) (by exact_mod_cast hmon) (by exact_mod_cast hmday)
  have hdays := congrArg Date.toDays hdate
  rw [(ofDays_spec _).2, (ofDays_spec _).2] at hdays
  omega

/-- The days from `day` on back. -/
def daysBack (day : ℤ) : ℕ → List ℤ
  | 0 => []
  | k + 1 => day :: daysBack (day - 1) k

lemma length_daysBack (day : ℤ) (k : ℕ) : (daysBack day k).length = k := by
  induction k generalizing day with
  | zero => rfl
  | succ k ih => rw [daysBack, List.length_cons, ih]

lemma le_of_mem_daysBack {day d : ℤ} {k : ℕ} (h : d ∈ daysBack day k) : d ≤ day := by
  induction k generalizing day with
  | zero => cases h
  | succ k ih =>
    rcases List.mem_cons.mp h with rfl | h
    · exact le_rfl
    · have hle := ih h
      omega

lemma daysBack_ordered (day : ℤ) (k : ℕ) : (daysBack day k).reverse.Pairwise (· < ·) := by
  rw [List.pairwise_reverse]
  induction k generalizing day with
  | zero => exact List.Pairwise.nil
  | succ k ih =>
    refine List.Pairwise.cons (fun d hd => ?_) (ih (day - 1))
    have hle := le_of_mem_daysBack hd
    omega

/-- `Init` finds a stretch of days up to today. -/
lemma existing_eq (files : Text → Bool) (baseName : Text) (n : ℕ) (now : ℤ) :
    ∃ k ≤ n, existing z files baseName n now = (daysBack (dayOf z now) k).map (fileOf baseName) ∧
      (∀ d ∈ daysBack (dayOf z now) k, files (fileOf baseName d) = true) ∧
      (0 < n → files (fileOf baseName (dayOf z now)) = true → 0 < k) := by
  induction n generalizing now with
  | zero => exact ⟨0, le_rfl, rfl, List.forall_mem_nil _, fun h => absurd h (Nat.lt_irrefl 0)⟩
  | succ n ih =>
    unfold existing
    dsimp only
    rw [calcFilename_localtime]
    split_ifs with htoday
    · obtain ⟨k, hk, heq, hall, -⟩ := ih (now - nanosPerDay)
      rw [dayOf_before] at heq hall
      refine ⟨k + 1, by omega, ?_, ?_, fun _ _ => Nat.succ_pos k⟩
      · rw [heq, daysBack, List.map_cons]
      · exact List.forall_mem_cons.mpr ⟨htoday, hall⟩
    · exact ⟨0, Nat.zero_le _, rfl, List.forall_mem_nil _, fun _ h => absurd h htoday⟩

end Days

section Queue
variable {q : CircularQueue Text} {g : Bounded Text}

lemma enQueue_room (h : Represents q g) (hcap : 0 < q.capacity) (hroom : g.items.length < g.bound) (item : Text) :
    ∃ q', q.enQueue item = .ok q' ∧ Represents q' { g with items := g.items ++ [item] } := by
  obtain ⟨q', hq, hrep⟩ := enQueue_represents h hcap item
  rw [Bounded.enQueue, if_neg (by omega)] at hrep
  exact ⟨q', hq, hrep⟩

lemma deQueue_capacity {q' : CircularQueue Text} (h : q.deQueue = .ok q') : q'.capacity = q.capacity := by
  unfold CircularQueue.deQueue at h
  split_ifs at h
  rw [← Except.ok.inj h]

lemma foldlM_enQueue (h : Represents q g) (hcap : 0 < q.capacity) {paths : List Text}
    (hroom : g.items.length + paths.length ≤ g.bound) :
    ∃ q', paths.foldlM CircularQueue.enQueue q = .ok q' ∧ Represents q' { g with items := g.items ++ paths } := by
  induction paths generalizing q g with
  | nil => exact ⟨q, rfl, by rwa [List.append_nil]⟩
  | cons path paths ih =>
    rw [List.length_cons] at hroom
    obtain ⟨q', hq, hrep⟩ := enQueue_room h hcap (by omega) path
    have hcap' := (capacity_of_ne_nil hrep (List.append_ne_nil_of_right_ne_nil _ (List.cons_ne_nil _ _))).1
    have hroom' : (g.items ++ [path]).length + paths.length ≤ g.bound := by
      rw [List.length_append, List.length_singleton]
      omega
    obtain ⟨q'', hq', hrep'⟩ := ih hrep (by omega) hroom'
    refine ⟨q'', ?_, ?_⟩
    · rw [List.foldlM_cons, hq]
      exact hq'
    · rwa [List.append_assoc, List.singleton_append] at hrep'

end Queue

section Runs
variable {z : Zone} {s t : Logging} {days : List ℤ}

lemma Tracked.retains (h : Tracked z s days) : Retains z s := by
  obtain ⟨day, hlast, hpath, -⟩ := h.written
  have hmem : day ∈ days := List.mem_of_getLast? hlast
  refine ⟨⟨days, h, ?_, ?_⟩, ?_⟩
  · have hlen := h.queue.length
    rwa [List.length_map] at hlen
  · rw [hpath]
    exact List.mem_map_of_mem hmem
  · rw [hpath]
    exact h.exist day hmem

/-- After the constructor the files found by `Init` are tracked. -/
lemma init_tracked {files : Text → Bool} {baseName : Text} {maxFiles : ℕ} {now : ℤ} (hmax : 1 ≤ maxFiles)
    (h16 : maxFiles < 2 ^ 16) (htoday : files (fileOf baseName (dayOf z now)) = true) :
    ∃ q k, init z files baseName maxFiles now = .ok q ∧ 0 < k ∧
      Represents q { bound := maxFiles, items := (daysBack (dayOf z now) k).reverse.map (fileOf baseName) } ∧
      ∀ d ∈ daysBack (dayOf z now) k, files (fileOf baseName d) = true := by
  obtain ⟨k, hk, heq, hall, hpos⟩ := @existing_eq z files baseName maxFiles now
  have hsize : (maxFiles + 1) % 2 ^ 64 ≤ 2 ^ 63 - 1 := by omega
  obtain ⟨q, hnew, hcap⟩ : ∃ q : CircularQueue Text, CircularQueue.new maxFiles = .ok q ∧ 0 < q.capacity := by
    refine ⟨_, if_pos hsize, ?_⟩
    change 0 < (maxFiles + 1) % 2 ^ 64
    omega
  obtain ⟨q', hfold, hrep⟩ := @foldlM_enQueue q _ (represents_new hmax (by omega) hnew) hcap
    ((daysBack (dayOf z now) k).reverse.map (fileOf baseName))
    (by rw [List.length_map, List.length_reverse, length_daysBack]; exact (Nat.zero_add k).trans_le hk)
  refine ⟨q', k, ?_, hpos hmax htoday, hrep, hall⟩
  unfold init
  rw [hnew, heq, ← List.map_reverse]
  exact hfold

/-- What the constructor makes of a valid rotation time. -/
lemma create_eq {files files' : Text → Bool} {baseName : Text} {rotationH rotationM : ℤ} {maxFiles : ℕ}
    {opening rotation now : ℤ} {q : CircularQueue Text} (hmax : 1 ≤ maxFiles)
    (hvalid : ¬(rotationH < 0 ∨ rotationH > 23 ∨ rotationM < 0 ∨ rotationM > 59))
    (hfiles : Function.update files (fileOf baseName (dayOf z opening)) true = files')
    (hq : init z files' baseName maxFiles now = .ok q) :
    create z files baseName rotationH rotationM maxFiles opening rotation now = .ok
      { appender :=
          { baseName := baseName, rotationH := rotationH, rotationM := rotationM,
            rotationTp := nextRotationTp z rotationH rotationM rotation, maxFiles := maxFiles,
            helperPath := fileOf baseName (dayOf z opening), pathQ := q },
        files := files', now := now } := by
  subst hfiles
  unfold create
  rw [if_neg hvalid]
  change (if maxFiles > 0 then _ else _) = _
  rw [if_pos (show maxFiles > 0 from hmax)]
  change (liftQueue (init z (Function.update files (fileOf baseName (dayOf z opening)) true) baseName maxFiles now)
    >>= _) = _
  rw [hq]
  rfl

lemma create_tracked {files : Text → Bool} {baseName : Text} {rotationH rotationM : ℤ} {maxFiles : ℕ}
    {opening rotation now : ℤ} (hmax : 1 ≤ maxFiles) (h16 : maxFiles < 2 ^ 16)
    (hday : dayOf z opening = dayOf z now)
    (h : create z files baseName rotationH rotationM maxFiles opening rotation now = .ok s) :
    1 ≤ s.appender.maxFiles ∧ ∃ days, Tracked z s days := by
  obtain ⟨files', hfiles⟩ : ∃ files', Function.update files (fileOf baseName (dayOf z now)) true = files' := ⟨_, rfl⟩
  have htoday : files' (fileOf baseName (dayOf z now)) = true := by
    rw [← hfiles]
    exact Function.update_self _ _ _
  obtain ⟨q, k, hq, hk, hrep, hall⟩ := init_tracked hmax h16 htoday
  by_cases hvalid : rotationH < 0 ∨ rotationH > 23 ∨ rotationM < 0 ∨ rotationM > 59
  · unfold create at h
    rw [if_pos hvalid] at h
    cases h
  · rw [create_eq hmax hvalid (hday ▸ hfiles) hq, hday] at h
    obtain rfl := Except.ok.inj h
    refine ⟨hmax, (daysBack (dayOf z now) k).reverse, hrep, daysBack_ordered _ _, ?_, ?_⟩
    · exact fun d hd => hall d (List.mem_reverse.mp hd)
    · obtain ⟨k, rfl⟩ := Nat.exists_eq_succ_of_ne_zero hk.ne'
      refine ⟨dayOf z now, ?_, rfl, le_rfl⟩
      rw [List.getLast?_reverse]
      rfl

lemma deleteOld_room {g : Bounded Text} (h : Represents s.appender.pathQ g) (hcap : 0 < s.appender.pathQ.capacity)
    (hroom : g.items.length < g.bound) :
    ∃ q, deleteOld s = .ok { s with appender := { s.appender with pathQ := q } } ∧
      Represents q { g with items := g.items ++ [s.appender.helperPath] } := by
  obtain ⟨q, hq, hrep⟩ := enQueue_room h hcap hroom s.appender.helperPath
  refine ⟨q, ?_, hrep⟩
  unfold deleteOld
  rw [isFull_eq h hcap, decide_eq_false (by omega), hq]
  rfl

lemma deleteOld_full {g : Bounded Text} (h : Represents s.appender.pathQ g) {oldest : Text} {rest : List Text}
    (hitems : g.items = oldest :: rest) (hfull : g.items.length = g.bound) :
    ∃ q, deleteOld s = .ok { s with
        appender := { s.appender with pathQ := q }
        files := Function.update s.files oldest false } ∧
      Represents q { g with items := rest ++ [s.appender.helperPath] } := by
  have hne : g.items ≠ [] := by
    rw [hitems]
    exact List.cons_ne_nil _ _
  have hcap := capacity_of_ne_nil h hne
  obtain ⟨q, hq, hrep⟩ := deQueue_represents h hne
  have hbound : rest.length + 1 = g.bound := by
    rw [← hfull, hitems, List.length_cons]
  have hrest : g.deQueue = { g with items := rest } := by
    rw [Bounded.deQueue, hitems, List.tail_cons]
  rw [hrest] at hrep
  have hcapq : 0 < q.capacity := by
    rw [deQueue_capacity hq]
    omega
  obtain ⟨q', hq', hrep'⟩ := enQueue_room hrep hcapq (by dsimp only; omega) s.appender.helperPath
  refine ⟨q', ?_, hrep'⟩
  unfold deleteOld
  rw [isFull_eq h (by omega), decide_eq_true hfull, getFront_eq h hne, hq, hitems]
  change (liftQueue (q.enQueue s.appender.helperPath) >>= _) = _
  rw [hq']
  rfl

/-- `DoLog` before the next rotation writes to the same file. -/
lemma doLog_same {time rotation : ℤ} (hrot : ¬time ≥ s.appender.rotationTp) :
    doLog z s time rotation = .ok { s with now := time } := by
  unfold doLog
  exact if_neg hrot

/-- The file of the day has been opened, and nothing has been deleted yet. -/
def rotated (z : Zone) (s : Logging) (time rotation : ℤ) : Logging where
  appender := { s.appender with
    helperPath := fileOf s.appender.baseName (dayOf z time)
    rotationTp := nextRotationTp z s.appender.rotationH s.appender.rotationM rotation }
  files := Function.update s.files (fileOf s.appender.baseName (dayOf z time)) true
  now := time

lemma doLog_rotates {time rotation : ℤ} (hrot : time ≥ s.appender.rotationTp) (hmax : 1 ≤ s.appender.maxFiles) :
    doLog z s time rotation = deleteOld (rotated z s time rotation) := by
  unfold doLog
  exact (if_pos hrot).trans (if_pos hmax)

lemma Tracked.later (h : Tracked z s days) {time : ℤ} (htime : s.now ≤ time) :
    Tracked z { s with now := time } days := by
  obtain ⟨day, hlast, hpath, hday⟩ := h.written
  exact ⟨h.queue, h.ordered, h.exist, day, hlast, hpath, hday.trans (dayOf_mono htime)⟩

lemma lt_of_getLast? {l : List ℤ} (hl : l.Pairwise (· < ·)) {last day : ℤ} (hlast : l.getLast? = some last)
    (hday : last < day) : ∀ d ∈ l, d < day := by
  intro d hd
  obtain ⟨before, rfl⟩ := List.getLast?_eq_some_iff.mp hlast
  rcases List.mem_append.mp hd with hd | hd
  · exact ((List.pairwise_append.mp hl).2.2 d hd last List.mem_cons_self).trans hday
  · rwa [List.mem_singleton.mp hd]

lemma pairwise_snoc {l : List ℤ} (hl : l.Pairwise (· < ·)) {day : ℤ} (hday : ∀ d ∈ l, d < day) :
    (l ++ [day]).Pairwise (· < ·) := by
  refine List.pairwise_append.mpr ⟨hl, List.pairwise_singleton _ _, fun d hd e he => ?_⟩
  rw [List.mem_singleton.mp he]
  exact hday d hd

/-- Files are there after a file has been opened. -/
lemma opened {files : Text → Bool} {path : Text} (opening : Text) (h : files path = true) :
    Function.update files opening true path = true := by
  by_cases heq : path = opening
  · rw [heq, Function.update_self]
  · rwa [Function.update_of_ne heq]

lemma rotated_keeps {path : Text} (h : s.files path = true) (time rotation : ℤ) :
    (rotated z s time rotation).files path = true :=
  opened _ h

lemma rotated_all (h : ∀ day ∈ days, s.files (fileOf s.appender.baseName day) = true) (time rotation : ℤ) :
    ∀ day ∈ days ++ [dayOf z time], (rotated z s time rotation).files (fileOf s.appender.baseName day) = true :=
  List.forall_mem_append.mpr ⟨fun day hday => rotated_keeps (h day hday) time rotation,
    List.forall_mem_singleton.mpr (Function.update_self _ _ _)⟩

/-- With room in the queue the new file is put behind the others. -/
lemma Tracked.rotate_room (h : Tracked z s days) {time rotation : ℤ} (hne : days ≠ [])
    (hbefore : ∀ d ∈ days, d < dayOf z time) (hroom : days.length < s.appender.maxFiles) :
    ∃ t, deleteOld (rotated z s time rotation) = .ok t ∧ t.appender.maxFiles = s.appender.maxFiles ∧
      RemovesOldest z s t ∧ ∃ days', Tracked z t days' := by
  have hmap : days.map (fileOf s.appender.baseName) ≠ [] := fun hnil => hne (List.map_eq_nil_iff.mp hnil)
  have hcap : s.appender.pathQ.capacity = s.appender.maxFiles + 1 := (capacity_of_ne_nil h.queue hmap).1
  obtain ⟨q, hq, hrep⟩ := @deleteOld_room (rotated z s time rotation) _ h.queue (hcap ▸ Nat.succ_pos _)
    (by rwa [List.length_map])
  have hkept := @rotated_all z s days h.exist time rotation
  refine ⟨_, hq, rfl, fun path htrue hfalse => ?_, days ++ [dayOf z time], ?_, ?_, ?_, ?_⟩
  · exact absurd ((rotated_keeps htrue time rotation).symm.trans hfalse) (by decide)
  · rwa [List.map_append]
  · exact pairwise_snoc h.ordered hbefore
  · intro d hd
    dsimp only
    exact hkept d hd
  · exact ⟨dayOf z time, List.getLast?_concat, rfl, le_rfl⟩

/-- From a full queue the oldest file is taken and removed. -/
lemma Tracked.rotate_full {oldest : ℤ} {rest : List ℤ} (h : Tracked z s (oldest :: rest)) {time rotation : ℤ}
    (hbefore : ∀ d ∈ oldest :: rest, d < dayOf z time) (hfull : (oldest :: rest).length = s.appender.maxFiles) :
    ∃ t, deleteOld (rotated z s time rotation) = .ok t ∧ t.appender.maxFiles = s.appender.maxFiles ∧
      RemovesOldest z s t ∧ ∃ days', Tracked z t days' := by
  obtain ⟨q, hq, hrep⟩ := @deleteOld_full (rotated z s time rotation) _ h.queue (fileOf s.appender.baseName oldest)
    (rest.map (fileOf s.appender.baseName)) rfl (by rwa [List.length_map])
  obtain ⟨hfirst, hordered⟩ := List.pairwise_cons.mp h.ordered
  have hlater : ∀ d ∈ rest ++ [dayOf z time], oldest < d :=
    List.forall_mem_append.mpr ⟨hfirst, List.forall_mem_singleton.mpr (hbefore oldest List.mem_cons_self)⟩
  have hkept := @rotated_all z s rest (fun d hd => h.exist d (List.mem_cons_of_mem _ hd)) time rotation
  have htracked : Tracked z { rotated z s time rotation with
      appender := { (rotated z s time rotation).appender with pathQ := q }
      files := Function.update (rotated z s time rotation).files (fileOf s.appender.baseName oldest) false }
      (rest ++ [dayOf z time]) := by
    refine ⟨by rwa [List.map_append], ?_, ?_, ?_⟩
    · exact pairwise_snoc hordered fun d hd => hbefore d (List.mem_cons_of_mem _ hd)
    · intro d hd
      have hne : fileOf s.appender.baseName d ≠ fileOf s.appender.baseName oldest := fun heq =>
        (hlater d hd).ne' (fileOf_injective _ heq)
      have hstays : Function.update (rotated z s time rotation).files (fileOf s.appender.baseName oldest) false
          (fileOf s.appender.baseName d) = true := (Function.update_of_ne hne _ _).trans (hkept d hd)
      dsimp only
      exact hstays
    · exact ⟨dayOf z time, List.getLast?_concat, rfl, le_rfl⟩
  refine ⟨_, hq, rfl, fun path htrue hfalse => ?_, _, htracked⟩
  have hpath : path = fileOf s.appender.baseName oldest := by
    by_contra hne
    have hstill := (Function.update_of_ne hne false (rotated z s time rotation).files).symm.trans hfalse
    exact absurd ((rotated_keeps htrue time rotation).symm.trans hstill) (by decide)
  refine ⟨_, _, oldest, h, htracked, rfl, hpath, ?_, hlater⟩
  rw [List.length_append, List.length_singleton]
  exact hfull

/-- The step of the invariant. -/
lemma Tracked.step (h : Tracked z s days) (hmax : 1 ≤ s.appender.maxFiles) {time rotation : ℤ}
    (htime : s.now ≤ time) (hother : OtherDay z s time) :
    ∃ t, doLog z s time rotation = .ok t ∧ t.appender.maxFiles = s.appender.maxFiles ∧ RemovesOldest z s t ∧
      ∃ days', Tracked z t days' := by
  by_cases hrot : time ≥ s.appender.rotationTp
  · obtain ⟨day, hlast, hpath, hday⟩ := h.written
    have hnew : day < dayOf z time := by
      have hle := hday.trans (dayOf_mono htime)
      have hne : dayOf z time ≠ day := by
        intro heq
        refine hother hrot ?_
        rw [calcFilename_localtime, hpath, heq]
      omega
    have hbefore := lt_of_getLast? h.ordered hlast hnew
    have hlen := h.queue.length
    rw [List.length_map] at hlen
    rw [doLog_rotates hrot hmax]
    obtain ⟨oldest, rest, rfl⟩ := List.exists_cons_of_ne_nil (List.ne_nil_of_mem (List.mem_of_getLast? hlast))
    rcases hlen.lt_or_eq with hroom | hfull
    · exact h.rotate_room (List.cons_ne_nil _ _) hbefore hroom
    · exact h.rotate_full hbefore hfull
  · refine ⟨_, doLog_same hrot, rfl, ?_, days, h.later htime⟩
    intro path hbefore hafter
    exact absurd (hbefore.symm.trans hafter) (by decide)

lemma construct_step {files : Text → Bool} {baseName : Text} {rotationH rotationM : ℤ} {maxFiles : ℕ}
    {opening rotation now : ℤ} (hmax : 1 ≤ maxFiles) (h16 : maxFiles < 2 ^ 16) (hopening : opening ≤ rotation)
    (hrotation : rotation ≤ now)
    (h : create z files baseName rotationH rotationM maxFiles opening rotation now = .ok s) :
    (dailyRuns z).step none (.construct files baseName rotationH rotationM maxFiles opening rotation now) (some s) :=
  ⟨hmax, h16, hopening, hrotation, s, rfl, h⟩

lemma doLog_step {time rotation : ℤ} (htime : s.now ≤ time) (hrotation : time ≤ rotation)
    (h : doLog z s time rotation = .ok t) : (dailyRuns z).step (some s) (.doLog time rotation) (some t) :=
  ⟨htime, hrotation, t, rfl, h⟩

/-- The run lemma. -/
lemma tracked_of_reachable {o : Option Logging} (h : Reachable ((dailyRuns z).restrict (DaysApart z)) o) :
    ∀ s, o = some s → 1 ≤ s.appender.maxFiles ∧ ∃ days, Tracked z s days := by
  refine h.invariant (I := fun o => ∀ s, o = some s → 1 ≤ s.appender.maxFiles ∧ ∃ days, Tracked z s days) ?_ ?_
  · rintro o rfl s hs
    cases hs
  · rintro o call t hinv ⟨hday, hstep⟩ s' rfl
    cases o with
    | none =>
      cases call with
      | construct files baseName rotationH rotationM maxFiles opening rotation now =>
        obtain ⟨hmax, h16, -, -, s, hs, hcreate⟩ := hstep
        obtain rfl := Option.some.inj hs
        exact create_tracked hmax h16 hday hcreate
      | doLog time rotation => exact hstep.elim
    | some s =>
      cases call with
      | construct files baseName rotationH rotationM maxFiles opening rotation now => exact hstep.elim
      | doLog time rotation =>
        obtain ⟨htime, -, t, ht, hlog⟩ := hstep
        obtain rfl := Option.some.inj ht
        obtain ⟨hmax, days, htracked⟩ := hinv s rfl
        obtain ⟨t', hlog', hsame, -, htracked'⟩ := htracked.step hmax htime hday
        obtain rfl := Except.ok.inj (hlog'.symm.trans hlog)
        exact ⟨hsame ▸ hmax, htracked'⟩

/-- While the constructor keeps to one day and no rotation falls on the day of the file that is written, the most
recent files are kept. -/
theorem daily_files_retained (h : Reachable ((dailyRuns z).restrict (DaysApart z)) (some s)) :
    Retains z s ∧ ∀ time rotation, s.now ≤ time → time ≤ rotation → OtherDay z s time →
      ∃ t, doLog z s time rotation = .ok t ∧ Retains z t ∧ RemovesOldest z s t := by
  obtain ⟨hmax, days, htracked⟩ := tracked_of_reachable h s rfl
  refine ⟨htracked.retains, fun time rotation htime _ hother => ?_⟩
  obtain ⟨t, hlog, -, holdest, days', htracked'⟩ := htracked.step hmax htime hother
  exact ⟨t, hlog, htracked'.retains, holdest⟩

end Runs

section Examples

def utc : Zone := ⟨0, by norm_num, by norm_num⟩

def noon (day : ℤ) : ℤ := (day * 86400 + 43200) * nanosPerSecond

/-- With a rotation at midnight the message of the next day opens another file. -/
theorem daily_files_retained_midnight : ∃ s, Reachable ((dailyRuns utc).restrict (DaysApart utc)) (some s) ∧
    s.now = noon 1 ∧ Retains utc s := by
  have hnone : Reachable ((dailyRuns utc).restrict (DaysApart utc)) none := .init rfl
  have hday : dayOf utc (noon 0) = dayOf utc (noon 0 + 2) := by decide
  have h0 := hnone.step
    (l := Call.construct (fun _ => false) "log.txt".toList 0 0 2 (noon 0) (noon 0 + 1) (noon 0 + 2))
    ⟨hday, construct_step (by norm_num) (by norm_num) (by decide) (by decide) rfl⟩
  have hother : calcFilename "log.txt".toList (utc.localtime (toTimeT (noon 1))) ≠
      calcFilename "log.txt".toList (utc.localtime (toTimeT (noon 0))) := by
    decide
  have h1 := h0.step (l := Call.doLog (noon 1) (noon 1)) ⟨fun _ => hother, doLog_step (by decide) le_rfl rfl⟩
  exact ⟨_, h1, rfl, (daily_files_retained h1).1⟩

/-- With a rotation in the evening the file that was opened at noon is opened again, and then deleted. -/
theorem daily_file_deleted : ∃ s, Reachable (dailyRuns utc) (some s) ∧ s.files s.appender.helperPath = false ∧
    ¬Retains utc s := by
  have hnone : Reachable (dailyRuns utc) none := .init rfl
  have h0 := hnone.step (l := Call.construct (fun _ => false) "log.txt".toList 18 0 1 (noon 0) (noon 0) (noon 0))
    (construct_step le_rfl (by norm_num) le_rfl le_rfl rfl)
  have h1 := h0.step (l := Call.doLog (noon 0 + 36000 * nanosPerSecond) (noon 0 + 36000 * nanosPerSecond))
    (doLog_step (by decide) le_rfl rfl)
  refine ⟨_, h1, rfl, fun hretains => ?_⟩
  exact absurd hretains.written (by decide)

end Examples
end TyphoonZero.Log
