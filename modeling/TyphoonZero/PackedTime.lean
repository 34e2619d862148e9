import TyphoonZero.ByteBufferRoundtrip
import TyphoonZero.Calendar
import TyphoonZero.PackedAppend

/-! Times packed into four bytes, in a zone without daylight saving changes. -/
namespace TyphoonZero.ByteBuffer
open ByteOrder ByteConverter Calendar Loop

/-- The fields of a `std::tm` that are packed or unpacked, and `tm_sec`. -/
structure Tm where
  sec : ℤ := 0
  min : ℤ
  hour : ℤ
  mday : ℤ
  mon : ℤ
  year : ℤ
  wday : ℤ := 0

/-- The seconds that local time is ahead; the hours of a time zone go up to 24. -/
structure Zone where
  offset : ℤ
  within : -90000 < offset ∧ offset < 90000

/-- The days before the first of January 1970. -/
abbrev epoch : ℤ := 719162

namespace Zone
variable (z : Zone)

def localtime (time : ℤ) : Tm :=
  let seconds := time + z.offset
  let date := ofDays (seconds / 86400 + epoch)
  { sec := seconds % 60
    min := seconds / 60 % 60
    hour := seconds / 3600 % 24
    mday := date.day
    mon := date.month
    year := date.year - 1900
    wday := (seconds / 86400 + 4) % 7 }

/-- Fields out of range are carried over to the next one; `tm_wday` is not looked at. -/
def mktime (lt : Tm) : ℤ :=
  let year := lt.year + 1900 + lt.mon / 12
  let month := (lt.mon % 12).toNat
  let days := daysBeforeYear year + daysBeforeMonth (decide (Leap year)) month + (lt.mday - 1) - epoch
  days * 86400 + lt.hour * 3600 + lt.min * 60 + lt.sec - z.offset

end Zone

/-- The word that `AppendPackedTime` builds. -/
def packTime (lt : Tm) : BitVec 32 :=
  BitVec.ofInt 32 (lt.year - 100) <<< 24 ||| BitVec.ofInt 32 lt.mon <<< 20 |||
    BitVec.ofInt 32 (lt.mday - 1) <<< 14 ||| BitVec.ofInt 32 lt.wday <<< 11 ||| BitVec.ofInt 32 lt.hour <<< 6 |||
    BitVec.ofInt 32 lt.min

/-- The fields that `ReadPackedTime` takes out. -/
def unpackTime (packed : BitVec 32) : Tm where
  min := (packed &&& 0x3F).toNat
  hour := ((packed >>> 6) &&& 0x1F).toNat
  mday := ((packed >>> 14) &&& 0x3F).toNat + 1
  mon := ((packed >>> 20) &&& 0xF).toNat
  year := ((packed >>> 24) &&& 0x1F).toNat + 100

namespace ByteBuffer
variable (b : ByteBuffer)

/-- `now` is the time when the call runs; the argument is not used. -/
def appendPackedTime (native : Endian) (z : Zone) (now _time : ℤ) : Except Fault ByteBuffer :=
  let lt := z.localtime now
  b.writeInt native .uint32 (packTime lt)

def readPackedTime (native : Endian) (z : Zone) : Except Fault (BitVec 32 × ByteBuffer) := do
  let (packed, b) ← b.readInt native .uint32
  pure (BitVec.ofInt 32 (z.mktime (unpackTime packed)), b)

end ByteBuffer

section Words

/-- The ranges that `localtime` keeps to. -/
structure Tm.InRange (lt : Tm) : Prop where
  min : 0 ≤ lt.min ∧ lt.min < 60
  hour : 0 ≤ lt.hour ∧ lt.hour < 24
  mday : 1 ≤ lt.mday ∧ lt.mday ≤ 31
  mon : 0 ≤ lt.mon ∧ lt.mon < 12
  wday : 0 ≤ lt.wday ∧ lt.wday < 7

lemma toNat_field {x : ℤ} {n k : ℕ} (h : 0 ≤ x ∧ x < 2 ^ n) (hk : n + k ≤ 32) :
    (BitVec.ofInt 32 x <<< k).toNat = x.toNat * 2 ^ k := by
  obtain ⟨m, rfl⟩ := Int.eq_ofNat_of_zero_le h.1
  have hm : m < 2 ^ n := by exact_mod_cast h.2
  have hlt : m * 2 ^ k < 2 ^ 32 := by
    calc m * 2 ^ k < 2 ^ n * 2 ^ k := Nat.mul_lt_mul_of_pos_right hm (Nat.two_pow_pos k)
      _ = 2 ^ (n + k) := (Nat.pow_add 2 n k).symm
      _ ≤ 2 ^ 32 := Nat.pow_le_pow_right (by norm_num) hk
  have hm32 : m < 2 ^ 32 := (Nat.le_mul_of_pos_right m (Nat.two_pow_pos k)).trans_lt hlt
  rw [BitVec.toNat_shiftLeft, BitVec.ofInt_natCast, BitVec.toNat_ofNat, Nat.mod_eq_of_lt hm32, Nat.shiftLeft_eq,
    Nat.mod_eq_of_lt hlt, Int.toNat_natCast]

lemma toNat_year (y : ℤ) : (BitVec.ofInt 32 y <<< 24).toNat = (y % 256).toNat * 2 ^ 24 := by
  rw [BitVec.toNat_shiftLeft, BitVec.toNat_ofInt, Nat.shiftLeft_eq]
  omega

lemma packTime_toNat {lt : Tm} (h : lt.InRange) : (packTime lt).toNat =
    ((lt.year - 100) % 256).toNat * 2 ^ 24 + lt.mon.toNat * 2 ^ 20 + (lt.mday - 1).toNat * 2 ^ 14 +
      lt.wday.toNat * 2 ^ 11 + lt.hour.toNat * 2 ^ 6 + lt.min.toNat := by
  obtain ⟨hmin, hhour, hmday, hmon, hwday⟩ := h
  have hminute := @toNat_field lt.min 6 0 ⟨hmin.1, by omega⟩ (by norm_num)
  rw [BitVec.shiftLeft_zero, Nat.pow_zero, Nat.mul_one] at hminute
  unfold packTime
  simp only [BitVec.toNat_or]
  rw [toNat_year, @toNat_field lt.mon 4 20 ⟨hmon.1, by omega⟩ (by norm_num),
    @toNat_field (lt.mday - 1) 6 14 ⟨by omega, by omega⟩ (by norm_num),
    @toNat_field lt.wday 3 11 ⟨hwday.1, by omega⟩ (by norm_num),
    @toNat_field lt.hour 5 6 ⟨hhour.1, by omega⟩ (by norm_num), hminute]
  rw [@or_low _ (lt.mon.toNat * 2 ^ 20) 24 (by omega) (by omega),
    @or_low _ ((lt.mday - 1).toNat * 2 ^ 14) 20 (by omega) (by omega),
    @or_low _ (lt.wday.toNat * 2 ^ 11) 14 (by omega) (by omega),
    @or_low _ (lt.hour.toNat * 2 ^ 6) 11 (by omega) (by omega), @or_low _ lt.min.toNat 6 (by omega) (by omega)]

lemma toNat_bits (x mask : BitVec 32) (s k : ℕ) (hmask : mask.toNat = 2 ^ k - 1) :
    ((x >>> s) &&& mask).toNat = x.toNat / 2 ^ s % 2 ^ k := by
  rw [BitVec.toNat_and, hmask, Nat.and_two_pow_sub_one_eq_mod, BitVec.toNat_ushiftRight, Nat.shiftRight_eq_div_pow]

/-- The fields of the word do not overlap. -/
lemma unpack_fields {y mo d w h m n : ℕ} (hmo : mo < 12) (hd : d < 31) (hw : w < 7) (hh : h < 24) (hm : m < 60)
    (hn : n = y * 2 ^ 24 + mo * 2 ^ 20 + d * 2 ^ 14 + w * 2 ^ 11 + h * 2 ^ 6 + m) :
    n / 2 ^ 0 % 2 ^ 6 = m ∧ n / 2 ^ 6 % 2 ^ 5 = h ∧ n / 2 ^ 14 % 2 ^ 6 = d ∧ n / 2 ^ 20 % 2 ^ 4 = mo ∧
      n / 2 ^ 24 % 2 ^ 5 = y % 32 := by
  refine ⟨?_, ?_, ?_, ?_, ?_⟩ <;> omega

lemma unpackTime_packTime {lt : Tm} (h : lt.InRange) : unpackTime (packTime lt) =
    { min := lt.min, hour := lt.hour, mday := lt.mday, mon := lt.mon, year := (lt.year - 100) % 32 + 100 } := by
  obtain ⟨hmin, hhour, hmday, hmon, hwday⟩ := id h
  have hmday' : ((lt.mday - 1).toNat : ℤ) + 1 = lt.mday := by omega
  have hyear : ((((lt.year - 100) % 256).toNat % 32 : ℕ) : ℤ) + 100 = (lt.year - 100) % 32 + 100 := by omega
  have hpack := packTime_toNat h
  obtain ⟨hm, hh, hd, hmo, hy⟩ := @unpack_fields _ lt.mon.toNat (lt.mday - 1).toNat lt.wday.toNat lt.hour.toNat
    lt.min.toNat _ (by omega) (by omega) (by omega) (by omega) (by omega) hpack
  have hminute := toNat_bits (packTime lt) 0x3F 0 6 rfl
  rw [BitVec.ushiftRight_zero, hm] at hminute
  unfold unpackTime
  rw [hminute, toNat_bits _ 0x1F 6 5 rfl, toNat_bits _ 0x3F 14 6 rfl, toNat_bits _ 0xF 20 4 rfl,
    toNat_bits _ 0x1F 24 5 rfl, hh, hd, hmo, hy]
  rw [Int.toNat_of_nonneg hmin.1, Int.toNat_of_nonneg hhour.1, hmday', Int.toNat_of_nonneg hmon.1, hyear]

end Words

section Times
variable {z : Zone}

/-- The first second of a minute of a date. -/
def civil (date : Date) (hour min : ℤ) : Tm where
  min := min
  hour := hour
  mday := date.day
  mon := date.month
  year := date.year - 1900

lemma mktime_civil {date : Date} (h : date.Valid) (hour min : ℤ) :
    z.mktime (civil date hour min) = (date.toDays - epoch) * 86400 + hour * 3600 + min * 60 - z.offset := by
  have hm := h.month
  have hyear : (date.year - 1900 + 1900 + (date.month : ℤ) / 12) = date.year := by omega
  have hmonth : ((date.month : ℤ) % 12).toNat = date.month := by omega
  unfold Zone.mktime civil
  dsimp only
  rw [hyear, hmonth, Date.toDays, Date.leap]
  ring

/-- Different minutes are different times. -/
lemma mktime_civil_inj {date date' : Date} (h : date.Valid) (h' : date'.Valid) {hour hour' min min' : ℤ}
    (hhour : 0 ≤ hour ∧ hour < 24) (hhour' : 0 ≤ hour' ∧ hour' < 24) (hmin : 0 ≤ min ∧ min < 60)
    (hmin' : 0 ≤ min' ∧ min' < 60) :
    z.mktime (civil date hour min) = z.mktime (civil date' hour' min') ↔ date = date' ∧ hour = hour' ∧ min = min' := by
  rw [mktime_civil h, mktime_civil h']
  constructor
  · intro heq
    have hdays : date.toDays = date'.toDays := by omega
    rw [← ofDays_toDays h, ← ofDays_toDays h', hdays]
    exact ⟨rfl, by omega, by omega⟩
  · rintro ⟨rfl, rfl, rfl⟩
    rfl

/-- The date of a time. -/
def Zone.date (z : Zone) (time : ℤ) : Date := ofDays ((time + z.offset) / 86400 + epoch)

lemma Zone.date_spec (z : Zone) (time : ℤ) :
    (z.date time).Valid ∧ (z.date time).toDays = (time + z.offset) / 86400 + epoch :=
  ofDays_spec _

lemma localtime_inRange (z : Zone) (time : ℤ) : (z.localtime time).InRange := by
  have hvalid := (z.date_spec time).1
  have hm := hvalid.month
  have hd := hvalid.first
  have hl := hvalid.last
  have hlong := (daysBeforeMonth_le (z.date time).leap _ hm).2
  constructor
  all_goals
    unfold Zone.date at *
    dsimp only [Zone.localtime]
    omega

/-- `mktime` is the inverse of `localtime`, up to the seconds. -/
lemma mktime_localtime (z : Zone) (time : ℤ) :
    z.mktime (civil (z.date time) (z.localtime time).hour (z.localtime time).min) =
      time - (z.localtime time).sec := by
  obtain ⟨hvalid, hdays⟩ := z.date_spec time
  rw [mktime_civil hvalid, hdays]
  unfold Zone.localtime
  dsimp only
  omega

/-- What is read back from the word of a time: its year is one of those from 2000 to 2031. -/
lemma unpackTime_localtime (z : Zone) (time : ℤ) : unpackTime (packTime (z.localtime time)) =
    civil ⟨2000 + ((z.date time).year - 2000) % 32, (z.date time).month, (z.date time).day⟩
      (z.localtime time).hour (z.localtime time).min := by
  rw [unpackTime_packTime (localtime_inRange z time)]
  unfold civil
  simp only [Tm.mk.injEq, true_and, and_true]
  refine ⟨rfl, rfl, ?_⟩
  unfold Zone.localtime Zone.date
  dsimp only
  omega

lemma valid_mod_32 {date : Date} (h : date.Valid) :
    Date.Valid ⟨2000 + (date.year - 2000) % 32, date.month, date.day⟩ := by
  refine h.of_leap fun hleap => ?_
  unfold Leap at hleap ⊢
  omega

end Times

/-- The two times have the same fields in their packed words, apart from the day of the week. -/
def SameMinute (lt lt' : Tm) : Prop :=
  lt.min = lt'.min ∧ lt.hour = lt'.hour ∧ lt.mday = lt'.mday ∧ lt.mon = lt'.mon ∧ (lt.year - lt'.year) % 32 = 0

instance (lt lt' : Tm) : Decidable (SameMinute lt lt') := inferInstanceAs (Decidable (_ ∧ _))

/-- The time is read back without its seconds from the bytes that were appended for it. -/
def PackedTimeRoundTrip (native : Endian) (z : Zone) (now time : ℤ) (b : ByteBuffer) : Prop :=
  ∃ c, b.appendPackedTime native z now time = .ok c ∧
    ∃ val d, ByteBuffer.readPackedTime { c with rpos := b.wpos } native z = .ok (val, d) ∧
      (val.toNat : ℤ) = time - (z.localtime time).sec ∧ d.rpos = c.wpos

section RoundTrip
variable {native : Endian} {z : Zone} {b : ByteBuffer}

lemma copyIn_readable (b : ByteBuffer) (src : List UInt8) : src <+: (b.copyIn src).storage.drop b.wpos := by
  unfold ByteBuffer.copyIn
  dsimp only
  have hlen :
      ((b.storage ++ List.replicate (b.wpos + src.length - b.storage.length) 0).take b.wpos).length = b.wpos := by
    rw [List.length_take, List.length_append, List.length_replicate]
    omega
  rw [List.append_assoc, List.drop_append_of_le_length (by rw [hlen]), List.drop_of_length_le (by rw [hlen]),
    List.nil_append]
  exact List.prefix_append _ _

/-- A word is read back where its bytes are. -/
lemma readInt_at (h8 : b.bitpos = kInitialBitPos) {word : BitVec 32}
    (hword : leBytes 4 word.toNat <+: b.storage.drop b.rpos) :
    b.readInt native .uint32 = .ok (word, { b with rpos := b.rpos + 4 }) := by
  have hbit : b.bitpos > kBoundaryBitPos := by
    rw [h8]
    decide
  have hlt : word.toNat < 256 ^ 4 := word.isLt
  have hread := @read_eq native b (leBytes 4 word.toNat) hbit (by simp [leBytes]) hword
  rw [length_leBytes, ofLeBytes_leBytes, Nat.mod_eq_of_lt hlt] at hread
  unfold ByteBuffer.readInt
  rw [show IntType.sizeof (IntType.readAs .uint32) = 4 from rfl, hread]
  have hword' : BitVec.ofNat 32 word.toNat = word := by rw [BitVec.ofNat_toNat, BitVec.setWidth_eq]
  exact congrArg (fun v => Except.ok (v, _)) hword'

lemma readPackedTime_at (h8 : b.bitpos = kInitialBitPos) {word : BitVec 32}
    (hword : leBytes 4 word.toNat <+: b.storage.drop b.rpos) : b.readPackedTime native z =
      .ok (BitVec.ofInt 32 (z.mktime (unpackTime word)), { b with rpos := b.rpos + 4 }) := by
  unfold ByteBuffer.readPackedTime
  rw [readInt_at h8 hword]
  rfl

/-- The value that is read back, whatever the argument was. -/
def readBack (z : Zone) (now : ℤ) : ℤ := z.mktime (unpackTime (packTime (z.localtime now)))

lemma readBack_eq (z : Zone) (now : ℤ) : readBack z now =
    z.mktime (civil ⟨2000 + ((z.date now).year - 2000) % 32, (z.date now).month, (z.date now).day⟩
      (z.localtime now).hour (z.localtime now).min) :=
  congrArg z.mktime (unpackTime_localtime z now)

/-- It fits into a `uint32_t`. -/
lemma readBack_bounds (z : Zone) (now : ℤ) : 0 ≤ readBack z now ∧ readBack z now < 2 ^ 32 := by
  have hvalid := valid_mod_32 (z.date_spec now).1
  obtain ⟨hlow, hhigh⟩ := hvalid.days
  obtain ⟨hmin, hhour, -⟩ := localtime_inRange z now
  have hzone := z.within
  rw [readBack_eq, mktime_civil hvalid]
  generalize Date.toDays _ = days at *
  unfold daysBeforeYear at hlow hhigh
  dsimp only at hlow hhigh
  have hdays : 730119 ≤ days ∧ days < 741807 := by omega
  unfold epoch
  omega

lemma roundTrip_exact (now time : ℤ) (h8 : b.bitpos = kInitialBitPos) : PackedTimeRoundTrip native z now time b ↔
    b.storage.length < limit ∧ readBack z now = time - (z.localtime time).sec := by
  have hwrite : b.appendPackedTime native z now time = b.append (leBytes 4 (packTime (z.localtime now)).toNat) :=
    congrArg b.append (endianRefMakeLittle_store native 4 _)
  rw [PackedTimeRoundTrip, hwrite]
  by_cases hroom : b.storage.length < limit
  · rw [append_runs_aligned h8 (by simp [leBytes]) hroom]
    have hval : ((BitVec.ofInt 32 (readBack z now)).toNat : ℤ) = readBack z now := by
      obtain ⟨hnonneg, hlt⟩ := readBack_bounds z now
      rw [BitVec.toNat_ofInt, Int.emod_eq_of_lt hnonneg (by exact_mod_cast hlt), Int.toNat_of_nonneg hnonneg]
    have hread := @readPackedTime_at native z
      { b.copyIn (leBytes 4 (packTime (z.localtime now)).toNat) with rpos := b.wpos } h8 _ (copyIn_readable b _)
    change _ = Except.ok (BitVec.ofInt 32 (readBack z now), _) at hread
    constructor
    · rintro ⟨c, hc, val, d, hd, htime, -⟩
      obtain rfl := Except.ok.inj hc
      rw [hread] at hd
      obtain ⟨rfl, rfl⟩ := Prod.mk.inj (Except.ok.inj hd)
      exact ⟨hroom, hval.symm.trans htime⟩
    · rintro ⟨-, htime⟩
      refine ⟨_, rfl, _, _, hread, hval.trans htime, ?_⟩
      change b.wpos + 4 = b.wpos + (leBytes 4 _).length
      rw [length_leBytes]
  · rw [append_refuses hroom]
    constructor
    · rintro ⟨c, hc, -⟩
      cases hc
    · rintro ⟨hless, -⟩
      exact absurd hless hroom

/-- `AppendPackedTime` packs the current time: its argument comes back if the two are in the same minute. -/
theorem packedTime_iff (native : Endian) (z : Zone) (now : ℤ) {time : ℤ}
    (hyear : 100 ≤ (z.localtime time).year ∧ (z.localtime time).year ≤ 131) {b : ByteBuffer}
    (h8 : b.bitpos = kInitialBitPos) : PackedTimeRoundTrip native z now time b ↔
      b.storage.length < limit ∧ SameMinute (z.localtime now) (z.localtime time) := by
  rw [roundTrip_exact now time h8, readBack_eq, ← mktime_localtime z time]
  refine and_congr_right fun _ => ?_
  obtain ⟨hmin, hhour, -⟩ := localtime_inRange z now
  obtain ⟨hmin', hhour', -⟩ := localtime_inRange z time
  rw [mktime_civil_inj (valid_mod_32 (z.date_spec now).1) (z.date_spec time).1 hhour hhour' hmin hmin']
  have hyears : (z.localtime now).year = (z.date now).year - 1900 := rfl
  have hyears' : (z.localtime time).year = (z.date time).year - 1900 := rfl
  have hmons : ∀ s, (z.localtime s).mon = (z.date s).month := fun _ => rfl
  have hdays : ∀ s, (z.localtime s).mday = (z.date s).day := fun _ => rfl
  unfold SameMinute
  rw [hmons, hmons, hdays, hdays, Date.mk_eq]
  constructor
  · rintro ⟨⟨hy, hm, hd⟩, heqh, heqm⟩
    exact ⟨heqm, heqh, by rw [hd], by rw [hm], by omega⟩
  · rintro ⟨heqm, heqh, hd, hm, hy⟩
    exact ⟨⟨by omega, by omega, by omega⟩, heqh, heqm⟩

/-- Central European time. -/
def cet : Zone := ⟨3600, by norm_num⟩

/-- The first of January 2026 at noon, packed 30 seconds later. -/
theorem packedTime_noon : PackedTimeRoundTrip .little cet 1767265230 1767265200 {} :=
  (packedTime_iff .little cet 1767265230 (by decide +kernel) rfl).mpr ⟨by decide, by decide +kernel⟩

/-- A minute later, the later time is read back. -/
theorem later_time_read : ¬ PackedTimeRoundTrip .little cet 1767265260 1767265200 {} := by
  rw [roundTrip_exact _ _ rfl]
  decide +kernel

end RoundTrip
end TyphoonZero.ByteBuffer
