import TyphoonZero.ByteBufferBounds
import TyphoonZero.ByteBufferReposition
import TyphoonZero.PackedAppend
import TyphoonZero.Transition

/-! Reads between the writes of a byte buffer. Both use the bit cursor and the current byte. -/
namespace TyphoonZero.ByteBuffer
open ByteOrder ByteConverter Loop Transition

/-- The reads: `operator>>` of an integer and of a string, `ReadBits`, `ReadString` and `ReadSkip`.
The other forms of `operator>>` read as many bytes as an integer does. -/
inductive ReadCall
  | int (t : IntType)
  | str
  | bits (n : ℕ)
  | chars (length : UInt32)
  | skip (skip : UInt64)

/-- The buffer after a read that succeeds. -/
def execCall (native : Endian) (b : ByteBuffer) : ReadCall → Except Fault ByteBuffer
  | .int t => (b.readInt native t).map Prod.snd
  | .str => (b.readString native).map Prod.snd
  | .bits n => (b.readBits native n).map Prod.snd
  | .chars length => (b.readChars length).value.map fun _ => (b.readChars length).after
  | .skip skip => (b.readSkip skip).value.map fun _ => (b.readSkip skip).after

inductive MixedOp
  | read (call : ReadCall)
  | write (op : WriteOp)

def execMixed (native : Endian) (b : ByteBuffer) : MixedOp → Except Fault ByteBuffer
  | .read call => execCall native b call
  | .write op => execWrite native b op

/-- The writes of a run. -/
def writesOf : List MixedOp → List WriteOp := List.filterMap fun
  | .write op => some op
  | .read _ => none

/-- A buffer, and whether its current byte was taken by `ReadBits`. -/
structure Mixed where
  buffer : ByteBuffer
  reading : Bool

/-- `operator>>` of a string takes a byte unless all are read. -/
def readingAfter (s : Mixed) : MixedOp → Bool
  | .write _ => s.reading
  | .read (.bits n) => s.reading || n ≠ 0
  | .read .str => s.reading && ¬ s.buffer.rpos < s.buffer.storage.length
  | .read _ => false

/-- Runs from the buffer `start` in which nothing fails. -/
def mixedRuns (native : Endian) (start : ByteBuffer) : System Mixed MixedOp where
  init s := s = ⟨start, false⟩
  step s op t := execMixed native s.buffer op = .ok t.buffer ∧ t.reading = readingAfter s op

/-- The writes that write nothing. -/
def WriteOp.Empty : WriteOp → Prop
  | .writeBits _ bits => bits = 0
  | .writeChars str => str = []
  | _ => False

/-- Reads of bytes find no written bits pending, `ReadBits` starts with an unused current byte,
and writes come when no read byte is in it. -/
def Apart (s : Mixed) : MixedOp → Prop
  | .write op => s.reading = false ∨ op.Empty
  | .read (.bits n) => n = 0 ∨ s.reading = true ∨ s.buffer.bitpos = kInitialBitPos ∧ s.buffer.curBitVal = 0
  | .read .str => s.reading = true ∨ kBoundaryBitPos < s.buffer.bitpos ∨ s.buffer.storage.length ≤ s.buffer.rpos
  | .read _ => s.reading = true ∨ kBoundaryBitPos < s.buffer.bitpos

section Writes
variable {native : Endian}

/-- The buffer with another read position. -/
def ByteBuffer.at (b : ByteBuffer) (r : ℕ) : ByteBuffer := { b with rpos := r }

/-- Writing does not look at the read position and keeps it. -/
def Blind (f : ByteBuffer → Except Fault ByteBuffer) : Prop := ∀ b r, f (b.at r) = (f b).map (·.at r)

lemma Blind.bind {f g : ByteBuffer → Except Fault ByteBuffer} (hf : Blind f) (hg : Blind g) :
    Blind fun b => f b >>= g := by
  intro b r
  change f (b.at r) >>= g = (f b >>= g).map (·.at r)
  rw [hf b r]
  cases f b with
  | ok c => exact hg c r
  | error x => rfl

lemma blind_clear : Blind fun b => .ok { b with curBitVal := 0 } := fun _ _ => rfl

lemma blind_appendAligned (src : List UInt8) : Blind fun b => b.appendAligned src := by
  intro b r
  change (b.checkAppend src >>= fun _ => pure ((b.at r).copyIn src)) = (b.appendAligned src).map (·.at r)
  unfold ByteBuffer.appendAligned
  cases b.checkAppend src <;> rfl

lemma blind_flushBits : Blind ByteBuffer.flushBits := by
  intro b r
  unfold ByteBuffer.flushBits
  by_cases h8 : b.bitpos = kInitialBitPos
  · rw [if_pos h8, if_pos (show (b.at r).bitpos = kInitialBitPos from h8)]
    rfl
  · rw [if_neg h8, if_neg (show ¬ (b.at r).bitpos = kInitialBitPos from h8)]
    have hstore : Blind fun b => ByteBuffer.appendAligned { b with bitpos := kInitialBitPos } [b.curBitVal] :=
      fun b => blind_appendAligned [b.curBitVal] { b with bitpos := kInitialBitPos }
    exact (hstore.bind blind_clear) b r

lemma blind_append (src : List UInt8) : Blind fun b => b.append src := by
  intro b r
  change (b.checkAppend src >>= fun _ => (b.at r).flushBits >>= fun c => pure (c.copyIn src)) =
    (b.append src).map (·.at r)
  unfold ByteBuffer.append
  rw [blind_flushBits b r]
  cases b.checkAppend src with
  | error x => rfl
  | ok _ => cases b.flushBits <;> rfl

lemma blind_writeBit (bit : Bool) : Blind fun b => b.writeBit bit := by
  intro b r
  change (b.at r).writeBit bit = (b.writeBit bit).map (·.at r)
  obtain ⟨k, hk⟩ : ∃ k, b.bitpos - 1 = k := ⟨_, rfl⟩
  rw [writeBit_eq (b.at r) bit (show (b.at r).bitpos - 1 = k from hk), writeBit_eq b bit hk]
  dsimp only [ByteBuffer.at]
  by_cases h0 : k = 0
  · rw [if_pos h0, if_pos h0]
    generalize (if bit = true then b.curBitVal ||| 1 <<< UInt8.ofNat k else b.curBitVal) = cur
    exact ((blind_append [cur]).bind blind_clear) { b with bitpos := kInitialBitPos, curBitVal := cur } r
  · rw [if_neg h0, if_neg h0]
    rfl

lemma blind_writeBits (value : UInt64) (n : ℕ) : Blind (ByteBuffer.writeBits value n) := by
  induction n with
  | zero => exact fun b r => rfl
  | succ n ih => exact (blind_writeBit _).bind ih

lemma blind_writeString (value : List UInt8) : Blind fun b => b.writeString value := by
  unfold ByteBuffer.writeString
  by_cases hnil : value.length = 0
  · simp only [if_pos hnil]
    exact blind_append [0]
  · simp only [if_neg hnil]
    exact (blind_append value).bind (blind_append [0])

lemma blind_writeChars (str : List UInt8) : Blind fun b => b.writeChars str := by
  unfold ByteBuffer.writeChars
  by_cases hnil : str.length ≠ 0
  · simp only [if_pos hnil]
    exact blind_append str
  · simp only [if_neg hnil]
    exact fun b r => rfl

lemma blind_put (pos : ℕ) (src : List UInt8) : Blind fun b => b.put pos src := by
  intro b r
  change (if pos + src.length > b.storage.length then _ else if src.length = 0 then _ else _) =
    Except.map _ (b.put pos src)
  unfold ByteBuffer.put
  split_ifs <;> rfl

lemma blind_putBits (pos : ℕ) (value : UInt64) (bitCount : ℕ) : Blind fun b => b.putBits pos value bitCount := by
  intro b r
  change (if pos + bitCount > b.storage.length * kInitialBitPos then _ else if bitCount = 0 then _ else _) =
    Except.map _ (b.putBits pos value bitCount)
  unfold ByteBuffer.putBits
  split_ifs <;> rfl

lemma blind_appendPackedUInt64 (guid : UInt64) : Blind fun b => b.appendPackedUInt64 guid := by
  intro b r
  simp only [appendPackedUInt64_eq]
  exact ((blind_append [0]).bind ((blind_writeChars _).bind (blind_put b.wpos _))) b r

lemma blind_execWrite (native : Endian) (op : WriteOp) : Blind fun b => execWrite native b op := by
  cases op with
  | append src => exact blind_append src
  | writeBit bit => exact blind_writeBit bit
  | writeBits value bits => exact blind_writeBits value bits
  | flushBits => exact blind_flushBits
  | writeInt t value => exact blind_append _
  | writeString value => exact blind_writeString value
  | writeChars str => exact blind_writeChars str
  | put pos src => exact blind_put pos src
  | putBits pos value bitCount => exact blind_putBits pos value bitCount
  | appendPackedUInt64 guid => exact blind_appendPackedUInt64 guid

end Writes

section Reads
variable {native : Endian} {b c : ByteBuffer}

/-- What a read of bytes leaves: the storage and the write position, and no read bits. -/
def TookBytes (b c : ByteBuffer) : Prop := ∃ r, c = b.resetBitPos.at r

lemma resetBitPos_twice (b : ByteBuffer) (r : ℕ) : (b.resetBitPos.at r).resetBitPos = b.resetBitPos.at r := by
  refine resetBitPos_eq_iff.mpr ?_
  change kBoundaryBitPos < b.resetBitPos.bitpos
  unfold ByteBuffer.resetBitPos
  split_ifs with h
  · exact h
  · exact Nat.lt_succ_self 7

lemma TookBytes.trans {d : ByteBuffer} (h : TookBytes b c) (h' : TookBytes c d) : TookBytes b d := by
  obtain ⟨r, rfl⟩ := h
  obtain ⟨r', rfl⟩ := h'
  exact ⟨r', by rw [resetBitPos_twice]; rfl⟩

lemma read_took {size val : ℕ} (hok : b.read native size = .ok (val, c)) : TookBytes b c := by
  obtain ⟨bytes, -, hok⟩ := bind_ok hok
  obtain ⟨-, rfl⟩ := Prod.mk.inj (Except.ok.inj hok)
  exact ⟨_, rfl⟩

lemma readStringLoop_took {n : ℕ} {value str : List UInt8}
    (hok : ByteBuffer.readStringLoop native n value b = .ok (str, c)) :
    c = b ∧ (b.rpos < b.storage.length → n = 0) ∨ b.rpos < b.storage.length ∧ TookBytes b c := by
  induction n generalizing value b with
  | zero =>
    obtain ⟨-, rfl⟩ := Prod.mk.inj (Except.ok.inj hok)
    exact .inl ⟨rfl, fun _ => rfl⟩
  | succ n ih =>
    unfold ByteBuffer.readStringLoop at hok
    split_ifs at hok with hin
    · obtain ⟨⟨val, d⟩, hd, hok⟩ := bind_ok hok
      have htook := read_took hd
      dsimp only at hok
      split_ifs at hok
      · obtain ⟨-, rfl⟩ := Prod.mk.inj (Except.ok.inj hok)
        exact .inr ⟨hin, htook⟩
      · obtain ⟨rfl, -⟩ | ⟨-, htook'⟩ := ih hok
        · exact .inr ⟨hin, htook⟩
        · exact .inr ⟨hin, htook.trans htook'⟩
    · obtain ⟨-, rfl⟩ := Prod.mk.inj (Except.ok.inj hok)
      exact .inl ⟨rfl, fun h => absurd h hin⟩

/-- The same bytes and the same write position. -/
def SameBytes (b c : ByteBuffer) : Prop := c.storage = b.storage ∧ c.wpos = b.wpos

lemma TookBytes.sameBytes (h : TookBytes b c) : SameBytes b c := by
  obtain ⟨r, rfl⟩ := h
  obtain ⟨-, hwpos, hstorage⟩ := resetBitPos_rest b
  exact ⟨hstorage, hwpos⟩

lemma readBit_took {bit : Bool} (hok : b.readBit native = .ok (bit, c)) :
    SameBytes b c ∧ c.bitpos ≤ kBoundaryBitPos := by
  unfold ByteBuffer.readBit at hok
  dsimp only at hok
  split_ifs at hok with hnext
  · obtain ⟨⟨val, d⟩, hd, hok⟩ := bind_ok hok
    obtain ⟨hstorage, hwpos⟩ := (read_took hd).sameBytes
    obtain ⟨-, rfl⟩ := Prod.mk.inj (Except.ok.inj hok)
    exact ⟨⟨hstorage, hwpos⟩, Nat.zero_le _⟩
  · obtain ⟨-, rfl⟩ := Prod.mk.inj (Except.ok.inj hok)
    exact ⟨⟨rfl, rfl⟩, Nat.le_of_not_gt hnext⟩

lemma readBitsLoop_took {n : ℕ} {value val : UInt32} (hn : n ≠ 0)
    (hok : ByteBuffer.readBitsLoop native n value b = .ok (val, c)) : SameBytes b c ∧ c.bitpos ≤ kBoundaryBitPos := by
  induction n generalizing value b with
  | zero => exact absurd rfl hn
  | succ n ih =>
    obtain ⟨⟨bit, d⟩, hd, hok⟩ := bind_ok hok
    obtain ⟨⟨hstorage, hwpos⟩, hbit⟩ := readBit_took hd
    cases n with
    | zero =>
      obtain ⟨-, rfl⟩ := Prod.mk.inj (Except.ok.inj hok)
      exact ⟨⟨hstorage, hwpos⟩, hbit⟩
    | succ n =>
      obtain ⟨⟨hstorage', hwpos'⟩, hbit'⟩ := ih (Nat.succ_ne_zero n) hok
      exact ⟨⟨hstorage'.trans hstorage, hwpos'.trans hwpos⟩, hbit'⟩

lemma readInt_took {t : IntType} {val : t.Val} (hok : b.readInt native t = .ok (val, c)) : TookBytes b c := by
  obtain ⟨⟨val', d⟩, hd, hok⟩ := bind_ok hok
  obtain ⟨-, rfl⟩ := Prod.mk.inj (Except.ok.inj hok)
  exact read_took hd

lemma readChars_took {length : UInt32} {str : List UInt8} (hok : (b.readChars length).value = .ok str) :
    TookBytes b (b.readChars length).after := by
  unfold ByteBuffer.readChars at hok ⊢
  split_ifs at hok ⊢
  · cases hok
  · exact ⟨_, rfl⟩
  · exact ⟨_, rfl⟩

lemma readSkip_took {skip : UInt64} (hok : (b.readSkip skip).value = .ok ()) : TookBytes b (b.readSkip skip).after := by
  unfold ByteBuffer.readSkip at hok ⊢
  split_ifs at hok ⊢
  · cases hok
  · exact ⟨_, rfl⟩

end Reads

/-- The buffer `w` saw the writes only. -/
structure Follows (s : Mixed) (w : ByteBuffer) : Prop where
  bytes : SameBytes w s.buffer
  pending : s.reading = false → w = s.buffer.at w.rpos
  unused : s.reading = true → w.bitpos = kInitialBitPos ∧ w.curBitVal = 0
  unfinished : s.reading = true → s.buffer.bitpos ≤ kBoundaryBitPos

section Runs
variable {native : Endian} {start w : ByteBuffer} {s t : Mixed}

lemma follows_of_at (h : w = t.buffer.at w.rpos) (hr : t.reading = false) : Follows t w := by
  refine ⟨?_, fun _ => h, fun hreading => ?_, fun hreading => ?_⟩
  · rw [h]
    exact ⟨rfl, rfl⟩
  · exact absurd (hr.symm.trans hreading) Bool.false_ne_true
  · exact absurd (hr.symm.trans hreading) Bool.false_ne_true

/-- A read of bytes drops the read bits, and finds no others. -/
lemma Follows.took (h : Follows s w) (hapart : s.reading = true ∨ kBoundaryBitPos < s.buffer.bitpos)
    (htook : TookBytes s.buffer t.buffer) (hr : t.reading = false) : Follows t w := by
  obtain ⟨r, hbuffer⟩ := htook
  refine follows_of_at ?_ hr
  rw [hbuffer]
  cases hreading : s.reading with
  | false =>
    have hbit := hapart.resolve_left (by rw [hreading]; exact Bool.false_ne_true)
    rw [resetBitPos_eq_iff.mpr hbit]
    exact h.pending hreading
  | true =>
    obtain ⟨hbit, hcur⟩ := h.unused hreading
    obtain ⟨hstorage, hwpos⟩ := h.bytes
    rw [ByteBuffer.resetBitPos, if_neg (Nat.not_lt.mpr (h.unfinished hreading))]
    cases w
    simp only at hbit hcur hstorage hwpos
    simp only [ByteBuffer.at, hbit, hcur, hstorage, hwpos]

/-- Nothing changes. -/
lemma Follows.same (h : Follows s w) (hbuffer : t.buffer = s.buffer) (hr : t.reading = s.reading) : Follows t w := by
  cases s
  cases t
  subst hbuffer hr
  exact h

lemma Follows.read (h : Follows s w) {call : ReadCall} (hapart : Apart s (.read call))
    (hok : execCall native s.buffer call = .ok t.buffer) (hr : t.reading = readingAfter s (.read call)) :
    Follows t w := by
  cases call with
  | int c =>
    obtain ⟨⟨val, d⟩, hd, hbuffer⟩ := map_ok hok
    exact h.took hapart (hbuffer ▸ readInt_took hd) hr
  | chars length =>
    obtain ⟨str, hstr, hbuffer⟩ := map_ok hok
    exact h.took hapart (hbuffer ▸ readChars_took hstr) hr
  | skip skip =>
    obtain ⟨_, hskip, hbuffer⟩ := map_ok hok
    exact h.took hapart (hbuffer ▸ readSkip_took hskip) hr
  | str =>
    obtain ⟨⟨val, d⟩, hd, hbuffer⟩ := map_ok hok
    dsimp only at hbuffer
    subst hbuffer
    rcases readStringLoop_took hd with ⟨hsame, hend⟩ | ⟨hin, htook⟩
    · have hout : ¬ s.buffer.rpos < s.buffer.storage.length := fun hin => by
        have hnone := hend hin
        omega
      refine h.same hsame ?_
      rw [hr, readingAfter, decide_eq_true hout, Bool.and_true]
    · refine h.took (hapart.imp_right fun hright => ?_) htook ?_
      · exact hright.resolve_right (Nat.not_le.mpr hin)
      · rw [hr, readingAfter, decide_eq_false (not_not.mpr hin), Bool.and_false]
  | bits n =>
    obtain ⟨⟨val, d⟩, hd, hbuffer⟩ := map_ok hok
    dsimp only at hbuffer
    subst hbuffer
    by_cases hn : n = 0
    · subst hn
      obtain ⟨-, hsame⟩ := Prod.mk.inj (Except.ok.inj hd)
      refine h.same hsame.symm ?_
      rw [hr, readingAfter]
      simp
    · obtain ⟨⟨hstorage, hwpos⟩, hbit⟩ := readBitsLoop_took hn hd
      have hreading : t.reading = true := by
        rw [hr, readingAfter, decide_eq_true hn, Bool.or_true]
      refine ⟨⟨hstorage.trans h.bytes.1, hwpos.trans h.bytes.2⟩, fun hno => ?_, fun _ => ?_, fun _ => hbit⟩
      · exact absurd (hreading.symm.trans hno) (Bool.false_ne_true.symm)
      · cases hold : s.reading with
        | true => exact h.unused hold
        | false =>
          obtain ⟨hbit8, hcur⟩ := (hapart.resolve_left hn).resolve_left (by rw [hold]; exact Bool.false_ne_true)
          rw [h.pending hold]
          exact ⟨hbit8, hcur⟩

lemma Follows.write (h : Follows s w) {op : WriteOp} (hapart : Apart s (.write op))
    (hok : execWrite native s.buffer op = .ok t.buffer) (hr : t.reading = readingAfter s (.write op)) :
    ∃ w', execWrite native w op = .ok w' ∧ Follows t w' := by
  cases hreading : s.reading with
  | false =>
    have hw := h.pending hreading
    have hblind : execWrite native (s.buffer.at w.rpos) op = (execWrite native s.buffer op).map (·.at w.rpos) :=
      blind_execWrite native op s.buffer w.rpos
    rw [← hw, hok] at hblind
    exact ⟨t.buffer.at w.rpos, hblind, follows_of_at rfl (hr.trans hreading)⟩
  | true =>
    have hempty := hapart.resolve_left (by rw [hreading]; exact Bool.false_ne_true.symm)
    have hnothing : ∀ b : ByteBuffer, execWrite native b op = .ok b := by
      intro b
      cases op with
      | writeBits value bits =>
        obtain rfl : bits = 0 := hempty
        rfl
      | writeChars str =>
        obtain rfl : str = [] := hempty
        rfl
      | _ => exact hempty.elim
    rw [hnothing] at hok
    exact ⟨w, hnothing w, h.same (Except.ok.inj hok).symm hr⟩

/-- A buffer that only saw the writes goes along with every run. -/
lemma traces_follow {ops : List MixedOp} (h : Traces ((mixedRuns native start).restrict Apart) ops s) :
    ∃ w, (writesOf ops).foldlM (execWrite native) start = .ok w ∧ Follows s w := by
  refine Traces.induction (S := (mixedRuns native start).restrict Apart)
    (I := fun ops s => ∃ w, (writesOf ops).foldlM (execWrite native) start = .ok w ∧ Follows s w) ?_ ?_ h
  · rintro s rfl
    exact ⟨start, rfl, follows_of_at rfl rfl⟩
  · rintro ops s op t ⟨w, hw, hfollows⟩ ⟨hapart, hok, hr⟩
    cases op with
    | read call =>
      refine ⟨w, ?_, hfollows.read hapart hok hr⟩
      rw [writesOf, List.filterMap_append]
      simpa [writesOf] using hw
    | write op =>
      obtain ⟨w', hw', hfollows'⟩ := hfollows.write hapart hok hr
      refine ⟨w', ?_, hfollows'⟩
      have hconcat : writesOf (ops ++ [.write op]) = writesOf ops ++ [op] := by
        rw [writesOf, List.filterMap_append]
        rfl
      rw [hconcat, List.foldlM_append, hw]
      exact congrArg (· >>= pure) hw'

lemma traces_snoc {ops : List MixedOp} (h : Traces (mixedRuns native start) ops s) (op : MixedOp) {b : ByteBuffer}
    (hok : execMixed native s.buffer op = .ok b) :
    Traces (mixedRuns native start) (ops ++ [op]) ⟨b, readingAfter s op⟩ := h.snoc ⟨hok, rfl⟩

lemma apart_snoc {ops : List MixedOp} (h : Traces ((mixedRuns native start).restrict Apart) ops s) (op : MixedOp)
    (hapart : Apart s op) {b : ByteBuffer} (hok : execMixed native s.buffer op = .ok b) :
    Traces ((mixedRuns native start).restrict Apart) (ops ++ [op]) ⟨b, readingAfter s op⟩ := h.snoc ⟨hapart, hok, rfl⟩

end Runs

/-- Two runs with the same writes, up to a last flush, store the same bytes, if reads and
writes keep apart in both. -/
theorem reads_change_no_bytes {native : Endian} {start : ByteBuffer} {ops ops' : List MixedOp} {s s' : Mixed}
    (h : Traces ((mixedRuns native start).restrict Apart) (ops ++ [.write .flushBits]) s)
    (h' : Traces ((mixedRuns native start).restrict Apart) (ops' ++ [.write .flushBits]) s')
    (hsame : writesOf ops = writesOf ops') : s.buffer.storage = s'.buffer.storage := by
  obtain ⟨w, hw, hfollows⟩ := traces_follow h
  obtain ⟨w', hw', hfollows'⟩ := traces_follow h'
  have hwrites : writesOf (ops ++ [.write .flushBits]) = writesOf (ops' ++ [.write .flushBits]) := by
    simp only [writesOf, List.filterMap_append] at hsame ⊢
    rw [hsame]
  rw [hwrites, hw'] at hw
  obtain rfl := Except.ok.inj hw
  exact hfollows.bytes.1.trans hfollows'.bytes.1.symm

/-- A byte is read before the bits, and bits that are read are dropped before the next write. -/
theorem reads_between_writes : ∃ s s' : Mixed,
    Traces (mixedRuns .little {}) [.write (.append [7, 9]), .read (.int .uint8), .write (.writeBits 5 3),
      .write .flushBits, .read (.bits 3), .read (.skip 0), .write .flushBits] s ∧
    Traces (mixedRuns .little {}) [.write (.append [7, 9]), .write (.writeBits 5 3), .write .flushBits,
      .write .flushBits] s' ∧ s.buffer.storage = s'.buffer.storage := by
  have hstart : Traces ((mixedRuns .little {}).restrict Apart) [] ⟨{}, false⟩ := .nil rfl
  have h₁ := apart_snoc hstart (.write (.append [7, 9])) (Or.inl rfl) rfl
  have h₂ := apart_snoc h₁ (.read (.int .uint8)) (Or.inr (show 7 < 8 by decide)) rfl
  have h₃ := apart_snoc h₂ (.write (.writeBits 5 3)) (Or.inl rfl) rfl
  have h₄ := apart_snoc h₃ (.write .flushBits) (Or.inl rfl) rfl
  have h₅ := apart_snoc h₄ (.read (.bits 3)) (Or.inr (Or.inr ⟨rfl, rfl⟩)) rfl
  have h₆ := apart_snoc h₅ (.read (.skip 0)) (Or.inl rfl) rfl
  have h₇ := apart_snoc h₆ (.write .flushBits) (Or.inl rfl) rfl
  have h₃' := apart_snoc h₁ (.write (.writeBits 5 3)) (Or.inl rfl) rfl
  have h₄' := apart_snoc h₃' (.write .flushBits) (Or.inl rfl) rfl
  have h₅' := apart_snoc h₄' (.write .flushBits) (Or.inl rfl) rfl
  exact ⟨_, _, h₇.of_restrict, h₅'.of_restrict, reads_change_no_bytes h₇ h₅' rfl⟩

/-- A byte is read while a written bit is pending. -/
theorem read_drops_bit : ∃ s s' : Mixed,
    Traces (mixedRuns .little {}) [.write (.append [7]), .write (.writeBits 1 1), .read (.int .uint8),
      .write .flushBits] s ∧
    Traces (mixedRuns .little {}) [.write (.append [7]), .write (.writeBits 1 1), .write .flushBits] s' ∧
    s.buffer.storage = [7] ∧ s'.buffer.storage = [7, 0x80] := by
  have hstart : Traces (mixedRuns .little {}) [] ⟨{}, false⟩ := .nil rfl
  have h₁ := traces_snoc hstart (.write (.append [7])) rfl
  have h₂ := traces_snoc h₁ (.write (.writeBits 1 1)) rfl
  have h₃ := traces_snoc h₂ (.read (.int .uint8)) rfl
  exact ⟨_, _, traces_snoc h₃ (.write .flushBits) rfl, traces_snoc h₂ (.write .flushBits) rfl, rfl, rfl⟩

end TyphoonZero.ByteBuffer
