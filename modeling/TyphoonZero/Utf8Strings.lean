import TyphoonZero.Utfcpp
import TyphoonZero.Storage

/-! Truncation of UTF-8 strings and their conversion from and to wide strings. -/
namespace TyphoonZero.Utils
open Utf8 Storage

/-- A write behind the end of a string. -/
inductive Fault
  | outOfRange
  deriving DecidableEq, Repr

inductive WcharWidth
  | bits16
  | bits32

def WcharWidth.bits : WcharWidth → ℕ
  | bits16 => 16
  | bits32 => 32

abbrev WChar (w : WcharWidth) := BitVec w.bits

section Conversions
variable {w : WcharWidth}

/-- A converter writes its results from the first element of the buffer on. -/
def store {α : Type*} (buf xs : List α) : Except Fault (List α) :=
  if xs.length ≤ buf.length then .ok (writeAt buf 0 xs) else .error .outOfRange

def widen (us : List ℕ) : List (WChar w) := us.map (BitVec.ofNat w.bits)

def utf8ToWstr (utf8strv : List UInt8) (wstr : List (WChar w)) : Except Fault (Bool × List (WChar w)) :=
  match distance utf8strv with
  | .error _ => .ok (false, [])
  | .ok len =>
    if len = 0 then .ok (true, wstr)
    else
      match utf8to16 utf8strv with
      | .error _ => .ok (false, [])
      | .ok us => do
        let wstr ← store (resize 0 wstr len) (widen us)
        pure (true, wstr)

/-- On success and on failure the old content of the output is replaced. -/
def wstrToUtf8 (wstrv : List (WChar w)) (_utf8str : List UInt8) : Except Fault (Bool × List UInt8) :=
  let tmp := resize 0 [] (wstrv.length * 4)
  if wstrv.length = 0 then .ok (true, tmp)
  else
    match utf16to8 (wstrv.map BitVec.toNat) with
    | .error _ => .ok (false, [])
    | .ok octets => do
      let tmp ← store tmp octets
      pure (true, resize 0 tmp octets.length)

def utf8Truncate (w : WcharWidth) (utf8str : List UInt8) (len : ℕ) : Except Fault (List UInt8) :=
  match distance utf8str with
  | .error _ => .ok []
  | .ok lenOld =>
    if lenOld ≤ len then .ok utf8str
    else
      match utf8to16 utf8str with
      | .error _ => .ok []
      | .ok us => do
        let wstr : List (WChar w) ← store (resize 0 [] lenOld) (widen us)
        let wstr := resize 0 wstr len
        match utf16to8 (wstr.map BitVec.toNat) with
        | .error _ => .ok []
        | .ok octets => do
          let utf8str ← store utf8str octets
          pure (resize 0 utf8str octets.length)

@[simp] lemma length_widen (us : List ℕ) : (widen us : List (WChar w)).length = us.length := List.length_map _

lemma store_eq_ok {α : Type*} {buf xs : List α} (h : xs.length ≤ buf.length) :
    store buf xs = .ok (writeAt buf 0 xs) :=
  if_pos h

lemma store_eq_error {α : Type*} {buf xs : List α} (h : ¬xs.length ≤ buf.length) :
    store buf xs = .error .outOfRange :=
  if_neg h

lemma fault_ne_ok {α : Type*} {e : Fault} {a : α} : (Except.error e : Except Fault α) ≠ .ok a := by
  intro h
  cases h

lemma resize_writeAt {α : Type*} (d : α) {buf xs : List α} (h : xs.length ≤ buf.length) :
    resize d (writeAt buf 0 xs) xs.length = xs := by
  have hwrite := @length_writeAt _ buf xs 0 (by omega)
  rw [resize, hwrite, Nat.sub_eq_zero_of_le h, List.replicate_zero, List.append_nil, writeAt, List.take_zero,
    List.nil_append]
  exact List.take_left

lemma writeAt_of_length_eq {α : Type*} {buf xs : List α} (h : xs.length = buf.length) : writeAt buf 0 xs = xs := by
  rw [writeAt, List.take_zero, List.nil_append, List.drop_eq_nil_of_le (by omega), List.append_nil]

/-- A unit of the basic plane fits in a wide character. -/
lemma toNat_widen {cs : List Char} (hbasic : ∀ c ∈ cs, c.toNat < 0x10000) :
    (widen (cs.map Char.toNat) : List (WChar w)).map BitVec.toNat = cs.map Char.toNat := by
  rw [widen, List.map_map, List.map_map]
  refine List.map_congr_left fun c hc => ?_
  have hlt := hbasic c hc
  refine (BitVec.toNat_ofNat _ _).trans (Nat.mod_eq_of_lt ?_)
  cases w
  · exact hlt
  · exact hlt.trans (by norm_num [WcharWidth.bits])

lemma resize_widen {cs : List Char} {n : ℕ} (hn : n ≤ cs.length) :
    resize 0 (widen (cs.map Char.toNat) : List (WChar w)) n = widen ((cs.take n).map Char.toNat) := by
  rw [resize, length_widen, List.length_map, Nat.sub_eq_zero_of_le hn, List.replicate_zero, List.append_nil, widen,
    ← List.map_take, ← List.map_take]
  rfl

/-- `Utf8ToWstr` writes more units than it reserved unless all characters are in the basic plane. -/
lemma utf8ToWstr_encode (cs : List Char) (hcs : cs ≠ []) (wstr : List (WChar w)) :
    utf8ToWstr (encode cs) wstr
      = if ∀ c ∈ cs, c.toNat < 0x10000 then .ok (true, widen (cs.map Char.toNat)) else .error .outOfRange := by
  have hpos := List.length_pos_iff.mpr hcs
  have hlen := length_wideUnits_le_iff cs
  simp only [utf8ToWstr, distance_encode, utf8to16_encode]
  rw [if_neg (by omega)]
  split_ifs with hbasic
  · rw [wideUnits_basic hbasic]
    have heq : (widen (cs.map Char.toNat) : List (WChar w)).length = (resize 0 wstr cs.length).length := by
      rw [length_widen, length_resize, List.length_map]
    rw [store_eq_ok heq.le, writeAt_of_length_eq heq]
    rfl
  · rw [store_eq_error (by rwa [length_widen, length_resize, hlen])]
    rfl

lemma wstrToUtf8_basic {cs : List Char} (hbasic : ∀ c ∈ cs, c.toNat < 0x10000) (utf8str : List UInt8) :
    wstrToUtf8 (widen (cs.map Char.toNat) : List (WChar w)) utf8str = .ok (true, encode cs) := by
  have hle := length_encode_le cs
  simp only [wstrToUtf8, toNat_widen hbasic, utf16to8_basic hbasic, length_widen, List.length_map]
  split_ifs with hzero
  · rw [List.length_eq_zero_iff.mp hzero]
    rfl
  · rw [store_eq_ok (by rwa [length_resize])]
    change Except.ok (true, resize 0 (writeAt _ 0 (encode cs)) (encode cs).length) = _
    rw [resize_writeAt 0 (by rwa [length_resize])]

/-- A string with a character outside the basic plane is truncated through a buffer that is too small. -/
theorem utf8Truncate_encode_iff (w : WcharWidth) (cs : List Char) (len : ℕ) :
    utf8Truncate w (encode cs) len = .ok (encode (cs.take len))
      ↔ cs.length ≤ len ∨ ∀ c ∈ cs, c.toNat < 0x10000 := by
  have hlen := length_wideUnits_le_iff cs
  simp only [utf8Truncate, distance_encode, utf8to16_encode]
  by_cases hle : cs.length ≤ len
  · rw [if_pos hle, List.take_of_length_le hle]
    exact iff_of_true rfl (Or.inl hle)
  · rw [if_neg hle]
    by_cases hbasic : ∀ c ∈ cs, c.toNat < 0x10000
    · have hfit : (widen (cs.map Char.toNat) : List (WChar w)).length
          = (resize (0 : WChar w) [] cs.length).length := by
        rw [length_widen, length_resize, List.length_map]
      have htake : ∀ c ∈ cs.take len, c.toNat < 0x10000 := fun c hc => hbasic c (List.mem_of_mem_take hc)
      have hroom := length_encode_take_le cs len
      rw [wideUnits_basic hbasic, store_eq_ok hfit.le, writeAt_of_length_eq hfit]
      refine iff_of_true ?_ (Or.inr hbasic)
      simp only [bind, Except.bind, resize_widen (Nat.le_of_not_le hle), toNat_widen htake, utf16to8_basic htake]
      rw [store_eq_ok hroom]
      exact congrArg Except.ok (resize_writeAt 0 hroom)
    · rw [store_eq_error (by rwa [length_widen, length_resize, hlen])]
      exact iff_of_false fault_ne_ok (not_or.mpr ⟨hle, hbasic⟩)

/-- Two characters are left of three, the first of which has two units. -/
theorem utf8Truncate_supplementary_overflow :
    utf8Truncate .bits32 (encode ['😀', 'a', 'b']) 2 = .error .outOfRange
      ∧ utf8Truncate .bits32 (encode ['😀', 'a', 'b']) 2 ≠ .ok (encode (['😀', 'a', 'b'].take 2)) := by
  decide

/-- There and back again, whatever the outputs held before. -/
def RoundTrips (utf8strv : List UInt8) (wstr : List (WChar w)) (utf8str : List UInt8) : Prop :=
  ∃ wide : List (WChar w), utf8ToWstr utf8strv wstr = .ok (true, wide)
    ∧ utf8ToWstr utf8strv ([] : List (WChar w)) = .ok (true, wide)
    ∧ wstrToUtf8 wide utf8str = .ok (true, utf8strv)

/-- An empty string leaves the wide string as it was. -/
theorem roundTrips_encode_iff (cs : List Char) (wstr : List (WChar w)) (utf8str : List UInt8) :
    RoundTrips (encode cs) wstr utf8str ↔ (∀ c ∈ cs, c.toNat < 0x10000) ∧ (cs = [] → wstr = []) := by
  rcases eq_or_ne cs [] with rfl | hcs
  · constructor
    · rintro ⟨wide, hwstr, hnil, -⟩
      have hwide : wstr = wide := congrArg Prod.snd (Except.ok.inj hwstr)
      have hempty : [] = wide := congrArg Prod.snd (Except.ok.inj hnil)
      exact ⟨List.forall_mem_nil _, fun _ => hwide.trans hempty.symm⟩
    · rintro ⟨-, hempty⟩
      rw [hempty rfl]
      exact ⟨[], rfl, rfl, rfl⟩
  · have hwstr := utf8ToWstr_encode cs hcs wstr
    have hnil := utf8ToWstr_encode cs hcs ([] : List (WChar w))
    by_cases hbasic : ∀ c ∈ cs, c.toNat < 0x10000
    · rw [if_pos hbasic] at hwstr hnil
      exact iff_of_true ⟨_, hwstr, hnil, wstrToUtf8_basic hbasic utf8str⟩ ⟨hbasic, fun h => absurd h hcs⟩
    · rw [if_neg hbasic] at hwstr
      refine iff_of_false ?_ fun h => hbasic h.1
      rintro ⟨wide, hok, -⟩
      exact fault_ne_ok (hwstr.symm.trans hok)

/-- A wide string keeps its old content under the empty string; a character with two units overflows. -/
theorem roundTrips_empty_keeps :
    ¬RoundTrips (encode []) ([97] : List (WChar .bits32)) [] ∧
      ¬RoundTrips (encode ['😀']) ([] : List (WChar .bits32)) [] := by
  constructor
  · rintro ⟨wide, hwstr, hnil, -⟩
    have hwide : [97] = wide := congrArg Prod.snd (Except.ok.inj hwstr)
    have hempty : [] = wide := congrArg Prod.snd (Except.ok.inj hnil)
    exact List.cons_ne_nil _ _ (hwide.trans hempty.symm)
  · rintro ⟨wide, hwstr, -⟩
    exact fault_ne_ok hwstr

end Conversions
end TyphoonZero.Utils
