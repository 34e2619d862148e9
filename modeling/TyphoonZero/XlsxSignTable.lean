import TyphoonZero.XlsxAccepted

/-! The reads of the sign table: which characters of a header it is indexed with. -/
namespace TyphoonZero.Xlsx

/-- A byte of a header. -/
def byteChar (byte : UInt8) : Char := Char.ofNat byte.toNat

/-- The index is a signed character. -/
def signIndex (ch : Char) : ℤ := if ch.toNat < 128 then ch.toNat else ch.toNat - 256

abbrev Plain (ch : Char) : Prop := ch.toNat < 128

/-- The characters that a loop looks at: it goes on while `p` holds. -/
def scanned (p : Char → Bool) (strv : Text) : Text := strv.takeWhile p ++ (strv.dropWhile p).take 1

section
variable (stray : Char → Bool)

def typeNameLookups (typeName : Text) : Text :=
  if typeName = [] then []
  else match name2Type.lookup typeName with
    | some _ => []
    | none => scanned (fun ch => !isTypeNameComplexDelimiter stray ch) typeName ++
      if isTypeNameComplexObj stray typeName then typeName.getLast?.toList else []

/-- The loop over the parts ends at one that has no type. -/
def partLookups : List Text → Text
  | [] => []
  | typeName :: typeNames => typeNameLookups stray typeName ++
    if getTypeByTypeName stray typeName = .none then [] else partLookups typeNames

def complexTypeLookups (strv : Text) : Text :=
  let delimiters := (strv.drop 1).reverse.takeWhile (isTypeNameComplexDelimiter stray)
  let typeStr := strv.take (strv.length - delimiters.length)
  scanned (isTypeNameComplexDelimiter stray) (strv.drop 1).reverse ++
    if typeStr.length ≤ 1 then []
    else scanned (fun ch => !isTypeNameComplexDelimiter stray ch) typeStr ++
      match typeStr.find? (isTypeNameComplexDelimiter stray) with
      | none => []
      | some delimiter => partLookups stray (tokenize typeStr [delimiter])

def typeLookups (strv : Text) : Text :=
  typeNameLookups stray strv ++
    if (getTypeByTypeName stray strv).isComplex then complexTypeLookups stray strv else []

/-- The table is read for the type only, and the name is analysed first. -/
def headerLookups (header : Text) : Text :=
  match tokenize header getFieldDelimiters with
  | name :: strv :: _ => if name = [] then [] else typeLookups stray strv
  | _ => []

end

section Conditions

abbrev isSign : Char → Bool := isTypeNameComplexDelimiter fun _ => false

/-- No byte of 128 or more stands in front of the first sign, or at the end behind a sign. -/
def PlainName (typeName : Text) : Prop :=
  typeName = [] ∨ (name2Type.lookup typeName).isSome = true ∨
    (∀ ch ∈ typeName.takeWhile fun ch => !isSign ch, Plain ch) ∧
      (typeName.any isSign = true → ∀ ch ∈ typeName.getLast?, Plain ch)

/-- The parts up to the first one without a type. -/
def PlainParts : List Text → Prop
  | [] => True
  | typeName :: typeNames => PlainName typeName ∧
    (getTypeByTypeName (fun _ => false) typeName ≠ .none → PlainParts typeNames)

/-- In a complex type the last character that is no sign counts too, and so do its parts. -/
def PlainType (strv : Text) : Prop :=
  PlainName strv ∧ ((getTypeByTypeName (fun _ => false) strv).isComplex = true →
    (∀ ch ∈ ((strv.drop 1).rdropWhile isSign).getLast?, Plain ch) ∧
      ∀ delimiter, 1 < (typeText (fun _ => false) strv).length →
        (typeText (fun _ => false) strv).find? isSign = some delimiter →
          PlainParts (tokenize (typeText (fun _ => false) strv) [delimiter]))

def PlainHeader (header : Text) : Prop :=
  ∀ name strv rest, tokenize header getFieldDelimiters = name :: strv :: rest → name ≠ [] → PlainType strv

end Conditions

section
variable {stray : Char → Bool} {p q : Char → Bool}

lemma sign_of_plain {ch : Char} (h : Plain ch) : isTypeNameComplexDelimiter stray ch = isSign ch := by
  unfold isSign isTypeNameComplexDelimiter
  rw [if_pos h, if_pos h]

lemma isSign_plain {ch : Char} (h : isSign ch = true) : Plain ch := by
  unfold isSign isTypeNameComplexDelimiter at h
  by_contra hnot
  rw [if_neg hnot] at h
  cases h

/-- Two loops that agree on plain characters part only where one of them has looked at another. -/
lemma scanned_congr (hpq : ∀ ch, Plain ch → p ch = q ch) {strv : Text} (h : ∀ ch ∈ scanned p strv, Plain ch) :
    strv.takeWhile p = strv.takeWhile q ∧ strv.dropWhile p = strv.dropWhile q := by
  induction strv with
  | nil => exact ⟨rfl, rfl⟩
  | cons ch strv ih =>
    unfold scanned at h ih
    cases hp : p ch with
    | true =>
      rw [List.takeWhile_cons_of_pos hp, List.dropWhile_cons_of_pos hp] at h ⊢
      have hq : q ch = true := (hpq ch (h ch List.mem_cons_self)).symm.trans hp
      obtain ⟨htake, hdrop⟩ := ih fun d hd => h d (List.mem_cons_of_mem ch hd)
      rw [List.takeWhile_cons_of_pos hq, List.dropWhile_cons_of_pos hq]
      exact ⟨congrArg (ch :: ·) htake, hdrop⟩
    | false =>
      have hp' : ¬p ch = true := Bool.eq_false_iff.mp hp
      rw [List.takeWhile_cons_of_neg hp', List.dropWhile_cons_of_neg hp'] at h ⊢
      have hq : ¬q ch = true := by
        rw [← hpq ch (h ch (List.mem_append_right _ List.mem_cons_self)), hp]
        decide
      rw [List.takeWhile_cons_of_neg hq, List.dropWhile_cons_of_neg hq]
      exact ⟨rfl, rfl⟩

lemma scanned_plain_congr (hpq : ∀ ch, Plain ch → p ch = q ch) (strv : Text) :
    (∀ ch ∈ scanned p strv, Plain ch) ↔ ∀ ch ∈ scanned q strv, Plain ch := by
  constructor
  · intro h
    obtain ⟨htake, hdrop⟩ := scanned_congr hpq h
    rwa [scanned, ← htake, ← hdrop]
  · intro h
    obtain ⟨htake, hdrop⟩ := scanned_congr (fun ch hch => (hpq ch hch).symm) h
    rwa [scanned, ← htake, ← hdrop]

lemma not_sign_of_plain {ch : Char} (h : Plain ch) : (!isTypeNameComplexDelimiter stray ch) = !isSign ch := by
  rw [sign_of_plain h]

/-- A search for a sign ends at a plain character. -/
lemma scanned_plain_iff (strv : Text) :
    (∀ ch ∈ scanned (fun ch => !isTypeNameComplexDelimiter stray ch) strv, Plain ch) ↔
      ∀ ch ∈ strv.takeWhile fun ch => !isSign ch, Plain ch := by
  rw [scanned_plain_congr fun ch hch => @not_sign_of_plain stray ch hch, scanned]
  refine ⟨fun h ch hch => h ch (List.mem_append_left _ hch), fun h ch hch => ?_⟩
  rcases List.mem_append.mp hch with hch | hch
  · exact h ch hch
  · have hhead := List.head?_dropWhile_not (fun ch => !isSign ch) strv
    cases hdrop : strv.dropWhile fun ch => !isSign ch with
    | nil =>
      rw [hdrop] at hch
      cases hch
    | cons d rest =>
      rw [hdrop] at hch hhead
      obtain rfl : ch = d := List.mem_singleton.mp hch
      exact isSign_plain (by simpa using hhead)

lemma any_eq (p : Char → Bool) (strv : Text) : strv.any p = !(strv.dropWhile fun ch => !p ch).isEmpty := by
  induction strv with
  | nil => rfl
  | cons ch strv ih =>
    cases hp : p ch with
    | true => rw [List.any_cons, hp, List.dropWhile_cons_of_neg (by rw [hp]; decide)]; rfl
    | false => rw [List.any_cons, hp, List.dropWhile_cons_of_pos (by rw [hp]; rfl), Bool.false_or, ih]

lemma find?_eq (p : Char → Bool) (strv : Text) : strv.find? p = (strv.dropWhile fun ch => !p ch).head? := by
  induction strv with
  | nil => rfl
  | cons ch strv ih =>
    cases hp : p ch with
    | true => rw [List.find?_cons_of_pos hp, List.dropWhile_cons_of_neg (by rw [hp]; decide)]; rfl
    | false => rw [List.find?_cons_of_neg (by rw [hp]; decide), List.dropWhile_cons_of_pos (by rw [hp]; rfl), ih]

/-- What stands past the table does not matter where only plain characters are looked at. -/
lemma dropWhile_of_plain {strv : Text} (h : ∀ ch ∈ strv.takeWhile fun ch => !isSign ch, Plain ch) :
    (strv.dropWhile fun ch => !isTypeNameComplexDelimiter stray ch) = strv.dropWhile fun ch => !isSign ch :=
  (scanned_congr (fun ch hch => @not_sign_of_plain stray ch hch) ((scanned_plain_iff strv).mpr h)).2

lemma isTypeNameComplexObj_of_plain {strv : Text} (h : ∀ ch ∈ strv.takeWhile fun ch => !isSign ch, Plain ch) :
    isTypeNameComplexObj stray strv = strv.any isSign := by
  rw [isTypeNameComplexObj, any_eq, dropWhile_of_plain h, ← any_eq]

lemma typeNameLookups_plain_iff (typeName : Text) :
    (∀ ch ∈ typeNameLookups stray typeName, Plain ch) ↔ PlainName typeName := by
  unfold typeNameLookups PlainName
  by_cases hempty : typeName = []
  · rw [if_pos hempty]
    exact iff_of_true (List.forall_mem_nil _) (Or.inl hempty)
  · rw [if_neg hempty]
    cases hlookup : name2Type.lookup typeName with
    | some type => exact iff_of_true (List.forall_mem_nil _) (Or.inr (Or.inl rfl))
    | none =>
      dsimp only
      rw [List.forall_mem_append, scanned_plain_iff, or_iff_right hempty, or_iff_right (by simp)]
      refine and_congr_right fun hscan => ?_
      rw [isTypeNameComplexObj_of_plain hscan]
      split_ifs with hsign
      · simp only [hsign, true_implies, Option.mem_toList, Option.mem_def]
      · exact iff_of_true (List.forall_mem_nil _) fun habs => absurd habs hsign

lemma getTypeByTypeName_of_plain {typeName : Text} (h : PlainName typeName) :
    getTypeByTypeName stray typeName = getTypeByTypeName (fun _ => false) typeName := by
  unfold getTypeByTypeName
  by_cases hempty : typeName = []
  · rw [if_pos hempty, if_pos hempty]
  · rw [if_neg hempty, if_neg hempty]
    cases hlookup : name2Type.lookup typeName with
    | some type => rfl
    | none =>
      rcases h with habs | habs | ⟨hscan, hlast⟩
      · exact absurd habs hempty
      · rw [hlookup] at habs
        cases habs
      · dsimp only
        rw [isTypeNameComplexObj_of_plain hscan, isTypeNameComplexObj_of_plain hscan]
        cases hany : typeName.any isSign with
        | false => rfl
        | true =>
          have harr : isTypeNameComplexArr stray typeName = isTypeNameComplexArr (fun _ => false) typeName := by
            unfold isTypeNameComplexArr
            cases hch : typeName.getLast? with
            | none => rfl
            | some ch => exact sign_of_plain (hlast hany ch hch)
          rw [harr]

lemma partLookups_plain_iff (typeNames : List Text) :
    (∀ ch ∈ partLookups stray typeNames, Plain ch) ↔ PlainParts typeNames := by
  induction typeNames with
  | nil => exact iff_of_true (List.forall_mem_nil _) trivial
  | cons typeName typeNames ih =>
    unfold partLookups PlainParts
    rw [List.forall_mem_append, typeNameLookups_plain_iff]
    refine and_congr_right fun hplain => ?_
    rw [getTypeByTypeName_of_plain hplain]
    split_ifs with hnone
    · exact iff_of_true (List.forall_mem_nil _) fun habs => absurd hnone habs
    · rw [ih]
      exact ⟨fun h _ => h, fun h => h hnone⟩

/-- The scan from the end stops at a plain character. -/
lemma scanned_back_iff (strv : Text) :
    (∀ ch ∈ scanned (isTypeNameComplexDelimiter stray) strv.reverse, Plain ch) ↔
      ∀ ch ∈ (strv.rdropWhile isSign).getLast?, Plain ch := by
  rw [scanned_plain_congr fun ch hch => @sign_of_plain stray ch hch, scanned, List.rdropWhile, List.getLast?_reverse,
    List.forall_mem_append]
  have hsigns : ∀ ch ∈ strv.reverse.takeWhile isSign, Plain ch := fun ch hch =>
    isSign_plain (List.mem_takeWhile_imp hch)
  rw [and_iff_right hsigns]
  cases strv.reverse.dropWhile isSign with
  | nil => exact iff_of_true (List.forall_mem_nil _) fun ch hch => absurd hch (Option.not_mem_none ch)
  | cons ch rest => simp

lemma length_rdropWhile_cons_le (p : Char → Bool) (ch : Char) (strv : Text) :
    ((ch :: strv).rdropWhile p).length ≤ (ch :: strv.rdropWhile p).length := by
  rw [List.rdropWhile, List.reverse_cons, List.dropWhile_append]
  split_ifs with hempty
  · rw [List.length_reverse, List.length_cons]
    have hle := List.length_dropWhile_le p [ch]
    exact hle.trans (Nat.le_add_left _ _)
  · rw [List.reverse_append]
    exact le_rfl

lemma takeWhile_take_subset (p : Char → Bool) (strv : Text) (k : ℕ) {ch : Char}
    (h : ch ∈ (strv.take k).takeWhile p) : ch ∈ strv.takeWhile p := by
  induction strv generalizing k with
  | nil =>
    rw [List.take_nil] at h
    cases h
  | cons d strv ih =>
    cases k with
    | zero => cases h
    | succ k =>
      rw [List.take_succ_cons] at h
      cases hp : p d with
      | true =>
        rw [List.takeWhile_cons_of_pos hp] at h ⊢
        rcases List.mem_cons.mp h with rfl | h
        · exact List.mem_cons_self
        · exact List.mem_cons_of_mem d (ih k h)
      | false =>
        rw [List.takeWhile_cons_of_neg (by rw [hp]; decide)] at h
        cases h

/-- The search for a sign in the front of a text sees no more than the one in the whole text. -/
lemma front_plain {strv text : Text} {n : ℕ} (htext : strv.take n = text)
    (hscan : ∀ ch ∈ strv.takeWhile fun ch => !isSign ch, Plain ch) :
    ∀ ch ∈ text.takeWhile fun ch => !isSign ch, Plain ch := by
  intro ch hch
  rw [← htext] at hch
  exact hscan ch (takeWhile_take_subset _ _ _ hch)

lemma complexTypeLookups_plain_iff {strv : Text} (hscan : ∀ ch ∈ strv.takeWhile fun ch => !isSign ch, Plain ch) :
    (∀ ch ∈ complexTypeLookups stray strv, Plain ch) ↔
      (∀ ch ∈ ((strv.drop 1).rdropWhile isSign).getLast?, Plain ch) ∧
        ∀ delimiter, 1 < (typeText (fun _ => false) strv).length →
          (typeText (fun _ => false) strv).find? isSign = some delimiter →
            PlainParts (tokenize (typeText (fun _ => false) strv) [delimiter]) := by
  unfold complexTypeLookups
  dsimp only
  rw [List.forall_mem_append, scanned_back_iff]
  refine and_congr_right fun hback => ?_
  have hsame := (scanned_congr (fun ch hch => @sign_of_plain stray ch hch) ((scanned_back_iff _).mpr hback)).1
  rw [hsame]
  split_ifs with hlength
  · refine iff_of_true (List.forall_mem_nil _) fun delimiter hlong => absurd hlong ?_
    cases strv with
    | nil => exact Nat.not_lt_zero 1
    | cons ch strv =>
      rw [List.drop_one, List.tail_cons, take_trailing] at hlength
      exact Nat.not_lt.mpr ((length_rdropWhile_cons_le isSign ch strv).trans hlength)
  · have htext := take_eq_typeText (Nat.lt_of_not_le hlength)
    have hfront := front_plain htext hscan
    rw [htext] at hlength ⊢
    rw [List.forall_mem_append, scanned_plain_iff, and_iff_right hfront, find?_eq, find?_eq, dropWhile_of_plain hfront]
    cases hfind : ((typeText (fun _ => false) strv).dropWhile fun ch => !isSign ch).head? with
    | none => exact iff_of_true (List.forall_mem_nil _) fun d _ hd => absurd hd (Option.some_ne_none d).symm
    | some delimiter =>
      dsimp only
      rw [partLookups_plain_iff]
      constructor
      · intro hparts d _ hd
        obtain rfl := Option.some.inj hd
        exact hparts
      · exact fun hparts => hparts delimiter (Nat.lt_of_not_le hlength) rfl

/-- A complex type is no known name, so that its search for a sign counts. -/
lemma PlainName.scan {strv : Text} (h : PlainName strv)
    (hcomplex : (getTypeByTypeName (fun _ => false) strv).isComplex = true) :
    ∀ ch ∈ strv.takeWhile fun ch => !isSign ch, Plain ch := by
  rcases h with rfl | hknown | hscan
  · exact List.forall_mem_nil _
  · obtain ⟨type, htype⟩ := Option.isSome_iff_exists.mp hknown
    rw [getTypeByTypeName_known htype, (name2Type_type htype).2] at hcomplex
    cases hcomplex
  · exact hscan.1

lemma typeLookups_plain_iff (strv : Text) : (∀ ch ∈ typeLookups stray strv, Plain ch) ↔ PlainType strv := by
  unfold typeLookups PlainType
  rw [List.forall_mem_append, typeNameLookups_plain_iff]
  refine and_congr_right fun hplain => ?_
  rw [getTypeByTypeName_of_plain hplain]
  split_ifs with hcomplex
  · rw [complexTypeLookups_plain_iff (hplain.scan hcomplex)]
    exact ⟨fun h _ => h, fun h => h hcomplex⟩
  · exact iff_of_true (List.forall_mem_nil _) fun habs => absurd habs hcomplex

/-- A part without a type is found before anything past the table is looked at. -/
lemma partTypes_of_plain {typeNames : List Text} (h : PlainParts typeNames) :
    (.none ∈ typeNames.map (getTypeByTypeName stray) ∧
        .none ∈ typeNames.map (getTypeByTypeName fun _ => false)) ∨
      typeNames.map (getTypeByTypeName stray) = typeNames.map (getTypeByTypeName fun _ => false) := by
  induction typeNames with
  | nil => exact Or.inr rfl
  | cons typeName typeNames ih =>
    obtain ⟨hname, hrest⟩ := h
    have hsame := @getTypeByTypeName_of_plain stray typeName hname
    rw [List.map_cons, List.map_cons, hsame]
    by_cases hnone : getTypeByTypeName (fun _ => false) typeName = .none
    · rw [hnone]
      exact Or.inl ⟨List.mem_cons_self, List.mem_cons_self⟩
    · rcases ih (hrest hnone) with hboth | heq
      · exact Or.inl ⟨List.mem_cons_of_mem _ hboth.1, List.mem_cons_of_mem _ hboth.2⟩
      · exact Or.inr (congrArg _ heq)

lemma analyzeComplexType_of_plain (f : AnalystField) {strv : Text}
    (hscan : ∀ ch ∈ strv.takeWhile fun ch => !isSign ch, Plain ch)
    (h : ∀ ch ∈ complexTypeLookups stray strv, Plain ch) :
    f.analyzeComplexType stray strv = f.analyzeComplexType (fun _ => false) strv := by
  obtain ⟨hback, hparts⟩ := (complexTypeLookups_plain_iff hscan).mp h
  have hsame := (scanned_congr (fun ch hch => @sign_of_plain stray ch hch) ((scanned_back_iff _).mpr hback)).1
  unfold AnalystField.analyzeComplexType
  dsimp only
  rw [hsame]
  split_ifs with hlength
  · rfl
  · have htext := take_eq_typeText (Nat.lt_of_not_le hlength)
    have hfront := front_plain htext hscan
    rw [htext] at hlength ⊢
    have hfound : (typeText (fun _ => false) strv).find? (isTypeNameComplexDelimiter stray) =
        (typeText (fun _ => false) strv).find? isSign := by
      rw [find?_eq, find?_eq, dropWhile_of_plain hfront]
    rw [hfound]
    cases hfind : (typeText (fun _ => false) strv).find? isSign with
    | none => rfl
    | some delimiter =>
      dsimp only
      rcases @partTypes_of_plain stray _ (hparts delimiter (Nat.lt_of_not_le hlength) hfind) with hboth | heq
      · rw [if_pos hboth.1, if_pos hboth.2]
      · rw [heq]

/-- A type whose lookups stay in the table is analysed without regard to what lies past it. -/
lemma analyzeType_of_plain (f : AnalystField) {strv : Text} (h : ∀ ch ∈ typeLookups stray strv, Plain ch) :
    f.analyzeType stray strv = f.analyzeType (fun _ => false) strv := by
  unfold typeLookups at h
  rw [List.forall_mem_append, typeNameLookups_plain_iff] at h
  obtain ⟨hname, hcomplex⟩ := h
  rw [getTypeByTypeName_of_plain hname] at hcomplex
  unfold AnalystField.analyzeType
  rw [getTypeByTypeName_of_plain hname]
  cases htype : getTypeByTypeName (fun _ => false) strv with
  | complexObj | complexArr =>
    rw [htype] at hcomplex
    exact analyzeComplexType_of_plain _ (hname.scan (by rw [htype]; rfl)) hcomplex
  | _ => rfl

/-- The tokens behind the type are analysed without the table. -/
lemma foldlM_behind_type (tokens : List Text) (k : ℕ) (f : AnalystField) :
    (tokens.zipIdx (k + 2)).foldlM (AnalystField.analyzeToken stray) f =
      (tokens.zipIdx (k + 2)).foldlM (AnalystField.analyzeToken fun _ => false) f := by
  induction tokens generalizing k f with
  | nil => rfl
  | cons strv tokens ih =>
    have htoken : AnalystField.analyzeToken stray f (strv, k + 2) =
        AnalystField.analyzeToken (fun _ => false) f (strv, k + 2) := by
      rcases k with _ | _ | _ | k
      all_goals rfl
    rw [List.zipIdx_cons, List.foldlM_cons, List.foldlM_cons, htoken]
    exact congrArg _ (funext fun g => ih (k + 1) g)

/-- While all lookups stay in the table, nothing else decides about the header. -/
theorem analyze_of_plain {header : Text} (h : ∀ ch ∈ headerLookups stray header, Plain ch) :
    AnalystField.analyze stray header = AnalystField.analyze (fun _ => false) header := by
  unfold headerLookups at h
  unfold AnalystField.analyze
  generalize tokenize header getFieldDelimiters = tokens at h ⊢
  rcases tokens with _ | ⟨name, _ | ⟨strv, rest⟩⟩
  · rfl
  · rfl
  · dsimp only at h
    simp only [List.zipIdx_cons, List.foldlM_cons, AnalystField.analyzeToken, AnalystField.analyzeName]
    by_cases hname : name = []
    · rw [if_pos hname]
      rfl
    · rw [if_neg hname] at h ⊢
      simp only [Option.bind_eq_bind, Option.bind_some, analyzeType_of_plain _ h]
      exact congrArg _ (funext fun g => foldlM_behind_type rest 0 g)

lemma headerLookups_plain_iff (header : Text) :
    (∀ ch ∈ headerLookups stray header, Plain ch) ↔ PlainHeader header := by
  unfold headerLookups PlainHeader
  rcases tokenize header getFieldDelimiters with _ | ⟨name, _ | ⟨strv, rest⟩⟩
  · exact iff_of_true (List.forall_mem_nil _) fun name strv rest habs => absurd habs (List.cons_ne_nil _ _).symm
  · refine iff_of_true (List.forall_mem_nil _) fun name' strv rest habs => ?_
    exact absurd (List.cons.inj habs).2 (List.cons_ne_nil _ _).symm
  · dsimp only
    split_ifs with hname
    · refine iff_of_true (List.forall_mem_nil _) fun name' strv' rest' heq hne => ?_
      exact absurd ((List.cons.inj heq).1.symm.trans hname) hne
    · rw [typeLookups_plain_iff]
      constructor
      · intro hplain name' strv' rest' heq _
        obtain rfl := (List.cons.inj (List.cons.inj heq).2).1
        exact hplain
      · exact fun hplain => hplain name strv rest rfl hname

lemma mem_of_scanned {strv : Text} {ch : Char} (h : ch ∈ scanned p strv) : ch ∈ strv := by
  rcases List.mem_append.mp h with hmem | hmem
  · exact (List.takeWhile_prefix p).subset hmem
  · exact (List.dropWhile_suffix p).subset (List.mem_of_mem_take hmem)

lemma mem_of_tokenize {input delimiters piece : Text} (hpiece : piece ∈ tokenize input delimiters) {ch : Char}
    (hch : ch ∈ piece) : ch ∈ input := by
  unfold tokenize at hpiece
  induction input generalizing piece with
  | nil =>
    rw [List.splitOnP_nil, List.mem_singleton] at hpiece
    rwa [hpiece] at hch
  | cons d input ih =>
    rw [List.splitOnP_cons_eq_if_modifyHead] at hpiece
    split_ifs at hpiece with hd
    · rcases List.mem_cons.mp hpiece with rfl | hpiece
      · cases hch
      · exact List.mem_cons_of_mem d (ih hpiece hch)
    · obtain ⟨first, pieces, hsplit⟩ := List.exists_cons_of_ne_nil (List.splitOnP_ne_nil (· ∈ delimiters) input)
      rw [hsplit, List.modifyHead_cons] at hpiece
      rcases List.mem_cons.mp hpiece with rfl | hpiece
      · rcases List.mem_cons.mp hch with rfl | hch
        · exact List.mem_cons_self
        · exact List.mem_cons_of_mem d (ih (hsplit ▸ List.mem_cons_self) hch)
      · exact List.mem_cons_of_mem d (ih (hsplit ▸ List.mem_cons_of_mem first hpiece) hch)

lemma mem_of_typeNameLookups {typeName : Text} {ch : Char} (h : ch ∈ typeNameLookups stray typeName) :
    ch ∈ typeName := by
  unfold typeNameLookups at h
  by_cases hempty : typeName = []
  · rw [if_pos hempty] at h
    cases h
  · rw [if_neg hempty] at h
    split at h
    · cases h
    · rcases List.mem_append.mp h with hscan | hlast
      · exact mem_of_scanned hscan
      · split_ifs at hlast
        · exact List.mem_of_getLast? (Option.mem_toList.mp hlast)
        · cases hlast

lemma mem_of_partLookups {typeNames : List Text} {ch : Char} (h : ch ∈ partLookups stray typeNames) :
    ∃ typeName ∈ typeNames, ch ∈ typeName := by
  induction typeNames with
  | nil => cases h
  | cons typeName typeNames ih =>
    unfold partLookups at h
    rcases List.mem_append.mp h with hfirst | hrest
    · exact ⟨typeName, List.mem_cons_self, mem_of_typeNameLookups hfirst⟩
    · split_ifs at hrest
      · cases hrest
      · obtain ⟨part, hpart, hch⟩ := ih hrest
        exact ⟨part, List.mem_cons_of_mem _ hpart, hch⟩

lemma mem_of_complexTypeLookups {strv : Text} {ch : Char} (h : ch ∈ complexTypeLookups stray strv) : ch ∈ strv := by
  unfold complexTypeLookups at h
  dsimp only at h
  rcases List.mem_append.mp h with hback | hrest
  · exact List.mem_of_mem_drop (List.mem_reverse.mp (mem_of_scanned hback))
  · split_ifs at hrest
    · cases hrest
    · rcases List.mem_append.mp hrest with hscan | hparts
      · exact List.mem_of_mem_take (mem_of_scanned hscan)
      · split at hparts
        · cases hparts
        · obtain ⟨part, hpart, hch⟩ := mem_of_partLookups hparts
          exact List.mem_of_mem_take (mem_of_tokenize hpart hch)

lemma mem_of_headerLookups {header : Text} {ch : Char} (h : ch ∈ headerLookups stray header) : ch ∈ header := by
  unfold headerLookups at h
  split at h
  next name strv rest heq =>
    split_ifs at h
    · cases h
    · have hstrv : strv ∈ tokenize header getFieldDelimiters := by
        rw [heq]
        exact List.mem_cons_of_mem _ List.mem_cons_self
      refine mem_of_tokenize hstrv ?_
      rcases List.mem_append.mp h with hname | hcomplex
      · exact mem_of_typeNameLookups hname
      · split_ifs at hcomplex
        · exact mem_of_complexTypeLookups hcomplex
        · cases hcomplex
  next => cases h

lemma signIndex_iff {ch : Char} (h : ch.toNat < 256) : (0 ≤ signIndex ch ∧ signIndex ch < 128) ↔ Plain ch := by
  unfold signIndex
  split_ifs with hplain
  · exact iff_of_true (by omega) hplain
  · exact iff_of_false (by omega) hplain

lemma toNat_byteChar (byte : UInt8) : (byteChar byte).toNat < 256 := by
  have hbyte := UInt8.toNat_lt byte
  have hvalid : Nat.isValidChar byte.toNat := Or.inl (by omega)
  rw [byteChar, Char.ofNat, dif_pos hvalid]
  exact hbyte

/-- The table is read for every character that a scan for a sign passes, of whatever value. -/
theorem signTable_indices_iff (stray : Char → Bool) (headers : List (List UInt8)) :
    (∀ header ∈ headers, ∀ ch ∈ headerLookups stray (header.map byteChar),
      0 ≤ signIndex ch ∧ signIndex ch < 128) ↔ ∀ header ∈ headers, PlainHeader (header.map byteChar) := by
  have hindex : ∀ header : List UInt8, ∀ ch ∈ headerLookups stray (header.map byteChar),
      (0 ≤ signIndex ch ∧ signIndex ch < 128) ↔ Plain ch := by
    intro header ch hch
    obtain ⟨byte, -, rfl⟩ := List.mem_map.mp (mem_of_headerLookups hch)
    exact signIndex_iff (toNat_byteChar byte)
  refine forall₂_congr fun header _ => ?_
  rw [← @headerLookups_plain_iff stray]
  exact forall₂_congr fun ch hch => hindex header ch hch

/-- The first byte of a type in Chinese is looked up below the table. -/
theorem signTable_negative_index :
    ¬∀ ch ∈ headerLookups (fun _ => false) ([105, 100, 64, 228, 184, 173].map byteChar),
      0 ≤ signIndex ch ∧ signIndex ch < 128 := by
  intro hall
  exact absurd (hall (byteChar 228) (by decide)) (by decide)

end
end TyphoonZero.Xlsx
