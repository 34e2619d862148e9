import Mathlib

/-! Streams of frames that are read one after the other from the front of a
buffer. The frames read from a buffer do not change when more of the stream
arrives, so they do not depend on how the stream was cut. -/
namespace FrameStream

/-- What the front of a buffer holds: a frame of `n` elements or no frame at all. -/
inductive Verdict (α : Type*)
  | frame (n : ℕ) (a : α)
  | bad

/-- `next` answers `none` while it needs more of the stream. -/
structure Reader (β α : Type*) where
  next : List β → Option (Verdict α)
  stable : ∀ b v, next b = some v → ∀ c, next (b ++ c) = some v
  fits : ∀ b n a, next b = some (.frame n a) → n ≤ b.length

variable {β α : Type*} {R : Reader β α}

/-- Reading the frames `as` from `b` leaves `r`. -/
inductive Parsed (R : Reader β α) : List β → List α → List β → Prop
  | nil (b) : Parsed R b [] b
  | cons {b n a as r} : R.next b = some (.frame n a) → Parsed R (b.drop n) as r → Parsed R b (a :: as) r

section Parsed
variable {b r r' : List β} {as as' : List α}

lemma Parsed.trans (h : Parsed R b as r) (h' : Parsed R r as' r') : Parsed R b (as ++ as') r' := by
  induction h with
  | nil b => exact h'
  | cons hn _ ih => exact .cons hn (ih h')

lemma Parsed.snoc {n : ℕ} {a : α} (h : Parsed R b as r) (hn : R.next r = some (.frame n a)) :
    Parsed R b (as ++ [a]) (r.drop n) :=
  h.trans (.cons hn (.nil _))

lemma Parsed.append (h : Parsed R b as r) (c : List β) : Parsed R (b ++ c) as (r ++ c) := by
  induction h with
  | nil b => exact .nil _
  | cons hn _ ih =>
    refine .cons (R.stable _ _ hn c) ?_
    rwa [List.drop_append_of_le_length (R.fits _ _ _ hn)]

/-- Of two readings of one buffer, one goes on where the other stops. -/
lemma Parsed.compare (h : Parsed R b as r) (h' : Parsed R b as' r') :
    (∃ t, as' = as ++ t ∧ Parsed R r t r') ∨ ∃ t, as = as' ++ t ∧ Parsed R r' t r := by
  induction h generalizing as' with
  | nil b => exact .inl ⟨as', rfl, h'⟩
  | cons hn hr ih =>
    cases h' with
    | nil => exact .inr ⟨_, rfl, .cons hn hr⟩
    | cons hn' hr' =>
      rw [hn] at hn'
      cases hn'
      rcases ih hr' with hlt | hgt
      · obtain ⟨t, ht, hp⟩ := hlt
        exact .inl ⟨t, by rw [ht]; rfl, hp⟩
      · obtain ⟨t, ht, hp⟩ := hgt
        exact .inr ⟨t, by rw [ht]; rfl, hp⟩

/-- Two readings that both end before something that is not a frame agree. -/
lemma Parsed.unique (h : Parsed R b as r) (h' : Parsed R b as' r')
    (hr : ∀ n a, R.next r ≠ some (.frame n a)) (hr' : ∀ n a, R.next r' ≠ some (.frame n a)) :
    as = as' ∧ r = r' := by
  rcases h.compare h' with hlt | hgt
  · obtain ⟨t, rfl, hp⟩ := hlt
    cases hp with
    | nil => simp
    | cons hn _ => exact absurd hn (hr _ _)
  · obtain ⟨t, rfl, hp⟩ := hgt
    cases hp with
    | nil => simp
    | cons hn _ => exact absurd hn (hr' _ _)

/-- The frames of an encoded stream. -/
lemma parsed_encode {γ : Type*} {enc : γ → List β} {content : γ → α} (xs : List γ) (c : List β)
    (h : ∀ x ∈ xs, ∀ c, R.next (enc x ++ c) = some (.frame (enc x).length (content x))) :
    Parsed R (xs.flatMap enc ++ c) (xs.map content) c := by
  induction xs with
  | nil => exact .nil c
  | cons x xs ih =>
    rw [List.flatMap_cons, List.append_assoc]
    refine .cons (h x (by simp) _) ?_
    rw [List.drop_left]
    exact ih fun y hy => h y (by simp [hy])

end Parsed

end FrameStream
