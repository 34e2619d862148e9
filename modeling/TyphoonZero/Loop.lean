import Mathlib

/-! Loops of an imperative program: a counted `for` with its invariant rule, and
a `while` run on fuel with its partial and total rules. -/
namespace Loop

variable {σ : Type*}

/-- `for (i = lo; i < lo + n; ++i) s = f(i, s)`. -/
def forRange (f : ℕ → σ → σ) (lo : ℕ) : ℕ → σ → σ
  | 0, s => s
  | n + 1, s => f (lo + n) (forRange f lo n s)

lemma forRange_invariant {f : ℕ → σ → σ} {lo n : ℕ} {s : σ} (I : ℕ → σ → Prop) (h0 : I lo s)
    (h1 : ∀ i t, lo ≤ i → i < lo + n → I i t → I (i + 1) (f i t)) :
    I (lo + n) (forRange f lo n s) := by
  induction n with
  | zero => exact h0
  | succ n ih =>
    have hn : I (lo + n) (forRange f lo n s) := ih fun i t hl hu => h1 i t hl (by omega)
    exact h1 (lo + n) _ (by omega) (by omega) hn

/-- Runs `step` until it answers `none`; the result is `none` when the fuel ends first. -/
def whileSome (step : σ → Option σ) : ℕ → σ → Option σ
  | 0, _ => none
  | n + 1, s =>
    match step s with
    | none => some s
    | some t => whileSome step n t

/-- A fuelled computation meets `Q` whenever it answers, and answers when `enough` holds. -/
def Fuelled {β : Type*} (enough : Prop) (r : Option β) (Q : β → Prop) : Prop :=
  (∀ b, r = some b → Q b) ∧ (enough → ∃ b, r = some b)

section Fuelled
variable {β γ : Type*} {e e' : Prop} {r : Option β} {f : β → Option γ} {Q Q' : β → Prop}
  {R : γ → Prop}

lemma Fuelled.some {b : β} (h : Q b) : Fuelled e (some b) Q := by
  refine ⟨?_, fun _ => ⟨b, rfl⟩⟩
  rintro _ ⟨⟩
  exact h

lemma Fuelled.bind (hr : Fuelled e r Q) (hf : ∀ b, Q b → Fuelled e (f b) R) :
    Fuelled e (r.bind f) R := by
  constructor
  · intro c hc
    obtain ⟨b, hb, hc⟩ := Option.bind_eq_some_iff.mp hc
    exact (hf b (hr.1 b hb)).1 c hc
  · intro he
    obtain ⟨b, hb⟩ := hr.2 he
    obtain ⟨c, hc⟩ := (hf b (hr.1 b hb)).2 he
    exact ⟨c, by simp [hb, hc]⟩

lemma Fuelled.map {g : β → γ} (hr : Fuelled e r Q) (hg : ∀ b, Q b → R (g b)) :
    Fuelled e (r.map g) R := by
  rw [Option.map_eq_bind]
  exact hr.bind fun b hb => .some (hg b hb)

lemma Fuelled.weaken (hr : Fuelled e r Q) (h : ∀ b, Q b → Q' b) : Fuelled e r Q' :=
  ⟨fun b hb => h b (hr.1 b hb), hr.2⟩

lemma Fuelled.enough (hr : Fuelled e r Q) (h : e' → e) : Fuelled e' r Q :=
  ⟨hr.1, fun he => hr.2 (h he)⟩

lemma Fuelled.eq_some (hr : Fuelled e r Q) (he : e) : ∃ b, r = Option.some b ∧ Q b := by
  obtain ⟨b, hb⟩ := hr.2 he
  exact ⟨b, hb, hr.1 b hb⟩

end Fuelled

/-- The rule of the loop: `I k` is the invariant, with a bound `k` on the
iterations to come that every iteration lowers. -/
lemma whileSome_fuelled {step : σ → Option σ} {n k : ℕ} {s : σ} (I : ℕ → σ → Prop)
    (hI : ∀ k a b, I k a → step a = some b → ∃ k' < k, I k' b) (h0 : I k s) :
    Fuelled (k < n) (whileSome step n s) fun t => (∃ k', I k' t) ∧ step t = none := by
  induction n generalizing s k with
  | zero => exact ⟨by simp [whileSome], by omega⟩
  | succ n ih =>
    cases hs : step s with
    | none =>
      simp only [whileSome, hs]
      exact .some ⟨⟨k, h0⟩, hs⟩
    | some u =>
      obtain ⟨k', hk, hu⟩ := hI _ _ _ h0 hs
      simp only [whileSome, hs]
      exact (ih hu).enough (by omega)

/-- `whileSome` for a body that may fail; running out of fuel is the failure `out`. -/
def whileExcept {ε : Type*} (out : ε) (step : σ → Except ε (Option σ)) : ℕ → σ → Except ε σ
  | 0, _ => .error out
  | n + 1, s =>
    match step s with
    | .error e => .error e
    | .ok none => .ok s
    | .ok (some t) => whileExcept out step n t

/-- The computation fails at most by running out of fuel, and not when there is
enough of it; its result meets `Q`. -/
def Safe {ε β : Type*} (out : ε) (enough : Prop) (r : Except ε β) (Q : β → Prop) : Prop :=
  match r with
  | .ok b => Q b
  | .error e => e = out ∧ ¬enough

universe u

section Safe
variable {ε : Type*} {β γ : Type u} {out : ε} {e e' : Prop} {r : Except ε β} {f : β → Except ε γ}
  {Q Q' : β → Prop} {R : γ → Prop}

/-- A finished sequence has finished its first part. -/
lemma bind_ok {c : γ} (h : r >>= f = .ok c) : ∃ b, r = .ok b ∧ f b = .ok c := by
  cases r with
  | ok b => exact ⟨b, rfl, h⟩
  | error x => cases h

lemma map_ok {g : β → γ} {c : γ} (h : r.map g = .ok c) : ∃ b, r = .ok b ∧ g b = c := by
  cases r with
  | ok b => exact ⟨b, rfl, Except.ok.inj h⟩
  | error x => cases h

lemma Safe.ok {b : β} (h : Q b) : Safe out e (.ok b) Q := h

lemma Safe.bind (hr : Safe out e r Q) (hf : ∀ b, Q b → Safe out e (f b) R) :
    Safe out e (r >>= f) R := by
  cases r with
  | ok b => exact hf b hr
  | error x => exact hr

lemma Safe.map {g : β → γ} (hr : Safe out e r Q) (hg : ∀ b, Q b → R (g b)) : Safe out e (r.map g) R := by
  cases r with
  | ok b => exact hg b hr
  | error x => exact hr

lemma Safe.weaken (hr : Safe out e r Q) (h : ∀ b, Q b → Q' b) : Safe out e r Q' := by
  cases r with
  | ok b => exact h b hr
  | error x => exact hr

lemma Safe.enough (hr : Safe out e r Q) (h : e' → e) : Safe out e' r Q := by
  cases r with
  | ok b => exact hr
  | error x => exact ⟨hr.1, fun he => hr.2 (h he)⟩

lemma Safe.exists_ok (hr : Safe out e r Q) (he : e) : ∃ b, r = .ok b ∧ Q b := by
  cases r with
  | ok b => exact ⟨b, rfl, hr⟩
  | error x => exact absurd he hr.2

lemma Safe.of_eq_ok {b : β} (hr : Safe out e r Q) (h : r = .ok b) : Q b := by
  subst h
  exact hr

lemma Safe.error_eq {x : ε} (hr : Safe out e r Q) (h : r = .error x) : x = out := by
  subst h
  exact hr.1

/-- One iteration as the rule of the loop sees it: it leaves the loop in `Q`, or
goes on in the invariant with a smaller bound. -/
def Iterates (I : ℕ → σ → Prop) (Q : σ → Prop) (k : ℕ) (s : σ) (r : Except ε (Option σ)) : Prop :=
  match r with
  | .error _ => False
  | .ok none => Q s
  | .ok (some t) => ∃ k' < k, I k' t

/-- The rule of the loop; the body may run out of fuel as well. -/
lemma whileExcept_safe_of {step : σ → Except ε (Option σ)} {n k : ℕ} {s : σ} {Q : σ → Prop}
    (I : ℕ → σ → Prop) (hI : ∀ k s, I k s → Safe out e (step s) fun o => Iterates I Q k s (.ok o : Except ε _))
    (h0 : I k s) : Safe out (e ∧ k < n) (whileExcept out step n s) Q := by
  induction n generalizing s k with
  | zero => exact ⟨rfl, by omega⟩
  | succ n ih =>
    have hs := hI k s h0
    unfold whileExcept
    cases hr : step s with
    | error x =>
      rw [hr] at hs
      exact ⟨hs.1, fun he => hs.2 he.1⟩
    | ok o =>
      rw [hr] at hs
      cases o with
      | none => exact hs
      | some t =>
        obtain ⟨k', hk, ht⟩ := hs
        exact (ih ht).enough fun he => ⟨he.1, by omega⟩

lemma whileExcept_safe {step : σ → Except ε (Option σ)} {n k : ℕ} {s : σ} {Q : σ → Prop}
    (I : ℕ → σ → Prop) (hI : ∀ k s, I k s → Iterates I Q k s (step s)) (h0 : I k s) :
    Safe out (k < n) (whileExcept out step n s) Q := by
  refine (whileExcept_safe_of (e := True) I (fun k s hs => ?_) h0).enough fun hk => ⟨trivial, hk⟩
  have hround := hI k s hs
  cases hr : step s with
  | error x =>
    rw [hr] at hround
    exact hround.elim
  | ok o =>
    rw [hr] at hround
    exact hround

/-- The turns of the loop to its end, each with its label. -/
inductive Rounds {ι : Type*} (step : σ → Except ε (Option σ)) (label : σ → Option ι) : σ → List ι → σ → Prop
  | stop {s : σ} (h : step s = .ok none) : Rounds step label s [] s
  | turn {s t u : σ} {i : ι} {is : List ι} (h : step s = .ok (some t)) (hl : label s = some i)
    (hr : Rounds step label t is u) : Rounds step label s (i :: is) u

/-- Fuel for all turns is enough. -/
lemma Rounds.safe {ι : Type*} {step : σ → Except ε (Option σ)} {label : σ → Option ι} {s t : σ} {is : List ι}
    (h : Rounds step label s is t) (n : ℕ) : Safe out (is.length < n) (whileExcept out step n s) (· = t) := by
  induction h generalizing n with
  | stop h =>
    cases n with
    | zero => exact ⟨rfl, by omega⟩
    | succ n =>
      unfold whileExcept
      rw [h]
      rfl
  | turn h hl hr ih =>
    cases n with
    | zero => exact ⟨rfl, by omega⟩
    | succ n =>
      unfold whileExcept
      rw [h]
      exact (ih n).enough fun hn => by rw [List.length_cons] at hn; omega

/-- An answer read off as an option. -/
lemma toOption_eq_some {ε β : Type*} {r : Except ε β} {b : β} (h : r.toOption = some b) : r = .ok b := by
  cases r with
  | error e => cases h
  | ok a =>
    obtain rfl := Option.some.inj h
    rfl

end Safe

end Loop
