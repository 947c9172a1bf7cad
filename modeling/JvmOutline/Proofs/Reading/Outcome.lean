import Mathlib.Data.List.Forall2

/-!
# Outcomes — when a sequence of steps succeeds

A look-up or a decoder ends in a value or in an error.  A sequence of such steps ends in a value
exactly when each step does.

- `verdict` forgets the value of an outcome.  Steps for the items of a list have the verdict of the
  first item whose step fails, so lists of steps are compared by their verdicts alone.
- `Ends Q E` says that a value satisfies `Q` and an error satisfies `E`; the rules for sequences and
  lists carry both along.
-/

namespace JvmOutline

variable {ε α β : Type}

theorem bind_eq_ok_iff {x : Except ε α} {f : α → Except ε β} {b : β} :
    (x >>= f) = .ok b ↔ ∃ a, x = .ok a ∧ f a = .ok b := by
  cases x with
  | error e => exact ⟨(nomatch ·), fun ⟨_, h, _⟩ => nomatch h⟩
  | ok a => exact ⟨fun h => ⟨a, rfl, h⟩, fun ⟨_, h, hf⟩ => Except.ok.inj h ▸ hf⟩

theorem map_eq_ok_iff {x : Except ε α} {f : α → β} {b : β} :
    (f <$> x) = .ok b ↔ ∃ a, x = .ok a ∧ f a = b := by
  cases x with
  | error e => exact ⟨(nomatch ·), fun ⟨_, h, _⟩ => nomatch h⟩
  | ok a =>
    constructor
    · intro h
      exact ⟨a, rfl, Except.ok.inj h⟩
    · rintro ⟨_, ⟨⟩, hf⟩
      exact congrArg _ hf

theorem exists_bind_pure_iff {x : Except ε α} {f : α → β} {P : β → Prop} :
    (∃ b, (x >>= fun a => pure (f a)) = .ok b ∧ P b) ↔ ∃ a, x = .ok a ∧ P (f a) := by
  cases x with
  | error e => exact ⟨nofun, nofun⟩
  | ok a =>
    constructor
    · rintro ⟨b, ⟨⟩, h⟩
      exact ⟨a, rfl, h⟩
    · rintro ⟨_, ⟨⟩, h⟩
      exact ⟨f a, rfl, h⟩

/-- A step for each item of a list succeeds when all of them do. -/
theorem mapM_eq_ok_iff {f : α → Except ε β} {R : α → β → Prop} {as : List α} {bs : List β}
    (h : ∀ a ∈ as, ∀ b, f a = .ok b ↔ R a b) : as.mapM f = .ok bs ↔ List.Forall₂ R as bs := by
  induction as generalizing bs with
  | nil =>
    rw [List.mapM_nil, List.forall₂_nil_left_iff]
    exact ⟨fun h => (Except.ok.inj h).symm, fun h => congrArg _ h.symm⟩
  | cons a as ih =>
    rw [List.forall_mem_cons] at h
    rw [List.mapM_cons, bind_eq_ok_iff, List.forall₂_cons_left_iff]
    refine exists_congr fun b => ?_
    rw [bind_eq_ok_iff, h.1]
    constructor
    · rintro ⟨ha, bs', has, hbs⟩
      exact ⟨bs', ha, (ih h.2).mp has, (Except.ok.inj hbs).symm⟩
    · rintro ⟨bs', ha, has, rfl⟩
      exact ⟨ha, bs', (ih h.2).mpr has, rfl⟩

theorem mapM_congr {f g : α → Except ε β} {as : List α} (h : ∀ a ∈ as, f a = g a) :
    as.mapM f = as.mapM g := by
  induction as with
  | nil => rfl
  | cons a as ih =>
    rw [List.forall_mem_cons] at h
    rw [List.mapM_cons, List.mapM_cons, h.1, ih h.2]

/-- Each item of the second list comes from one of the first. -/
theorem exists_mem_of_forall₂ {R : α → β → Prop} {as : List α} {bs : List β}
    (h : List.Forall₂ R as bs) {b : β} (hb : b ∈ bs) : ∃ a ∈ as, R a b := by
  induction h with
  | nil => nomatch hb
  | cons h _ ih =>
    rcases List.mem_cons.mp hb with rfl | hb
    · exact ⟨_, List.mem_cons_self, h⟩
    · obtain ⟨a, ha, h⟩ := ih hb
      exact ⟨a, List.mem_cons_of_mem _ ha, h⟩

/-- A fold fails when a step fails that the steps in front of it lead to. -/
theorem foldlM_eq_error_iff {f : β → α → Except ε β} {as : List α} {b : β} {e : ε} :
    as.foldlM f b = .error e ↔ ∃ front a back b', as = front ++ a :: back ∧
      front.foldlM f b = .ok b' ∧ f b' a = .error e := by
  induction as generalizing b with
  | nil => exact ⟨nofun, fun ⟨front, _, _, _, h, _⟩ => by cases front <;> nomatch h⟩
  | cons a as ih =>
    rw [List.foldlM_cons]
    constructor
    · intro h
      cases hstep : f b a with
      | error e' =>
        rw [hstep] at h
        exact ⟨[], a, as, b, rfl, rfl, hstep.trans h⟩
      | ok next =>
        rw [hstep] at h
        obtain ⟨front, x, back, b', rfl, hfront, hx⟩ := ih.mp h
        refine ⟨a :: front, x, back, b', rfl, ?_, hx⟩
        rw [List.foldlM_cons, hstep]
        exact hfront
    · rintro ⟨front, x, back, b', hsplit, hfront, hx⟩
      cases front with
      | nil =>
        cases hsplit
        cases hfront
        rw [hx]
        rfl
      | cons y front =>
        cases hsplit
        rw [List.foldlM_cons] at hfront
        obtain ⟨next, hstep, hfront⟩ := bind_eq_ok_iff.mp hfront
        rw [hstep]
        exact ih.mpr ⟨front, x, back, b', rfl, hfront, hx⟩

/-! ### Verdicts -/

/-- Whether a step ends in a value, and if not, in which error. -/
def verdict (x : Except ε α) : Except ε Unit := x.map fun _ => ()

theorem verdict_eq_ok_iff {x : Except ε α} : verdict x = .ok () ↔ ∃ a, x = .ok a := by
  cases x with
  | error e => exact ⟨nofun, nofun⟩
  | ok a => exact ⟨fun _ => ⟨a, rfl⟩, fun _ => rfl⟩

theorem verdict_eq_error_iff {x : Except ε α} {e : ε} : verdict x = .error e ↔ x = .error e := by
  cases x with
  | error e' =>
    exact ⟨fun h => congrArg _ (Except.error.inj h), fun h => congrArg _ (Except.error.inj h)⟩
  | ok a => exact ⟨nofun, nofun⟩

/-- A second step that succeeds whatever the first one gives it does not matter. -/
theorem verdict_bind_pure (x : Except ε α) (f : α → β) :
    verdict (x >>= fun a => pure (f a)) = verdict x := by
  cases x <;> rfl

/-- A second step that has the same verdict on all values does not need the value. -/
theorem verdict_bind_of_forall {x : Except ε α} {f : α → Except ε β} {y : Except ε Unit}
    (h : ∀ a, verdict (f a) = y) : verdict (x >>= f) = (do verdict x; y) := by
  cases x with
  | error e => rfl
  | ok a => exact h a

theorem verdict_mapM (f : α → Except ε β) (as : List α) :
    verdict (as.mapM f) = forM as fun a => verdict (f a) := by
  induction as with
  | nil => rfl
  | cons a as ih =>
    rw [List.mapM_cons, List.forM_cons, ← ih]
    exact verdict_bind_of_forall fun b => verdict_bind_pure _ _

theorem forM_flatMap (f : β → Except ε Unit) (g : α → List β) (as : List α) :
    forM (as.flatMap g) f = forM as fun a => forM (g a) f := by
  induction as with
  | nil => rfl
  | cons a as ih => rw [List.flatMap_cons, List.forM_append, List.forM_cons, ih]

theorem forM_congr {f g : α → Except ε Unit} {as : List α} (h : ∀ a ∈ as, f a = g a) :
    forM as f = forM as g := by
  induction as with
  | nil => rfl
  | cons a as ih =>
    rw [List.forall_mem_cons] at h
    rw [List.forM_cons, List.forM_cons, h.1, ih h.2]

theorem forM_eq_ok_iff {f : α → Except ε Unit} {as : List α} :
    forM as f = .ok () ↔ ∀ a ∈ as, f a = .ok () := by
  induction as with
  | nil => exact ⟨fun _ => nofun, fun _ => rfl⟩
  | cons a as ih =>
    rw [List.forM_cons, List.forall_mem_cons, ← ih, bind_eq_ok_iff]
    exact ⟨fun ⟨_, h⟩ => h, fun h => ⟨_, h⟩⟩

/-! ### Values and errors -/

/-- If the outcome is a value, it satisfies `Q`; if it is an error, that satisfies `E`. -/
def Ends (Q : α → Prop) (E : ε → Prop) : Except ε α → Prop
  | .ok a => Q a
  | .error e => E e

namespace Ends

variable {Q Q' : α → Prop} {R : β → Prop} {E E' : ε → Prop} {x : Except ε α}

theorem mono (h : Ends Q E x) (hQ : ∀ a, Q a → Q' a) (hE : ∀ e, E e → E' e) : Ends Q' E' x := by
  cases x with
  | error e => exact hE e h
  | ok a => exact hQ a h

theorem bind {f : α → Except ε β} (hx : Ends Q E x) (hf : ∀ a, Q a → Ends R E (f a)) :
    Ends R E (x >>= f) := by
  cases x with
  | error e => exact hx
  | ok a => exact hf a hx

theorem bind_pure {f : α → β} (hx : Ends Q E x) (hf : ∀ a, Q a → R (f a)) :
    Ends R E (x >>= fun a => pure (f a)) :=
  hx.bind fun a ha => hf a ha

theorem mapM {f : α → Except ε β} {as : List α} (h : ∀ a ∈ as, Ends R E (f a)) :
    Ends (fun bs => ∀ b ∈ bs, R b) E (as.mapM f) := by
  induction as with
  | nil => exact fun _ hb => absurd hb List.not_mem_nil
  | cons a as ih =>
    rw [List.forall_mem_cons] at h
    rw [List.mapM_cons]
    exact h.1.bind fun b hb => (ih h.2).bind_pure fun bs hbs => List.forall_mem_cons.mpr ⟨hb, hbs⟩

end Ends

/-- If the step fails, then with an error that satisfies `E`. -/
abbrev FailsIn (E : ε → Prop) (x : Except ε α) : Prop := Ends (fun _ => True) E x

theorem failsIn_iff {E : ε → Prop} {x : Except ε α} : FailsIn E x ↔ ∀ e, x = .error e → E e := by
  cases x with
  | error e => exact ⟨fun h _ he => Except.error.inj he ▸ h, fun h => h e rfl⟩
  | ok a => exact ⟨fun _ => nofun, fun _ => trivial⟩

theorem failsIn_verdict {E : ε → Prop} {x : Except ε α} : FailsIn E (verdict x) ↔ FailsIn E x := by
  cases x <;> exact Iff.rfl

/-- What is known of the value of a step goes with what is known of its errors. -/
theorem FailsIn.ends {Q : α → Prop} {E : ε → Prop} {x : Except ε α} (h : FailsIn E x)
    (hok : ∀ a, x = .ok a → Q a) : Ends Q E x := by
  cases x with
  | error e => exact h
  | ok a => exact hok a rfl

theorem FailsIn.mono {E E' : ε → Prop} {x : Except ε α} (h : FailsIn E x)
    (hE : ∀ e, E e → E' e) : FailsIn E' x :=
  Ends.mono h (fun _ => id) hE

/-- A second step that succeeds has no say in how the two fail. -/
theorem FailsIn.bind_pure {E : ε → Prop} {x : Except ε α} (h : FailsIn E x) (f : α → β) :
    FailsIn E (x >>= fun a => pure (f a)) :=
  Ends.bind_pure h fun _ _ => trivial

theorem FailsIn.mapM {E : ε → Prop} {f : α → Except ε β} {as : List α}
    (h : ∀ a ∈ as, FailsIn E (f a)) : FailsIn E (as.mapM f) :=
  (Ends.mapM h).mono (fun _ _ => trivial) fun _ => id

theorem FailsIn.forM {E : ε → Prop} {f : α → Except ε Unit} {as : List α}
    (h : ∀ a ∈ as, FailsIn E (f a)) : FailsIn E (forM as f) := by
  induction as with
  | nil => exact trivial
  | cons a as ih =>
    rw [List.forall_mem_cons] at h
    rw [List.forM_cons]
    exact Ends.bind h.1 fun _ _ => ih h.2

end JvmOutline
