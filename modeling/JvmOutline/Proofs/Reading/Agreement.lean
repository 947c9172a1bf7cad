import Mathlib.Data.List.Infix
import JvmOutline.Proofs.Reading.Outcome
import JvmOutline.Reader

/-!
# What a reader asks of the readers inside it

Some readers are put together around another one, which reads what is nested.  Such a reader asks
the inner one only about inputs that it reaches itself, and it reaches them by taking bytes off the
front.  So if the inner reader is exchanged for one that agrees with it on these inputs, nothing
changes.

`Reader.AgreeIn S E r r'` says that two readers have the same outcome on every input in `S`, that
what they leave is in `S` again, and that their errors satisfy `E`.  The rules follow the way in
which readers are put together.  They ask of `S` that it holds every input of which it holds a
longer one (`Bytes.ClosedUnderDrop`).

`Reader.only` is the inner reader behind a check of its input.  **To say that a reader asks the
inner one only about inputs that pass the check is to say that the check changes nothing.**
-/

namespace JvmOutline

/-! ### Sets of inputs -/

namespace Bytes

/-- The set holds what is left of each of its inputs. -/
def ClosedUnderDrop (S : Bytes → Prop) : Prop := ∀ input n, S input → S (input.drop n)

/-- What is left of an input at a later position. -/
def Later (input rest : Bytes) : Prop := rest <:+ input ∧ rest ≠ input

instance (input rest : Bytes) : Decidable (Later input rest) :=
  inferInstanceAs (Decidable (_ ∧ _))

theorem later_cons {b : UInt8} {input rest : Bytes} : Later (b :: input) rest ↔ rest <:+ input := by
  rw [Later, List.suffix_cons_iff]
  constructor
  · rintro ⟨h | h, hne⟩
    · exact absurd h hne
    · exact h
  · intro h
    refine ⟨.inr h, ?_⟩
    rintro rfl
    exact absurd h.length_le (Nat.not_succ_le_self _)

theorem closedUnderDrop_suffix (input : Bytes) : ClosedUnderDrop (· <:+ input) :=
  fun rest n h => (List.drop_suffix n rest).trans h

theorem closedUnderDrop_shorter (n : Nat) : ClosedUnderDrop (·.length < n) :=
  fun input k h => Nat.lt_of_le_of_lt (List.drop_suffix k input).length_le h

end Bytes

namespace Reader

open Bytes (ClosedUnderDrop)

variable {α β : Type} {S : Bytes → Prop} {E : FormatError → Prop} {r r' : Reader α}

/-! ### Agreement -/

/-- The readers have the same outcome on the input: a value with a rest in `S`, or an error that
satisfies `E`. -/
def AgreeAt (S : Bytes → Prop) (E : FormatError → Prop) (r r' : Reader α) (input : Bytes) : Prop :=
  r'.run input = r.run input ∧ Ends (fun found => S found.2) E (r.run input)

/-- So it is on every input in `S`. -/
def AgreeIn (S : Bytes → Prop) (E : FormatError → Prop) (r r' : Reader α) : Prop :=
  ∀ input, S input → AgreeAt S E r r' input

theorem AgreeAt.bind {f f' : α → Reader β} {input : Bytes} (h : AgreeAt S E r r' input)
    (hf : ∀ a rest, r.run input = .ok (a, rest) → S rest → AgreeAt S E (f a) (f' a) rest) :
    AgreeAt S E (r >>= f) (r' >>= f') input := by
  obtain ⟨heq, hends⟩ := h
  unfold AgreeAt
  rw [StateT.run_bind, StateT.run_bind, heq]
  cases hrun : r.run input with
  | error e =>
    rw [hrun] at hends
    exact ⟨rfl, hends⟩
  | ok found =>
    rw [hrun] at hends
    exact hf found.1 found.2 hrun hends

namespace AgreeIn

protected theorem pure (a : α) : AgreeIn S E (pure a) (pure a) := fun _ h => ⟨rfl, h⟩

protected theorem fail {e : FormatError} (h : E e) : AgreeIn S E (fail e : Reader α) (fail e) :=
  fun _ _ => ⟨rfl, h⟩

protected theorem check {x : Except FormatError α} (h : FailsIn E x) :
    AgreeIn S E (check x) (check x) := by
  intro input hinput
  refine ⟨rfl, ?_⟩
  cases x with
  | error e => exact h
  | ok a => exact hinput

protected theorem bind {f f' : α → Reader β} (h : AgreeIn S E r r')
    (hf : ∀ a, AgreeIn S E (f a) (f' a)) : AgreeIn S E (r >>= f) (r' >>= f') :=
  fun input hinput => (h input hinput).bind fun a rest _ hrest => hf a rest hrest

protected theorem bind_pure (h : AgreeIn S E r r') (f : α → β) :
    AgreeIn S E (r >>= fun a => pure (f a)) (r' >>= fun a => pure (f a)) :=
  h.bind fun a => .pure (f a)

protected theorem map (h : AgreeIn S E r r') (f : α → β) :
    AgreeIn S E (f <$> r) (f <$> r') := by
  rw [map_eq_pure_bind, map_eq_pure_bind]
  exact h.bind_pure f

protected theorem times (h : AgreeIn S E r r') (k : Nat) :
    AgreeIn S E (times k r) (times k r') := by
  induction k with
  | zero => exact .pure []
  | succ k ih =>
    rw [times_succ, times_succ]
    exact h.bind fun a => ih.bind_pure (a :: ·)

/-! ### Numbers and blocks -/

variable (hS : ClosedUnderDrop S)

include hS

protected theorem takeOr {short : FormatError} (h : E short) (k : Nat) :
    AgreeIn S E (takeOr short k) (takeOr short k) := by
  intro input hinput
  refine ⟨rfl, ?_⟩
  show Ends _ E (if (input.take k).length = k then _ else _)
  split
  · exact hS input k hinput
  · exact h

variable (h : E .endOfInput)

include h

protected theorem take (k : Nat) : AgreeIn S E (take k) (take k) := .takeOr hS h k

protected theorem skip (k : Nat) : AgreeIn S E (skip k) (skip k) :=
  (AgreeIn.take hS h k).bind_pure _

protected theorem u1 : AgreeIn S E u1 u1 := by
  intro input hinput
  refine ⟨rfl, ?_⟩
  cases input with
  | nil => exact h
  | cons b rest => exact hS _ 1 hinput

protected theorem u2 : AgreeIn S E u2 u2 := (AgreeIn.take hS h 2).bind_pure _

protected theorem u4 : AgreeIn S E u4 u4 := (AgreeIn.take hS h 4).bind_pure _

/-! ### Lists -/

protected theorem counted2 (hr : AgreeIn S E r r') : AgreeIn S E (counted2 r) (counted2 r') :=
  (AgreeIn.u2 hS h).bind fun k => hr.times k.toNat

protected theorem counted1 (hr : AgreeIn S E r r') : AgreeIn S E (counted1 r) (counted1 r') :=
  (AgreeIn.u1 hS h).bind fun k => hr.times k.toNat

end AgreeIn

/-! ### Checked readers -/

/-- The reader behind a check of its input; an input that does not pass fails with `e`. -/
def only (P : Bytes → Prop) [DecidablePred P] (e : FormatError) (r : Reader α) : Reader α :=
  fun input => if P input then r input else .error e

theorem run_only {P : Bytes → Prop} [DecidablePred P] {e : FormatError} {input : Bytes}
    (h : P input) : (only P e r).run input = r.run input :=
  if_pos h

/-- On inputs that pass, the check changes nothing. -/
theorem AgreeIn.only {P : Bytes → Prop} [DecidablePred P] (h : AgreeIn S E r r)
    (hP : ∀ input, S input → P input) (e : FormatError) : AgreeIn S E r (only P e r) :=
  fun input hinput => ⟨run_only (hP input hinput), (h input hinput).2⟩

end Reader

end JvmOutline
