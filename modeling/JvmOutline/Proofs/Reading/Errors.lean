import JvmOutline.Proofs.Reading.Outcome
import JvmOutline.Reader

/-!
# The errors of readers

`Reader.FailsWith E r` says that the reader `r` fails, on any input, only with errors that satisfy
`E`.  The rules follow the way in which readers are put together, so the errors of a reader are
those of its steps.
-/

namespace JvmOutline.Reader

variable {α β : Type} {E : FormatError → Prop} {r : Reader α}

/-- On any input, the reader fails only with errors that satisfy `E`. -/
def FailsWith (E : FormatError → Prop) (r : Reader α) : Prop :=
  ∀ input, FailsIn E (r.run input)

namespace FailsWith

protected theorem pure (a : α) : FailsWith E (pure a) := fun _ => trivial

protected theorem fail {e : FormatError} (h : E e) : FailsWith E (fail e : Reader α) := fun _ => h

protected theorem check {x : Except FormatError α} (h : FailsIn E x) : FailsWith E (check x) := by
  intro input
  cases x with
  | error e => exact h
  | ok a => trivial

protected theorem bind {f : α → Reader β} (hr : FailsWith E r) (hf : ∀ a, FailsWith E (f a)) :
    FailsWith E (r >>= f) := by
  intro input
  rw [StateT.run_bind]
  exact Ends.bind (hr input) fun found _ => hf found.1 found.2

protected theorem bind_pure (hr : FailsWith E r) (f : α → β) :
    FailsWith E (r >>= fun a => pure (f a)) :=
  hr.bind fun a => .pure (f a)

protected theorem map (hr : FailsWith E r) (f : α → β) : FailsWith E (f <$> r) := by
  rw [map_eq_pure_bind]
  exact hr.bind_pure f

/-! ### Numbers and blocks -/

protected theorem takeOr {short : FormatError} (h : E short) (k : Nat) :
    FailsWith E (takeOr short k) := by
  intro input
  show FailsIn E (if (input.take k).length = k then _ else _)
  split
  · trivial
  · exact h

variable (h : E .endOfInput)

include h

protected theorem take (k : Nat) : FailsWith E (take k) := .takeOr h k

protected theorem skip (k : Nat) : FailsWith E (skip k) := (FailsWith.take h k).bind_pure _

protected theorem u1 : FailsWith E u1 := by
  intro input
  cases input with
  | nil => exact h
  | cons b rest => trivial

protected theorem u2 : FailsWith E u2 := (FailsWith.take h 2).bind_pure _

protected theorem u4 : FailsWith E u4 := (FailsWith.take h 4).bind_pure _

protected theorem u8 : FailsWith E u8 := (FailsWith.take h 8).bind_pure _

/-! ### Lists -/

omit h in
protected theorem times (hr : FailsWith E r) (k : Nat) : FailsWith E (times k r) := by
  induction k with
  | zero => exact .pure []
  | succ k ih =>
    rw [times_succ]
    exact hr.bind fun a => ih.bind_pure (a :: ·)

protected theorem counted2 (hr : FailsWith E r) : FailsWith E (counted2 r) :=
  (FailsWith.u2 h).bind fun k => hr.times k.toNat

protected theorem counted1 (hr : FailsWith E r) : FailsWith E (counted1 r) :=
  (FailsWith.u1 h).bind fun k => hr.times k.toNat

end FailsWith

end JvmOutline.Reader
