import JvmOutline.Proofs.Reading.Outcome
import JvmOutline.Reader

/-!
# Readers do not look ahead

A reader that does not run out of input does not see what follows.  With more bytes behind the
input it ends in the same way, and leaves these bytes with the rest (`Reader.Persists`).  So if an
input is read to its end, or to a point inside its last bytes, then **without these bytes the reader
runs out of input** (`Reader.Persists.runs_out`): no shorter input is accepted, and none is refused
for another reason.

`Persists` relates two readers, since a reader may have a budget that grows with its input.  It is
kept by the ways in which readers are put together.
-/

namespace JvmOutline

/-- The errors that say that the input ends too early. -/
inductive FormatError.OutOfInput : FormatError → Prop where
  | endOfInput : OutOfInput .endOfInput
  | shortBody : OutOfInput .shortBody

open FormatError (OutOfInput)

variable {α β : Type}

/-! ### Outcomes -/

/-- The second outcome is the first one, unless the first one is that the input ends too early. -/
def Stands (x y : Except FormatError α) : Prop :=
  Ends (fun a => y = .ok a) (fun e => e.OutOfInput ∨ y = .error e) x

namespace Stands

protected theorem refl (x : Except FormatError α) : Stands x x := by
  cases x with
  | error e => exact .inr rfl
  | ok a => rfl

protected theorem bind {x y : Except FormatError α} {f g : α → Except FormatError β}
    (h : Stands x y) (hfg : ∀ a, Stands (f a) (g a)) : Stands (x >>= f) (y >>= g) := by
  cases x with
  | error e => exact h.imp_right fun hy => by rw [hy]; rfl
  | ok a =>
    rw [show y = .ok a from h]
    exact hfg a

protected theorem mapM {f g : α → Except FormatError β} {as : List α}
    (h : ∀ a ∈ as, Stands (f a) (g a)) : Stands (as.mapM f) (as.mapM g) := by
  induction as with
  | nil => exact .refl _
  | cons a as ih =>
    rw [List.forall_mem_cons] at h
    rw [List.mapM_cons, List.mapM_cons]
    exact h.1.bind fun b => (ih h.2).bind fun bs => .refl _

end Stands

/-! ### Readers -/

namespace Reader

/-- What the first reader makes of the input, the second makes of the input with more bytes behind
it, unless the first one runs out of input. -/
def PersistsOn (more : Bytes) (r r' : Reader α) (input : Bytes) : Prop :=
  Ends (fun found => found.2.length ≤ input.length ∧
      r'.run (input ++ more) = .ok (found.1, found.2 ++ more))
    (fun e => e.OutOfInput ∨ r'.run (input ++ more) = .error e) (r.run input)

/-- So it is for all inputs of fewer than `bound` bytes. -/
def Persists (bound : Nat) (more : Bytes) (r r' : Reader α) : Prop :=
  ∀ input : Bytes, input.length < bound → PersistsOn more r r' input

theorem PersistsOn.bind {more input : Bytes} {r r' : Reader α} {f f' : α → Reader β}
    (hr : PersistsOn more r r' input)
    (hf : ∀ a rest, r.run input = .ok (a, rest) → rest.length ≤ input.length →
      PersistsOn more (f a) (f' a) rest) :
    PersistsOn more (r >>= f) (r' >>= f') input := by
  unfold PersistsOn at hr ⊢
  rw [StateT.run_bind, StateT.run_bind]
  cases hrun : r.run input with
  | error e =>
    rw [hrun] at hr
    exact hr.imp_right fun h => by rw [h]; rfl
  | ok found =>
    obtain ⟨a, rest⟩ := found
    rw [hrun] at hr
    obtain ⟨hlength, hrun'⟩ := hr
    rw [hrun']
    exact (hf a rest hrun hlength).mono
      (fun found h => ⟨Nat.le_trans h.1 hlength, h.2⟩) fun e => id

namespace Persists

variable {n : Nat} {more : Bytes} {r r' : Reader α}

/-- **Running out.**  If all of an input is read but a part of its last bytes, then without these
bytes the reader runs out of input. -/
theorem runs_out (h : Persists n more r r') {front rest : Bytes} {a : α} (hn : front.length < n)
    (hrun : r'.run (front ++ more) = .ok (a, rest)) (hrest : rest.length < more.length) :
    ∃ e, e.OutOfInput ∧ r.run front = .error e := by
  have hfront := h front hn
  unfold PersistsOn at hfront
  rw [hrun] at hfront
  cases hx : r.run front with
  | error e =>
    rw [hx] at hfront
    rcases hfront with hout | heq
    · exact ⟨e, hout, rfl⟩
    · nomatch heq
  | ok found =>
    rw [hx] at hfront
    obtain ⟨-, heq⟩ := hfront
    -- The bytes behind the input would all be left.
    cases heq
    rw [List.length_append] at hrest
    omega

/-- Without more input, the outcome stands. -/
theorem stands (h : Persists n [] r r') {input : Bytes} (hn : input.length < n) :
    Stands (r.run input) (r'.run input) := by
  have hinput := h input hn
  unfold PersistsOn at hinput
  rw [List.append_nil] at hinput
  exact hinput.mono (fun found h => by rw [h.2, List.append_nil]) fun e => id

protected theorem pure (a : α) : Persists n more (pure a) (pure a) :=
  fun _ _ => ⟨Nat.le_refl _, rfl⟩

protected theorem fail (e : FormatError) : Persists n more (fail e : Reader α) (fail e) :=
  fun _ _ => .inr rfl

protected theorem check {x y : Except FormatError α} (h : Stands x y) :
    Persists n more (check x) (check y) := by
  intro input _
  cases x with
  | error e => exact h.imp_right fun hy => by rw [hy]; rfl
  | ok a =>
    rw [show y = .ok a from h]
    exact ⟨Nat.le_refl _, rfl⟩

/-- **Two steps.**  What the first step leaves is no longer than its input. -/
protected theorem bind {f f' : α → Reader β} (hr : Persists n more r r')
    (hf : ∀ a, Persists n more (f a) (f' a)) : Persists n more (r >>= f) (r' >>= f') :=
  fun input hn => (hr input hn).bind fun a rest _ hrest =>
    hf a rest (Nat.lt_of_le_of_lt hrest hn)

protected theorem bind_pure (hr : Persists n more r r') (f : α → β) :
    Persists n more (r >>= fun a => pure (f a)) (r' >>= fun a => pure (f a)) :=
  hr.bind fun a => .pure (f a)

protected theorem map (hr : Persists n more r r') (f : α → β) :
    Persists n more (f <$> r) (f <$> r') := by
  rw [map_eq_pure_bind, map_eq_pure_bind]
  exact hr.bind_pure f

/-! ### Numbers and blocks -/

protected theorem takeOr {short : FormatError} (h : short.OutOfInput) (k : Nat) :
    Persists n more (takeOr short k) (takeOr short k) := by
  intro input _
  show Ends _ _ (if (input.take k).length = k then _ else _)
  split
  · next hk =>
    have hle : k ≤ input.length := by
      rw [← hk]
      exact List.length_take_le' k input
    refine ⟨(List.drop_sublist k input).length_le, ?_⟩
    show (if ((input ++ more).take k).length = k then _ else _) = _
    rw [List.take_append_of_le_length hle, List.drop_append_of_le_length hle, if_pos hk]
  · exact .inl h

protected theorem take (k : Nat) : Persists n more (take k) (take k) := .takeOr .endOfInput k

protected theorem skip (k : Nat) : Persists n more (skip k) (skip k) :=
  (Persists.take k).bind_pure _

protected theorem u1 : Persists n more u1 u1 := by
  intro input _
  cases input with
  | nil => exact .inl .endOfInput
  | cons b rest => exact ⟨Nat.le_succ _, rfl⟩

protected theorem u2 : Persists n more u2 u2 := (Persists.take 2).bind_pure _

protected theorem u4 : Persists n more u4 u4 := (Persists.take 4).bind_pure _

protected theorem u8 : Persists n more u8 u8 := (Persists.take 8).bind_pure _

/-- Behind a byte there is a byte less. -/
protected theorem u1_bind {f f' : UInt8 → Reader β} (hf : ∀ b, Persists n more (f b) (f' b)) :
    Persists (n + 1) more (u1 >>= f) (u1 >>= f') := by
  intro input hn
  refine (Persists.u1 input hn).bind fun b rest hrun _ => ?_
  cases input with
  | nil => nomatch hrun
  | cons _ _ =>
    cases hrun
    exact hf b rest (Nat.lt_of_succ_lt_succ hn)

/-! ### Lists -/

protected theorem times (hr : Persists n more r r') (k : Nat) :
    Persists n more (times k r) (times k r') := by
  induction k with
  | zero => exact .pure []
  | succ k ih =>
    rw [times_succ, times_succ]
    exact hr.bind fun a => ih.bind_pure (a :: ·)

protected theorem counted2 (hr : Persists n more r r') :
    Persists n more (counted2 r) (counted2 r') :=
  Persists.u2.bind fun k => hr.times k.toNat

protected theorem counted1 (hr : Persists n more r r') :
    Persists n more (counted1 r) (counted1 r') :=
  Persists.u1.bind fun k => hr.times k.toNat

end Persists

end Reader

end JvmOutline
