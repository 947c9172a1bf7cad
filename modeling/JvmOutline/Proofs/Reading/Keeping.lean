import JvmOutline.Proofs.Reading.Outcome
import JvmOutline.Reader

/-!
# Values that are kept

Of two runs of one computation, the second one may know more: its table may have more entries, so
that a look-up that fails in the first run succeeds in the second.  `Keeps x y` says that the second
outcome is the first one if that is a value, and leaves it open if it is an error.

`Keeps` goes along sequences and lists of steps (`Keeps.bind`, `Keeps.mapM`, `Keeps.foldlM`), and
along the ways in which readers are put together (`Reader.Keeps`).
-/

namespace JvmOutline

variable {ε α β γ : Type}

/-! ### Outcomes -/

/-- If the first outcome is a value, then the second one is the same. -/
def Keeps (x y : Except ε α) : Prop := ∀ a, x = .ok a → y = .ok a

namespace Keeps

variable {x y : Except ε α}

protected theorem refl (x : Except ε α) : Keeps x x := fun _ => id

/-- Nothing is asked where the first outcome is an error. -/
theorem error (e : ε) : Keeps (.error e) y := nofun

theorem bind_of_ok {f g : α → Except ε β} (h : Keeps x y)
    (hfg : ∀ a, x = .ok a → Keeps (f a) (g a)) : Keeps (x >>= f) (y >>= g) := by
  intro b hb
  obtain ⟨a, ha, hb⟩ := bind_eq_ok_iff.mp hb
  exact bind_eq_ok_iff.mpr ⟨a, h a ha, hfg a ha b hb⟩

protected theorem bind {f g : α → Except ε β} (h : Keeps x y) (hfg : ∀ a, Keeps (f a) (g a)) :
    Keeps (x >>= f) (y >>= g) :=
  h.bind_of_ok fun a _ => hfg a

/-- The same step after both. -/
theorem andThen (h : Keeps x y) (f : α → Except ε β) : Keeps (x >>= f) (y >>= f) :=
  h.bind fun a => .refl (f a)

protected theorem map (h : Keeps x y) (f : α → β) : Keeps (f <$> x) (f <$> y) := by
  intro b hb
  obtain ⟨a, ha, rfl⟩ := map_eq_ok_iff.mp hb
  exact map_eq_ok_iff.mpr ⟨a, h a ha, rfl⟩

protected theorem mapM {f g : α → Except ε β} {as : List α} (h : ∀ a ∈ as, Keeps (f a) (g a)) :
    Keeps (as.mapM f) (as.mapM g) := by
  induction as with
  | nil => exact .refl _
  | cons a as ih =>
    rw [List.forall_mem_cons] at h
    rw [List.mapM_cons, List.mapM_cons]
    exact h.1.bind fun b => (ih h.2).andThen _

protected theorem foldlM {f g : β → α → Except ε β} {as : List α}
    (h : ∀ a ∈ as, ∀ b, Keeps (f b a) (g b a)) (b : β) : Keeps (as.foldlM f b) (as.foldlM g b) := by
  induction as generalizing b with
  | nil => exact .refl _
  | cons a as ih =>
    rw [List.forall_mem_cons] at h
    rw [List.foldlM_cons, List.foldlM_cons]
    exact (h.1 b).bind fun b' => ih h.2 b'

/-- A step for each item, and in the second run for what becomes of the item. -/
theorem mapM_map {f : α → Except ε β} {g : γ → Except ε β} {move : α → γ} {as : List α}
    (h : ∀ a ∈ as, Keeps (f a) (g (move a))) : Keeps (as.mapM f) ((as.map move).mapM g) := by
  rw [List.mapM_map]
  exact .mapM h

theorem foldlM_map {f : β → α → Except ε β} {g : β → γ → Except ε β} {move : α → γ} {as : List α}
    (h : ∀ a ∈ as, ∀ b, Keeps (f b a) (g b (move a))) (b : β) :
    Keeps (as.foldlM f b) ((as.map move).foldlM g b) := by
  rw [List.foldlM_map]
  exact .foldlM h b

end Keeps

/-! ### Readers -/

namespace Reader

/-- A value that the first reader takes off an input, the second one takes off as well. -/
def Keeps (r r' : Reader α) : Prop :=
  ∀ input : Bytes, JvmOutline.Keeps (r.run input) (r'.run input)

namespace Keeps

variable {r r' : Reader α}

protected theorem refl (r : Reader α) : Keeps r r := fun _ => .refl _

protected theorem bind {f f' : α → Reader β} (h : Keeps r r') (hf : ∀ a, Keeps (f a) (f' a)) :
    Keeps (r >>= f) (r' >>= f') := by
  intro input
  rw [StateT.run_bind, StateT.run_bind]
  exact (h input).bind fun found => hf found.1 found.2

/-- The same step after both. -/
theorem andThen (h : Keeps r r') (f : α → Reader β) : Keeps (r >>= f) (r' >>= f) :=
  h.bind fun a => .refl (f a)

protected theorem map (h : Keeps r r') (f : α → β) : Keeps (f <$> r) (f <$> r') := by
  rw [← bind_pure_comp, ← bind_pure_comp]
  exact h.andThen _

/-- An outcome that is brought into a reader. -/
theorem check {x y : Except FormatError α} (h : JvmOutline.Keeps x y) :
    Keeps (Reader.check x) (Reader.check y) := by
  intro input
  cases x with
  | error e => exact .error e
  | ok a =>
    rw [h a rfl]
    exact .refl _

protected theorem times (h : Keeps r r') (n : Nat) : Keeps (times n r) (times n r') := by
  induction n with
  | zero => exact .refl _
  | succ n ih =>
    rw [times_succ, times_succ]
    exact h.bind fun a => ih.andThen _

theorem counted2 (h : Keeps r r') : Keeps (Reader.counted2 r) (Reader.counted2 r') :=
  (Keeps.refl u2).bind fun n => h.times n.toNat

theorem counted1 (h : Keeps r r') : Keeps (Reader.counted1 r) (Reader.counted1 r') :=
  (Keeps.refl u1).bind fun n => h.times n.toNat

end Keeps

end Reader

end JvmOutline
