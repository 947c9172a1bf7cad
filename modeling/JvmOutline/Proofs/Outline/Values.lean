import JvmOutline.Outline.Annot
import JvmOutline.Proofs.Attribute.Constants
import JvmOutline.Proofs.ClassFile.Errors

/-!
# Outlining annotations, constant by constant

A value can be outlined exactly if each constant in it, at any depth, leads to an entry of the
kind that its tag asks for (**`ElementValue.exists_outline_eq_ok_iff`**).

More than that, the first constant from the left that does not decides the error
(**`ElementValue.verdict_outline`**): nesting has no say in whether and how outlining fails.
-/

namespace JvmOutline

/-! ### Kinds of entries -/

namespace Pool

variable {pool : Pool} {index : UInt16} {kind : EntryKind}

/-- The index leads to an entry of the kind. -/
def HasKind (pool : Pool) (index : UInt16) (kind : EntryKind) : Prop :=
  ∃ e, pool.entry? index = some e ∧ e.kind = kind

/-- Whether the index leads to an entry of the kind, and if not, the error. -/
def checkKind (pool : Pool) (kind : EntryKind) (index : UInt16) : Except FormatError Unit :=
  pool.expect kind (fun e => if e.kind = kind then some () else none) index

theorem checkKind_eq_ok_iff : pool.checkKind kind index = .ok () ↔ pool.HasKind index kind := by
  rw [checkKind, expect_eq_ok_iff]
  refine exists_congr fun e => and_congr_right fun _ => ?_
  by_cases h : e.kind = kind
  · rw [if_pos h]
    exact ⟨fun _ => h, fun _ => rfl⟩
  · rw [if_neg h]
    exact ⟨nofun, fun h' => absurd h' h⟩

theorem checkKind_eq_error_iff {e : FormatError} : pool.checkKind kind index = .error e ↔
    pool.entry? index = none ∧ e = .noEntry index ∨
      ∃ found, pool.entry? index = some found ∧ found.kind ≠ kind ∧ e = .wrongEntry kind found := by
  unfold checkKind expect entry
  cases pool.entry? index with
  | none =>
    refine ⟨fun h => .inl ⟨rfl, (Except.error.inj h).symm⟩, ?_⟩
    rintro (⟨-, rfl⟩ | ⟨_, h, -⟩)
    · rfl
    · nomatch h
  | some found =>
    by_cases h : found.kind = kind
    · simp [h]
    · simp only [if_neg h]
      refine ⟨fun he => .inr ⟨found, rfl, h, (Except.error.inj he).symm⟩, ?_⟩
      rintro (⟨he, -⟩ | ⟨_, ⟨⟩, -, rfl⟩)
      · nomatch he
      · rfl

/-- Look-ups that are content with the same kind of entry succeed and fail alike. -/
theorem verdict_expect {α : Type} {pick : Entry → Option α}
    (hpick : ∀ e, (pick e).map (fun _ => ()) = if e.kind = kind then some () else none) :
    verdict (pool.expect kind pick index) = pool.checkKind kind index := by
  unfold checkKind expect
  cases pool.entry index with
  | error e => rfl
  | ok found =>
    simp only [← hpick found]
    cases pick found <;> rfl

theorem verdict_utf8 : verdict (pool.utf8 index) = pool.checkKind .utf8 index :=
  verdict_expect fun e => by cases e <;> rfl

theorem verdict_integer : verdict (pool.integer index) = pool.checkKind .integer index :=
  verdict_expect fun e => by cases e <;> rfl

theorem verdict_float : verdict (pool.float index) = pool.checkKind .float index :=
  verdict_expect fun e => by cases e <;> rfl

theorem verdict_long : verdict (pool.long index) = pool.checkKind .long index :=
  verdict_expect fun e => by cases e <;> rfl

theorem verdict_double : verdict (pool.double index) = pool.checkKind .double index :=
  verdict_expect fun e => by cases e <;> rfl

end Pool

theorem verdict_outlined {α : Type} (x : Except FormatError α) :
    verdict (outlined x) = outlined (verdict x) := by
  cases x <;> rfl

theorem outlined_eq_ok_iff {α : Type} {x : Except FormatError α} {a : α} :
    outlined x = .ok a ↔ x = .ok a := by
  cases x with
  | error e => exact ⟨nofun, nofun⟩
  | ok b => exact ⟨fun h => congrArg _ (Except.ok.inj h), fun h => congrArg _ (Except.ok.inj h)⟩

theorem outlined_eq_error_iff {α : Type} {x : Except FormatError α} {e : OutlineError} :
    outlined x = .error e ↔ ∃ cause, x = .error cause ∧ e = .ofFormat cause := by
  cases x with
  | error cause =>
    constructor
    · intro h
      exact ⟨cause, rfl, (Except.error.inj h).symm⟩
    · rintro ⟨_, ⟨⟩, rfl⟩
      rfl
  | ok a => exact ⟨nofun, fun ⟨_, h, _⟩ => nomatch h⟩

/-! ### Constants -/

variable {pool : Pool}

/-- The kind of entry that a number or text needs, by its tag. -/
def ElementValue.entryKind? (tag : UInt8) : Option EntryKind :=
  match tagChar tag with
  | 'B' => some .integer
  | 'C' => some .integer
  | 'S' => some .integer
  | 'I' => some .integer
  | 'Z' => some .integer
  | 'J' => some .long
  | 'F' => some .float
  | 'D' => some .double
  | 's' => some .utf8
  | _ => none

open ElementValue (entryKind?)

namespace AnnotValue

/-- Whether a constant can be outlined depends on the kind of entry that it leads to. -/
theorem verdict_ofConst (tag : UInt8) (index : UInt16) : verdict (ofConst pool tag index) =
    match entryKind? tag with
    | some kind => outlined (pool.checkKind kind index)
    | none => .error (.valueTag tag) := by
  have hkind {α : Type} {x : Except FormatError α} {kind : EntryKind} (f : α → AnnotValue)
      (hx : verdict x = pool.checkKind kind index) :
      verdict (outlined do return f (← x)) = outlined (pool.checkKind kind index) := by
    rw [verdict_outlined, verdict_bind_pure, hx]
  -- The look-up and the kind that it asks for are chosen by the same character.
  unfold ofConst entryKind?
  generalize ElementValue.tagChar tag = c
  split
  · exact hkind _ Pool.verdict_integer
  · exact hkind _ Pool.verdict_integer
  · exact hkind _ Pool.verdict_integer
  · exact hkind _ Pool.verdict_integer
  · exact hkind _ Pool.verdict_integer
  · exact hkind _ Pool.verdict_long
  · exact hkind _ Pool.verdict_float
  · exact hkind _ Pool.verdict_double
  · exact hkind _ Pool.verdict_utf8
  · simp only [*]
    rfl

end AnnotValue

/-- The constant can be outlined: its tag is known, and its index leads to an entry of the kind
that the tag asks for. -/
def ElementValue.IsResolvable (pool : Pool) (tag : UInt8) (index : UInt16) : Prop :=
  ∃ kind, entryKind? tag = some kind ∧ pool.HasKind index kind

theorem AnnotValue.verdict_ofConst_eq_ok_iff {tag : UInt8} {index : UInt16} :
    verdict (ofConst pool tag index) = .ok () ↔ ElementValue.IsResolvable pool tag index := by
  rw [verdict_ofConst, ElementValue.IsResolvable]
  cases entryKind? tag with
  | none => exact ⟨nofun, fun ⟨_, h, _⟩ => nomatch h⟩
  | some kind =>
    rw [outlined_eq_ok_iff, Pool.checkKind_eq_ok_iff]
    exact ⟨fun h => ⟨kind, rfl, h⟩, fun ⟨_, hkind, h⟩ => Option.some.inj hkind ▸ h⟩

/-! ### Members and elements -/

namespace AnnotOutline

/-- Puts members into an annotation, one after the other. -/
def insertAll (a : AnnotOutline) (ms : List (String × AnnotValue)) : AnnotOutline :=
  ms.foldl (fun a m => a.insert m.1 m.2) a

end AnnotOutline

namespace ElementValue

/-- Outlines the value of a member. -/
def outlineMember (pool : Pool) (m : String × ElementValue) :
    Except OutlineError (String × AnnotValue) := do
  return (m.1, ← m.2.outline pool)

theorem outlineMembers_eq (a : AnnotOutline) (ms : List (String × ElementValue)) :
    outlineMembers pool a ms = (do return a.insertAll (← ms.mapM (outlineMember pool))) := by
  induction ms generalizing a with
  | nil => rfl
  | cons m ms ih =>
    obtain ⟨name, value⟩ := m
    rw [outlineMembers, List.mapM_cons, outlineMember]
    cases value.outline pool with
    | error e => rfl
    | ok w =>
      refine (ih _).trans ?_
      cases ms.mapM (outlineMember pool) <;> rfl

theorem outlineList_eq (vs : List ElementValue) :
    outlineList pool vs = vs.mapM (outline pool) := by
  induction vs with
  | nil => rfl
  | cons v vs ih => rw [outlineList, List.mapM_cons, ih]

end ElementValue

theorem Annot.outline_eq (a : Annot) : a.outline pool = (do
    return (AnnotOutline.ofDescriptor a.descriptor).insertAll
      (← a.members.mapM (ElementValue.outlineMember pool))) := by
  obtain ⟨descriptor, members⟩ := a
  rw [outline, ElementValue.outlineMembers_eq]

/-! ### Values -/

namespace ElementValue

/-- **The verdict on a value.**  A value can be outlined as far as its constants can, and the first
one that cannot decides the error. -/
theorem verdict_outline (v : ElementValue) : verdict (v.outline pool) =
    forM v.constants fun c => verdict (AnnotValue.ofConst pool c.1 c.2) := by
  induction v using induct with
  | const tag index => exact (bind_pure_unit (x := verdict _)).symm
  | enumConst | classLit => rfl
  | annot a ih =>
    rw [outline, verdict_bind_pure, Annot.outline_eq, verdict_bind_pure, verdict_mapM,
      constants_annot, forM_flatMap]
    exact forM_congr fun m hm => (verdict_bind_pure _ _).trans (ih m hm)
  | array vs ih =>
    rw [outline, verdict_bind_pure, outlineList_eq, verdict_mapM, constants_array, forM_flatMap]
    exact forM_congr ih

/-- Each constant in the value can be outlined. -/
def Resolvable (pool : Pool) (v : ElementValue) : Prop :=
  ∀ c ∈ v.constants, IsResolvable pool c.1 c.2

/-- **Values.**  A value can be outlined exactly if each constant in it can. -/
theorem exists_outline_eq_ok_iff {v : ElementValue} :
    (∃ w, v.outline pool = .ok w) ↔ v.Resolvable pool := by
  rw [← verdict_eq_ok_iff, verdict_outline, forM_eq_ok_iff]
  exact forall₂_congr fun _ _ => AnnotValue.verdict_ofConst_eq_ok_iff

end ElementValue

/-! ### Lists of annotations -/

namespace Annot

theorem verdict_outline (a : Annot) : verdict (a.outline pool) =
    forM a.constants fun c => verdict (AnnotValue.ofConst pool c.1 c.2) :=
  (verdict_bind_pure _ _).symm.trans (ElementValue.annot a).verdict_outline

theorem verdict_outlineAll (as : List Annot) : verdict (outlineAll pool as) =
    forM (as.flatMap constants) fun c => verdict (AnnotValue.ofConst pool c.1 c.2) := by
  rw [outlineAll, verdict_mapM, forM_flatMap]
  exact forM_congr fun a _ => a.verdict_outline

/-- Each constant in the annotation can be outlined. -/
def Resolvable (pool : Pool) (a : Annot) : Prop :=
  ∀ c ∈ a.constants, ElementValue.IsResolvable pool c.1 c.2

theorem exists_outlineAll_eq_ok_iff {as : List Annot} :
    (∃ bs, outlineAll pool as = .ok bs) ↔ ∀ a ∈ as, a.Resolvable pool := by
  rw [← verdict_eq_ok_iff, verdict_outlineAll, forM_eq_ok_iff, List.forall_mem_flatMap]
  exact forall₂_congr fun _ _ => forall₂_congr fun _ _ => AnnotValue.verdict_ofConst_eq_ok_iff

end Annot

end JvmOutline
