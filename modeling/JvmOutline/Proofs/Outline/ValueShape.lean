import JvmOutline.Proofs.Outline.Members
import JvmOutline.Proofs.Reading.FirstFault

/-!
# The outline of a value

A value is outlined by recursion on its arrays and annotations.  What comes of it can be said
without the recursion.

- Whether there is an outline, and in which error outlining ends otherwise, is decided by the
  constants of the value from left to right: `AnnotValue.ConstFault` says what is wrong with one.
- `ElementValue.HasOutline` says what the outline looks like, with one rule for each form of a
  value: arrays keep their elements and their order, and nothing is flattened.

**Outlining a value** (`ElementValue.outline_by_constants`) puts both together.
-/

namespace JvmOutline

open ElementValue (entryKind? IsResolvable)

variable {pool : Pool}

/-! ### One constant -/

namespace AnnotValue

/-- The number or text that an entry is under a tag; an entry of another kind than the tag asks for
is none. -/
def ofEntry? (tag : UInt8) : Entry → Option AnnotValue
  | .integer value =>
    match ElementValue.tagChar tag with
    | 'B' => some (.byte value.toInt8)
    | 'C' => some (.char value.toUInt32.toUInt16)
    | 'S' => some (.short value.toInt16)
    | 'I' => some (.int value)
    | 'Z' => some (.boolean (value != 0))
    | _ => none
  | .long value => if ElementValue.tagChar tag = 'J' then some (.long value) else none
  | .float bits => if ElementValue.tagChar tag = 'F' then some (.float bits) else none
  | .double bits => if ElementValue.tagChar tag = 'D' then some (.double bits) else none
  | .utf8 text => if ElementValue.tagChar tag = 's' then some (.string text) else none
  | _ => none

/-- A constant is outlined from the entry that its index leads to. -/
theorem ofConst_eq_ok_iff {tag : UInt8} {index : UInt16} {w : AnnotValue} :
    ofConst pool tag index = .ok w ↔ ∃ e, pool.entry? index = some e ∧ ofEntry? tag e = some w := by
  have hlook {α : Type} {kind : EntryKind} {pick : Entry → Option α} (f : α → AnnotValue)
      (hpick : ∀ e, (pick e).map f = ofEntry? tag e) :
      outlined (do return f (← pool.expect kind pick index)) = .ok w ↔
        ∃ e, pool.entry? index = some e ∧ ofEntry? tag e = some w := by
    simp only [outlined_eq_ok_iff, bind_eq_ok_iff, Pool.expect_eq_ok_iff, ← hpick,
      Option.map_eq_some_iff]
    constructor
    · rintro ⟨a, ⟨e, he, ha⟩, hw⟩
      exact ⟨e, he, a, ha, Except.ok.inj hw⟩
    · rintro ⟨e, he, a, ha, hw⟩
      exact ⟨a, ⟨e, he, ha⟩, congrArg _ hw⟩
  unfold ofConst
  split
  case h_10 =>
    -- No entry is anything under an unknown tag.
    refine ⟨nofun, fun ⟨e, _, he⟩ => ?_⟩
    unfold ofEntry? at he
    cases e with
    | integer | long | float | double | utf8 =>
      dsimp only at he
      split at he <;> contradiction
    | _ => nomatch he
  all_goals
    next htag =>
    refine hlook _ fun e => ?_
    unfold ofEntry?
    rw [htag]
    cases e <;> rfl

/-- What is wrong with a constant: no number or text has its tag, its index leads nowhere, or its
index leads to an entry of another kind than the tag asks for. -/
inductive ConstFault (pool : Pool) (tag : UInt8) (index : UInt16) : OutlineError → Prop where
  | tag : entryKind? tag = none → ConstFault pool tag index (.valueTag tag)
  | noEntry {kind : EntryKind} : entryKind? tag = some kind → pool.entry? index = none →
      ConstFault pool tag index (.format (.noEntry index))
  | wrongEntry {kind : EntryKind} {found : Entry} : entryKind? tag = some kind →
      pool.entry? index = some found → found.kind ≠ kind →
      ConstFault pool tag index (.format (.wrongEntry kind found))

theorem verdict_ofConst_eq_error_iff {tag : UInt8} {index : UInt16} {e : OutlineError} :
    verdict (ofConst pool tag index) = .error e ↔ ConstFault pool tag index e := by
  rw [verdict_ofConst]
  cases hkind : entryKind? tag with
  | none =>
    constructor
    · rintro ⟨⟩
      exact .tag hkind
    · intro h
      cases h with
      | tag => rfl
      | noEntry hk | wrongEntry hk => exact nomatch hkind.symm.trans hk
  | some kind =>
    simp only [outlined_eq_error_iff, Pool.checkKind_eq_error_iff]
    constructor
    · rintro ⟨_, ⟨he, rfl⟩ | ⟨found, he, hne, rfl⟩, rfl⟩
      · exact .noEntry hkind he
      · exact .wrongEntry hkind he hne
    · intro h
      cases h with
      | tag hk => exact nomatch hkind.symm.trans hk
      | noEntry _ he => exact ⟨_, .inl ⟨he, rfl⟩, rfl⟩
      | wrongEntry hk he hne =>
        cases hkind.symm.trans hk
        exact ⟨_, .inr ⟨_, he, hne, rfl⟩, rfl⟩

end AnnotValue

/-! ### Values -/

namespace ElementValue

/-- What the outline of a value looks like: constants are looked up, the names of enumeration
constants and classes are carried over, an array has the outlines of its elements in their order,
and an annotation has the outlines of its members, merged. -/
inductive HasOutline (pool : Pool) : ElementValue → AnnotValue → Prop where
  | const {tag : UInt8} {index : UInt16} {e : Entry} {w : AnnotValue} :
      pool.entry? index = some e → AnnotValue.ofEntry? tag e = some w →
      HasOutline pool (.const tag index) w
  | enumConst (descriptor constant : String) :
      HasOutline pool (.enumConst descriptor constant) (.enum descriptor constant)
  | classLit (descriptor : String) : HasOutline pool (.classLit descriptor) (.type descriptor)
  | annot {descriptor : String} {members : List (String × ElementValue)}
      {ms : List (String × AnnotValue)} : List.Forall₂ (Named (HasOutline pool)) members ms →
      HasOutline pool (.annot ⟨descriptor, members⟩) (.annot ⟨descriptor, Members.merged ms⟩)
  | array {vs : List ElementValue} {ws : List AnnotValue} :
      List.Forall₂ (HasOutline pool) vs ws → HasOutline pool (.array vs) (.array ws)

theorem outline_iff_hasOutline {v : ElementValue} {w : AnnotValue} :
    v.outline pool = .ok w ↔ HasOutline pool v w := by
  induction v using induct generalizing w with
  | const tag index =>
    refine AnnotValue.ofConst_eq_ok_iff.trans ⟨fun ⟨e, he, hw⟩ => .const he hw, fun h => ?_⟩
    cases h with
    | const he hw => exact ⟨_, he, hw⟩
  | enumConst descriptor constant =>
    constructor
    · rintro ⟨⟩
      exact .enumConst descriptor constant
    · rintro ⟨⟩
      rfl
  | classLit descriptor =>
    constructor
    · rintro ⟨⟩
      exact .classLit descriptor
    · rintro ⟨⟩
      rfl
  | annot a ih =>
    obtain ⟨descriptor, members⟩ := a
    have hannot {o : AnnotOutline} : Annot.outline pool ⟨descriptor, members⟩ = .ok o ↔
        ∃ ms, List.Forall₂ (Named (HasOutline pool)) members ms ∧
          o = ⟨descriptor, Members.merged ms⟩ :=
      Annot.outline_eq_ok_iff_of fun m hm w => ih m hm
    simp only [outline, bind_eq_ok_iff, hannot]
    constructor
    · rintro ⟨_, ⟨ms, hms, rfl⟩, ⟨⟩⟩
      exact .annot hms
    · intro h
      cases h with
      | annot h => exact ⟨_, ⟨_, h, rfl⟩, rfl⟩
  | array vs ih =>
    have hvalues {ws : List AnnotValue} : outlineList pool vs = .ok ws ↔
        List.Forall₂ (HasOutline pool) vs ws := by
      rw [outlineList_eq]
      exact mapM_eq_ok_iff fun v hv w => ih v hv
    rw [outline, bind_eq_ok_iff]
    constructor
    · rintro ⟨ws, hws, ⟨⟩⟩
      exact .array (hvalues.mp hws)
    · intro h
      cases h with
      | array h => exact ⟨_, hvalues.mpr h, rfl⟩

/-- **Outlining a value.**  There is an outline exactly if each constant in the value can be
resolved, and otherwise the first one that cannot decides the error; members whose names are
repeated are no exception.  The outline has the form of the value. -/
theorem outline_by_constants (pool : Pool) (v : ElementValue) :
    ((∃ w, v.outline pool = .ok w) ↔ ∀ c ∈ v.constants, IsResolvable pool c.1 c.2) ∧
    (∀ e, v.outline pool = .error e ↔ ∃ front c back, v.constants = front ++ c :: back ∧
      (∀ d ∈ front, IsResolvable pool d.1 d.2) ∧ AnnotValue.ConstFault pool c.1 c.2 e) ∧
    (∀ w, v.outline pool = .ok w ↔ HasOutline pool v w) := by
  refine ⟨exists_outline_eq_ok_iff, fun e => ?_, fun w => outline_iff_hasOutline⟩
  rw [← verdict_eq_error_iff, verdict_outline, forM_eq_error_iff]
  simp only [AnnotValue.verdict_ofConst_eq_ok_iff, AnnotValue.verdict_ofConst_eq_error_iff]

/-- The first member is replaced by the second one, and yet its constant is not passed over. -/
example : verdict ((annot ⟨"Lp/Mark;", [("n", .const 0x49 1), ("n", .const 0x49 2)]⟩).outline
    ⟨#[.utf8 "n", .integer 5]⟩) = .error (.format (.wrongEntry .integer (.utf8 "n"))) := by decide

end ElementValue

end JvmOutline
