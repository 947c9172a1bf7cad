import JvmOutline.Assembly.Assembler
import JvmOutline.Outline.Class
import JvmOutline.Proofs.Outline.Declarations
import JvmOutline.Proofs.Outline.ValueShape
import JvmOutline.Proofs.Pool.Comparison

/-!
# Equality of outlines

The equality of the values of annotations is a recursion over pairs of values, with one case for
each pair of the same form and `false` for all others.  It answers `true` exactly when the two
values are one and the same (`AnnotValue.same_iff`), at any depth, and so does the equality of all
that is built from them.

A value that comes from a floating-point constant carries its bits (`Entry.Carries`), and such
values are compared by these.  The constants themselves can be compared as numbers, which is
different: then what is no number does not equal itself, and the two zeros are equal.

**Equality of outlines is identity** (`ClassOutline.equality_is_identity`), whatever the numbers in
them are.
-/

namespace JvmOutline

/-! ### Values -/

mutual

/-- Two values are equal exactly if they are the same value. -/
theorem AnnotValue.same_iff (v w : AnnotValue) : v.same w = true ↔ v = w := by
  cases v with
  | annot a =>
    cases w with
    | annot b =>
      rw [AnnotValue.same, AnnotValue.annot.injEq]
      exact a.same_iff b
    | _ => simp [AnnotValue.same]
  | array as =>
    cases w with
    | array bs =>
      rw [AnnotValue.same, AnnotValue.array.injEq]
      exact AnnotValue.sameList_iff as bs
    | _ => simp [AnnotValue.same]
  | _ =>
    -- No value is inside this one.
    cases w <;> simp [AnnotValue.same]
termination_by structural v

/-- Two annotations are equal exactly if they are the same annotation. -/
theorem AnnotOutline.same_iff (a b : AnnotOutline) : a.same b = true ↔ a = b := by
  obtain ⟨d, ms⟩ := a
  obtain ⟨e, ns⟩ := b
  rw [AnnotOutline.same, Bool.and_eq_true, beq_iff_eq, AnnotOutline.mk.injEq]
  exact and_congr_right fun _ => AnnotValue.sameMembers_iff ms ns
termination_by structural a

theorem AnnotValue.sameMembers_iff (ms ns : List (String × AnnotValue)) :
    AnnotValue.sameMembers ms ns = true ↔ ms = ns := by
  match ms, ns with
  | [], [] => simp [AnnotValue.sameMembers]
  | [], _ :: _ => simp [AnnotValue.sameMembers]
  | _ :: _, [] => simp [AnnotValue.sameMembers]
  | (m, v) :: ms, (n, w) :: ns =>
    rw [AnnotValue.sameMembers, Bool.and_eq_true, Bool.and_eq_true, beq_iff_eq, v.same_iff w,
      AnnotValue.sameMembers_iff ms ns, List.cons.injEq, Prod.mk.injEq]
termination_by structural ms

theorem AnnotValue.sameList_iff (vs ws : List AnnotValue) :
    AnnotValue.sameList vs ws = true ↔ vs = ws := by
  match vs, ws with
  | [], [] => simp [AnnotValue.sameList]
  | [], _ :: _ => simp [AnnotValue.sameList]
  | _ :: _, [] => simp [AnnotValue.sameList]
  | v :: vs, w :: ws =>
    rw [AnnotValue.sameList, Bool.and_eq_true, v.same_iff w, AnnotValue.sameList_iff vs ws,
      List.cons.injEq]
termination_by structural vs

end

/-! ### Declarations -/

instance : LawfulBEq AnnotValue where
  rfl := (AnnotValue.same_iff _ _).mpr rfl
  eq_of_beq := (AnnotValue.same_iff _ _).mp

instance : LawfulBEq AnnotOutline where
  rfl := (AnnotOutline.same_iff _ _).mpr rfl
  eq_of_beq := (AnnotOutline.same_iff _ _).mp

deriving instance ReflBEq, LawfulBEq for FieldOutline
deriving instance ReflBEq, LawfulBEq for MethodOutline
deriving instance ReflBEq, LawfulBEq for ComponentOutline
deriving instance ReflBEq, LawfulBEq for ClassOutline

/-! ### Values of constants -/

/-- A value carries the bits of an entry if it is a floating-point number exactly when the entry is
one, of the same width and with the same bits. -/
structure Entry.Carries {α : Type} (float : UInt32 → α) (double : UInt64 → α) (e : Entry)
    (v : α) : Prop where
  float_iff : ∀ bits, v = float bits ↔ e = .float bits
  double_iff : ∀ bits, v = double bits ↔ e = .double bits

variable {p q : Pool} {i j : UInt16} {a b : Entry}

/-- Values that carry the bits of two entries, of which one is a floating-point constant, are equal
exactly if the entries are. -/
theorem Entry.Carries.eq_iff {α : Type} {float : UInt32 → α} {double : UInt64 → α} {v w : α}
    (hv : a.Carries float double v) (hw : b.Carries float double w)
    (hkind : a.kind = .float ∨ a.kind = .double) : v = w ↔ a = b := by
  cases a with
  | float bits => rw [(hv.float_iff bits).mpr rfl, eq_comm, hw.float_iff bits, eq_comm]
  | double bits => rw [(hv.double_iff bits).mpr rfl, eq_comm, hw.double_iff bits, eq_comm]
  | _ => simp [kind] at hkind

theorem ConstantValue.carries_of_ofPool {field : String} {v : ConstantValue}
    (ha : p.entry? i = some a) (h : ofPool p field i = .ok v) : a.Carries float double v := by
  cases ofPool_eq_ok_iff.mp h with
  | int hentry | long hentry | float hentry | double hentry | string hentry =>
    obtain rfl := Option.some.inj (ha.symm.trans hentry)
    exact ⟨by simp, by simp⟩

theorem AnnotValue.carries_of_ofConst {tag : UInt8} {v : AnnotValue}
    (ha : p.entry? i = some a) (h : ofConst p tag i = .ok v) : a.Carries float double v := by
  obtain ⟨_, hentry, h⟩ := ofConst_eq_ok_iff.mp h
  obtain rfl := Option.some.inj (ha.symm.trans hentry)
  unfold ofEntry? at h
  cases a with
  | integer | long | float | double | utf8 =>
    dsimp only at h
    split at h <;> cases h <;> exact ⟨by simp, by simp⟩
  | _ => cases h

/-! ### Outlines -/

namespace ClassOutline

/-- **Equality of outlines is identity.**  Two classes are equal exactly if they are the same in
every part, with the values of annotations at any depth and floating-point numbers by their bits; so
equality is an equivalence, and outlining the same bytes twice gives equal outlines.  Values of
different kinds are never equal.  Values that come from floating-point entries are equal exactly if
the entries hold the same bits, also where the entries compare differently as numbers: an entry that
is no number does not equal itself then, and the zeros of both signs are equal. -/
theorem equality_is_identity :
    (∀ c d : ClassOutline, (c == d) = true ↔ c = d) ∧
    Equivalence (fun c d : ClassOutline => (c == d) = true) ∧
    (∀ v w : AnnotValue, (v == w) = true ↔ v = w) ∧
    Equivalence (fun v w : AnnotValue => (v == w) = true) ∧
    (∀ v w : AnnotValue, v.ctorIdx ≠ w.ctorIdx → (v == w) = false) ∧
    (∀ v w : ConstantValue, v.ctorIdx ≠ w.ctorIdx → (v == w) = false) ∧
    (∀ bytes c d, (ofBytes bytes).result = .ok c → (ofBytes bytes).result = .ok d →
      (c == d) = true) ∧
    (∀ (p q : Pool) (i j : UInt16) (a b : Entry), p.entry? i = some a → q.entry? j = some b →
      a.kind = .float ∨ a.kind = .double →
        (∀ f g v w, ConstantValue.ofPool p f i = .ok v → ConstantValue.ofPool q g j = .ok w →
          ((v == w) = true ↔ a = b)) ∧
        (∀ s t v w, AnnotValue.ofConst p s i = .ok v → AnnotValue.ofConst q t j = .ok w →
          ((v == w) = true ↔ a = b))) ∧
    (∀ a b : Entry, a.sameValue b = true ↔
      (a = b ∧ ¬ a.IsNaN) ∨ (a.kind = b.kind ∧ a.IsFloatingZero ∧ b.IsFloatingZero)) := by
  have hequivalence {α : Type} [BEq α] [LawfulBEq α] :
      Equivalence (fun c d : α => (c == d) = true) :=
    ⟨fun _ => BEq.rfl, BEq.symm, BEq.trans⟩
  have hkinds {α : Type} [BEq α] [LawfulBEq α] {kind : α → Nat} {v w : α}
      (h : kind v ≠ kind w) : (v == w) = false :=
    beq_eq_false_iff_ne.mpr fun hvw => h (congrArg kind hvw)
  refine ⟨fun _ _ => beq_iff_eq, hequivalence, fun _ _ => beq_iff_eq, hequivalence,
    fun _ _ => hkinds, fun _ _ => hkinds, ?same, ?constants, Entry.sameValue_iff⟩
  case same =>
    intro bytes c d hc hd
    exact beq_iff_eq.mpr (Except.ok.inj (hc.symm.trans hd))
  case constants =>
    intro p q i j a b ha hb hkind
    constructor
    · intro f g v w hv hw
      rw [beq_iff_eq]
      exact (ConstantValue.carries_of_ofPool ha hv).eq_iff (ConstantValue.carries_of_ofPool hb hw)
        hkind
    · intro s t v w hv hw
      rw [beq_iff_eq]
      exact (AnnotValue.carries_of_ofConst ha hv).eq_iff (AnnotValue.carries_of_ofConst hb hw) hkind

end ClassOutline

/-- A class with a field whose constant is no number, and with numbers of this kind and zeros of
both signs inside an annotation. -/
def ClassDraft.unordered : ClassDraft :=
  { ofName "p/Unordered" with
    fields := [⟨⟨0x0019⟩, "nan", "F", [.constant (.float 0x7FC00001), .visibleAnnots
      [⟨"Lp/Mark;", [("all", .array [.annot ⟨"Lp/At;", [("x", .double 0x7FF8000000000000)]⟩,
        .annot ⟨"Lp/At;", [("x", .array [.float 0, .float 0x80000000])]⟩])]⟩]]⟩] }

/-- A pool with a float that is no number, and with the zeros of both signs. -/
def Pool.floats : Pool := ⟨#[.float 0x7FC00001, .float 0, .float 0x80000000]⟩

namespace ClassOutline

theorem equality_is_identity_unordered :
    (∃ c, (ofBytes ClassDraft.unordered.assemble).result = .ok c ∧ (c == c) = true) ∧
    (AnnotValue.int 0 == .float 0) = false ∧ (ConstantValue.long 0 == .double 0) = false ∧
    (∃ v, ConstantValue.ofPool .floats "nan" 1 = .ok v ∧ (v == v) = true) ∧
    (Entry.float 0x7FC00001).sameValue (.float 0x7FC00001) = false ∧
    (∃ v w, AnnotValue.ofConst .floats 70 2 = .ok v ∧ AnnotValue.ofConst .floats 70 3 = .ok w ∧
      (v == w) = false) ∧
    (Entry.float 0).sameValue (.float 0x80000000) = true := by
  obtain ⟨-, -, -, -, hvalues, hconstants, hbytes, hpools, -⟩ := equality_is_identity
  have hok : verdict (ofBytes ClassDraft.unordered.assemble).result = .ok () := by decide +kernel
  obtain ⟨c, hc⟩ := verdict_eq_ok_iff.mp hok
  refine ⟨⟨c, hc, hbytes _ c c hc hc⟩, hvalues _ _ (by decide), hconstants _ _ (by decide), ?_,
    by decide, ?_, by decide⟩
  · obtain ⟨hfield, -⟩ := hpools .floats .floats 1 1 (.float 0x7FC00001) (.float 0x7FC00001)
      rfl rfl (.inl rfl)
    exact ⟨.float 0x7FC00001, rfl, (hfield "nan" "nan" _ _ rfl rfl).mpr rfl⟩
  · obtain ⟨-, hmember⟩ := hpools .floats .floats 2 3 (.float 0) (.float 0x80000000)
      rfl rfl (.inl rfl)
    have hzeros := hmember 70 70 (.float 0) (.float 0x80000000) rfl rfl
    exact ⟨.float 0, .float 0x80000000, rfl, rfl,
      Bool.eq_false_iff.mpr fun h => absurd (hzeros.mp h) (by decide)⟩

end ClassOutline

end JvmOutline
