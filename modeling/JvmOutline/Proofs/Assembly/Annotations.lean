import JvmOutline.Assembly.Assembler
import JvmOutline.Proofs.Assembly.Draft
import JvmOutline.Proofs.Attribute.Decoding

/-!
# Assembled annotations

The bytes that are written for a value, an annotation or a type annotation are a layout under
every later pool, and what they lay out has the outline of the draft (`ValueDraft.yields_write`,
`AnnotDraft.yields_write`, `TypeAnnotDraft.yields_write`).

Values, annotations, members and lists of values are written by functions that call each other, so
the four statements are proved together, by recursion on the draft.
-/

namespace JvmOutline

open Interning

/-! ### Numbers and texts -/

/-- The bytes are a layout of a value that has the given outline. -/
def ElementValue.Spells (pool : Pool) (bytes : Bytes) (value : AnnotValue) : Prop :=
  ∃ e, Layout pool bytes e ∧ e.outline pool = .ok value

/-- The bytes are a layout of an annotation that has the given outline. -/
def Annot.Spells (pool : Pool) (bytes : Bytes) (a : AnnotOutline) : Prop :=
  ∃ b, Layout pool (ElementValue.Layout pool) bytes b ∧ b.outline pool = .ok a

namespace ElementValue

/-- A number or text is written as a tag and the index of a constant.  The look-up `pick` is the
one that belongs to the tag, and `f` makes a value of what it finds. -/
theorem yields_constant {α : Type} {tag : Char} {e : Entry} {value : AnnotValue}
    {pick : Pool → UInt16 → Except FormatError α} {f : α → AnnotValue} {a : α} (he : e.IsSound)
    (htag : tagChar (tagByte tag) ∈ constTags)
    (hpick : ∀ pool index, pool.entry? index = some e → pick pool index = .ok a)
    (hconst : ∀ pool index,
      AnnotValue.ofConst pool (tagByte tag) index = outlined (do return f (← pick pool index)))
    (hvalue : f a = value) :
    Yields (tagAndIndex tag <$> Pool.intern e) fun later bytes => Spells later bytes value := by
  refine (yields_intern he).map fun later index hi =>
    ⟨.const (tagByte tag) index, .const htag, ?_⟩
  rw [outline, hconst, hpick later index hi, ← hvalue]
  rfl

end ElementValue

namespace Pool

variable {pool : Pool} {index : UInt16}

theorem integer_eq_ok {value : Int32} (h : pool.entry? index = some (.integer value)) :
    pool.integer index = .ok value := expect_eq_ok_iff.mpr ⟨_, h, rfl⟩

theorem float_eq_ok {bits : UInt32} (h : pool.entry? index = some (.float bits)) :
    pool.float index = .ok bits := expect_eq_ok_iff.mpr ⟨_, h, rfl⟩

theorem long_eq_ok {value : Int64} (h : pool.entry? index = some (.long value)) :
    pool.long index = .ok value := expect_eq_ok_iff.mpr ⟨_, h, rfl⟩

theorem double_eq_ok {bits : UInt64} (h : pool.entry? index = some (.double bits)) :
    pool.double index = .ok bits := expect_eq_ok_iff.mpr ⟨_, h, rfl⟩

end Pool

/-! ### Values and annotations -/

mutual

/-- **Values.**  A value that fits is written as the layout of a value with its outline. -/
theorem ValueDraft.yields_write (v : ValueDraft) (h : v.fits = true) :
    Yields v.write fun later bytes => ElementValue.Spells later bytes v.outline := by
  cases v with
  | boolean value =>
    rw [ValueDraft.write]
    exact ElementValue.yields_constant trivial (by decide) (fun _ _ => Pool.integer_eq_ok)
      (fun _ _ => rfl) (by cases value <;> rfl)
  | byte value =>
    rw [ValueDraft.write]
    exact ElementValue.yields_constant trivial (by decide) (fun _ _ => Pool.integer_eq_ok)
      (fun _ _ => rfl) (congrArg AnnotValue.byte value.toInt8_toInt32)
  | char unit =>
    rw [ValueDraft.write]
    exact ElementValue.yields_constant trivial (by decide) (fun _ _ => Pool.integer_eq_ok)
      (fun _ _ => rfl) (congrArg AnnotValue.char unit.toUInt16_toUInt32)
  | short value =>
    rw [ValueDraft.write]
    exact ElementValue.yields_constant trivial (by decide) (fun _ _ => Pool.integer_eq_ok)
      (fun _ _ => rfl) (congrArg AnnotValue.short value.toInt16_toInt32)
  | int value =>
    rw [ValueDraft.write]
    exact ElementValue.yields_constant trivial (by decide) (fun _ _ => Pool.integer_eq_ok)
      (fun _ _ => rfl) rfl
  | long value =>
    rw [ValueDraft.write]
    exact ElementValue.yields_constant trivial (by decide) (fun _ _ => Pool.long_eq_ok)
      (fun _ _ => rfl) rfl
  | float bits =>
    rw [ValueDraft.write]
    exact ElementValue.yields_constant trivial (by decide) (fun _ _ => Pool.float_eq_ok)
      (fun _ _ => rfl) rfl
  | double bits =>
    rw [ValueDraft.write]
    exact ElementValue.yields_constant trivial (by decide) (fun _ _ => Pool.double_eq_ok)
      (fun _ _ => rfl) rfl
  | string text =>
    rw [ValueDraft.write]
    exact ElementValue.yields_constant h (by decide) (fun _ _ => Pool.utf8_eq_ok_iff.mpr)
      (fun _ _ => rfl) rfl
  | classLit descriptor =>
    rw [ValueDraft.write]
    exact (yields_internText h).map fun later index hi =>
      ⟨.classLit descriptor, .classLit (by decide) ⟨index, hi, rfl⟩, rfl⟩
  | enumConst descriptor constant =>
    rw [ValueDraft.write]
    obtain ⟨hd, hc⟩ := Bool.and_eq_true_iff.mp h
    exact (yields_internText hd).bind fun d => (yields_internText hc).bind_pure fun later c hc hd =>
      ⟨.enumConst descriptor constant, .enumConst (by decide) ⟨d, hd, rfl⟩ ⟨c, hc, rfl⟩, rfl⟩
  | annot a =>
    rw [ValueDraft.write]
    refine (AnnotDraft.yields_write a h).bind_pure fun later bytes ⟨b, hb, ho⟩ =>
      ⟨.annot b, .annot (by decide) hb, ?_⟩
    rw [ElementValue.outline, ho]
    rfl
  | array values =>
    rw [ValueDraft.write]
    obtain ⟨hn, hv⟩ := Bool.and_eq_true_iff.mp h
    refine (ValueDraft.yields_writeList values hv).bind_pure fun later bytes ⟨es, hlen, hes, ho⟩ =>
      ⟨.array es, ?_, ?_⟩
    · have hc : count2 values = count2 es := by rw [count2, count2, hlen]
      rw [hc]
      exact .array (by decide) (.intro (hlen ▸ of_decide_eq_true hn) hes)
    · rw [ElementValue.outline, ho]
      rfl
  | indexed tag index => nomatch h
  | bare tag => nomatch h

/-- **Annotations.** -/
theorem AnnotDraft.yields_write (a : AnnotDraft) (h : a.fits = true) :
    Yields a.write fun later bytes => Annot.Spells later bytes a.outline := by
  obtain ⟨descriptor, members⟩ := a
  obtain ⟨hd, h⟩ := Bool.and_eq_true_iff.mp h
  obtain ⟨hn, hm⟩ := Bool.and_eq_true_iff.mp h
  rw [AnnotDraft.write]
  refine (yields_internText hd).bind fun d => (ValueDraft.yields_writeMembers members hm).bind_pure
    fun later bytes ⟨es, hlen, hes, ho⟩ hd => ⟨⟨descriptor, es⟩, ?_, ?_⟩
  · have hc : count2 members = count2 es := by rw [count2, count2, hlen]
    rw [hc, List.append_assoc]
    exact .intro ⟨d, hd, rfl⟩ (.intro (hlen ▸ of_decide_eq_true hn) hes)
  · rw [Annot.outline, ho, AnnotDraft.outline]

/-- Members are written one after the other, and are put in one after the other. -/
theorem ValueDraft.yields_writeMembers (members : List (String × ValueDraft))
    (h : ValueDraft.fitMembers members = true) :
    Yields (ValueDraft.writeMembers members) fun later bytes => ∃ es, es.length = members.length ∧
      Format.Each (Format.Pair later.TextLayout (ElementValue.Layout later)) bytes es ∧
      ∀ a, ElementValue.outlineMembers later a es = .ok (ValueDraft.outlineMembers a members) := by
  match members, h with
  | [], _ =>
    rw [ValueDraft.writeMembers]
    exact .pure fun later => ⟨[], rfl, .nil, fun a => rfl⟩
  | (name, value) :: rest, h =>
    obtain ⟨hname, h⟩ := Bool.and_eq_true_iff.mp h
    obtain ⟨hv, hrest⟩ := Bool.and_eq_true_iff.mp h
    rw [ValueDraft.writeMembers]
    refine (yields_internText hname).bind fun i => (ValueDraft.yields_write value hv).bind fun b =>
      (ValueDraft.yields_writeMembers rest hrest).bind_pure
        fun later bytes ⟨es, hlen, hes, ho⟩ ⟨e, he, hout⟩ hi =>
          ⟨(name, e) :: es, congrArg (· + 1) hlen, .cons (.intro ⟨i, hi, rfl⟩ he) hes, fun a => ?_⟩
    rw [ElementValue.outlineMembers, hout, ValueDraft.outlineMembers]
    exact ho _

/-- Values are written one after the other. -/
theorem ValueDraft.yields_writeList (values : List ValueDraft)
    (h : ValueDraft.fitAll values = true) :
    Yields (ValueDraft.writeList values) fun later bytes => ∃ es, es.length = values.length ∧
      Format.Each (ElementValue.Layout later) bytes es ∧
      ElementValue.outlineList later es = .ok (ValueDraft.outlineList values) := by
  match values, h with
  | [], _ =>
    rw [ValueDraft.writeList]
    exact .pure fun later => ⟨[], rfl, .nil, rfl⟩
  | value :: rest, h =>
    obtain ⟨hv, hrest⟩ := Bool.and_eq_true_iff.mp h
    rw [ValueDraft.writeList]
    refine (ValueDraft.yields_write value hv).bind fun b =>
      (ValueDraft.yields_writeList rest hrest).bind_pure
        fun later bytes ⟨es, hlen, hes, ho⟩ ⟨e, he, hout⟩ =>
          ⟨e :: es, congrArg (· + 1) hlen, .cons he hes, ?_⟩
    rw [ElementValue.outlineList, hout, ho, ValueDraft.outlineList]
    rfl

end

/-! ### Counted lists and type annotations -/

/-- Items that are written one after the other are laid out one after the other. -/
theorem Format.each_flatten {α β : Type} {L : Format β} {R : α → β → Prop} {as : List α}
    {blocks : List Bytes}
    (h : List.Forall₂ (fun a block => ∃ b, L block b ∧ R a b) as blocks) :
    ∃ bs, Format.Each L blocks.flatten bs ∧ List.Forall₂ R as bs := by
  induction h with
  | nil => exact ⟨[], .nil, .nil⟩
  | cons h _ ih =>
    obtain ⟨b, hb, hr⟩ := h
    obtain ⟨bs, hbs, hrs⟩ := ih
    exact ⟨b :: bs, .cons hb hbs, .cons hr hrs⟩

/-- A counted list. -/
theorem yields_writeCounted {α β : Type} {write : α → Interning Bytes} {L : Pool → Format β}
    {R : Pool → α → β → Prop} {as : List α} (hn : as.length < 65536)
    (h : ∀ a ∈ as, Yields (write a) fun later bytes => ∃ b, L later bytes b ∧ R later a b) :
    Yields (writeCounted write as) fun later bytes =>
      ∃ bs, Format.Counted2 (L later) bytes bs ∧ List.Forall₂ (R later) as bs := by
  refine (Yields.mapM h).bind_pure fun later blocks hblocks => ?_
  obtain ⟨bs, hbs, hr⟩ := Format.each_flatten hblocks
  have hc : count2 as = count2 bs := by rw [count2, count2, hr.length_eq]
  rw [hc]
  exact ⟨bs, .intro (hr.length_eq ▸ hn) hbs, hr⟩

/-- A list that is counted in one byte. -/
theorem yields_count1 {α β : Type} {write : α → Interning Bytes} {L : Pool → Format β}
    {R : Pool → α → β → Prop} {as : List α} (hn : as.length < 256)
    (h : ∀ a ∈ as, Yields (write a) fun later bytes => ∃ b, L later bytes b ∧ R later a b) :
    Yields (do return count1 as ++ (← as.mapM write).flatten) fun later bytes =>
      ∃ bs, Format.Counted1 (L later) bytes bs ∧ List.Forall₂ (R later) as bs := by
  refine (Yields.mapM h).bind_pure fun later blocks hblocks => ?_
  obtain ⟨bs, hbs, hr⟩ := Format.each_flatten hblocks
  have hc : count1 as = count1 bs := by rw [count1, count1, hr.length_eq]
  rw [hc]
  exact ⟨bs, .intro (hr.length_eq ▸ hn) hbs, hr⟩

theorem TargetShape.fits_of_accepts {shape : TargetShape} {info : Bytes}
    (h : shape.accepts info = true) : shape.Fits info := by
  cases shape with
  | fixed size =>
    show info.length = size
    exact of_decide_eq_true h
  | table =>
    have hlen : info.length = 2 + 6 * Bytes.toNat (info.take 2) := of_decide_eq_true h
    have h2 : (info.take 2).length = 2 := by rw [List.length_take]; omega
    have hlt := Bytes.toNat_lt (info.take 2)
    rw [h2] at hlt
    refine ⟨.ofNat (Bytes.toNat (info.take 2)), info.drop 2, ?_, ?_⟩
    · rw [UInt16.toNat_ofNat_of_lt' hlt, List.length_drop, hlen, Nat.add_sub_cancel_left]
    · rw [Bytes.u2_ofNat_toNat h2, List.take_append_drop]

/-- **Type annotations.** -/
theorem TypeAnnotDraft.yields_write (a : TypeAnnotDraft) (h : a.fits = true) :
    Yields a.write fun later bytes => ∃ b, TypeAnnot.Layout later bytes b ∧
      b.annot.outline later = .ok a.annot.outline := by
  obtain ⟨htarget, h⟩ := Bool.and_eq_true_iff.mp h
  obtain ⟨hpath, ha⟩ := Bool.and_eq_true_iff.mp h
  obtain ⟨shape, hshape, hinfo⟩ := (Option.any_eq_true ..).mp htarget
  have htarget : TargetInfo a.target a.info :=
    TargetShape.targetInfo_iff.mpr ⟨shape, hshape, TargetShape.fits_of_accepts hinfo⟩
  have hsteps : TypeAnnot.PathLayout (count1 a.path ++ a.path.flatMap fun s => [s.1, s.2]) a.path :=
    .intro (of_decide_eq_true hpath) (Format.each_flatMap _ _)
  refine (AnnotDraft.yields_write a.annot ha).bind_pure fun later bytes ⟨b, hb, ho⟩ =>
    ⟨⟨a.target, a.path, b⟩, ?_, ho⟩
  have hlayout := TypeAnnot.Layout.intro htarget hsteps hb
  simp only [List.append_assoc, List.cons_append] at hlayout ⊢
  exact hlayout

end JvmOutline
