import JvmOutline.Proofs.Attribute.Grammar
import JvmOutline.Proofs.ClassFile.Layout
import JvmOutline.Proofs.Reading.Outcome

/-!
# Decoding attributes — exactly the grammar

**An attribute of a known name is decoded exactly from the layouts of its contents**
(`Attribute.decode_eq_ok_iff`).

Each reader of the decoder reads one format of the grammar.  For element values this is by
induction on the budget: behind its tag a value is shorter than the input by a byte, so a budget
that exceeds the length of the input is enough.  For attributes it is again by induction on the
budget, since the body of an attribute in a component is shorter than the body around it.
-/

namespace JvmOutline

open Reader

/-! ### Indexes -/

namespace Pool

variable {pool : Pool} {n : Nat}

theorem utf8_eq_ok_iff {index : UInt16} {text : String} :
    pool.utf8 index = .ok text ↔ pool.HasText index text := by
  rw [utf8, expect_eq_ok_iff, HasText]
  constructor
  · rintro ⟨e, he, h⟩
    cases e with
    | utf8 t =>
      cases h
      exact he
    | _ => nomatch h
  · exact fun h => ⟨_, h, rfl⟩

theorem className_eq_ok_iff {index : UInt16} {name : String} :
    pool.className index = .ok name ↔ pool.HasClass index name := by
  rw [className, bind_eq_ok_iff, HasClass]
  refine exists_congr fun nameIndex => and_congr ?_ utf8_eq_ok_iff
  rw [classRef, expect_eq_ok_iff]
  constructor
  · rintro ⟨e, he, h⟩
    cases e with
    | classRef i =>
      cases h
      exact he
    | _ => nomatch h
  · exact fun h => ⟨_, h, rfl⟩

theorem not_hasText_zero {text : String} : ¬ pool.HasText 0 text := nofun

theorem not_hasClass_zero {name : String} : ¬ pool.HasClass 0 name := fun ⟨_, h, _⟩ => nomatch h

theorem reads_textReader : Reads n pool.textReader pool.TextLayout := by
  refine (Reads.u2.bind fun index _ _ _ => Reads.check _).congr fun bytes text _ => ?_
  constructor
  · rintro ⟨_, index, _, rfl, ⟨rfl, h⟩, rfl⟩
    exact ⟨index, utf8_eq_ok_iff.mp h, List.append_nil _⟩
  · rintro ⟨index, h, rfl⟩
    exact ⟨_, index, _, rfl, ⟨rfl, utf8_eq_ok_iff.mpr h⟩, (List.append_nil _).symm⟩

theorem reads_classNameReader : Reads n pool.classNameReader pool.ClassLayout := by
  refine (Reads.u2.bind fun index _ _ _ => Reads.check _).congr fun bytes name _ => ?_
  constructor
  · rintro ⟨_, index, _, rfl, ⟨rfl, h⟩, rfl⟩
    exact ⟨index, className_eq_ok_iff.mp h, List.append_nil _⟩
  · rintro ⟨index, h, rfl⟩
    exact ⟨_, index, _, rfl, ⟨rfl, className_eq_ok_iff.mpr h⟩, (List.append_nil _).symm⟩

/-- A look-up for which index 0 stands for none. -/
private theorem reads_optional {find : UInt16 → Except FormatError String}
    {Has : UInt16 → String → Prop} (hfind : ∀ index text, find index = .ok text ↔ Has index text)
    (hzero : ∀ text, ¬ Has 0 text) :
    Reads n (u2 >>= fun index => check (if index = 0 then .ok none else some <$> find index))
      (Format.Optional fun bytes text => ∃ index, Has index text ∧ bytes = Bytes.u2 index) := by
  refine (Reads.u2.bind fun index _ _ _ => Reads.check _).congr fun bytes text _ => ?_
  constructor
  · rintro ⟨_, index, _, rfl, ⟨rfl, h⟩, rfl⟩
    rw [List.append_nil]
    by_cases h0 : index = 0
    · rw [if_pos h0] at h
      cases h
      rw [h0]
      exact .none
    · rw [if_neg h0, map_eq_ok_iff] at h
      obtain ⟨t, ht, rfl⟩ := h
      exact .some ⟨index, (hfind _ _).mp ht, rfl⟩
  · intro h
    cases h with
    | none => exact ⟨_, 0, _, rfl, ⟨rfl, rfl⟩, rfl⟩
    | @some _ t h =>
      obtain ⟨index, h, rfl⟩ := h
      have h0 : index ≠ 0 := fun h0 => hzero t (h0 ▸ h)
      refine ⟨_, index, _, rfl, ⟨rfl, ?_⟩, (List.append_nil _).symm⟩
      rw [if_neg h0, (hfind _ _).mpr h]
      rfl

theorem reads_optionalTextReader :
    Reads n pool.optionalTextReader (Format.Optional pool.TextLayout) :=
  reads_optional (fun _ _ => utf8_eq_ok_iff) fun _ => not_hasText_zero

theorem reads_optionalClassNameReader :
    Reads n pool.optionalClassNameReader (Format.Optional pool.ClassLayout) :=
  reads_optional (fun _ _ => className_eq_ok_iff) fun _ => not_hasClass_zero

end Pool

variable {pool : Pool} {n : Nat}

/-! ### Annotations -/

theorem Annot.reads_reader {value : Reader ElementValue} {L : Format ElementValue}
    (h : Reads n value L) : Reads n (reader pool value) (Annot.Layout pool L) := by
  have hm : Reads n (do let name ← pool.textReader; return (name, ← value))
      (Format.Pair pool.TextLayout L) := by
    refine (Pool.reads_textReader.bind fun name _ _ _ =>
      (h.mono (Nat.sub_le ..)).bind_pure (Prod.mk name)).congr fun bytes member _ => ?_
    constructor
    · rintro ⟨front, name, back, ht, ⟨v, hv, rfl⟩, rfl⟩
      exact .intro ht hv
    · rintro ⟨ht, hv⟩
      exact ⟨_, _, _, ht, ⟨_, hv, rfl⟩, rfl⟩
  refine (Pool.reads_textReader.bind fun descriptor _ _ _ =>
    (hm.counted2.mono (Nat.sub_le ..)).bind_pure (Annot.mk descriptor)).congr fun bytes a _ => ?_
  constructor
  · rintro ⟨front, descriptor, back, ht, ⟨members, hm, rfl⟩, rfl⟩
    exact .intro ht hm
  · rintro ⟨ht, hm⟩
    exact ⟨_, _, _, ht, ⟨_, hm, rfl⟩, rfl⟩

namespace ElementValue

theorem Layout.exists_tag {bytes : Bytes} {v : ElementValue} (h : Layout pool bytes v) :
    ∃ tag back, bytes = tag :: back := by
  cases h <;> exact ⟨_, _, rfl⟩

/-- **Element values.**  A budget that exceeds the length of the input is enough. -/
theorem reads_reader (budget : Nat) : Reads budget (reader pool budget) (Layout pool) := by
  induction budget with
  | zero => exact fun _ h => absurd h (Nat.not_lt_zero _)
  | succ budget ih =>
    refine (Reads.u1.bind (K := fun tag bytes v => Layout pool (tag :: bytes) v)
      fun tag front hfront _ => ?_).congr fun bytes v _ => ?_
    · -- One byte is gone, so what is left is within the budget of the values nested here.
      obtain rfl : front = [tag] := hfront
      show Reads budget _ _
      have hconst (htag : tagChar tag ∈ constTags) : Reads budget (do return .const tag (← u2))
          fun bytes v => Layout pool (tag :: bytes) v := by
        refine (Reads.u2.bind_pure (const tag)).congr fun bytes v _ => ?_
        constructor
        · rintro ⟨index, rfl, rfl⟩
          exact .const htag
        · intro h
          cases h with
          | const _ => exact ⟨_, rfl, rfl⟩
          | enumConst h | classLit h | annot h | array h =>
            rw [h] at htag
            exact absurd htag (by decide)
      split
      · next htag =>
        refine (Pool.reads_textReader.bind fun descriptor _ _ _ =>
          Pool.reads_textReader.bind_pure (enumConst descriptor)).congr fun bytes v _ => ?_
        constructor
        · rintro ⟨_, _, _, hd, ⟨_, hc, rfl⟩, rfl⟩
          exact .enumConst htag hd hc
        · intro h
          cases h with
          | enumConst _ hd hc => exact ⟨_, _, _, hd, ⟨_, hc, rfl⟩, rfl⟩
          | const h | classLit h | annot h | array h => exact absurd h (by rw [htag]; decide)
      · next htag =>
        refine (Pool.reads_textReader.bind_pure classLit).congr fun bytes v _ => ?_
        constructor
        · rintro ⟨_, hd, rfl⟩
          exact .classLit htag hd
        · intro h
          cases h with
          | classLit _ hd => exact ⟨_, hd, rfl⟩
          | const h | enumConst h | annot h | array h => exact absurd h (by rw [htag]; decide)
      · next htag =>
        refine ((Annot.reads_reader ih).bind_pure annot).congr fun bytes v _ => ?_
        constructor
        · rintro ⟨_, ha, rfl⟩
          exact .annot htag ha
        · intro h
          cases h with
          | annot _ ha => exact ⟨_, ha, rfl⟩
          | const h | enumConst h | classLit h | array h => exact absurd h (by rw [htag]; decide)
      · next htag =>
        refine (ih.counted2.bind_pure array).congr fun bytes v _ => ?_
        constructor
        · rintro ⟨_, hv, rfl⟩
          exact .array htag hv
        · intro h
          cases h with
          | array _ hv => exact ⟨_, hv, rfl⟩
          | const h | enumConst h | classLit h | annot h => exact absurd h (by rw [htag]; decide)
      -- The nine tags of constants.
      iterate 9
        · next htag => exact hconst (by rw [htag]; decide)
      · refine (Reads.fail _).congr fun bytes v _ => ⟨False.elim, fun h => ?_⟩
        cases h with
        | const h => simp_all [constTags]
        | enumConst h | classLit h | annot h | array h => contradiction
    · constructor
      · rintro ⟨_, tag, bytes, rfl, h, rfl⟩
        exact h
      · intro h
        obtain ⟨tag, back, rfl⟩ := h.exists_tag
        exact ⟨_, tag, back, rfl, h, rfl⟩

end ElementValue

/-! ### Type annotations -/

namespace TargetShape

/-- The bytes that have a shape. -/
def Fits : TargetShape → Bytes → Prop
  | fixed size, bytes => bytes.length = size
  | table, bytes => ∃ (rows : UInt16) (back : Bytes), back.length = 6 * rows.toNat ∧
      bytes = Bytes.u2 rows ++ back

theorem reads_skip (shape : TargetShape) : Reads n shape.skip fun bytes _ => shape.Fits bytes := by
  cases shape with
  | fixed size => exact Reads.skip size
  | table =>
    refine (Reads.u2.bind fun rows _ _ _ => Reads.skip (6 * rows.toNat)).congr fun bytes _ _ => ?_
    constructor
    · rintro ⟨_, rows, back, rfl, h, rfl⟩
      exact ⟨rows, back, h, rfl⟩
    · rintro ⟨rows, back, h, rfl⟩
      exact ⟨_, rows, back, rfl, h, rfl⟩

/-- A kind of place is described by bytes of its shape. -/
theorem targetInfo_iff {target : UInt8} {bytes : Bytes} :
    TargetInfo target bytes ↔ ∃ shape, ofByte? target = some shape ∧ shape.Fits bytes := by
  constructor
  · intro h
    cases h with
    | empty ht =>
      simp only [List.mem_cons, List.not_mem_nil, or_false] at ht
      rcases ht with ht | ht | ht <;> exact ⟨.fixed 0, by rw [ofByte?, ht]; rfl, rfl⟩
    | one ht hl =>
      simp only [List.mem_cons, List.not_mem_nil, or_false] at ht
      rcases ht with ht | ht | ht <;> exact ⟨.fixed 1, by rw [ofByte?, ht]; rfl, hl⟩
    | two ht hl =>
      simp only [List.mem_cons, List.not_mem_nil, or_false] at ht
      rcases ht with ht | ht | ht | ht | ht | ht | ht | ht | ht <;>
        exact ⟨.fixed 2, by rw [ofByte?, ht]; rfl, hl⟩
    | three ht hl =>
      simp only [List.mem_cons, List.not_mem_nil, or_false] at ht
      rcases ht with ht | ht | ht | ht | ht <;> exact ⟨.fixed 3, by rw [ofByte?, ht]; rfl, hl⟩
    | table ht hl =>
      simp only [List.mem_cons, List.not_mem_nil, or_false] at ht
      rcases ht with ht | ht <;> exact ⟨.table, by rw [ofByte?, ht]; rfl, _, _, hl, rfl⟩
  · rintro ⟨shape, hs, h⟩
    unfold ofByte? at hs
    split at hs
    iterate 3
      · next ht =>
        cases hs
        obtain rfl := List.length_eq_zero_iff.mp h
        exact .empty (by rw [ht]; decide)
    iterate 3
      · next ht =>
        cases hs
        exact .one (by rw [ht]; decide) h
    iterate 9
      · next ht =>
        cases hs
        exact .two (by rw [ht]; decide) h
    iterate 5
      · next ht =>
        cases hs
        exact .three (by rw [ht]; decide) h
    iterate 2
      · next ht =>
        cases hs
        obtain ⟨rows, back, hl, rfl⟩ := h
        exact .table (by rw [ht]; decide) hl
    · nomatch hs

end TargetShape

theorem TypeAnnot.reads_reader {value : Reader ElementValue}
    (h : Reads n value (ElementValue.Layout pool)) : Reads n (reader pool value) (Layout pool) := by
  have hstep {n : Nat} : Reads n (do return (← u1, ← u1)) (.ofFn fun s => [s.1, s.2]) := by
    refine (Reads.u1.bind fun kind _ _ _ => Reads.u1.bind_pure (Prod.mk kind)).congr
      fun bytes step _ => ?_
    constructor
    · rintro ⟨_, kind, _, rfl, ⟨i, rfl, rfl⟩, rfl⟩
      rfl
    · rintro rfl
      exact ⟨_, _, _, rfl, ⟨_, rfl, rfl⟩, rfl⟩
  refine (Reads.u1.bind (K := fun target bytes a => Layout pool (target :: bytes) a)
    fun target front _ _ => ?_).congr fun bytes a _ => ?_
  · cases hs : TargetShape.ofByte? target with
    | none =>
      refine (Reads.fail _).congr fun bytes a _ => ⟨False.elim, ?_⟩
      rintro ⟨hi, _, _⟩
      obtain ⟨shape, hshape, -⟩ := TargetShape.targetInfo_iff.mp hi
      rw [hs] at hshape
      nomatch hshape
    | some shape =>
      refine ((TargetShape.reads_skip shape).bind fun _ _ _ _ => hstep.counted1.bind
        fun path _ _ _ => ((Annot.reads_reader h).mono (Nat.le_trans (Nat.sub_le ..)
          (Nat.le_trans (Nat.sub_le ..) (Nat.sub_le ..)))).bind_pure
            (TypeAnnot.mk target path)).congr fun bytes a _ => ?_
      constructor
      · rintro ⟨_, _, _, hi, ⟨_, path, _, hp, ⟨a, ha, rfl⟩, rfl⟩, rfl⟩
        exact .intro (TargetShape.targetInfo_iff.mpr ⟨shape, hs, hi⟩) hp ha
      · rintro ⟨hi, hp, ha⟩
        obtain ⟨_, hshape, hi⟩ := TargetShape.targetInfo_iff.mp hi
        cases hs.symm.trans hshape
        exact ⟨_, (), _, hi, ⟨_, _, _, hp, ⟨_, ha, rfl⟩, rfl⟩, rfl⟩
  · constructor
    · rintro ⟨_, target, _, rfl, ha, rfl⟩
      exact ha
    · rintro ⟨hi, hp, ha⟩
      exact ⟨_, _, _, rfl, .intro hi hp ha, rfl⟩

/-! ### Parameters, nested classes, record components -/

theorem Parameter.reads_reader : Reads n (reader pool) (Layout pool) := by
  refine (Pool.reads_optionalTextReader.bind fun name _ _ _ =>
    Reads.u2.bind_pure fun flags => Parameter.mk name ⟨flags⟩).congr fun bytes p _ => ?_
  constructor
  · rintro ⟨_, name, _, hname, ⟨flags, rfl, rfl⟩, rfl⟩
    exact .intro hname
  · rintro ⟨hname⟩
    exact ⟨_, _, _, hname, ⟨_, rfl, rfl⟩, rfl⟩

theorem InnerClass.reads_reader : Reads n (reader pool) (Layout pool) := by
  refine (Pool.reads_classNameReader.bind fun inner _ _ _ =>
    Pool.reads_optionalClassNameReader.bind fun outer _ _ _ =>
    Pool.reads_optionalTextReader.bind fun simpleName _ _ _ =>
    Reads.u2.bind_pure fun flags => InnerClass.mk inner outer simpleName ⟨flags⟩).congr
    fun bytes row _ => ?_
  constructor
  · rintro ⟨_, inner, _, hi, ⟨_, outer, _, ho, ⟨_, simpleName, _, hs, ⟨flags, rfl, rfl⟩, rfl⟩, rfl⟩,
      rfl⟩
    exact .intro hi ho hs
  · rintro ⟨hi, ho, hs⟩
    exact ⟨_, _, _, hi, ⟨_, _, _, ho, ⟨_, _, _, hs, ⟨_, rfl, rfl⟩, rfl⟩, rfl⟩, rfl⟩

/-- The attributes of a component are shorter than the component. -/
theorem Component.reads_reader {decode : RawAttribute → Except FormatError Attribute}
    {Stored : RawAttribute → Attribute → Prop}
    (h : ∀ stored a, stored.body.length + 1 < n → (decode stored = .ok a ↔ Stored stored a)) :
    Reads n (reader pool decode) (Layout pool Stored) := by
  have hall {front : Bytes} {stored : List RawAttribute} {attributes : List Attribute}
      (hs : Format.Counted2 (.fits RawAttribute.Fits RawAttribute.layout) front stored)
      (hn : front.length < n) :
      stored.mapM decode = .ok attributes ↔ List.Forall₂ Stored stored attributes := by
    obtain ⟨-, rfl⟩ := Format.counted2_fits.mp hs
    refine mapM_eq_ok_iff fun s hmem a => h s a ?_
    have hlen := RawAttribute.length_body_of_mem hmem
    rw [List.length_append] at hn
    omega
  refine (Pool.reads_textReader.bind fun name _ _ _ => Pool.reads_textReader.bind
    fun descriptor _ _ _ => (RawAttribute.reads_reader _).counted2.bind
      (K := fun stored bytes c => bytes = [] ∧ ∃ attributes,
        List.Forall₂ Stored stored attributes ∧ c = Component.mk name descriptor attributes)
      fun stored front hs hn => ?_).congr fun bytes c _ => ?_
  · refine ((Reads.check _).bind_pure (Component.mk name descriptor)).congr fun bytes c _ => ?_
    have hn : front.length < n := by omega
    constructor
    · rintro ⟨attributes, ⟨rfl, ha⟩, rfl⟩
      exact ⟨rfl, attributes, (hall hs hn).mp ha, rfl⟩
    · rintro ⟨rfl, attributes, ha, rfl⟩
      exact ⟨attributes, ⟨rfl, (hall hs hn).mpr ha⟩, rfl⟩
  · constructor
    · rintro ⟨_, name, _, hname, ⟨_, descriptor, _, hd,
        ⟨_, stored, _, hs, ⟨rfl, attributes, ha, rfl⟩, rfl⟩, rfl⟩, rfl⟩
      rw [List.append_nil]
      exact .intro hname hd hs ha
    · rintro ⟨hname, hd, hs, ha⟩
      exact ⟨_, _, _, hname, ⟨_, _, _, hd, ⟨_, _, [], hs, ⟨rfl, _, ha, rfl⟩,
        (List.append_nil _).symm⟩, rfl⟩, rfl⟩

/-! ### Attributes -/

namespace Attribute

theorem reads_contentsReader {value : Reader ElementValue}
    {decode : RawAttribute → Except FormatError Attribute}
    (hv : Reads n value (ElementValue.Layout pool))
    (hd : ∀ stored a, stored.body.length + 1 < n → (decode stored = .ok a ↔ Stored pool stored a))
    (kind : AttributeKind) :
    Reads n (contentsReader pool value decode kind) (Layout pool kind) := by
  -- Each kind has one form; a layout of the kind has that form, and conversely.
  have hform {α : Type} {r : Reader α} {L : Format α} {f : α → Attribute} (hr : Reads n r L)
      (hf : ∀ bytes x, L bytes x → Layout pool kind bytes (f x))
      (hk : ∀ bytes a, Layout pool kind bytes a → ∃ x, L bytes x ∧ a = f x) :
      Reads n (f <$> r) (Layout pool kind) :=
    (hr.map f).congr fun bytes a _ =>
      ⟨fun ⟨x, hL, ha⟩ => ha ▸ hf bytes x hL, fun h => hk bytes a h⟩
  cases kind with
  | signature =>
    exact hform Pool.reads_textReader (fun _ _ => .signature)
      fun _ _ h => by cases h with | signature h => exact ⟨_, h, rfl⟩
  | constantValue =>
    refine hform Reads.u2 ?_ fun _ _ h => by cases h with | constantValue i => exact ⟨i, rfl, rfl⟩
    rintro _ index rfl
    exact .constantValue index
  | exceptions =>
    exact hform Pool.reads_classNameReader.counted2 (fun _ _ => .exceptions)
      fun _ _ h => by cases h with | exceptions h => exact ⟨_, h, rfl⟩
  | permittedSubclasses =>
    exact hform Pool.reads_classNameReader.counted2 (fun _ _ => .permittedSubclasses)
      fun _ _ h => by cases h with | permittedSubclasses h => exact ⟨_, h, rfl⟩
  | annots v =>
    exact hform (Annot.reads_reader hv).counted2 (fun _ _ => .annots)
      fun _ _ h => by cases h with | annots h => exact ⟨_, h, rfl⟩
  | parameterAnnots v =>
    exact hform (Annot.reads_reader hv).counted2.counted1 (fun _ _ => .parameterAnnots)
      fun _ _ h => by cases h with | parameterAnnots h => exact ⟨_, h, rfl⟩
  | typeAnnots v =>
    exact hform (TypeAnnot.reads_reader hv).counted2 (fun _ _ => .typeAnnots)
      fun _ _ h => by cases h with | typeAnnots h => exact ⟨_, h, rfl⟩
  | annotDefault =>
    exact hform hv (fun _ _ => .annotDefault)
      fun _ _ h => by cases h with | annotDefault h => exact ⟨_, h, rfl⟩
  | methodParameters =>
    exact hform Parameter.reads_reader.counted1 (fun _ _ => .methodParameters)
      fun _ _ h => by cases h with | methodParameters h => exact ⟨_, h, rfl⟩
  | innerClasses =>
    exact hform InnerClass.reads_reader.counted2 (fun _ _ => .innerClasses)
      fun _ _ h => by cases h with | innerClasses h => exact ⟨_, h, rfl⟩
  | record =>
    exact hform (Component.reads_reader hd).counted2 (fun _ _ => .record)
      fun _ _ h => by cases h with | record h => exact ⟨_, h, rfl⟩

theorem run_endOf_iff {name : String} {a b : Attribute} {input rest : Bytes} :
    (do endOf name; return a : Reader Attribute).run input = .ok (b, rest) ↔
      b = a ∧ input = [] ∧ rest = [] := by
  cases input with
  | nil =>
    constructor
    · intro h
      cases h
      exact ⟨rfl, rfl, rfl⟩
    · rintro ⟨rfl, -, rfl⟩
      rfl
  | cons c input => exact ⟨(nomatch ·), fun h => nomatch h.2.1⟩

/-- The contents of an attribute in a component, within a budget. -/
def nestedWithin (pool : Pool) (budget : Nat) (stored : RawAttribute) :
    Except FormatError Attribute := do
  let nested ← pool.utf8 stored.name
  let (a, _) ← (readerWithin pool budget nested).run stored.body
  return a

/-- The contents of an attribute of a known kind, within a budget. -/
def contentsWithin (pool : Pool) (budget : Nat) (kind : AttributeKind) : Reader Attribute :=
  contentsReader pool (ElementValue.reader pool budget) (nestedWithin pool budget) kind

theorem run_readerWithin_succ {budget : Nat} {name : String} {kind : AttributeKind}
    (h : AttributeKind.ofName? name = some kind) (body : Bytes) :
    (readerWithin pool (budget + 1) name).run body =
      (contentsWithin pool budget kind).run body >>= fun found =>
        (do endOf name; return found.1 : Reader Attribute).run found.2 := by
  rw [readerWithin, h]
  rfl

/-- What is decoded from an attribute in a component, if attributes of known names are decoded
from layouts. -/
theorem decode_nested_iff {budget : Nat} {stored : RawAttribute} {a : Attribute}
    (hb : stored.body.length + 1 < budget)
    (ih : ∀ (kind : AttributeKind) a rest,
      (readerWithin pool budget kind.name).run stored.body = .ok (a, rest) ↔
        Layout pool kind stored.body a ∧ rest = []) :
    nestedWithin pool budget stored = .ok a ↔ Stored pool stored a := by
  have hother {name : String} (h : AttributeKind.ofName? name = none) :
      (readerWithin pool budget name).run stored.body = .ok (.other name, stored.body) := by
    cases budget with
    | zero => exact absurd hb (Nat.not_lt_zero _)
    | succ budget =>
      rw [readerWithin, h]
      rfl
  have hnone {name : String} : AttributeKind.ofName? name = none ↔
      ∀ kind : AttributeKind, kind.name ≠ name := by
    refine ⟨fun h kind hk => ?_, fun h => Option.eq_none_iff_forall_ne_some.mpr fun kind hk => ?_⟩
    · rw [← hk, AttributeKind.ofName?_name] at h
      nomatch h
    · exact h kind (AttributeKind.name_of_ofName? hk)
  rw [nestedWithin, bind_eq_ok_iff]
  constructor
  · rintro ⟨name, hname, h⟩
    rw [Pool.utf8_eq_ok_iff] at hname
    cases hk : AttributeKind.ofName? name with
    | none =>
      rw [hother hk] at h
      cases h
      exact .other hname (hnone.mp hk)
    | some kind =>
      obtain rfl := AttributeKind.name_of_ofName? hk
      obtain ⟨⟨b, rest⟩, hrun, h⟩ := bind_eq_ok_iff.mp h
      cases h
      exact .known hname ((ih kind a rest).mp hrun).1
  · intro h
    cases h with
    | known hname hL =>
      refine ⟨_, Pool.utf8_eq_ok_iff.mpr hname, ?_⟩
      rw [(ih _ a []).mpr ⟨hL, rfl⟩]
      rfl
    | other hname hk =>
      refine ⟨_, Pool.utf8_eq_ok_iff.mpr hname, ?_⟩
      rw [hother (hnone.mpr hk)]
      rfl

theorem run_readerWithin_iff (budget : Nat) {body : Bytes} (hb : body.length + 1 < budget)
    (kind : AttributeKind) (a : Attribute) (rest : Bytes) :
    (readerWithin pool budget kind.name).run body = .ok (a, rest) ↔
      Layout pool kind body a ∧ rest = [] := by
  -- Values spend one unit of the budget for each level, and so do attributes in components.  A body
  -- in a component is at least two bytes shorter, so the hypothesis covers it.
  induction budget generalizing body kind a rest with
  | zero => exact absurd hb (Nat.not_lt_zero _)
  | succ budget ih =>
    have hvalue : Reads budget (ElementValue.reader pool budget) (ElementValue.Layout pool) :=
      ElementValue.reads_reader budget
    have hread := reads_contentsReader hvalue
      (fun stored a h => decode_nested_iff h (ih h)) kind body (by omega)
    rw [run_readerWithin_succ (AttributeKind.ofName?_name kind), bind_eq_ok_iff]
    constructor
    · rintro ⟨⟨b, mid⟩, hrun, h⟩
      obtain ⟨front, hL, rfl⟩ := (hread b mid).mp hrun
      obtain ⟨rfl, rfl, rfl⟩ := run_endOf_iff.mp h
      exact ⟨by rwa [List.append_nil], rfl⟩
    · rintro ⟨hL, rfl⟩
      exact ⟨(a, []), (hread a []).mpr ⟨body, hL, (List.append_nil _).symm⟩,
        run_endOf_iff.mpr ⟨rfl, rfl, rfl⟩⟩

theorem run_reader_iff {kind : AttributeKind} {body rest : Bytes} {a : Attribute} :
    (reader pool kind.name).run body = .ok (a, rest) ↔ Layout pool kind body a ∧ rest = [] := by
  rw [← run_readerWithin_iff (body.length + 2) (Nat.lt_succ_self _) kind a rest]
  simp only [StateT.run, reader]

/-- **Decoding.**  An attribute of a known name is decoded from a body exactly if the body, to its
last byte, is a layout of the contents. -/
theorem decode_eq_ok_iff (pool : Pool) (kind : AttributeKind) (body : Bytes) (a : Attribute) :
    decode pool kind.name body = .ok a ↔ Layout pool kind body a := by
  unfold decode
  constructor
  · intro h
    split at h
    · next hrun =>
      cases h
      exact (run_reader_iff.mp hrun).1
    · nomatch h
  · intro h
    rw [run_reader_iff.mpr ⟨h, rfl⟩]

end Attribute

/-- A stored attribute is decoded if its body is a layout of contents, or if its name is not
known. -/
theorem RawAttribute.decode_iff_stored {stored : RawAttribute} {a : Attribute} :
    stored.decode pool = .ok a ↔ Attribute.Stored pool stored a := by
  have hdecode (name : String) : Attribute.decode pool name stored.body = (do
      let (a, _) ← (Attribute.readerWithin pool (stored.body.length + 2) name).run stored.body
      return a) := by
    simp only [Attribute.decode, StateT.run, Attribute.reader]
    cases Attribute.readerWithin pool (stored.body.length + 2) name stored.body <;> rfl
  have hb : stored.body.length + 1 < stored.body.length + 2 := Nat.lt_succ_self _
  rw [← Attribute.decode_nested_iff hb (Attribute.run_readerWithin_iff _ hb), decode,
    Attribute.nestedWithin]
  simp only [hdecode]

end JvmOutline
