import JvmOutline.Proofs.Assembly.Interning
import JvmOutline.Proofs.Reading.Keeping

/-!
# Attributes under a growing pool

A pool that grows at its end (`Pool.Extends`) keeps every look-up that leads somewhere, of an entry
and of the texts and names behind it.  Reading an attribute is a sequence of such look-ups, each as
soon as its index has been read.  So **an attribute that is decoded under a pool is decoded to the
same contents under every pool that extends it** (`Pool.Extends.keeps_decode`).
-/

namespace JvmOutline

namespace Pool.Extends

variable {pool later : Pool} (h : pool.Extends later)

include h

/-! ### Look-ups -/

theorem entry? {index : UInt16} {e : Entry} (he : pool.entry? index = some e) :
    later.entry? index = some e := by
  unfold Pool.entry? at he ⊢
  split at he
  · nomatch he
  · next hne =>
    rw [if_neg hne]
    exact h.getElem? he

theorem keeps_expect {α : Type} (kind : EntryKind) (pick : Entry → Option α) (index : UInt16) :
    Keeps (pool.expect kind pick index) (later.expect kind pick index) := by
  intro a ha
  obtain ⟨e, he, hpick⟩ := expect_eq_ok_iff.mp ha
  exact expect_eq_ok_iff.mpr ⟨e, h.entry? he, hpick⟩

theorem keeps_utf8 (index : UInt16) : Keeps (pool.utf8 index) (later.utf8 index) :=
  h.keeps_expect _ _ index

theorem keeps_className (index : UInt16) : Keeps (pool.className index) (later.className index) :=
  (h.keeps_expect _ _ index).bind h.keeps_utf8

theorem keeps_optionalUtf8 (index : UInt16) :
    Keeps (pool.optionalUtf8 index) (later.optionalUtf8 index) := by
  unfold optionalUtf8
  split
  · exact .refl _
  · exact (h.keeps_utf8 index).map some

theorem keeps_optionalClassName (index : UInt16) :
    Keeps (pool.optionalClassName index) (later.optionalClassName index) := by
  unfold optionalClassName
  split
  · exact .refl _
  · exact (h.keeps_className index).map some

theorem keeps_textReader : Reader.Keeps pool.textReader later.textReader :=
  (Reader.Keeps.refl _).bind fun index => .check (h.keeps_utf8 index)

theorem keeps_classNameReader : Reader.Keeps pool.classNameReader later.classNameReader :=
  (Reader.Keeps.refl _).bind fun index => .check (h.keeps_className index)

theorem keeps_optionalTextReader :
    Reader.Keeps pool.optionalTextReader later.optionalTextReader :=
  (Reader.Keeps.refl _).bind fun index => .check (h.keeps_optionalUtf8 index)

theorem keeps_optionalClassNameReader :
    Reader.Keeps pool.optionalClassNameReader later.optionalClassNameReader :=
  (Reader.Keeps.refl _).bind fun index => .check (h.keeps_optionalClassName index)

/-! ### Contents -/

theorem keeps_annot {value value' : Reader ElementValue} (hvalue : Reader.Keeps value value') :
    Reader.Keeps (Annot.reader pool value) (Annot.reader later value') :=
  h.keeps_textReader.bind fun _ => .andThen (.counted2 (h.keeps_textReader.bind fun _ =>
    hvalue.andThen _)) _

/-- Element values, by induction on the budget for nested ones. -/
theorem keeps_elementValue (budget : Nat) :
    Reader.Keeps (ElementValue.reader pool budget) (ElementValue.reader later budget) := by
  induction budget with
  | zero => exact .refl _
  | succ budget ih =>
    refine (Reader.Keeps.refl _).bind fun tag => ?_
    generalize ElementValue.tagChar tag = c
    split
    · exact h.keeps_textReader.bind fun _ => h.keeps_textReader.andThen _
    · exact h.keeps_textReader.andThen _
    · exact (h.keeps_annot ih).andThen _
    · exact ih.counted2.andThen _
    all_goals exact .refl _

theorem keeps_typeAnnot {value value' : Reader ElementValue} (hvalue : Reader.Keeps value value') :
    Reader.Keeps (TypeAnnot.reader pool value) (TypeAnnot.reader later value') := by
  refine (Reader.Keeps.refl _).bind fun target => ?_
  cases TargetShape.ofByte? target with
  | none => exact .refl _
  | some shape =>
    exact (Reader.Keeps.refl _).bind fun _ => (Reader.Keeps.refl _).bind fun _ =>
      (h.keeps_annot hvalue).andThen _

theorem keeps_parameter : Reader.Keeps (Parameter.reader pool) (Parameter.reader later) :=
  h.keeps_optionalTextReader.andThen _

theorem keeps_innerClass : Reader.Keeps (InnerClass.reader pool) (InnerClass.reader later) :=
  h.keeps_classNameReader.bind fun _ => h.keeps_optionalClassNameReader.bind fun _ =>
    h.keeps_optionalTextReader.andThen _

theorem keeps_component {decode decode' : RawAttribute → Except FormatError Attribute}
    (hdecode : ∀ stored, Keeps (decode stored) (decode' stored)) :
    Reader.Keeps (Component.reader pool decode) (Component.reader later decode') :=
  h.keeps_textReader.bind fun _ => h.keeps_textReader.bind fun _ =>
    (Reader.Keeps.refl _).bind fun _ => .andThen (.check (.mapM fun stored _ => hdecode stored)) _

theorem keeps_contents {value value' : Reader ElementValue}
    {decode decode' : RawAttribute → Except FormatError Attribute}
    (hvalue : Reader.Keeps value value')
    (hdecode : ∀ stored, Keeps (decode stored) (decode' stored)) (kind : AttributeKind) :
    Reader.Keeps (Attribute.contentsReader pool value decode kind)
      (Attribute.contentsReader later value' decode' kind) := by
  cases kind with
  | signature => exact h.keeps_textReader.map _
  | constantValue => exact .refl _
  | exceptions | permittedSubclasses => exact h.keeps_classNameReader.counted2.map _
  | annots v => exact (h.keeps_annot hvalue).counted2.map _
  | parameterAnnots v => exact (h.keeps_annot hvalue).counted2.counted1.map _
  | typeAnnots v => exact (h.keeps_typeAnnot hvalue).counted2.map _
  | annotDefault => exact hvalue.map _
  | methodParameters => exact h.keeps_parameter.counted1.map _
  | innerClasses => exact h.keeps_innerClass.counted2.map _
  | record => exact (h.keeps_component hdecode).counted2.map _

/-! ### Attributes -/

/-- By induction on the budget for attributes in the components of a record. -/
theorem keeps_readerWithin (budget : Nat) (name : String) :
    Reader.Keeps (Attribute.readerWithin pool budget name)
      (Attribute.readerWithin later budget name) := by
  induction budget generalizing name with
  | zero => exact .refl _
  | succ budget ih =>
    unfold Attribute.readerWithin
    cases AttributeKind.ofName? name with
    | none => exact .refl _
    | some kind =>
      refine .andThen (h.keeps_contents (h.keeps_elementValue budget) (fun stored => ?_) kind) _
      exact (h.keeps_utf8 _).bind fun nested => (ih nested stored.body).andThen _

/-- **Attributes.** -/
theorem keeps_decode (name : String) (body : Bytes) :
    Keeps (Attribute.decode pool name body) (Attribute.decode later name body) := by
  have hdecode (pool : Pool) : Attribute.decode pool name body =
      Prod.fst <$> (Attribute.readerWithin pool (body.length + 2) name).run body := by
    simp only [Attribute.decode, StateT.run, Attribute.reader]
    cases Attribute.readerWithin pool (body.length + 2) name body <;> rfl
  rw [hdecode, hdecode]
  exact (h.keeps_readerWithin _ name body).map _

theorem keeps_decode_stored (stored : RawAttribute) :
    Keeps (stored.decode pool) (stored.decode later) :=
  (h.keeps_utf8 _).bind fun name => h.keeps_decode name stored.body

end Pool.Extends

end JvmOutline
