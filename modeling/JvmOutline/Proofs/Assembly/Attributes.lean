import JvmOutline.Proofs.Assembly.Annotations

/-!
# Assembled attributes

An attribute that is assembled from a draft says what the draft says (`AttributeDraft.Says`): the
same texts, and indexes that lead to the same constants.  The bytes that are written for its
contents are a layout of such an attribute, and with its name they are stored as one
(`AttributeDraft.yields_contents`, `AttributeDraft.yields_storeList`).

The bound on the bodies is asked of the outermost ones only, since a body in the component of a
record is shorter than the body around it.
-/

namespace JvmOutline

open Interning

/-! ### What attributes say -/

/-- The index leads to the constant. -/
def ConstantDraft.IsAt (pool : Pool) (index : UInt16) : ConstantDraft → Prop
  | int value => pool.entry? index = some (.integer value)
  | long value => pool.entry? index = some (.long value)
  | float bits => pool.entry? index = some (.float bits)
  | double bits => pool.entry? index = some (.double bits)
  | string text => ∃ textIndex, pool.entry? index = some (.string textIndex) ∧
      pool.HasText textIndex text
  | classRef name => pool.HasClass index name

/-- The annotation has the outline of the draft. -/
def AnnotDraft.Says (pool : Pool) (a : AnnotDraft) (b : Annot) : Prop :=
  b.outline pool = .ok a.outline

/-- The type annotation has the outline of the draft. -/
def TypeAnnotDraft.Says (pool : Pool) (a : TypeAnnotDraft) (b : TypeAnnot) : Prop :=
  a.annot.Says pool b.annot

mutual

/-- The attribute says what the draft says. -/
inductive AttributeDraft.Says (pool : Pool) : AttributeDraft → Attribute → Prop where
  | signature (text : String) : AttributeDraft.Says pool (.signature text) (.signature text)
  | exceptions (names : List String) :
      AttributeDraft.Says pool (.exceptions names) (.exceptions names)
  | permittedSubclasses (names : List String) :
      AttributeDraft.Says pool (.permittedSubclasses names) (.permittedSubclasses names)
  | constant {c : ConstantDraft} {index : UInt16} :
      c.IsAt pool index → AttributeDraft.Says pool (.constant c) (.constantValue index)
  | visibleAnnots {as : List AnnotDraft} {bs : List Annot} :
      List.Forall₂ (AnnotDraft.Says pool) as bs →
      AttributeDraft.Says pool (.visibleAnnots as) (.annots .visible bs)
  | invisibleAnnots {as : List AnnotDraft} {bs : List Annot} :
      List.Forall₂ (AnnotDraft.Says pool) as bs →
      AttributeDraft.Says pool (.invisibleAnnots as) (.annots .invisible bs)
  | visibleParameterAnnots {as : List (List AnnotDraft)} {bs : List (List Annot)} :
      List.Forall₂ (List.Forall₂ (AnnotDraft.Says pool)) as bs →
      AttributeDraft.Says pool (.visibleParameterAnnots as) (.parameterAnnots .visible bs)
  | invisibleParameterAnnots {as : List (List AnnotDraft)} {bs : List (List Annot)} :
      List.Forall₂ (List.Forall₂ (AnnotDraft.Says pool)) as bs →
      AttributeDraft.Says pool (.invisibleParameterAnnots as) (.parameterAnnots .invisible bs)
  | visibleTypeAnnots {as : List TypeAnnotDraft} {bs : List TypeAnnot} :
      List.Forall₂ (TypeAnnotDraft.Says pool) as bs →
      AttributeDraft.Says pool (.visibleTypeAnnots as) (.typeAnnots .visible bs)
  | invisibleTypeAnnots {as : List TypeAnnotDraft} {bs : List TypeAnnot} :
      List.Forall₂ (TypeAnnotDraft.Says pool) as bs →
      AttributeDraft.Says pool (.invisibleTypeAnnots as) (.typeAnnots .invisible bs)
  | annotDefault {value : ValueDraft} {e : ElementValue} :
      e.outline pool = .ok value.outline →
      AttributeDraft.Says pool (.annotDefault value) (.annotDefault e)
  | methodParameters (ps : List (Option String × AccessFlags)) :
      AttributeDraft.Says pool (.methodParameters ps)
        (.methodParameters (ps.map fun p => ⟨p.1, p.2⟩))
  | innerClasses (rows : List InnerClassDraft) :
      AttributeDraft.Says pool (.innerClasses rows)
        (.innerClasses (rows.map fun row => ⟨row.inner, row.outer, row.simpleName, row.flags⟩))
  | record {ds : List ComponentDraft} {cs : List Component} :
      List.Forall₂ (ComponentDraft.Says pool) ds cs →
      AttributeDraft.Says pool (.record ds) (.record cs)
  | raw (name : String) (body : Bytes) : AttributeDraft.Says pool (.raw name body) (.other name)

/-- The record component says what the draft says. -/
inductive ComponentDraft.Says (pool : Pool) : ComponentDraft → Component → Prop where
  | intro {name descriptor : String} {as : List AttributeDraft} {bs : List Attribute} :
      List.Forall₂ (AttributeDraft.Says pool) as bs →
      ComponentDraft.Says pool ⟨name, descriptor, as⟩ ⟨name, descriptor, bs⟩

end

/-! ### Constants, parameters, nested classes -/

theorem ConstantDraft.yields_intern (c : ConstantDraft) (h : c.fits = true) :
    Yields c.intern fun later index => c.IsAt later index := by
  cases c with
  | int | long | float | double => exact Interning.yields_intern trivial
  | string text => exact yields_internString h
  | classRef name => exact yields_internClass h

theorem yields_writeClass {name : String} (h : Utf8.isShort name = true) :
    Yields (writeClass name) fun later bytes => ∃ n, later.ClassLayout bytes n ∧ name = n :=
  (yields_internClass h).map fun _ index hi => ⟨name, ⟨index, hi, rfl⟩, rfl⟩

theorem yields_internOptionalText {name : Option String} (h : fitsOptional name = true) :
    Yields (Pool.internOptional Pool.internText name) fun later index =>
      Format.Optional later.TextLayout (Bytes.u2 index) name :=
  yields_internOptional fun text ht => by
    rw [fitsOptional, ht] at h
    exact yields_internText h

theorem yields_internOptionalClass {name : Option String} (h : fitsOptional name = true) :
    Yields (Pool.internOptional Pool.internClass name) fun later index =>
      Format.Optional later.ClassLayout (Bytes.u2 index) name :=
  yields_internOptional fun text ht => by
    rw [fitsOptional, ht] at h
    exact yields_internClass h

theorem yields_writeParameter (p : Option String × AccessFlags) (h : fitsOptional p.1 = true) :
    Yields (writeParameter p) fun later bytes =>
      ∃ q, Parameter.Layout later bytes q ∧ q = ⟨p.1, p.2⟩ :=
  (yields_internOptionalText h).bind_pure fun _ _ hi => ⟨_, .intro hi, rfl⟩

theorem InnerClassDraft.yields_write (row : InnerClassDraft) (h : row.fits = true) :
    Yields row.write fun later bytes => ∃ r, InnerClass.Layout later bytes r ∧
      r = ⟨row.inner, row.outer, row.simpleName, row.flags⟩ := by
  obtain ⟨hi, h⟩ := Bool.and_eq_true_iff.mp h
  obtain ⟨ho, hs⟩ := Bool.and_eq_true_iff.mp h
  refine (yields_internClass hi).bind fun i => (yields_internOptionalClass ho).bind fun o =>
    (yields_internOptionalText hs).bind_pure fun later s hs ho hi => ⟨_, ?_, rfl⟩
  simp only [List.append_assoc]
  exact .intro ⟨i, hi, rfl⟩ ho hs

/-! ### Attributes -/

theorem fits2_iff {α : Type} {fits : α → Bool} {items : List α} :
    fits2 fits items = true ↔ items.length < 65536 ∧ ∀ a ∈ items, fits a = true := by
  rw [fits2, Bool.and_eq_true_iff, decide_eq_true_eq, List.all_eq_true]

theorem fits1_iff {α : Type} {fits : α → Bool} {items : List α} :
    fits1 fits items = true ↔ items.length < 256 ∧ ∀ a ∈ items, fits a = true := by
  rw [fits1, Bool.and_eq_true_iff, decide_eq_true_eq, List.all_eq_true]

/-- A list whose items are related to those of another by a function. -/
theorem forall₂_eq_map {α β : Type} {f : α → β} {as : List α} {bs : List β}
    (h : List.Forall₂ (fun a b => b = f a) as bs) : bs = as.map f := by
  induction h with
  | nil => rfl
  | cons h _ ih => rw [List.map_cons, h, ih]

theorem AnnotDraft.yields_writeAll {as : List AnnotDraft} (h : fits2 AnnotDraft.fits as = true) :
    Yields (writeCounted AnnotDraft.write as) fun later bytes => ∃ bs,
      Format.Counted2 (Annot.Layout later (ElementValue.Layout later)) bytes bs ∧
      List.Forall₂ (AnnotDraft.Says later) as bs := by
  obtain ⟨hn, ha⟩ := fits2_iff.mp h
  exact yields_writeCounted hn fun a hmem => AnnotDraft.yields_write a (ha a hmem)

theorem AnnotDraft.yields_writeParameters {as : List (List AnnotDraft)}
    (h : fits1 (fits2 AnnotDraft.fits) as = true) :
    Yields (AnnotDraft.writeParameters as) fun later bytes => ∃ bs,
      Format.Counted1 (Format.Counted2 (Annot.Layout later (ElementValue.Layout later))) bytes bs ∧
      List.Forall₂ (List.Forall₂ (AnnotDraft.Says later)) as bs := by
  obtain ⟨hn, ha⟩ := fits1_iff.mp h
  exact yields_count1 hn fun a hmem => AnnotDraft.yields_writeAll (ha a hmem)

theorem TypeAnnotDraft.yields_writeAll {as : List TypeAnnotDraft}
    (h : fits2 TypeAnnotDraft.fits as = true) :
    Yields (writeCounted TypeAnnotDraft.write as) fun later bytes => ∃ bs,
      Format.Counted2 (TypeAnnot.Layout later) bytes bs ∧
      List.Forall₂ (TypeAnnotDraft.Says later) as bs := by
  obtain ⟨hn, ha⟩ := fits2_iff.mp h
  exact yields_writeCounted hn fun a hmem => TypeAnnotDraft.yields_write a (ha a hmem)

theorem yields_writeClasses {names : List String} (h : fits2 Utf8.isShort names = true) :
    Yields (writeCounted writeClass names) fun later bytes =>
      Format.Counted2 later.ClassLayout bytes names := by
  obtain ⟨hn, ha⟩ := fits2_iff.mp h
  refine (yields_writeCounted hn fun name hmem => yields_writeClass (ha name hmem)).imp
    fun later bytes _ ⟨bs, hbs, hr⟩ => ?_
  obtain rfl : names = bs := by
    rw [← List.forall₂_eq_eq_eq]
    exact hr
  exact hbs

/-- With the name of the draft, the body is stored for an attribute that says what the draft
says. -/
def AttributeDraft.StoredAs (a : AttributeDraft) (pool : Pool) (body : Bytes) : Prop :=
  body.length < 4294967296 → ∀ index, pool.HasText index a.name →
    ∃ x, Attribute.Stored pool ⟨index, body⟩ x ∧ a.Says pool x

/-- A body that is a layout of what the draft says. -/
theorem AttributeDraft.storedAs_of_layout {a : AttributeDraft} {pool : Pool} {body : Bytes}
    {kind : AttributeKind} {x : Attribute} (hname : a.name = kind.name)
    (hL : Attribute.Layout pool kind body x) (hs : a.Says pool x) : a.StoredAs pool body :=
  fun _ _ hi => ⟨x, .known (hname ▸ hi) hL, hs⟩

theorem AttributeKind.isShort_name (kind : AttributeKind) : Utf8.isShort kind.name = true := by
  cases kind with
  | annots v | parameterAnnots v | typeAnnots v => cases v <;> decide
  | _ => decide

theorem AttributeDraft.isShort_name {a : AttributeDraft} (h : a.fits = true) :
    Utf8.isShort a.name = true := by
  cases a with
  | raw name body => exact (Bool.and_eq_true_iff.mp h).1
  | _ => exact AttributeKind.isShort_name _

mutual

/-- **Attributes.** -/
theorem AttributeDraft.yields_contents (a : AttributeDraft) (h : a.fits = true) :
    Yields a.contents fun later body => a.StoredAs later body := by
  cases a with
  | signature text =>
    rw [AttributeDraft.contents]
    exact (yields_internText h).map fun later index hi =>
      AttributeDraft.storedAs_of_layout rfl (.signature ⟨index, hi, rfl⟩) (.signature text)
  | exceptions names =>
    rw [AttributeDraft.contents]
    exact (yields_writeClasses h).imp fun later body _ hb =>
      AttributeDraft.storedAs_of_layout rfl (.exceptions hb) (.exceptions names)
  | permittedSubclasses names =>
    rw [AttributeDraft.contents]
    exact (yields_writeClasses h).imp fun later body _ hb =>
      AttributeDraft.storedAs_of_layout rfl (.permittedSubclasses hb) (.permittedSubclasses names)
  | constant c =>
    rw [AttributeDraft.contents]
    exact (c.yields_intern h).map fun later index hi =>
      AttributeDraft.storedAs_of_layout rfl (.constantValue index) (.constant hi)
  | visibleAnnots as =>
    rw [AttributeDraft.contents]
    exact (AnnotDraft.yields_writeAll h).imp fun later body _ ⟨bs, hb, hs⟩ =>
      AttributeDraft.storedAs_of_layout rfl (.annots hb) (.visibleAnnots hs)
  | invisibleAnnots as =>
    rw [AttributeDraft.contents]
    exact (AnnotDraft.yields_writeAll h).imp fun later body _ ⟨bs, hb, hs⟩ =>
      AttributeDraft.storedAs_of_layout rfl (.annots hb) (.invisibleAnnots hs)
  | visibleParameterAnnots as =>
    rw [AttributeDraft.contents]
    exact (AnnotDraft.yields_writeParameters h).imp fun later body _ ⟨bs, hb, hs⟩ =>
      AttributeDraft.storedAs_of_layout rfl (.parameterAnnots hb) (.visibleParameterAnnots hs)
  | invisibleParameterAnnots as =>
    rw [AttributeDraft.contents]
    exact (AnnotDraft.yields_writeParameters h).imp fun later body _ ⟨bs, hb, hs⟩ =>
      AttributeDraft.storedAs_of_layout rfl (.parameterAnnots hb) (.invisibleParameterAnnots hs)
  | visibleTypeAnnots as =>
    rw [AttributeDraft.contents]
    exact (TypeAnnotDraft.yields_writeAll h).imp fun later body _ ⟨bs, hb, hs⟩ =>
      AttributeDraft.storedAs_of_layout rfl (.typeAnnots hb) (.visibleTypeAnnots hs)
  | invisibleTypeAnnots as =>
    rw [AttributeDraft.contents]
    exact (TypeAnnotDraft.yields_writeAll h).imp fun later body _ ⟨bs, hb, hs⟩ =>
      AttributeDraft.storedAs_of_layout rfl (.typeAnnots hb) (.invisibleTypeAnnots hs)
  | annotDefault value =>
    rw [AttributeDraft.contents]
    exact (value.yields_write h).imp fun later body _ ⟨e, hb, hs⟩ =>
      AttributeDraft.storedAs_of_layout rfl (.annotDefault hb) (.annotDefault hs)
  | methodParameters ps =>
    rw [AttributeDraft.contents]
    obtain ⟨hn, hp⟩ := fits1_iff.mp h
    refine (yields_count1 hn fun p hmem => yields_writeParameter p (hp p hmem)).imp
      fun later body _ ⟨qs, hb, hs⟩ => ?_
    obtain rfl := forall₂_eq_map hs
    exact AttributeDraft.storedAs_of_layout rfl (.methodParameters hb) (.methodParameters ps)
  | innerClasses rows =>
    rw [AttributeDraft.contents]
    obtain ⟨hn, hr⟩ := fits2_iff.mp h
    refine (yields_writeCounted hn fun row hmem => row.yields_write (hr row hmem)).imp
      fun later body _ ⟨rs, hb, hs⟩ => ?_
    obtain rfl := forall₂_eq_map hs
    exact AttributeDraft.storedAs_of_layout rfl (.innerClasses hb) (.innerClasses rows)
  | record components =>
    rw [AttributeDraft.contents]
    obtain ⟨hn, hc⟩ := Bool.and_eq_true_iff.mp h
    refine (ComponentDraft.yields_writeList components hc).bind_pure
      fun later body hbody hlt index hi => ?_
    obtain ⟨cs, hcs, hs⟩ := hbody (by rw [List.length_append] at hlt; omega)
    have hcount : count2 components = count2 cs := by rw [count2, count2, hs.length_eq]
    rw [hcount]
    exact AttributeDraft.storedAs_of_layout rfl
      (.record (.intro (hs.length_eq ▸ of_decide_eq_true hn) hcs)) (.record hs)
      (by rwa [← hcount]) index hi
  | raw name body =>
    rw [AttributeDraft.contents]
    refine .pure fun later _ index hi => ⟨.other name, .other hi fun kind hk => ?_, .raw name body⟩
    obtain ⟨-, hnone⟩ := Bool.and_eq_true_iff.mp h
    rw [← hk, AttributeKind.ofName?_name] at hnone
    nomatch hnone

/-- Record components are written one after the other. -/
theorem ComponentDraft.yields_writeList (ds : List ComponentDraft)
    (h : ComponentDraft.fitAll ds = true) :
    Yields (ComponentDraft.writeList ds) fun later bytes => bytes.length < 4294967296 → ∃ cs,
      Format.Each (Component.Layout later (Attribute.Stored later)) bytes cs ∧
      List.Forall₂ (ComponentDraft.Says later) ds cs := by
  match ds, h with
  | [], _ =>
    rw [ComponentDraft.writeList]
    exact .pure fun later _ => ⟨[], .nil, .nil⟩
  | ⟨name, descriptor, as⟩ :: rest, h =>
    obtain ⟨htexts, h⟩ := Bool.and_eq_true_iff.mp h
    obtain ⟨hname, hdesc⟩ := Bool.and_eq_true_iff.mp htexts
    obtain ⟨has, h⟩ := Bool.and_eq_true_iff.mp h
    obtain ⟨hn, has⟩ := Bool.and_eq_true_iff.mp has
    obtain ⟨-, hrest⟩ := Bool.and_eq_true_iff.mp h
    rw [ComponentDraft.writeList]
    refine (yields_internText hname).bind fun i => (yields_internText hdesc).bind fun j =>
      (AttributeDraft.yields_storeList as has).bind fun stored =>
        (ComponentDraft.yields_writeList rest hrest).bind_pure
          fun later bytes hbytes ⟨hlen, hstored⟩ hj hi hlt => ?_
    -- A body in this component is shorter than the body around it.
    simp only [RawAttribute.layoutAll, List.length_append] at hlt
    have hbodies : ∀ s ∈ stored, s.Fits := fun s hs => by
      have := RawAttribute.length_body_of_mem hs
      show s.body.length < _
      omega
    obtain ⟨xs, hxs, hsays⟩ := hstored hbodies
    obtain ⟨cs, hcs, hrest⟩ := hbytes (by omega)
    refine ⟨⟨name, descriptor, xs⟩ :: cs, ?_, .cons (.intro hsays) hrest⟩
    rw [List.append_assoc (Bytes.u2 i)]
    refine .cons (.intro ⟨i, hi, rfl⟩ ⟨j, hj, rfl⟩ (Format.counted2_fits.mpr ?_) hxs) hcs
    exact ⟨⟨hlen ▸ of_decide_eq_true hn, hbodies⟩, rfl⟩

/-- Attributes are stored in order. -/
theorem AttributeDraft.yields_storeList (as : List AttributeDraft)
    (h : AttributeDraft.fitAll as = true) :
    Yields (AttributeDraft.storeList as) fun later stored => stored.length = as.length ∧
      ((∀ s ∈ stored, s.Fits) → ∃ xs, List.Forall₂ (Attribute.Stored later) stored xs ∧
        List.Forall₂ (AttributeDraft.Says later) as xs) := by
  match as, h with
  | [], _ =>
    rw [AttributeDraft.storeList]
    exact .pure fun later => ⟨rfl, fun _ => ⟨[], .nil, .nil⟩⟩
  | a :: rest, h =>
    obtain ⟨ha, hrest⟩ := Bool.and_eq_true_iff.mp h
    rw [AttributeDraft.storeList]
    refine (AttributeDraft.yields_contents a ha).bind fun body => (yields_internText ?_).bind
      fun index => (AttributeDraft.yields_storeList rest hrest).bind_pure
        fun later stored ⟨hlen, hstored⟩ hi hbody => ⟨congrArg (· + 1) hlen, fun hfit => ?_⟩
    · exact AttributeDraft.isShort_name ha
    · rw [List.forall_mem_cons] at hfit
      obtain ⟨x, hx, hsays⟩ := hbody hfit.1 index hi
      obtain ⟨xs, hxs, hrest⟩ := hstored hfit.2
      exact ⟨x :: xs, .cons hx hxs, .cons hsays hrest⟩

end

end JvmOutline
