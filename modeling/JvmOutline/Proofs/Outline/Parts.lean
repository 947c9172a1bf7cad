import JvmOutline.Outline.Class
import JvmOutline.Proofs.Outline.ParameterAnnots

/-!
# Taking in the parts of a declaration

A stream is taken in part by part, and each part goes into one place.  So what is known at the end
is read off the stream place by place: `FieldParts.Takes`, `MethodParts.Takes`,
`ComponentParts.Takes` and `HeaderParts.Takes` say what each place holds, and a stream is taken in
exactly if they hold (**`FieldParts.foldlM_eq_ok_iff`** and its like).

A place for a part that occurs once takes at most one (`TakesOnce`).
-/

namespace JvmOutline

/-! ### The results of logged computations -/

namespace Logged

variable {α β : Type}

theorem result_bind (x : Logged α) (f : α → Logged β) :
    (x >>= f).result = x.result >>= fun a => (f a).result := by
  obtain ⟨log, e | a⟩ := x <;> rfl

theorem result_bind_eq_ok_iff {x : Logged α} {f : α → Logged β} {b : β} :
    (x >>= f).result = .ok b ↔ ∃ a, x.result = .ok a ∧ (f a).result = .ok b := by
  rw [result_bind, bind_eq_ok_iff]

theorem result_mapM (f : α → Logged β) (as : List α) :
    (as.mapM f).result = as.mapM fun a => (f a).result := by
  induction as with
  | nil => rfl
  | cons a as ih =>
    rw [List.mapM_cons, List.mapM_cons, result_bind]
    refine bind_congr fun b => ?_
    rw [result_bind, ih]
    rfl

theorem result_foldlM (f : β → α → Logged β) (b : β) (as : List α) :
    (as.foldlM f b).result = as.foldlM (fun b a => (f b a).result) b := by
  induction as generalizing b with
  | nil => rfl
  | cons a as ih =>
    rw [List.foldlM_cons, List.foldlM_cons, result_bind]
    exact bind_congr fun b' => ih b'

end Logged

/-! ### Places -/

section

variable {α β : Type} {Found : α → β → Prop} {place place' : Option β} {a : α} {as : List α}

/-- A place takes what is found for the parts of a stream: none leaves it as it is, and one fills
it if it is empty. -/
def TakesOnce (Found : α → β → Prop) (place : Option β) : List α → Option β → Prop
  | [], place' => place' = place
  | a :: as, place' => place = none ∧ as = [] ∧ ∃ b, Found a b ∧ place' = some b

theorem Part.once_eq_ok_iff {part : Part} {scope : Scope} {b : β} :
    part.once scope place b = .ok place' ↔ place = none ∧ place' = some b := by
  cases place with
  | none => exact ⟨fun h => by cases h; exact ⟨rfl, rfl⟩, fun ⟨_, h⟩ => h ▸ rfl⟩
  | some b => exact ⟨nofun, nofun⟩

theorem takesOnce_cons {part : Part} {scope : Scope} :
    TakesOnce Found place (a :: as) place' ↔ ∃ b, Found a b ∧
      ∃ next, part.once scope place b = .ok next ∧ TakesOnce Found next as place' := by
  constructor
  · rintro ⟨hnone, rfl, b, hb, rfl⟩
    exact ⟨b, hb, some b, Part.once_eq_ok_iff.mpr ⟨hnone, rfl⟩, rfl⟩
  · rintro ⟨b, hb, next, hnext, h⟩
    obtain ⟨rfl, rfl⟩ := Part.once_eq_ok_iff.mp hnext
    -- The place is filled now, so it takes nothing from what follows.
    cases as with
    | nil => exact ⟨rfl, rfl, b, hb, h⟩
    | cons a' as => nomatch h.1

theorem takesOnce_eq_cons {part : Part} {scope : Scope} {as : List β} {b : β} :
    TakesOnce Eq place (b :: as) place' ↔
      ∃ next, part.once scope place b = .ok next ∧ TakesOnce Eq next as place' := by
  refine ⟨fun h => ?_, fun h => takesOnce_cons.mpr ⟨b, rfl, h⟩⟩
  obtain ⟨_, rfl, hnext⟩ := takesOnce_cons.mp h
  exact hnext

/-- A place gathers what is found for the parts of a stream, in order. -/
def Gathers (Found : α → List β → Prop) (place : Option (List β)) :
    List α → Option (List β) → Prop
  | [], place' => place' = place
  | a :: as, place' => ∃ bs, Found a bs ∧ Gathers Found (some (place.getD [] ++ bs)) as place'

end

/-! ### Views on the parts of a stream -/

namespace Attribute

/-- The generic signature, if the attribute is one. -/
def signature? : Attribute → Option String
  | signature text => some text
  | _ => none

/-- The index of the constant of a field, if the attribute is one. -/
def constantIndex? : Attribute → Option UInt16
  | constantValue index => some index
  | _ => none

/-- The annotations of a visibility, if the attribute holds them. -/
def annots? (v : Visibility) : Attribute → Option (List Annot)
  | annots w as => if w = v then some as else none
  | _ => none

/-- The annotations of either visibility, if the attribute holds them. -/
def anyAnnots? : Attribute → Option (List Annot)
  | annots _ as => some as
  | _ => none

/-- The type annotations of either visibility, if the attribute holds them. -/
def anyTypeAnnots? : Attribute → Option (List TypeAnnot)
  | typeAnnots _ as => some as
  | _ => none

/-- The annotations of parameters of either visibility, if the attribute holds them. -/
def parameterAnnots? : Attribute → Option (List (List Annot))
  | parameterAnnots _ as => some as
  | _ => none

/-- The parameters, if the attribute lists them. -/
def parameters? : Attribute → Option (List Parameter)
  | methodParameters ps => some ps
  | _ => none

/-- The default value, if the attribute is one. -/
def default? : Attribute → Option ElementValue
  | annotDefault value => some value
  | _ => none

/-- The declared exceptions that the attribute lists. -/
def exceptionNames : Attribute → List String
  | exceptions names => names
  | _ => []

end Attribute

namespace MemberElement

/-- The access flags of an element. -/
def flags? : MemberElement → Option AccessFlags
  | .flags f => some f
  | .attr _ => none

/-- The attribute of an element. -/
def attr? : MemberElement → Option Attribute
  | .flags _ => none
  | .attr a => some a

end MemberElement

namespace Element

/-- The access flags of an element. -/
def flags? : Element → Option AccessFlags
  | .flags f => some f
  | _ => none

/-- The qualified name of the superclass, if the element is one. -/
def superName? : Element → Option String
  | .superclass name => some (ClassName.qualified name)
  | _ => none

/-- The qualified names of the interfaces, if the element lists them. -/
def interfaceNames? : Element → Option (List String)
  | .interfaces names => some (names.map ClassName.qualified)
  | _ => none

/-- The attribute of an element. -/
def attr? : Element → Option Attribute
  | .attr a => some a
  | _ => none

end Element

/-- The annotations have these outlines. -/
def Annot.OutlinedAs (pool : Pool) (as : List Annot) (outlines : List AnnotOutline) : Prop :=
  Annot.outlineAll pool as = .ok outlines

/-- The type annotations have these outlines. -/
def TypeAnnot.OutlinedAs (pool : Pool) (as : List TypeAnnot) (outlines : List AnnotOutline) :
    Prop :=
  TypeAnnot.outlineAll pool as = .ok outlines

/-! ### What fields and methods share -/

/-- Fields and methods have the same use for the element. -/
inductive MemberElement.IsShared : MemberElement → Prop where
  | flags (f : AccessFlags) : IsShared (.flags f)
  | signature (text : String) : IsShared (.attr (.signature text))
  | annots (v : Visibility) (as : List Annot) : IsShared (.attr (.annots v as))

namespace SharedParts

variable {pool : Pool} {scope : Scope} {p q : SharedParts}

/-- What the places that fields and methods share take from a stream. -/
structure Takes (pool : Pool) (stream : List MemberElement) (p p' : SharedParts) : Prop where
  flags : TakesOnce Eq p.flags (stream.filterMap MemberElement.flags?) p'.flags
  signature : TakesOnce Eq p.signature
    ((stream.filterMap MemberElement.attr?).filterMap Attribute.signature?) p'.signature
  visible : TakesOnce (Annot.OutlinedAs pool) p.visible
    ((stream.filterMap MemberElement.attr?).filterMap (Attribute.annots? .visible)) p'.visible
  invisible : TakesOnce (Annot.OutlinedAs pool) p.invisible
    ((stream.filterMap MemberElement.attr?).filterMap (Attribute.annots? .invisible)) p'.invisible

theorem takes_nil : Takes pool [] p q ↔ q = p := by
  constructor
  · rintro ⟨h1, h2, h3, h4⟩
    cases p
    cases q
    cases h1
    cases h2
    cases h3
    cases h4
    rfl
  · rintro rfl
    exact ⟨rfl, rfl, rfl, rfl⟩

variable {stream : List MemberElement}

theorem takes_flags {f : AccessFlags} : Takes pool (.flags f :: stream) p q ↔
    ∃ r, p.putFlags scope f = .ok r ∧ Takes pool stream r q := by
  refine Iff.trans ?_ exists_bind_pure_iff.symm
  constructor
  · intro h
    obtain ⟨flags, hflags, hs⟩ := takesOnce_eq_cons.mp h.flags
    exact ⟨flags, hflags, { h with flags := hs }⟩
  · rintro ⟨flags, hflags, h⟩
    exact { h with flags := takesOnce_eq_cons.mpr ⟨flags, hflags, h.flags⟩ }

theorem takes_signature {text : String} : Takes pool (.attr (.signature text) :: stream) p q ↔
    ∃ r, p.putSignature scope text = .ok r ∧ Takes pool stream r q := by
  refine Iff.trans ?_ exists_bind_pure_iff.symm
  constructor
  · intro h
    obtain ⟨signature, hsignature, hs⟩ := takesOnce_eq_cons.mp h.signature
    exact ⟨signature, hsignature, { h with signature := hs }⟩
  · rintro ⟨signature, hsignature, h⟩
    exact { h with signature := takesOnce_eq_cons.mpr ⟨signature, hsignature, h.signature⟩ }

theorem takes_annots {v : Visibility} {as : List Annot} :
    Takes pool (.attr (.annots v as) :: stream) p q ↔
      ∃ r, (Annot.outlineAll pool as >>= p.putAnnots scope v) = .ok r ∧ Takes pool stream r q := by
  have hbind : (∃ r, (Annot.outlineAll pool as >>= p.putAnnots scope v) = .ok r ∧
      Takes pool stream r q) ↔ ∃ bs, Annot.outlineAll pool as = .ok bs ∧
        ∃ r, p.putAnnots scope v bs = .ok r ∧ Takes pool stream r q := by
    simp only [bind_eq_ok_iff, ← exists_and_right, and_assoc]
    rw [exists_comm]
    simp only [exists_and_left]
  rw [hbind]
  cases v with
  | visible =>
    refine Iff.trans ?_ (exists_congr fun bs => and_congr_right fun _ => exists_bind_pure_iff.symm)
    constructor
    · intro h
      obtain ⟨bs, hbs, visible, hvisible, hs⟩ := takesOnce_cons.mp h.visible
      exact ⟨bs, hbs, visible, hvisible, { h with visible := hs }⟩
    · rintro ⟨bs, hbs, visible, hvisible, h⟩
      exact { h with visible := takesOnce_cons.mpr ⟨bs, hbs, visible, hvisible, h.visible⟩ }
  | invisible =>
    refine Iff.trans ?_ (exists_congr fun bs => and_congr_right fun _ => exists_bind_pure_iff.symm)
    constructor
    · intro h
      obtain ⟨bs, hbs, invisible, hinvisible, hs⟩ := takesOnce_cons.mp h.invisible
      exact ⟨bs, hbs, invisible, hinvisible, { h with invisible := hs }⟩
    · rintro ⟨bs, hbs, invisible, hinvisible, h⟩
      exact { h with invisible := takesOnce_cons.mpr ⟨bs, hbs, invisible, hinvisible, h.invisible⟩ }

end SharedParts

/-! ### Fields -/

namespace FieldParts

variable {pool : Pool} {field : String} {stream : List MemberElement} {p p' : FieldParts}

/-- What the places of a field take from a stream. -/
structure Takes (pool : Pool) (field : String) (stream : List MemberElement) (p p' : FieldParts) :
    Prop where
  shared : SharedParts.Takes pool stream p.shared p'.shared
  value : TakesOnce (fun index value => ConstantValue.ofPool pool field index = .ok value) p.value
    ((stream.filterMap MemberElement.attr?).filterMap Attribute.constantIndex?) p'.value

/-- An element that goes into a shared place. -/
theorem takes_shared {e : MemberElement} {x : Except OutlineError SharedParts}
    (he : e.IsShared)
    (hshared : SharedParts.Takes pool (e :: stream) p.shared p'.shared ↔
      ∃ r, x = .ok r ∧ SharedParts.Takes pool stream r p'.shared) :
    (∃ r, (do return { p with shared := ← x }) = .ok r ∧ Takes pool field stream r p') ↔
      Takes pool field (e :: stream) p p' := by
  rw [exists_bind_pure_iff]
  constructor
  · rintro ⟨r, hr, h⟩
    have hs := hshared.mpr ⟨r, hr, h.shared⟩
    cases he <;> exact { h with shared := hs }
  · intro h
    obtain ⟨r, hr, hs⟩ := hshared.mp h.shared
    refine ⟨r, hr, ?_⟩
    cases he <;> exact { h with shared := hs }

/-- **Fields.** -/
theorem foldlM_eq_ok_iff :
    (stream.foldlM (accept pool field) p).result = .ok p' ↔ Takes pool field stream p p' := by
  rw [Logged.result_foldlM]
  induction stream generalizing p with
  | nil =>
    constructor
    · intro h
      cases h
      exact ⟨SharedParts.takes_nil.mpr rfl, rfl⟩
    · rintro ⟨hshared, hvalue⟩
      have hshared := SharedParts.takes_nil.mp hshared
      cases p
      cases p'
      cases hshared
      cases hvalue
      rfl
  | cons e stream ih =>
    rw [List.foldlM_cons, bind_eq_ok_iff]
    simp only [ih]
    cases e with
    | flags f => exact takes_shared (.flags f) SharedParts.takes_flags
    | attr a =>
      cases a with
      | signature text => exact takes_shared (.signature text) SharedParts.takes_signature
      | annots v as =>
        have hresult : (accept pool field p (.attr (.annots v as))).result = (do
            return { p with
              shared := ← Annot.outlineAll pool as >>= p.shared.putAnnots (.field field) v }) :=
          (bind_assoc ..).symm
        rw [hresult]
        exact takes_shared (.annots v as) SharedParts.takes_annots
      | constantValue index =>
        constructor
        · rintro ⟨r, hr, h⟩
          obtain ⟨value, hvalue, hr⟩ := bind_eq_ok_iff.mp hr
          obtain ⟨next, hnext, hr⟩ := bind_eq_ok_iff.mp hr
          cases hr
          exact ⟨{ h.shared with }, takesOnce_cons.mpr ⟨value, hvalue, next, hnext, h.value⟩⟩
        · intro h
          obtain ⟨value, hvalue, next, hnext, hs⟩ := takesOnce_cons.mp h.value
          exact ⟨{ p with value := next },
            bind_eq_ok_iff.mpr ⟨value, hvalue, bind_eq_ok_iff.mpr ⟨next, hnext, rfl⟩⟩,
            { h.shared with }, hs⟩
      | _ =>
        constructor
        · rintro ⟨_, ⟨⟩, h⟩
          exact ⟨{ h.shared with }, h.value⟩
        · intro h
          exact ⟨p, rfl, { h.shared with }, h.value⟩

end FieldParts

/-! ### Methods -/

namespace MethodParts

variable {pool : Pool} {scope : Scope} {stream : List MemberElement} {p p' : MethodParts}

/-- What the places of a method take from a stream. -/
structure Takes (pool : Pool) (stream : List MemberElement) (p p' : MethodParts) : Prop where
  shared : SharedParts.Takes pool stream p.shared p'.shared
  exceptions : p'.exceptions = p.exceptions ++
    ((stream.filterMap MemberElement.attr?).flatMap Attribute.exceptionNames).map
      ClassName.qualified
  parameterAnnots :
    ((stream.filterMap MemberElement.attr?).filterMap Attribute.parameterAnnots?).foldlM
      (fun map as => ParameterAnnots.outline pool map 0 as) p.parameterAnnots =
        .ok p'.parameterAnnots
  parameterNames : Gathers (fun (ps : List Parameter) names => ps.map Parameter.name = names)
    p.parameterNames ((stream.filterMap MemberElement.attr?).filterMap Attribute.parameters?)
      p'.parameterNames
  default : TakesOnce (fun (value : ElementValue) d => value.outline pool = .ok d) p.default
    ((stream.filterMap MemberElement.attr?).filterMap Attribute.default?) p'.default

/-- An element that goes into a shared place. -/
theorem takes_shared {e : MemberElement} {x : Except OutlineError SharedParts}
    (he : e.IsShared)
    (hshared : SharedParts.Takes pool (e :: stream) p.shared p'.shared ↔
      ∃ r, x = .ok r ∧ SharedParts.Takes pool stream r p'.shared) :
    (∃ r, (do return { p with shared := ← x }) = .ok r ∧ Takes pool stream r p') ↔
      Takes pool (e :: stream) p p' := by
  rw [exists_bind_pure_iff]
  constructor
  · rintro ⟨r, hr, h⟩
    have hs := hshared.mpr ⟨r, hr, h.shared⟩
    cases he <;> exact { h with shared := hs }
  · intro h
    obtain ⟨r, hr, hs⟩ := hshared.mp h.shared
    refine ⟨r, hr, ?_⟩
    cases he <;> exact { h with shared := hs }

/-- **Methods.** -/
theorem foldlM_eq_ok_iff :
    (stream.foldlM (accept pool scope) p).result = .ok p' ↔ Takes pool stream p p' := by
  rw [Logged.result_foldlM]
  induction stream generalizing p with
  | nil =>
    constructor
    · intro h
      cases h
      exact ⟨SharedParts.takes_nil.mpr rfl, (List.append_nil _).symm, rfl, rfl, rfl⟩
    · rintro ⟨hshared, hexceptions, hannots, hnames, hdefault⟩
      have hshared := SharedParts.takes_nil.mp hshared
      have hexceptions := hexceptions.trans (List.append_nil _)
      cases p
      cases p'
      cases hshared
      cases hexceptions
      cases hannots
      cases hnames
      cases hdefault
      rfl
  | cons e stream ih =>
    rw [List.foldlM_cons, bind_eq_ok_iff]
    simp only [ih]
    cases e with
    | flags f => exact takes_shared (.flags f) SharedParts.takes_flags
    | attr a =>
      cases a with
      | signature text => exact takes_shared (.signature text) SharedParts.takes_signature
      | annots v as =>
        have hresult : (accept pool scope p (.attr (.annots v as))).result = (do
            return { p with
              shared := ← Annot.outlineAll pool as >>= p.shared.putAnnots scope v }) :=
          (bind_assoc ..).symm
        rw [hresult]
        exact takes_shared (.annots v as) SharedParts.takes_annots
      | exceptions names =>
        have happend (rest : List String) :
            p.exceptions ++ (names ++ rest).map ClassName.qualified =
              p.exceptions ++ names.map ClassName.qualified ++ rest.map ClassName.qualified := by
          rw [List.map_append, List.append_assoc]
        constructor
        · rintro ⟨_, ⟨⟩, h⟩
          exact ⟨{ h.shared with }, h.exceptions.trans (happend _).symm, h.parameterAnnots,
            h.parameterNames, h.default⟩
        · intro h
          exact ⟨_, rfl, { h.shared with }, h.exceptions.trans (happend _), h.parameterAnnots,
            h.parameterNames, h.default⟩
      | parameterAnnots v as =>
        refine exists_bind_pure_iff.trans ?_
        constructor
        · rintro ⟨map, hmap, h⟩
          exact ⟨{ h.shared with }, h.exceptions, bind_eq_ok_iff.mpr ⟨map, hmap, h.parameterAnnots⟩,
            h.parameterNames, h.default⟩
        · intro h
          obtain ⟨map, hmap, hrest⟩ := bind_eq_ok_iff.mp h.parameterAnnots
          exact ⟨map, hmap, { h.shared with }, h.exceptions, hrest, h.parameterNames, h.default⟩
      | methodParameters ps =>
        constructor
        · rintro ⟨_, ⟨⟩, h⟩
          exact ⟨{ h.shared with }, h.exceptions, h.parameterAnnots, ⟨_, rfl, h.parameterNames⟩,
            h.default⟩
        · intro h
          obtain ⟨_, rfl, hrest⟩ := h.parameterNames
          exact ⟨_, rfl, { h.shared with }, h.exceptions, h.parameterAnnots, hrest, h.default⟩
      | annotDefault value =>
        constructor
        · rintro ⟨r, hr, h⟩
          obtain ⟨d, hd, hr⟩ := bind_eq_ok_iff.mp hr
          obtain ⟨next, hnext, hr⟩ := bind_eq_ok_iff.mp hr
          cases hr
          exact ⟨{ h.shared with }, h.exceptions, h.parameterAnnots, h.parameterNames,
            takesOnce_cons.mpr ⟨d, hd, next, hnext, h.default⟩⟩
        · intro h
          obtain ⟨d, hd, next, hnext, hrest⟩ := takesOnce_cons.mp h.default
          exact ⟨{ p with default := next },
            bind_eq_ok_iff.mpr ⟨d, hd, bind_eq_ok_iff.mpr ⟨next, hnext, rfl⟩⟩,
            { h.shared with }, h.exceptions, h.parameterAnnots, h.parameterNames, hrest⟩
      | _ =>
        constructor
        · rintro ⟨_, ⟨⟩, h⟩
          exact ⟨{ h.shared with }, h.exceptions, h.parameterAnnots, h.parameterNames, h.default⟩
        · intro h
          exact ⟨p, rfl, { h.shared with }, h.exceptions, h.parameterAnnots, h.parameterNames,
            h.default⟩

end MethodParts

/-! ### Record components -/

namespace ComponentParts

variable {pool : Pool} {scope : Scope} {as : List Attribute} {p p' : ComponentParts}

/-- What the places of a record component take from its attributes. -/
structure Takes (pool : Pool) (as : List Attribute) (p p' : ComponentParts) : Prop where
  signature : TakesOnce Eq p.signature (as.filterMap Attribute.signature?) p'.signature
  annots : Gathers (Annot.OutlinedAs pool) p.annots (as.filterMap Attribute.anyAnnots?) p'.annots
  typeAnnots : Gathers (TypeAnnot.OutlinedAs pool) p.typeAnnots
    (as.filterMap Attribute.anyTypeAnnots?) p'.typeAnnots

/-- **Record components.** -/
theorem foldlM_eq_ok_iff :
    (as.foldlM (accept pool scope) p).result = .ok p' ↔ Takes pool as p p' := by
  rw [Logged.result_foldlM]
  induction as generalizing p with
  | nil =>
    constructor
    · intro h
      cases h
      exact ⟨rfl, rfl, rfl⟩
    · rintro ⟨hsignature, hannots, htypeAnnots⟩
      cases p
      cases p'
      cases hsignature
      cases hannots
      cases htypeAnnots
      rfl
  | cons a as ih =>
    rw [List.foldlM_cons, bind_eq_ok_iff]
    simp only [ih]
    cases a with
    | signature text =>
      refine exists_bind_pure_iff.trans ?_
      constructor
      · rintro ⟨signature, hsignature, h⟩
        exact { h with signature := takesOnce_eq_cons.mpr ⟨signature, hsignature, h.signature⟩ }
      · intro h
        obtain ⟨signature, hsignature, hs⟩ := takesOnce_eq_cons.mp h.signature
        exact ⟨signature, hsignature, { h with signature := hs }⟩
    | annots v as =>
      refine exists_bind_pure_iff.trans ?_
      constructor
      · rintro ⟨bs, hbs, h⟩
        exact { h with annots := ⟨bs, hbs, h.annots⟩ }
      · intro h
        obtain ⟨bs, hbs, hs⟩ := h.annots
        exact ⟨bs, hbs, { h with annots := hs }⟩
    | typeAnnots v as =>
      refine exists_bind_pure_iff.trans ?_
      constructor
      · rintro ⟨bs, hbs, h⟩
        exact { h with typeAnnots := ⟨bs, hbs, h.typeAnnots⟩ }
      · intro h
        obtain ⟨bs, hbs, hs⟩ := h.typeAnnots
        exact ⟨bs, hbs, { h with typeAnnots := hs }⟩
    | _ =>
      constructor
      · rintro ⟨_, ⟨⟩, h⟩
        exact { h with }
      · intro h
        exact ⟨p, rfl, { h with }⟩

end ComponentParts

/-! ### Classes -/

namespace HeaderParts

variable {scope : Scope} {stream : List Element} {p p' : HeaderParts}

/-- What the places of a class take from its stream. -/
structure Takes (stream : List Element) (p p' : HeaderParts) : Prop where
  flags : TakesOnce Eq p.flags (stream.filterMap Element.flags?) p'.flags
  superName : TakesOnce Eq p.superName (stream.filterMap Element.superName?) p'.superName
  interfaces : TakesOnce Eq p.interfaces (stream.filterMap Element.interfaceNames?) p'.interfaces
  signature : TakesOnce Eq p.signature
    ((stream.filterMap Element.attr?).filterMap Attribute.signature?) p'.signature
  visible : TakesOnce Eq p.visible
    ((stream.filterMap Element.attr?).filterMap (Attribute.annots? .visible)) p'.visible
  invisible : TakesOnce Eq p.invisible
    ((stream.filterMap Element.attr?).filterMap (Attribute.annots? .invisible)) p'.invisible

/-- A method fills no place of the header, static initializer or not. -/
theorem result_accept_method (p : HeaderParts) (m : Member) :
    (accept scope p (.method m)).result = .ok p := by
  rw [accept]
  split <;> rfl

/-- **Classes.** -/
theorem foldlM_eq_ok_iff :
    (stream.foldlM (accept scope) p).result = .ok p' ↔ Takes stream p p' := by
  rw [Logged.result_foldlM]
  induction stream generalizing p with
  | nil =>
    constructor
    · intro h
      cases h
      exact ⟨rfl, rfl, rfl, rfl, rfl, rfl⟩
    · rintro ⟨h1, h2, h3, h4, h5, h6⟩
      cases p
      cases p'
      cases h1
      cases h2
      cases h3
      cases h4
      cases h5
      cases h6
      rfl
  | cons e stream ih =>
    rw [List.foldlM_cons, bind_eq_ok_iff]
    simp only [ih]
    cases e with
    | flags f =>
      refine exists_bind_pure_iff.trans ?_
      constructor
      · rintro ⟨flags, hflags, h⟩
        exact { h with flags := takesOnce_eq_cons.mpr ⟨flags, hflags, h.flags⟩ }
      · intro h
        obtain ⟨flags, hflags, hs⟩ := takesOnce_eq_cons.mp h.flags
        exact ⟨flags, hflags, { h with flags := hs }⟩
    | superclass name =>
      refine exists_bind_pure_iff.trans ?_
      constructor
      · rintro ⟨superName, hsuper, h⟩
        exact { h with superName := takesOnce_eq_cons.mpr ⟨superName, hsuper, h.superName⟩ }
      · intro h
        obtain ⟨superName, hsuper, hs⟩ := takesOnce_eq_cons.mp h.superName
        exact ⟨superName, hsuper, { h with superName := hs }⟩
    | interfaces names =>
      refine exists_bind_pure_iff.trans ?_
      constructor
      · rintro ⟨interfaces, hinterfaces, h⟩
        exact { h with interfaces := takesOnce_eq_cons.mpr ⟨interfaces, hinterfaces, h.interfaces⟩ }
      · intro h
        obtain ⟨interfaces, hinterfaces, hs⟩ := takesOnce_eq_cons.mp h.interfaces
        exact ⟨interfaces, hinterfaces, { h with interfaces := hs }⟩
    | field f =>
      constructor
      · rintro ⟨_, ⟨⟩, h⟩
        exact { h with }
      · intro h
        exact ⟨p, rfl, { h with }⟩
    | method m =>
      rw [p.result_accept_method]
      constructor
      · rintro ⟨_, ⟨⟩, h⟩
        exact { h with }
      · intro h
        exact ⟨p, rfl, { h with }⟩
    | attr a =>
      cases a with
      | signature text =>
        refine exists_bind_pure_iff.trans ?_
        constructor
        · rintro ⟨signature, hsignature, h⟩
          exact { h with signature := takesOnce_eq_cons.mpr ⟨signature, hsignature, h.signature⟩ }
        · intro h
          obtain ⟨signature, hsignature, hs⟩ := takesOnce_eq_cons.mp h.signature
          exact ⟨signature, hsignature, { h with signature := hs }⟩
      | annots v as =>
        cases v with
        | visible =>
          refine exists_bind_pure_iff.trans ?_
          constructor
          · rintro ⟨visible, hvisible, h⟩
            exact { h with visible := takesOnce_eq_cons.mpr ⟨visible, hvisible, h.visible⟩ }
          · intro h
            obtain ⟨visible, hvisible, hs⟩ := takesOnce_eq_cons.mp h.visible
            exact ⟨visible, hvisible, { h with visible := hs }⟩
        | invisible =>
          refine exists_bind_pure_iff.trans ?_
          constructor
          · rintro ⟨invisible, hinvisible, h⟩
            exact { h with invisible := takesOnce_eq_cons.mpr ⟨invisible, hinvisible, h.invisible⟩ }
          · intro h
            obtain ⟨invisible, hinvisible, hs⟩ := takesOnce_eq_cons.mp h.invisible
            exact ⟨invisible, hinvisible, { h with invisible := hs }⟩
      | _ =>
        constructor
        · rintro ⟨_, ⟨⟩, h⟩
          exact { h with }
        · intro h
          exact ⟨p, rfl, { h with }⟩

end HeaderParts

end JvmOutline
