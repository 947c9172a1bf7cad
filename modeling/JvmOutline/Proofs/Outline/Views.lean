import JvmOutline.Proofs.Outline.Parts

/-!
# What the views on a stream see

A class is outlined through views on its stream.  Here what they see is said of the stream itself.

- The methods are those that are not called `<clinit>`, and every field is seen
  (`Element.mem_methods_iff`, `Element.mem_fields_iff`).
- Permitted subclasses, record components and rows of the table of nested classes are those that
  the attributes of the class list, one attribute after the other (`Element.flatMap_permitted`,
  `Element.flatMap_components`, `Element.flatMap_innerClasses`).
- The first row of that table that names the class is about the class itself, and says which
  modifiers are declared for it (`InnerClass.Declares`).
-/

namespace JvmOutline

/-- What a list of each of the remaining elements is put together to. -/
theorem flatMap_filterMap {α β γ : Type} (pick : α → Option β) (list : β → List γ) (as : List α) :
    (as.filterMap pick).flatMap list = as.flatMap fun a => (pick a).elim [] list := by
  induction as with
  | nil => rfl
  | cons a as ih =>
    rw [List.filterMap_cons, List.flatMap_cons, ← ih]
    cases pick a <;> rfl

/-! ### What an attribute of a class lists -/

namespace Attribute

/-- The internal names of the permitted subclasses that an attribute lists. -/
def permittedNames : Attribute → List String
  | permittedSubclasses names => names
  | _ => []

/-- The record components that an attribute lists. -/
def recordComponents : Attribute → List Component
  | record components => components
  | _ => []

/-- The rows of the table of nested classes that an attribute lists. -/
def nestedRows : Attribute → List InnerClass
  | innerClasses rows => rows
  | _ => []

end Attribute

/-! ### What the views see -/

namespace Element

variable {stream : List Element} {m : Member}

theorem mem_fields_iff : m ∈ stream.filterMap field? ↔ .field m ∈ stream := by
  rw [List.mem_filterMap]
  constructor
  · rintro ⟨e, he, hm⟩
    cases e with
    | field m' =>
      cases hm
      exact he
    | _ => nomatch hm
  · exact fun h => ⟨_, h, rfl⟩

theorem method?_of_initializer (h : m.name = "<clinit>") : method? (.method m) = none := if_pos h

theorem method?_of_ne (h : m.name ≠ "<clinit>") : method? (.method m) = some m := if_neg h

/-- The methods of a stream are those that are no static initializers. -/
theorem mem_methods_iff : m ∈ stream.filterMap method? ↔
    .method m ∈ stream ∧ m.name ≠ "<clinit>" := by
  rw [List.mem_filterMap]
  constructor
  · rintro ⟨e, he, hm⟩
    cases e with
    | method m' =>
      by_cases hname : m'.name = "<clinit>"
      · rw [method?_of_initializer hname] at hm
        nomatch hm
      · rw [method?_of_ne hname] at hm
        cases hm
        exact ⟨he, hname⟩
    | _ => nomatch hm
  · exact fun ⟨h, hname⟩ => ⟨_, h, method?_of_ne hname⟩

theorem mem_attributes_iff {a : Attribute} : a ∈ stream.filterMap attr? ↔ .attr a ∈ stream := by
  rw [List.mem_filterMap]
  constructor
  · rintro ⟨e, he, ha⟩
    cases e with
    | attr a' =>
      cases ha
      exact he
    | _ => nomatch ha
  · exact fun h => ⟨_, h, rfl⟩

/-- The annotations that are picked out of a stream are those of attributes of the stream. -/
theorem annots_mem_of_mem_filterMap {v : Visibility} {as : List Annot}
    (h : as ∈ (stream.filterMap attr?).filterMap (Attribute.annots? v)) :
    .attr (.annots v as) ∈ stream := by
  obtain ⟨a, ha, hpick⟩ := List.mem_filterMap.mp h
  have hattr := mem_attributes_iff.mp ha
  cases a with
  | annots w bs =>
    rw [Attribute.annots?] at hpick
    split at hpick
    · next hv =>
      cases hpick
      exact hv ▸ hattr
    · nomatch hpick
  | _ => nomatch hpick

/-- A view that sees what attributes list, and nothing else. -/
theorem flatMap_eq_attributes {α : Type} {list : Element → List α} {inside : Attribute → List α}
    (h : ∀ e, list e = e.attr?.elim [] inside) (stream : List Element) :
    stream.flatMap list = (stream.filterMap attr?).flatMap inside := by
  rw [flatMap_filterMap]
  exact congrArg (stream.flatMap ·) (funext h)

theorem flatMap_permitted (stream : List Element) : stream.flatMap permitted =
    ((stream.filterMap attr?).flatMap Attribute.permittedNames).map ClassName.qualified := by
  rw [List.map_flatMap]
  refine flatMap_eq_attributes (fun e => ?_) stream
  cases e with
  | attr a => cases a <;> rfl
  | _ => rfl

theorem flatMap_components (stream : List Element) : stream.flatMap components =
    (stream.filterMap attr?).flatMap Attribute.recordComponents := by
  refine flatMap_eq_attributes (fun e => ?_) stream
  cases e with
  | attr a => cases a <;> rfl
  | _ => rfl

theorem flatMap_innerClasses (stream : List Element) : stream.flatMap innerClasses =
    (stream.filterMap attr?).flatMap Attribute.nestedRows := by
  refine flatMap_eq_attributes (fun e => ?_) stream
  cases e with
  | attr a => cases a <;> rfl
  | _ => rfl

theorem mem_components_iff {c : Component} : c ∈ stream.flatMap components ↔
    ∃ cs, .attr (.record cs) ∈ stream ∧ c ∈ cs := by
  rw [List.mem_flatMap]
  constructor
  · rintro ⟨e, he, hc⟩
    cases e with
    | attr a =>
      cases a with
      | record cs => exact ⟨cs, he, hc⟩
      | _ => nomatch hc
    | _ => nomatch hc
  · exact fun ⟨cs, hcs, hc⟩ => ⟨_, hcs, hc⟩

end Element

/-! ### The row about the class itself -/

namespace InnerClass

/-- The row is about the class of the given qualified name. -/
def Names (row : InnerClass) (name : String) : Prop := ClassName.qualified row.inner = name

/-- The modifiers that a table declares for a class: those of the first row about it, as far as such
a table records them. -/
def Declares (rows : List InnerClass) (name : String) (flags : AccessFlags) : Prop :=
  ∃ front row back, rows = front ++ row :: back ∧ (∀ r ∈ front, ¬ r.Names name) ∧ row.Names name ∧
    flags = row.flags.masked .innerClassMask

variable {rows rows' : List InnerClass} {name : String} {flags : AccessFlags}

theorem flagsOf?_eq_some_iff : flagsOf? name rows = some flags ↔ Declares rows name flags := by
  rw [flagsOf?, Option.map_eq_some_iff]
  simp only [List.find?_eq_some_iff_append, decide_eq_true_eq, Bool.not_eq_true',
    decide_eq_false_iff_not]
  constructor
  · rintro ⟨row, ⟨hrow, front, back, hsplit, hfront⟩, rfl⟩
    exact ⟨front, row, back, hsplit, hfront, hrow, rfl⟩
  · rintro ⟨front, row, back, hsplit, hfront, hrow, rfl⟩
    exact ⟨row, ⟨hrow, front, back, hsplit, hfront⟩, rfl⟩

theorem isSome_flagsOf?_iff :
    (flagsOf? name rows).isSome = true ↔ ∃ row ∈ rows, row.Names name := by
  rw [flagsOf?, Option.isSome_map, List.find?_isSome]
  simp only [decide_eq_true_eq, Names]

/-- Tables that declare the same for a class agree on it. -/
theorem flagsOf?_congr (h : ∀ flags, Declares rows name flags ↔ Declares rows' name flags) :
    flagsOf? name rows = flagsOf? name rows' :=
  Option.ext fun flags => flagsOf?_eq_some_iff.trans ((h flags).trans flagsOf?_eq_some_iff.symm)

end InnerClass

end JvmOutline
