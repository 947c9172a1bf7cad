/-!
# Class names — internal and qualified

A class file separates the parts of a class name by slashes, an outline by dots (`qualified`).
The descriptor of a class type wraps the internal name between `L` and `;`; `ofDescriptor?`
unwraps it, and has no answer for the descriptors of other types.

Each slash becomes a dot in its place and nothing else changes (`getElem?_qualified`), so internal
names without dots are told apart by their qualified forms (`qualified_inj`).
-/

namespace JvmOutline.ClassName

/-- The separator of internal names becomes the separator of qualified names. -/
def qualifiedChar (c : Char) : Char := if c = '/' then '.' else c

/-- The qualified form of an internal name. -/
def qualified (name : String) : String := String.ofList (name.toList.map qualifiedChar)

/-- The qualified name of the class that a descriptor names. -/
def ofDescriptor? (descriptor : String) : Option String :=
  match descriptor.toList with
  | 'L' :: rest =>
    if rest.getLast? = some ';' then some (qualified (String.ofList rest.dropLast)) else none
  | _ => none

/-! ### What the qualified form is -/

variable {name other : String}

theorem qualifiedChar_eq_iff {c d : Char} :
    qualifiedChar c = d ↔ c = '/' ∧ d = '.' ∨ c = d ∧ d ≠ '/' := by
  unfold qualifiedChar
  split
  · next hc =>
    subst hc
    constructor
    · exact fun h => .inl ⟨rfl, h.symm⟩
    · rintro (h | ⟨rfl, h⟩)
      · exact h.2.symm
      · exact absurd rfl h
  · next hc =>
    constructor
    · rintro rfl
      exact .inr ⟨rfl, hc⟩
    · rintro (h | h)
      · exact absurd h.1 hc
      · exact h.1

/-- In each place a slash becomes a dot, and any other character stays. -/
theorem getElem?_qualified {i : Nat} {d : Char} : (qualified name).toList[i]? = some d ↔
    name.toList[i]? = some '/' ∧ d = '.' ∨ name.toList[i]? = some d ∧ d ≠ '/' := by
  rw [qualified, String.toList_ofList, List.getElem?_map, Option.map_eq_some_iff]
  simp only [qualifiedChar_eq_iff]
  constructor
  · rintro ⟨c, hc, ⟨rfl, hd⟩ | ⟨rfl, hd⟩⟩
    · exact .inl ⟨hc, hd⟩
    · exact .inr ⟨hc, hd⟩
  · rintro (⟨hc, hd⟩ | ⟨hc, hd⟩)
    · exact ⟨'/', hc, .inl ⟨rfl, hd⟩⟩
    · exact ⟨d, hc, .inr ⟨rfl, hd⟩⟩

/-- Qualified names hold no slash. -/
theorem not_mem_qualified (name : String) : '/' ∉ (qualified name).toList := by
  intro h
  obtain ⟨i, hi⟩ := List.mem_iff_getElem?.mp h
  rcases getElem?_qualified.mp hi with ⟨-, h⟩ | ⟨-, h⟩
  · nomatch h
  · exact h rfl

/-- A name without slashes is its own qualified form. -/
theorem qualified_eq_self_iff : qualified name = name ↔ '/' ∉ name.toList := by
  constructor
  · intro h
    rw [← h]
    exact not_mem_qualified name
  · intro h
    have hmap : name.toList.map qualifiedChar = name.toList.map id :=
      List.map_congr_left fun c hc => if_neg fun (hs : c = '/') => h (hs ▸ hc)
    rw [qualified, hmap, List.map_id, String.ofList_toList]

/-- A dot of a qualified form comes from a slash, where the name has no dots. -/
theorem getElem?_of_qualified_eq (h : '.' ∉ name.toList) (h' : '.' ∉ other.toList)
    (heq : qualified name = qualified other) {i : Nat} {c : Char} (hc : name.toList[i]? = some c) :
    other.toList[i]? = some c := by
  by_cases hslash : c = '/'
  · subst hslash
    have hdot : (qualified other).toList[i]? = some '.' :=
      heq ▸ getElem?_qualified.mpr (.inl ⟨hc, rfl⟩)
    rcases getElem?_qualified.mp hdot with ⟨hother, -⟩ | ⟨hother, -⟩
    · exact hother
    · exact absurd (List.mem_of_getElem? hother) h'
  · have hsame : (qualified other).toList[i]? = some c :=
      heq ▸ getElem?_qualified.mpr (.inr ⟨hc, hslash⟩)
    rcases getElem?_qualified.mp hsame with ⟨-, rfl⟩ | ⟨hother, -⟩
    · exact absurd (List.mem_of_getElem? hc) h
    · exact hother

/-- Of names without dots, no two have the same qualified form. -/
theorem qualified_inj (h : '.' ∉ name.toList) (h' : '.' ∉ other.toList) :
    qualified name = qualified other ↔ name = other := by
  refine ⟨fun heq => ?_, fun heq => congrArg qualified heq⟩
  refine String.toList_inj.mp (List.ext_getElem? fun i => Option.ext fun c => ?_)
  exact ⟨getElem?_of_qualified_eq h h' heq, getElem?_of_qualified_eq h' h heq.symm⟩

end JvmOutline.ClassName
