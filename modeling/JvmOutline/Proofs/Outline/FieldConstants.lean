import JvmOutline.Proofs.Outline.Success

/-!
# The constants of fields

The value of a field is what the constant pool holds at the index of its constant
(`Pool.HoldsConstant`), so the entry there decides the type of the value.  **The descriptor of the
field has no say in it** (`FieldOutline.value_by_entry`): the value fits the descriptor
(`EntryKind.descriptors`) exactly if the entry does, and a constant is only refused if no field can
have it.
-/

namespace JvmOutline

/-! ### The types of constants -/

/-- The descriptors of the fields that are made for constants of the kind. -/
def EntryKind.descriptors : EntryKind → List String
  | integer => ["B", "C", "S", "I", "Z"]
  | long => ["J"]
  | float => ["F"]
  | double => ["D"]
  | string => ["Ljava/lang/String;"]
  | _ => []

/-- The kind of the entries that hold values of this type. -/
def ConstantValue.kind : ConstantValue → EntryKind
  | int _ => .integer
  | long _ => .long
  | float _ => .float
  | double _ => .double
  | string _ => .string

variable {pool : Pool} {index : UInt16} {value : ConstantValue} {field : String}

theorem Pool.HoldsConstant.hasKind (h : pool.HoldsConstant index value) :
    pool.HasKind index value.kind := by
  cases h with
  | int h | long h | float h | double h | string h => exact ⟨_, h, rfl⟩

/-- An entry has one kind. -/
theorem Pool.HasKind.eq {kind kind' : EntryKind} (h : pool.HasKind index kind)
    (h' : pool.HasKind index kind') : kind = kind' := by
  obtain ⟨e, he, rfl⟩ := h
  obtain ⟨e', he', rfl⟩ := h'
  obtain rfl := Option.some.inj (he.symm.trans he')
  rfl

namespace ConstantValue

/-- The error for an entry that no field is made for names the field and the kind of the entry. -/
theorem ofPool_eq_error {e : Entry} (he : pool.entry? index = some e)
    (hkind : e.kind.descriptors = []) :
    ofPool pool field index = .error (.constantKind field e.kind) := by
  rw [ofPool, Pool.entry_eq_ok_iff.mpr he]
  cases e with
  | integer | long | float | double | string => cases hkind
  | _ => rfl

end ConstantValue

/-! ### The value of a field -/

theorem Member.mem_constantIndexes_iff {f : Member} :
    index ∈ f.attributes.filterMap Attribute.constantIndex? ↔
      .attr (.constantValue index) ∈ f.elements := by
  rw [attributes, List.mem_filterMap]
  constructor
  · rintro ⟨a, ha, hindex⟩
    cases a with
    | constantValue index' =>
      cases hindex
      obtain ⟨e, he, hattr⟩ := List.mem_filterMap.mp ha
      cases e with
      | flags flags => nomatch hattr
      | attr a =>
        cases hattr
        exact he
    | _ => nomatch hindex
  · exact fun h => ⟨_, List.mem_filterMap.mpr ⟨_, h, rfl⟩, rfl⟩

/-- An empty place takes exactly what is found, and it is found once. -/
theorem TakesOnce.mem_iff {α β : Type} {Found : α → β → Prop} {as : List α} {place : Option β}
    (h : TakesOnce Found none as place) (hfound : ∀ a b b', Found a b → Found a b' → b = b')
    {b : β} : place = some b ↔ ∃ a ∈ as, Found a b := by
  refine ⟨h.exists_of_mem, ?_⟩
  rintro ⟨a, ha, hb⟩
  cases as with
  | nil => nomatch ha
  | cons first rest =>
    obtain ⟨-, rfl, b', hb', rfl⟩ := h
    obtain rfl := List.mem_singleton.mp ha
    rw [hfound a b b' hb hb']

namespace FieldOutline

variable {f : Member} {o : FieldOutline}

theorem value_eq_some_iff (h : (ofMember pool f).result = .ok o) : o.value = some value ↔
    ∃ index, .attr (.constantValue index) ∈ f.elements ∧ pool.HoldsConstant index value := by
  obtain ⟨hp, -⟩ := result_ofMember_eq_ok_iff.mp h
  have hunique (index : UInt16) (v w : ConstantValue)
      (hv : ConstantValue.ofPool pool f.name index = .ok v)
      (hw : ConstantValue.ofPool pool f.name index = .ok w) : v = w :=
    Except.ok.inj (hv.symm.trans hw)
  refine (hp.value.mem_iff hunique).trans (exists_congr fun index => ?_)
  rw [ConstantValue.ofPool_eq_ok_iff]
  exact and_congr_left fun _ => Member.mem_constantIndexes_iff

/-- A field that has an outline has a value for each constant in its stream. -/
theorem exists_value_of_mem (h : (ofMember pool f).result = .ok o)
    (hindex : .attr (.constantValue index) ∈ f.elements) :
    ∃ value, pool.HoldsConstant index value ∧ o.value = some value := by
  have hwell := exists_outlines_iff.mp ⟨o, result_ofMember_eq_ok_iff.mp h⟩
  have hconstant := hwell.hasConstant index (Member.mem_constantIndexes_iff.mpr hindex)
  obtain ⟨value, hvalue⟩ : ∃ value, ConstantValue.ofPool pool f.name index = .ok value :=
    ConstantValue.exists_ofPool_eq_ok_iff.mpr hconstant
  have hholds := ConstantValue.ofPool_eq_ok_iff.mp hvalue
  exact ⟨value, hholds, (value_eq_some_iff h).mpr ⟨index, hindex, hholds⟩⟩

/-- The descriptor goes into the outline and nowhere else. -/
theorem result_ofMember_descriptor (pool : Pool) (f : Member) (descriptor : String) :
    (ofMember pool { f with descriptor := descriptor }).result =
      (ofMember pool f).result.map fun o => { o with descriptor := descriptor } := by
  simp only [ofMember, Logged.result_bind]
  cases (f.elements.foldlM (FieldParts.accept pool f.name) ⟨.empty, none⟩).result with
  | error e => rfl
  | ok p =>
    obtain ⟨⟨flags, _, _, _⟩, _⟩ := p
    cases flags <;> rfl

/-- **The type of a value.**  A field has a value if it has a constant, and then the value is what
the pool holds there.  So it is of the type of the descriptor exactly if the entry is.  The
descriptor goes into the outline and nowhere else.  A field has no outline if no field can have its
constant, and an entry of another kind is refused as such. -/
theorem value_by_entry (pool : Pool) (f : Member) :
    (∀ o, (ofMember pool f).result = .ok o →
      (∀ value, o.value = some value ↔
        ∃ index, .attr (.constantValue index) ∈ f.elements ∧ pool.HoldsConstant index value) ∧
      (∀ value index kind, o.value = some value → .attr (.constantValue index) ∈ f.elements →
        pool.HasKind index kind →
          (o.descriptor ∈ value.kind.descriptors ↔ f.descriptor ∈ kind.descriptors))) ∧
    (∀ descriptor, (ofMember pool { f with descriptor := descriptor }).result =
      (ofMember pool f).result.map fun o => { o with descriptor := descriptor }) ∧
    (∀ index, .attr (.constantValue index) ∈ f.elements →
      (¬ ∃ value, pool.HoldsConstant index value) → ∃ e, (ofMember pool f).result = .error e) ∧
    (∀ p index e, pool.entry? index = some e → e.kind.descriptors = [] →
      (FieldParts.accept pool f.name p (.attr (.constantValue index))).result =
        .error (.constantKind f.name e.kind)) := by
  refine ⟨fun o h => ⟨fun _ => value_eq_some_iff h,
      fun value index kind hvalue hindex hkind => ?_⟩,
    result_ofMember_descriptor pool f, fun index hindex hno => ?_, fun p index e he hkind => ?_⟩
  · obtain ⟨_, hholds, hvalue'⟩ := exists_value_of_mem h hindex
    obtain rfl := Option.some.inj (hvalue.symm.trans hvalue')
    obtain ⟨-⟩ := result_ofMember_eq_ok_iff.mp h
    rw [hholds.hasKind.eq hkind]
  · cases hresult : (ofMember pool f).result with
    | error e => exact ⟨e, rfl⟩
    | ok o =>
      obtain ⟨value, hholds, -⟩ := exists_value_of_mem hresult hindex
      exact absurd ⟨value, hholds⟩ hno
  · show (ConstantValue.ofPool pool f.name index >>= _) = _
    rw [ConstantValue.ofPool_eq_error he hkind]
    rfl

/-- The pool of a string. -/
def stringPool : Pool := ⟨#[.utf8 "x", .string 1]⟩

/-- A whole number by its descriptor, with a constant of the given index. -/
def wholeNumber (index : UInt16) : Member :=
  ⟨"size", "I", [.flags ⟨0x18⟩, .attr (.constantValue index)]⟩

/-- A text is taken for the value of a whole number. -/
theorem value_unlike_descriptor :
    ∃ o, (ofMember stringPool (wholeNumber 2)).result = .ok o ∧ o.descriptor = "I" ∧
      o.value = some (.string "x") ∧ o.descriptor ∉ (ConstantValue.string "x").kind.descriptors :=
  ⟨⟨"size", ⟨0x18⟩, "I", none, some (.string "x"), []⟩, by rfl, rfl, rfl, by decide⟩

theorem value_by_entry_string :
    (∃ o, (ofMember stringPool (wholeNumber 2)).result = .ok o ∧
      (o.descriptor ∈ (ConstantValue.string "x").kind.descriptors ↔
        "I" ∈ EntryKind.string.descriptors)) ∧
    (∃ e, (ofMember stringPool (wholeNumber 1)).result = .error e) ∧
    (FieldParts.accept stringPool "size" ⟨.empty, none⟩ (.attr (.constantValue 1))).result =
      .error (.constantKind "size" .utf8) := by
  obtain ⟨haccepted, -, -, -⟩ := value_by_entry stringPool (wholeNumber 2)
  obtain ⟨-, -, hrejected, hnamed⟩ := value_by_entry stringPool (wholeNumber 1)
  have hok : (ofMember stringPool (wholeNumber 2)).result =
      .ok ⟨"size", ⟨0x18⟩, "I", none, some (.string "x"), []⟩ := by rfl
  have hno : ¬ ∃ value, stringPool.HoldsConstant 1 value := by
    rintro ⟨_, h | h | h | h | h⟩ <;> nomatch h
  exact ⟨⟨_, hok, (haccepted _ hok).2 _ 2 .string rfl (.tail _ (.head _)) ⟨_, rfl, rfl⟩⟩,
    hrejected 1 (.tail _ (.head _)) hno, hnamed ⟨.empty, none⟩ 1 _ rfl (by decide)⟩

end FieldOutline

end JvmOutline
