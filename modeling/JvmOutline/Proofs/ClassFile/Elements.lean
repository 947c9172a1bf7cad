import JvmOutline.Proofs.Attribute.Decoding
import JvmOutline.Proofs.ClassFile.Accessors

/-!
# The stream of a class file

A class file has a stream exactly if its names and descriptors lead to texts and its attributes
have contents, and then the stream lists them in the order of the tables
(**`ClassFile.elements_eq_ok_iff`**).  So a stream holds its flags, its superclass and its
interfaces once, in front of everything else, and a member holds its flags in front of its
attributes.
-/

namespace JvmOutline

variable {pool : Pool}

theorem RawAttribute.decodeTo_iff {stored : List RawAttribute} {as : List Attribute} :
    DecodeTo pool stored as ↔ List.Forall₂ (Attribute.Stored pool) stored as := by
  simp only [DecodeTo, decode_iff_stored]

namespace RawMember

/-- A stored field or method, and what it is resolved to. -/
inductive Resolves (pool : Pool) (m : RawMember) : Member → Prop where
  | intro {name descriptor : String} {attributes : List Attribute} :
      pool.HasText m.name name → pool.HasText m.descriptor descriptor →
      List.Forall₂ (Attribute.Stored pool) m.attributes attributes →
      Resolves pool m ⟨name, descriptor, .flags m.flags :: attributes.map .attr⟩

theorem presents_iff_resolves {m : RawMember} {r : Member} :
    Presents pool m r ↔ Resolves pool m r := by
  constructor
  · rintro ⟨hname, hdescriptor, has⟩
    exact .intro (Pool.utf8_eq_ok_iff.mp hname) (Pool.utf8_eq_ok_iff.mp hdescriptor)
      (RawAttribute.decodeTo_iff.mp has)
  · rintro ⟨hname, hdescriptor, has⟩
    exact .intro (Pool.utf8_eq_ok_iff.mpr hname) (Pool.utf8_eq_ok_iff.mpr hdescriptor)
      (RawAttribute.decodeTo_iff.mpr has)

end RawMember

/-- What is picked out of a stream is picked out of each of its parts. -/
theorem Element.filterMap_stream {α : Type} (pick : Element → Option α) (flags : AccessFlags)
    (superName : Option String) (interfaces : List String) (fields methods : List Member)
    (attributes : List Attribute) :
    (.flags flags :: superName.toList.map .superclass ++ .interfaces interfaces ::
      fields.map .field ++ methods.map .method ++ attributes.map .attr : List Element).filterMap
        pick = (pick (.flags flags)).toList ++ superName.toList.filterMap (pick ∘ .superclass) ++
      (pick (.interfaces interfaces)).toList ++ fields.filterMap (pick ∘ .field) ++
        methods.filterMap (pick ∘ .method) ++ attributes.filterMap (pick ∘ .attr) := by
  have hcons (e : Element) (es : List Element) :
      (e :: es).filterMap pick = (pick e).toList ++ es.filterMap pick := by
    rw [List.filterMap_cons]
    cases pick e <;> rfl
  simp only [List.filterMap_append, List.filterMap_map, List.cons_append, hcons, List.append_assoc]

namespace ClassFile

/-- A class file, and what its stream lists. -/
inductive Streams (file : ClassFile) : List Element → Prop where
  | intro {superName : Option String} {interfaces : List String} {fields methods : List Member}
      {attributes : List Attribute} :
      file.superName = .ok superName →
      List.Forall₂ file.pool.HasClass file.interfaces interfaces →
      List.Forall₂ (RawMember.Resolves file.pool) file.fields fields →
      List.Forall₂ (RawMember.Resolves file.pool) file.methods methods →
      List.Forall₂ (Attribute.Stored file.pool) file.attributes attributes →
      Streams file (.flags file.flags :: superName.toList.map .superclass ++
        .interfaces interfaces :: fields.map .field ++ methods.map .method ++ attributes.map .attr)

/-- **The stream.**  A class file has a stream exactly if everything in it can be resolved. -/
theorem elements_eq_ok_iff {file : ClassFile} {stream : List Element} :
    file.elements = .ok stream ↔ file.Streams stream := by
  have hinterfaces {names : List String} : file.interfaceNames = .ok names ↔
      List.Forall₂ file.pool.HasClass file.interfaces names :=
    mapM_eq_ok_iff fun _ _ _ => Pool.className_eq_ok_iff
  have hmembers {ms : List RawMember} {rs : List Member} :
      List.Forall₂ (RawMember.Presents file.pool) ms rs ↔
        List.Forall₂ (RawMember.Resolves file.pool) ms rs :=
    ⟨List.Forall₂.imp fun _ _ => RawMember.presents_iff_resolves.mp,
      List.Forall₂.imp fun _ _ => RawMember.presents_iff_resolves.mpr⟩
  rw [elements_iff_presents]
  constructor
  · rintro ⟨hsuper, -, hi, hf, hm, has⟩
    exact .intro hsuper (hinterfaces.mp hi) (hmembers.mp hf) (hmembers.mp hm)
      (RawAttribute.decodeTo_iff.mp has)
  · rintro ⟨hsuper, hi, hf, hm, has⟩
    exact .intro hsuper (isSome_superName hsuper) (hinterfaces.mpr hi) (hmembers.mpr hf)
      (hmembers.mpr hm) (RawAttribute.decodeTo_iff.mpr has)

/-- What holds of each decoded attribute of a class file, by itself and in its members, holds of
each attribute of the stream. -/
theorem Streams.forall_stored {file : ClassFile} {stream : List Element}
    (h : file.Streams stream) {P : Attribute → Prop}
    (hP : ∀ {stored a}, Attribute.Stored file.pool stored a → P a) :
    ∀ e ∈ stream, match e with
      | .field m => ∀ a, .attr a ∈ m.elements → P a
      | .method m => ∀ a, .attr a ∈ m.elements → P a
      | .attr a => P a
      | _ => True := by
  have hmember {ms : List RawMember} {rs : List Member}
      (hs : List.Forall₂ (RawMember.Resolves file.pool) ms rs) :
      ∀ m ∈ rs, ∀ a, .attr a ∈ m.elements → P a := by
    intro m hm a ha
    obtain ⟨raw, -, hr⟩ := exists_mem_of_forall₂ hs hm
    cases hr with
    | intro _ _ has =>
      rcases List.mem_cons.mp ha with ha | ha
      · nomatch ha
      · obtain ⟨_, hmem, ⟨⟩⟩ := List.mem_map.mp ha
        obtain ⟨stored, -, hstored⟩ := exists_mem_of_forall₂ has hmem
        exact hP hstored
  cases h with
  | intro _ _ hf hm ha =>
    intro e he
    simp only [List.mem_append, List.mem_cons, List.mem_map] at he
    obtain ((((rfl | ⟨_, -, rfl⟩) | rfl | ⟨m, hmem, rfl⟩) | ⟨m, hmem, rfl⟩) | ⟨a, hmem, rfl⟩) := he
    · trivial
    · trivial
    · trivial
    · exact hmember hf m hmem
    · exact hmember hm m hmem
    · obtain ⟨stored, -, hstored⟩ := exists_mem_of_forall₂ ha hmem
      exact hP hstored

end ClassFile

end JvmOutline
