import JvmOutline.ClassFile.Element
import JvmOutline.Proofs.Reading.FirstFault

/-!
# The stream and the accessors

A class file can be read in two ways: through its accessors, each of which looks one thing up, and
through its stream, which looks up everything.

`ClassFile.lookups` lists the outcomes of all accessors in file order: the superclass, the
interfaces from left to right, the fields and then the methods, each with its name, its descriptor
and its attributes, and last the attributes of the class.

**The stream agrees with the accessors** (`ClassFile.elements_iff_accessors`).  There is a stream
exactly if each accessor has an answer, and it carries their answers (`ClassFile.Presents`);
otherwise it fails as the first accessor in the list that does.
-/

namespace JvmOutline

variable {pool : Pool}

/-- The attributes are what the stored ones are decoded to, one by one. -/
abbrev RawAttribute.DecodeTo (pool : Pool) : List RawAttribute → List Attribute → Prop :=
  List.Forall₂ fun stored a => stored.decode pool = .ok a

/-! ### Members -/

namespace RawMember

/-- Everything that a field or method refers to can be looked up. -/
structure Accessible (pool : Pool) (m : RawMember) : Prop where
  name : ∃ name, m.nameIn pool = .ok name
  descriptor : ∃ descriptor, m.descriptorIn pool = .ok descriptor
  attributes : ∀ stored ∈ m.attributes, ∃ a, stored.decode pool = .ok a

/-- A field or method of a stream, with what the accessors say of it: its flags come first in its
own stream, then its attributes in order. -/
inductive Presents (pool : Pool) (m : RawMember) : Member → Prop where
  | intro {name descriptor : String} {attributes : List Attribute} :
      m.nameIn pool = .ok name → m.descriptorIn pool = .ok descriptor →
      RawAttribute.DecodeTo pool m.attributes attributes →
      Presents pool m ⟨name, descriptor, .flags m.flags :: attributes.map .attr⟩

/-- The outcomes of the accessors of a field or method: name, descriptor, attributes in order. -/
def lookups (pool : Pool) (m : RawMember) : List (Except FormatError Unit) :=
  verdict (m.nameIn pool) :: verdict (m.descriptorIn pool) ::
    m.attributes.map fun stored => verdict (stored.decode pool)

theorem resolve_iff_presents {m : RawMember} {r : Member} :
    m.resolve pool = .ok r ↔ m.Presents pool r := by
  have hattributes {as : List Attribute} : m.attributes.mapM (RawAttribute.decode pool) = .ok as ↔
      RawAttribute.DecodeTo pool m.attributes as := mapM_eq_ok_iff fun _ _ _ => Iff.rfl
  constructor
  · intro h
    obtain ⟨name, hname, h⟩ := bind_eq_ok_iff.mp h
    obtain ⟨descriptor, hdescriptor, h⟩ := bind_eq_ok_iff.mp h
    obtain ⟨as, has, h⟩ := bind_eq_ok_iff.mp h
    cases h
    exact .intro hname hdescriptor (hattributes.mp has)
  · rintro ⟨hname, hdescriptor, has⟩
    exact bind_eq_ok_iff.mpr ⟨_, hname, bind_eq_ok_iff.mpr
      ⟨_, hdescriptor, bind_eq_ok_iff.mpr ⟨_, hattributes.mpr has, rfl⟩⟩⟩

theorem verdict_resolve (m : RawMember) : verdict (m.resolve pool) = forM (m.lookups pool) id := by
  rw [lookups, List.forM_cons, List.forM_cons, List.forM_map]
  refine verdict_bind_of_forall fun name => verdict_bind_of_forall fun descriptor => ?_
  exact (verdict_bind_pure _ _).trans (verdict_mapM _ _)

theorem forall_lookups_iff {m : RawMember} :
    (∀ x ∈ m.lookups pool, x = .ok ()) ↔ m.Accessible pool := by
  simp only [lookups, List.forall_mem_cons, List.forall_mem_map, verdict_eq_ok_iff]
  exact ⟨fun ⟨hname, hdescriptor, has⟩ => ⟨hname, hdescriptor, has⟩,
    fun ⟨hname, hdescriptor, has⟩ => ⟨hname, hdescriptor, has⟩⟩

end RawMember

/-! ### Class files -/

namespace ClassFile

/-- Everything that a class file refers to can be looked up; its own name has no part in its
stream. -/
structure Accessible (file : ClassFile) : Prop where
  superName : ∃ name, file.superName = .ok name
  interfaceNames : ∃ names, file.interfaceNames = .ok names
  fields : ∀ f ∈ file.fields, f.Accessible file.pool
  methods : ∀ m ∈ file.methods, m.Accessible file.pool
  attributes : ∀ stored ∈ file.attributes, ∃ a, stored.decode file.pool = .ok a

/-- A stream with what the accessors say of a class file, in file order. -/
inductive Presents (file : ClassFile) : List Element → Prop where
  | intro {superName : Option String} {interfaces : List String} {fields methods : List Member}
      {attributes : List Attribute} :
      file.superName = .ok superName → (superName.isSome = true ↔ file.superClass ≠ 0) →
      file.interfaceNames = .ok interfaces →
      List.Forall₂ (RawMember.Presents file.pool) file.fields fields →
      List.Forall₂ (RawMember.Presents file.pool) file.methods methods →
      RawAttribute.DecodeTo file.pool file.attributes attributes →
      Presents file (.flags file.flags :: superName.toList.map .superclass ++
        .interfaces interfaces :: fields.map .field ++ methods.map .method ++ attributes.map .attr)

/-- The outcomes of the accessors of a class file, in file order. -/
def lookups (file : ClassFile) : List (Except FormatError Unit) :=
  verdict file.superName ::
    (file.interfaces.map (fun index => verdict (file.pool.className index)) ++
      (file.fields.flatMap (RawMember.lookups file.pool) ++
        (file.methods.flatMap (RawMember.lookups file.pool) ++
          file.attributes.map fun stored => verdict (stored.decode file.pool))))

variable {file : ClassFile}

theorem isSome_superName {name : Option String} (h : file.superName = .ok name) :
    name.isSome = true ↔ file.superClass ≠ 0 := by
  unfold superName Pool.optionalClassName at h
  split at h
  · next h0 =>
    cases h
    exact ⟨nofun, fun hne => absurd h0 hne⟩
  · next h0 =>
    obtain ⟨text, -, rfl⟩ := map_eq_ok_iff.mp h
    exact ⟨fun _ => h0, fun _ => rfl⟩

theorem elements_iff_presents {stream : List Element} :
    file.elements = .ok stream ↔ file.Presents stream := by
  have hmembers {ms : List RawMember} {rs : List Member} :
      ms.mapM (RawMember.resolve file.pool) = .ok rs ↔
        List.Forall₂ (RawMember.Presents file.pool) ms rs :=
    mapM_eq_ok_iff fun _ _ _ => RawMember.resolve_iff_presents
  have hattributes {as : List Attribute} :
      file.attributes.mapM (RawAttribute.decode file.pool) = .ok as ↔
        RawAttribute.DecodeTo file.pool file.attributes as := mapM_eq_ok_iff fun _ _ _ => Iff.rfl
  constructor
  · intro h
    obtain ⟨superName, hsuper, h⟩ := bind_eq_ok_iff.mp h
    obtain ⟨interfaces, hi, h⟩ := bind_eq_ok_iff.mp h
    obtain ⟨fields, hf, h⟩ := bind_eq_ok_iff.mp h
    obtain ⟨methods, hm, h⟩ := bind_eq_ok_iff.mp h
    obtain ⟨as, ha, h⟩ := bind_eq_ok_iff.mp h
    cases h
    exact .intro hsuper (isSome_superName hsuper) hi (hmembers.mp hf) (hmembers.mp hm)
      (hattributes.mp ha)
  · rintro ⟨hsuper, -, hi, hf, hm, ha⟩
    exact bind_eq_ok_iff.mpr ⟨_, hsuper, bind_eq_ok_iff.mpr ⟨_, hi,
      bind_eq_ok_iff.mpr ⟨_, hmembers.mpr hf, bind_eq_ok_iff.mpr ⟨_, hmembers.mpr hm,
        bind_eq_ok_iff.mpr ⟨_, hattributes.mpr ha, rfl⟩⟩⟩⟩⟩

/-- A stream asks the accessors one after the other. -/
theorem verdict_elements (file : ClassFile) : verdict file.elements = forM file.lookups id := by
  have hinterfaces : verdict file.interfaceNames =
      forM (file.interfaces.map fun index => verdict (file.pool.className index)) id := by
    rw [List.forM_map]
    exact verdict_mapM _ _
  have hmembers (ms : List RawMember) : verdict (ms.mapM (RawMember.resolve file.pool)) =
      forM (ms.flatMap (RawMember.lookups file.pool)) id := by
    rw [verdict_mapM, forM_flatMap]
    exact forM_congr fun m _ => m.verdict_resolve
  have hattributes : verdict (file.attributes.mapM (RawAttribute.decode file.pool)) =
      forM (file.attributes.map fun stored => verdict (stored.decode file.pool)) id := by
    rw [List.forM_map]
    exact verdict_mapM _ _
  rw [lookups, List.forM_cons, List.forM_append, List.forM_append, List.forM_append,
    ← hinterfaces, ← hmembers, ← hmembers, ← hattributes]
  refine verdict_bind_of_forall fun superName => verdict_bind_of_forall fun interfaces =>
    verdict_bind_of_forall fun fields => verdict_bind_of_forall fun methods => ?_
  exact verdict_bind_pure _ _

theorem forall_lookups_iff : (∀ x ∈ file.lookups, x = .ok ()) ↔ file.Accessible := by
  have hinterfaces : (∃ names, file.interfaceNames = .ok names) ↔
      ∀ index ∈ file.interfaces, ∃ name, file.pool.className index = .ok name := by
    simp only [← verdict_eq_ok_iff, interfaceNames, verdict_mapM, forM_eq_ok_iff]
  simp only [lookups, List.forall_mem_cons, List.forall_mem_append, List.forall_mem_map,
    List.forall_mem_flatMap, verdict_eq_ok_iff, RawMember.forall_lookups_iff, ← hinterfaces]
  exact ⟨fun ⟨hs, hi, hf, hm, ha⟩ => ⟨hs, hi, hf, hm, ha⟩,
    fun ⟨hs, hi, hf, hm, ha⟩ => ⟨hs, hi, hf, hm, ha⟩⟩

/-- **The stream agrees with the accessors.**  It is there exactly if each of them has an answer,
it carries their answers, and otherwise the first one that fails decides the error. -/
theorem elements_iff_accessors (file : ClassFile) :
    ((∃ stream, file.elements = .ok stream) ↔ file.Accessible) ∧
    (∀ stream, file.elements = .ok stream ↔ file.Presents stream) ∧
    (∀ e, file.elements = .error e ↔ ∃ front back, file.lookups = front ++ .error e :: back ∧
      ∀ x ∈ front, x = .ok ()) := by
  refine ⟨?_, fun _ => elements_iff_presents, fun e => ?_⟩
  · rw [← verdict_eq_ok_iff, verdict_elements, forM_eq_ok_iff]
    exact forall_lookups_iff
  · rw [← verdict_eq_error_iff, verdict_elements, forM_eq_error_iff]
    constructor
    · rintro ⟨front, _, back, hsplit, hfront, rfl⟩
      exact ⟨front, back, hsplit, hfront⟩
    · rintro ⟨front, back, hsplit, hfront⟩
      exact ⟨front, _, back, hsplit, hfront, rfl⟩

end ClassFile

end JvmOutline
