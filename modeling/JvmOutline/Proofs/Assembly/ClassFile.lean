import JvmOutline.ClassFile.Element
import JvmOutline.Proofs.Assembly.Attributes
import JvmOutline.Proofs.ClassFile.RoundTrip

/-!
# Assembled class files

A draft that can be assembled (`ClassDraft.Assemblable`) makes a class file that is read back from
its bytes (`ClassDraft.run_reader_assemble`), and whose stream says what the draft says
(`ClassDraft.elements_toClassFile`).
-/

namespace JvmOutline

open Interning

/-! ### Members -/

/-- The field or method says what the draft says. -/
inductive MemberDraft.Says (pool : Pool) (m : MemberDraft) : Member → Prop where
  | intro {xs : List Attribute} : List.Forall₂ (AttributeDraft.Says pool) m.attributes xs →
      Says pool m ⟨m.name, m.descriptor, .flags m.flags :: xs.map .attr⟩

/-- Attributes in storage that are decoded to what the drafts say. -/
theorem AttributeDraft.mapM_decode {pool : Pool} {stored : List RawAttribute} {xs : List Attribute}
    (h : List.Forall₂ (Attribute.Stored pool) stored xs) :
    stored.mapM (RawAttribute.decode pool) = .ok xs :=
  (mapM_eq_ok_iff fun _ _ _ => RawAttribute.decode_iff_stored).mpr h

/-- The stored field or method fits its counts, and says what the draft says if its bodies fit. -/
def MemberDraft.StoredAs (pool : Pool) (m : MemberDraft) (raw : RawMember) : Prop :=
  raw.attributes.length < 65536 ∧
    ((∀ s ∈ raw.attributes, s.Fits) → ∃ member, raw.resolve pool = .ok member ∧ m.Says pool member)

theorem MemberDraft.yields_store (m : MemberDraft) (h : m.fits = true) :
    Yields m.store fun later raw => m.StoredAs later raw := by
  obtain ⟨htexts, h⟩ := Bool.and_eq_true_iff.mp h
  obtain ⟨hname, hdesc⟩ := Bool.and_eq_true_iff.mp htexts
  obtain ⟨hn, has⟩ := Bool.and_eq_true_iff.mp h
  refine (yields_internText hname).bind fun i => (yields_internText hdesc).bind fun j =>
    (AttributeDraft.yields_storeList m.attributes has).bind_pure
      fun later stored ⟨hlen, hstored⟩ hj hi => ⟨?_, fun hfit => ?_⟩
  · exact Nat.lt_of_le_of_lt (Nat.le_of_eq hlen) (of_decide_eq_true hn)
  · obtain ⟨xs, hxs, hsays⟩ := hstored hfit
    refine ⟨_, ?_, .intro hsays⟩
    rw [RawMember.resolve, RawMember.nameIn, RawMember.descriptorIn, Pool.utf8_eq_ok_iff.mpr hi,
      Pool.utf8_eq_ok_iff.mpr hj, AttributeDraft.mapM_decode hxs]
    rfl

theorem MemberDraft.exists_resolved {pool : Pool} {ms : List MemberDraft} {raws : List RawMember}
    (h : List.Forall₂ (MemberDraft.StoredAs pool) ms raws)
    (hfit : ∀ raw ∈ raws, ∀ a ∈ raw.attributes, a.Fits) : ∃ members,
      raws.mapM (RawMember.resolve pool) = .ok members ∧
        List.Forall₂ (MemberDraft.Says pool) ms members := by
  induction h with
  | nil => exact ⟨[], rfl, .nil⟩
  | cons hm _ ih =>
    rw [List.forall_mem_cons] at hfit
    obtain ⟨member, hmember, hsays⟩ := hm.2 hfit.1
    obtain ⟨members, hmembers, hall⟩ := ih hfit.2
    refine ⟨member :: members, ?_, .cons hsays hall⟩
    rw [List.mapM_cons, hmember, hmembers]
    rfl

theorem MemberDraft.fitAll_stored {pool : Pool} {ms : List MemberDraft} {raws : List RawMember}
    (h : List.Forall₂ (MemberDraft.StoredAs pool) ms raws) (hn : ms.length < 65536)
    (hfit : ∀ raw ∈ raws, ∀ a ∈ raw.attributes, a.Fits) : RawMember.FitAll raws := by
  refine ⟨h.length_eq ▸ hn, ?_⟩
  clear hn
  induction h with
  | nil => exact nofun
  | cons hm _ ih =>
    rw [List.forall_mem_cons] at hfit ⊢
    exact ⟨⟨hm.1, hfit.1⟩, ih hfit.2⟩

/-! ### Classes -/

theorem Pool.optionalClassName_eq_ok {pool : Pool} {index : UInt16} {name : Option String}
    (h : Format.Optional pool.ClassLayout (Bytes.u2 index) name) :
    pool.optionalClassName index = .ok name := by
  generalize hbytes : Bytes.u2 index = bytes at h
  cases h with
  | none =>
    have h0 : index = 0 := by
      rw [← Bytes.ofNat_toNat_u2 index, hbytes, Bytes.ofNat_toNat_u2]
    rw [optionalClassName, if_pos h0]
  | @some _ name h =>
    obtain ⟨i, hi, rfl⟩ := h
    obtain rfl : index = i := by
      rw [← Bytes.ofNat_toNat_u2 index, hbytes, Bytes.ofNat_toNat_u2]
    have h0 : index ≠ 0 := fun h0 => not_hasClass_zero (h0 ▸ hi)
    rw [optionalClassName, if_neg h0, className_eq_ok_iff.mpr hi]
    rfl

namespace ClassDraft

/-- The stream of a draft, from the streams of its members and from its attributes. -/
def stream (d : ClassDraft) (fields methods : List Member) (xs : List Attribute) : List Element :=
  .flags d.flags :: d.superName.toList.map .superclass ++
    .interfaces d.interfaces :: fields.map .field ++ methods.map .method ++ xs.map .attr

/-- The stream says what the draft says. -/
inductive Says (pool : Pool) (d : ClassDraft) : List Element → Prop where
  | intro {fields methods : List Member} {xs : List Attribute} :
      List.Forall₂ (MemberDraft.Says pool) d.fields fields →
      List.Forall₂ (MemberDraft.Says pool) d.methods methods →
      List.Forall₂ (AttributeDraft.Says pool) d.attributes xs →
      Says pool d (d.stream fields methods xs)

/-- The bodies of the attributes of a class file and of its members fit their lengths. -/
structure BodiesFit (file : ClassFile) : Prop where
  fields : ∀ f ∈ file.fields, ∀ a ∈ f.attributes, a.Fits
  methods : ∀ m ∈ file.methods, ∀ a ∈ m.attributes, a.Fits
  attributes : ∀ a ∈ file.attributes, a.Fits

/-- What is stored for a draft, with the pool in which its indexes are looked up. -/
structure StoredAs (d : ClassDraft) (pool : Pool) (file : ClassFile) : Prop where
  flags : file.flags = d.flags
  thisClass : pool.HasClass file.thisClass d.name
  superClass : Format.Optional pool.ClassLayout (Bytes.u2 file.superClass) d.superName
  interfaces : List.Forall₂ (fun name index => pool.HasClass index name) d.interfaces
    file.interfaces
  interfaces_length : d.interfaces.length < 65536
  fields : List.Forall₂ (MemberDraft.StoredAs pool) d.fields file.fields
  fields_length : d.fields.length < 65536
  methods : List.Forall₂ (MemberDraft.StoredAs pool) d.methods file.methods
  methods_length : d.methods.length < 65536
  attributes_length : file.attributes.length < 65536
  attributes : (∀ s ∈ file.attributes, s.Fits) → ∃ xs,
    List.Forall₂ (Attribute.Stored pool) file.attributes xs ∧
      List.Forall₂ (AttributeDraft.Says pool) d.attributes xs

theorem yields_store (d : ClassDraft) (h : d.fits = true) :
    Yields d.store fun later file => d.StoredAs later file := by
  simp only [fits, Bool.and_eq_true, decide_eq_true_eq] at h
  obtain ⟨⟨-, hname, hsuper⟩, hinterfaces, hfields, hmethods, ⟨hn, has⟩, -⟩ := h
  obtain ⟨hin, hinterfaces⟩ := fits2_iff.mp hinterfaces
  obtain ⟨hfn, hfields⟩ := fits2_iff.mp hfields
  obtain ⟨hmn, hmethods⟩ := fits2_iff.mp hmethods
  have hfields : ∀ f ∈ d.fields, f.fits = true := fun f hf => by
    have := hfields f hf
    simp only [MemberDraft.fitsField, Bool.and_eq_true] at this
    exact this.1.1
  have hmethods : ∀ m ∈ d.methods, m.fits = true := fun m hm =>
    (Bool.and_eq_true_iff.mp (hmethods m hm)).1
  exact (yields_internClass hname).bind fun thisClass =>
    (yields_internOptionalClass hsuper).bind fun superClass =>
    (Yields.mapM fun name hi => yields_internClass (hinterfaces name hi)).bind fun interfaces =>
    (Yields.mapM fun f hf => f.yields_store (hfields f hf)).bind fun fields =>
    (Yields.mapM fun m hm => m.yields_store (hmethods m hm)).bind fun methods =>
    (AttributeDraft.yields_storeList d.attributes has).bind_pure
      fun later attributes ⟨hlen, ha⟩ hm hf hi hsuper hthis => {
        flags := rfl
        thisClass := hthis
        superClass := hsuper
        interfaces := hi
        interfaces_length := hin
        fields := hf
        fields_length := hfn
        methods := hm
        methods_length := hmn
        attributes_length := hlen ▸ hn
        attributes := ha }

/-! ### The class file and its stream -/

/-- A draft that can be assembled: its parts fit, its constants fit into a pool, and the bodies of
its attributes fit their lengths. -/
structure Assemblable (d : ClassDraft) : Prop where
  fits : d.fits = true
  pool : d.toClassFile.pool.size ≤ 65534
  bodies : BodiesFit d.toClassFile

variable {d : ClassDraft}

theorem Assemblable.storedAs (h : d.Assemblable) : d.StoredAs d.toClassFile.pool d.toClassFile := by
  obtain ⟨-, -, hq⟩ := d.yields_store h.fits .empty Pool.sound_empty
  obtain ⟨h1, h2, h3, h4, h5, h6, h7, h8, h9, h10, h11⟩ := hq _ (.refl _) h.pool
  exact ⟨h1, h2, h3, h4, h5, h6, h7, h8, h9, h10, h11⟩

theorem Assemblable.sound (h : d.Assemblable) : d.toClassFile.pool.Sound :=
  (d.yields_store h.fits .empty Pool.sound_empty).1

theorem Assemblable.tablesFit (h : d.Assemblable) : d.toClassFile.TablesFit where
  interfaces := h.storedAs.interfaces.length_eq ▸ h.storedAs.interfaces_length
  fields := MemberDraft.fitAll_stored h.storedAs.fields h.storedAs.fields_length h.bodies.fields
  methods := MemberDraft.fitAll_stored h.storedAs.methods h.storedAs.methods_length h.bodies.methods
  attributes := ⟨h.storedAs.attributes_length, h.bodies.attributes⟩

/-- The bytes of a draft are read back as its class file. -/
theorem run_reader_assemble (h : d.Assemblable) (rest : Bytes) :
    ClassFile.reader.run (d.assemble ++ rest) = .ok (d.toClassFile, rest) :=
  ClassFile.run_reader_spelled h.sound.shaped h.pool ModifiedUtf8.decode_encodeUtf8
    (fun _ ht => of_decide_eq_true (h.sound.isShort ht)) h.tablesFit rest

theorem className_toClassFile (h : d.Assemblable) : d.toClassFile.className = .ok d.name :=
  Pool.className_eq_ok_iff.mpr h.storedAs.thisClass

/-- The stream of the class file says what the draft says. -/
theorem elements_toClassFile (h : d.Assemblable) :
    ∃ stream, d.toClassFile.elements = .ok stream ∧ d.Says d.toClassFile.pool stream := by
  have hs := h.storedAs
  obtain ⟨fields, hfields, hfsays⟩ := MemberDraft.exists_resolved hs.fields h.bodies.fields
  obtain ⟨methods, hmethods, hmsays⟩ := MemberDraft.exists_resolved hs.methods h.bodies.methods
  obtain ⟨xs, hxs, hsays⟩ := hs.attributes h.bodies.attributes
  have hsuper : d.toClassFile.superName = .ok d.superName :=
    Pool.optionalClassName_eq_ok hs.superClass
  have hinterfaces : d.toClassFile.interfaceNames = .ok d.interfaces :=
    (mapM_eq_ok_iff fun _ _ _ => Pool.className_eq_ok_iff).mpr hs.interfaces.flip
  refine ⟨_, ?_, .intro hfsays hmsays hsays⟩
  rw [ClassFile.elements, hsuper, hinterfaces, hfields, hmethods, AttributeDraft.mapM_decode hxs,
    hs.flags]
  rfl

end ClassDraft

end JvmOutline
