import JvmOutline.ClassFile.Reader
import JvmOutline.Proofs.Pool.Layout

/-!
# The layout of a class file

The reader of class files reads the format `ClassFile.Layout`: the tables of a class file in their
order, each with its exact count, around any layout of its pool (**`ClassFile.reads_reader`**).
Only the values that fit their counts have a layout.
-/

namespace JvmOutline

open Reader

/-! ### Attributes and members -/

/-- The length of the body fits its four bytes. -/
def RawAttribute.Fits (a : RawAttribute) : Prop := a.body.length < 4294967296

/-- The attributes fit, and so does their number. -/
def RawAttribute.FitAll (as : List RawAttribute) : Prop := as.length < 65536 ∧ ∀ a ∈ as, a.Fits

/-- The attributes of a field or method fit. -/
def RawMember.Fits (m : RawMember) : Prop := RawAttribute.FitAll m.attributes

/-- The fields or methods fit, and so does their number. -/
def RawMember.FitAll (ms : List RawMember) : Prop := ms.length < 65536 ∧ ∀ m ∈ ms, m.Fits

instance (a : RawAttribute) : Decidable a.Fits := inferInstanceAs (Decidable (_ < _))

instance (as : List RawAttribute) : Decidable (RawAttribute.FitAll as) :=
  inferInstanceAs (Decidable (_ ∧ _))

instance (m : RawMember) : Decidable m.Fits := inferInstanceAs (Decidable (RawAttribute.FitAll _))

instance (ms : List RawMember) : Decidable (RawMember.FitAll ms) :=
  inferInstanceAs (Decidable (_ ∧ _))

/-- An attribute takes six bytes besides its body. -/
theorem RawAttribute.length_body_of_mem {stored : RawAttribute} {as : List RawAttribute}
    (h : stored ∈ as) : stored.body.length + 6 ≤ (as.flatMap layout).length := by
  have hlen := (List.sublist_flatten_of_mem (List.mem_map_of_mem (f := layout) h)).length_le
  rw [← List.flatMap_def] at hlen
  simp only [layout, List.length_append, Bytes.length_u2, Bytes.length_u4] at hlen
  omega

variable (n : Nat)

theorem RawAttribute.reads_reader : Reads n reader (.fits Fits layout) := by
  refine (Reads.u2.bind fun name _ _ _ => Reads.u4.bind fun length _ _ _ =>
    (Reads.takeOr _ length.toNat).bind_pure (RawAttribute.mk name)).congr fun bytes a _ => ?_
  constructor
  · rintro ⟨_, name, _, rfl, ⟨_, length, _, rfl, ⟨body, ⟨rfl, hlen⟩, rfl⟩, rfl⟩, rfl⟩
    refine ⟨Nat.lt_of_le_of_lt (Nat.le_of_eq hlen) length.toNat_lt, ?_⟩
    rw [layout, hlen, UInt32.ofNat_toNat, List.append_assoc]
  · rintro ⟨hlt, rfl⟩
    refine ⟨_, a.name, _, rfl, ⟨_, .ofNat a.body.length, _, rfl, ⟨a.body, ⟨rfl, ?_⟩, rfl⟩, rfl⟩,
      List.append_assoc ..⟩
    exact (UInt32.toNat_ofNat_of_lt' hlt).symm

theorem RawAttribute.reads_table : Reads n (counted2 reader) (.fits FitAll layoutAll) :=
  (reads_reader n).counted2.congr fun _ _ _ => Format.counted2_fits

theorem RawMember.reads_reader : Reads n reader (.fits Fits layout) := by
  refine (Reads.u2.bind fun flags _ _ _ => Reads.u2.bind fun name _ _ _ => Reads.u2.bind
    fun descriptor _ _ _ => (RawAttribute.reads_table _).bind_pure
      (RawMember.mk ⟨flags⟩ name descriptor)).congr fun bytes m _ => ?_
  constructor
  · rintro ⟨_, flags, _, rfl, ⟨_, name, _, rfl, ⟨_, descriptor, _, rfl,
      ⟨attributes, ⟨hfit, rfl⟩, rfl⟩, rfl⟩, rfl⟩, rfl⟩
    refine ⟨hfit, ?_⟩
    simp only [layout, List.append_assoc]
  · rintro ⟨hfit, rfl⟩
    refine ⟨_, m.flags.bits, _, rfl, ⟨_, m.name, _, rfl, ⟨_, m.descriptor, _, rfl,
      ⟨m.attributes, ⟨hfit, rfl⟩, rfl⟩, rfl⟩, rfl⟩, ?_⟩
    simp only [layout, List.append_assoc]

theorem RawMember.reads_table : Reads n (counted2 reader) (.fits FitAll layoutAll) :=
  (reads_reader n).counted2.congr fun _ _ _ => Format.counted2_fits

/-! ### The class file -/

namespace ClassFile

/-- The tables of a class file after its pool fit their counts. -/
structure TablesFit (file : ClassFile) : Prop where
  interfaces : file.interfaces.length < 65536
  fields : RawMember.FitAll file.fields
  methods : RawMember.FitAll file.methods
  attributes : RawAttribute.FitAll file.attributes

/-- The bytes of a class file around those of its pool. -/
def layoutAround (file : ClassFile) (poolBytes : Bytes) : Bytes :=
  Bytes.u4 magic ++ Bytes.u2 file.minor ++ Bytes.u2 file.major ++ poolBytes ++
    Bytes.u2 file.flags.bits ++ Bytes.u2 file.thisClass ++ Bytes.u2 file.superClass ++
    count2 file.interfaces ++ file.interfaces.flatMap Bytes.u2 ++
    RawMember.layoutAll file.fields ++ RawMember.layoutAll file.methods ++
    RawAttribute.layoutAll file.attributes

/-- The layouts of a class file, as many as its pool has. -/
def Layout : Format ClassFile := fun bytes file =>
  file.TablesFit ∧ ∃ poolBytes, Pool.Layout poolBytes file.pool ∧
    bytes = file.layoutAround poolBytes

theorem reads_magicReader : Reads n magicReader fun bytes _ => bytes = Bytes.u4 magic := by
  refine (Reads.u4.bind fun found _ _ _ => Reads.guard _ fun _ => Reads.pure ()).congr
    fun bytes _ _ => ?_
  constructor
  · rintro ⟨_, found, _, rfl, ⟨rfl, rfl, -⟩, rfl⟩
    rw [List.append_nil]
  · rintro rfl
    exact ⟨_, magic, [], rfl, ⟨rfl, rfl, rfl⟩, (List.append_nil _).symm⟩

theorem reads_interfaces : Reads n (counted2 Reader.u2) fun bytes is =>
    is.length < 65536 ∧ bytes = count2 is ++ is.flatMap Bytes.u2 := by
  have h : Reads n Reader.u2 (.fits (fun _ => True) Bytes.u2) :=
    Reads.u2.congr fun _ _ _ => ⟨fun h => ⟨trivial, h⟩, fun h => h.2⟩
  refine h.counted2.congr fun bytes is _ => ?_
  rw [Format.counted2_fits]
  exact and_congr_left fun _ => and_iff_left fun _ _ => trivial

/-- **Class files.**  The reader reads the layouts of class files, and nothing else. -/
theorem reads_reader : Reads n reader Layout := by
  refine ((reads_magicReader n).bind fun _ _ _ _ => Reads.u2.bind fun minor _ _ _ =>
    Reads.u2.bind fun major _ _ _ => (Pool.reads_reader _).bind fun pool _ _ _ =>
    Reads.u2.bind fun flags _ _ _ => Reads.u2.bind fun thisClass _ _ _ =>
    Reads.u2.bind fun superClass _ _ _ => (reads_interfaces _).bind fun interfaces _ _ _ =>
    (RawMember.reads_table _).bind fun fields _ _ _ =>
    (RawMember.reads_table _).bind fun methods _ _ _ =>
    (RawAttribute.reads_table _).bind_pure fun attributes => ClassFile.mk major minor pool
      ⟨flags⟩ thisClass superClass interfaces fields methods attributes).congr
        fun bytes file _ => ?_
  constructor
  · rintro ⟨_, _, _, rfl, ⟨_, minor, _, rfl, ⟨_, major, _, rfl, ⟨poolBytes, pool, _, hp,
      ⟨_, flags, _, rfl, ⟨_, thisClass, _, rfl, ⟨_, superClass, _, rfl, ⟨_, interfaces, _,
      ⟨hi, rfl⟩, ⟨_, fields, _, ⟨hf, rfl⟩, ⟨_, methods, _, ⟨hm, rfl⟩, ⟨attributes, ⟨ha, rfl⟩, rfl⟩,
      rfl⟩, rfl⟩, rfl⟩, rfl⟩, rfl⟩, rfl⟩, rfl⟩, rfl⟩, rfl⟩, rfl⟩
    refine ⟨⟨hi, hf, hm, ha⟩, poolBytes, hp, ?_⟩
    simp only [layoutAround, List.append_assoc]
  · rintro ⟨⟨hi, hf, hm, ha⟩, poolBytes, hp, rfl⟩
    refine ⟨_, (), _, rfl, ⟨_, file.minor, _, rfl, ⟨_, file.major, _, rfl, ⟨poolBytes, file.pool, _,
      hp, ⟨_, file.flags.bits, _, rfl, ⟨_, file.thisClass, _, rfl, ⟨_, file.superClass, _, rfl,
      ⟨_, file.interfaces, _, ⟨hi, rfl⟩, ⟨_, file.fields, _, ⟨hf, rfl⟩, ⟨_, file.methods, _,
      ⟨hm, rfl⟩, ⟨file.attributes, ⟨ha, rfl⟩, rfl⟩, rfl⟩, rfl⟩, rfl⟩, rfl⟩, rfl⟩, rfl⟩, rfl⟩, rfl⟩,
      rfl⟩, ?_⟩
    simp only [layoutAround, List.append_assoc]

end ClassFile

end JvmOutline
