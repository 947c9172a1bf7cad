/-!
# Access flags — modifiers as bits

A declaration carries its modifiers as sixteen bits.  A bit can have two names: what it says then
depends on the kind of the declaration.  Each kind of declaration keeps only the flags that mean
something for it: `AccessFlags.ofClass`, `ofInnerClass`, `ofField` and `ofMethod` drop the rest.
What they keep is said flag by flag (`AccessFlags.has_masked_ofFlags`), and this determines the bits
(`AccessFlags.eq_of_has`).
-/

namespace JvmOutline

/-- The named modifiers, in the order in which they are listed. -/
inductive Flag where
  | accPublic
  | accPrivate
  | accProtected
  | accStatic
  | accFinal
  | accSuper
  | accSynchronized
  | accVolatile
  | accBridge
  | accTransient
  | accVarargs
  | accNative
  | accInterface
  | accAbstract
  | accStrict
  | accSynthetic
  | accAnnotType
  | accEnum
  | accModule
  | accMandated
  deriving DecidableEq

namespace Flag

/-- Every flag, in the order in which flags are listed. -/
def all : List Flag :=
  [accPublic, accPrivate, accProtected, accStatic, accFinal, accSuper, accSynchronized,
    accVolatile, accBridge, accTransient, accVarargs, accNative, accInterface, accAbstract,
    accStrict, accSynthetic, accAnnotType, accEnum, accModule, accMandated]

/-- The bit of a flag. -/
def bit : Flag → UInt16
  | accPublic => 0x0001
  | accPrivate => 0x0002
  | accProtected => 0x0004
  | accStatic => 0x0008
  | accFinal => 0x0010
  | accSuper | accSynchronized => 0x0020
  | accVolatile | accBridge => 0x0040
  | accTransient | accVarargs => 0x0080
  | accNative => 0x0100
  | accInterface => 0x0200
  | accAbstract => 0x0400
  | accStrict => 0x0800
  | accSynthetic => 0x1000
  | accAnnotType => 0x2000
  | accEnum => 0x4000
  | accModule | accMandated => 0x8000

/-- The name of a flag. -/
def name : Flag → String
  | accPublic => "PUBLIC"
  | accPrivate => "PRIVATE"
  | accProtected => "PROTECTED"
  | accStatic => "STATIC"
  | accFinal => "FINAL"
  | accSuper => "SUPER"
  | accSynchronized => "SYNCHRONIZED"
  | accVolatile => "VOLATILE"
  | accBridge => "BRIDGE"
  | accTransient => "TRANSIENT"
  | accVarargs => "VARARGS"
  | accNative => "NATIVE"
  | accInterface => "INTERFACE"
  | accAbstract => "ABSTRACT"
  | accStrict => "STRICT"
  | accSynthetic => "SYNTHETIC"
  | accAnnotType => "ANNOTATION"
  | accEnum => "ENUM"
  | accModule => "MODULE"
  | accMandated => "MANDATED"

end Flag

/-- A set of modifiers. -/
structure AccessFlags where
  bits : UInt16
  deriving DecidableEq

namespace AccessFlags

/-- The set of the given flags. -/
def ofFlags (flags : List Flag) : AccessFlags := ⟨flags.foldl (fun bits f => bits ||| f.bit) 0⟩

/-- Whether a flag is set. -/
def has (flags : AccessFlags) (f : Flag) : Bool := flags.bits &&& f.bit == f.bit

/-- The flags of one set that are also in another. -/
def masked (flags mask : AccessFlags) : AccessFlags := ⟨flags.bits &&& mask.bits⟩

/-- The flags of a class or interface header. -/
def classMask : AccessFlags :=
  ofFlags [.accPublic, .accFinal, .accInterface, .accAbstract, .accSynthetic, .accAnnotType,
    .accEnum, .accModule]

/-- The flags that a table of nested classes records. -/
def innerClassMask : AccessFlags :=
  ofFlags [.accPublic, .accPrivate, .accProtected, .accStatic, .accFinal, .accInterface,
    .accAbstract, .accSynthetic, .accAnnotType, .accEnum]

/-- The flags of a field. -/
def fieldMask : AccessFlags :=
  ofFlags [.accPublic, .accPrivate, .accProtected, .accStatic, .accFinal, .accVolatile,
    .accTransient, .accSynthetic, .accEnum]

/-- The flags of a method. -/
def methodMask : AccessFlags :=
  ofFlags [.accPublic, .accPrivate, .accProtected, .accStatic, .accFinal, .accSynchronized,
    .accBridge, .accVarargs, .accNative, .accAbstract, .accStrict, .accSynthetic]

/-- Keeps the flags of a class or interface header. -/
def ofClass (flags : AccessFlags) : AccessFlags := flags.masked classMask

/-- Keeps the flags that a table of nested classes records. -/
def ofInnerClass (flags : AccessFlags) : AccessFlags := flags.masked innerClassMask

/-- Keeps the flags of a field. -/
def ofField (flags : AccessFlags) : AccessFlags := flags.masked fieldMask

/-- Keeps the flags of a method. -/
def ofMethod (flags : AccessFlags) : AccessFlags := flags.masked methodMask

/-- The names of all set flags; a set bit with two names is listed by both. -/
def describe (flags : AccessFlags) : String :=
  match Flag.all.filter flags.has with
  | [] => "(empty)"
  | set => " | ".intercalate (set.map Flag.name)

end AccessFlags

/-! ### Which flags are set -/

namespace Flag

/-- A flag has one bit. -/
theorem exists_bit_eq (f : Flag) : ∃ i < 16, f.bit.toBitVec = BitVec.twoPow 16 i := by
  have hall : ∀ f ∈ all, ∃ i ∈ List.range 16, f.bit.toBitVec = BitVec.twoPow 16 i := by decide
  obtain ⟨i, hi, hbit⟩ := hall f (by cases f <;> decide)
  exact ⟨i, List.mem_range.mp hi, hbit⟩

/-- Each bit is that of a flag. -/
theorem exists_of_bit {i : Nat} (hi : i < 16) :
    ∃ f : Flag, f.bit.toBitVec = BitVec.twoPow 16 i := by
  have hall : ∀ i ∈ List.range 16, ∃ f ∈ all, f.bit.toBitVec = BitVec.twoPow 16 i := by decide
  obtain ⟨f, -, hbit⟩ := hall i (List.mem_range.mpr hi)
  exact ⟨f, hbit⟩

variable {f g : Flag} {i : Nat}

theorem getLsbD_bit (hi : i < 16) (h : f.bit.toBitVec = BitVec.twoPow 16 i) :
    g.bit.toBitVec.getLsbD i = true ↔ g.bit = f.bit := by
  obtain ⟨j, hlt, hj⟩ := g.exists_bit_eq
  rw [← UInt16.toBitVec_inj, h, hj, BitVec.getLsbD_twoPow, decide_eq_true hlt, Bool.true_and,
    decide_eq_true_eq]
  constructor
  · rintro rfl
    rfl
  · intro heq
    have hbit := congrArg (BitVec.getLsbD · i) heq
    simpa [hi, eq_comm] using hbit

end Flag

namespace AccessFlags

variable {flags mask other : AccessFlags} {fs : List Flag} {f : Flag} {i : Nat}

/-- A flag is set if its bit is. -/
theorem has_iff_getLsbD (hi : i < 16) (h : f.bit.toBitVec = BitVec.twoPow 16 i) :
    flags.has f = true ↔ flags.bits.toBitVec.getLsbD i = true := by
  rw [has, beq_iff_eq, ← UInt16.toBitVec_inj, UInt16.toBitVec_and, h, BitVec.and_twoPow]
  split
  · next hset => exact iff_of_true rfl hset
  · next hset =>
    refine iff_of_false (fun hzero => ?_) hset
    have hbit := congrArg (BitVec.getLsbD · i) hzero
    rw [BitVec.getLsbD_zero, BitVec.getLsbD_twoPow] at hbit
    simp [hi] at hbit

/-- A mask keeps the flags that it has itself. -/
theorem has_masked : (flags.masked mask).has f = true ↔ flags.has f = true ∧ mask.has f = true := by
  obtain ⟨i, hi, h⟩ := f.exists_bit_eq
  rw [has_iff_getLsbD hi h, has_iff_getLsbD hi h, has_iff_getLsbD hi h, masked,
    UInt16.toBitVec_and, BitVec.getLsbD_and, Bool.and_eq_true]

/-- The set of some flags has each flag that shares its bit with one of them. -/
theorem has_ofFlags : (ofFlags fs).has f = true ↔ ∃ g ∈ fs, g.bit = f.bit := by
  obtain ⟨i, hi, h⟩ := f.exists_bit_eq
  have hfold (bits : UInt16) :
      (fs.foldl (fun bits g => bits ||| g.bit) bits).toBitVec.getLsbD i = true ↔
        bits.toBitVec.getLsbD i = true ∨ ∃ g ∈ fs, g.bit = f.bit := by
    induction fs generalizing bits with
    | nil => simp
    | cons g fs ih =>
      rw [List.foldl_cons, ih, UInt16.toBitVec_or, BitVec.getLsbD_or, Bool.or_eq_true,
        Flag.getLsbD_bit hi h, or_assoc]
      simp
  rw [has_iff_getLsbD hi h, ofFlags, hfold]
  simp

/-- What is kept for a kind of declaration: the flags that are set and share their bits with those
of the kind. -/
theorem has_masked_ofFlags : (flags.masked (ofFlags fs)).has f = true ↔
    flags.has f = true ∧ ∃ g ∈ fs, g.bit = f.bit := by
  rw [has_masked, has_ofFlags]

/-- The header of a class does not keep the bit of `synchronized`. -/
example : (ofFlags [.accPublic, .accSynchronized]).ofClass = ofFlags [.accPublic] := by decide

/-- A set is determined by the flags that it has. -/
theorem eq_of_has (h : ∀ f, flags.has f = true ↔ other.has f = true) : flags = other := by
  have hbits : flags.bits.toBitVec = other.bits.toBitVec := BitVec.eq_of_getLsbD_eq fun i hi => by
    obtain ⟨f, hf⟩ := Flag.exists_of_bit hi
    exact Bool.eq_iff_iff.mpr
      ((has_iff_getLsbD hi hf).symm.trans ((h f).trans (has_iff_getLsbD hi hf)))
  obtain ⟨bits⟩ := flags
  obtain ⟨bits'⟩ := other
  exact congrArg mk (UInt16.toBitVec_inj.mp hbits)

end AccessFlags

end JvmOutline
