import JvmOutline.Outline.Class
import JvmOutline.Proofs.ClassFile.Layout
import JvmOutline.Proofs.Reading.Persistence

/-!
# Truncated class files

No reader of the tables of a class file looks ahead (`ClassFile.persists_reader`).  So the bytes
that follow a class file do not matter, and neither do those that follow a fault; and **a class file
from which the last bytes are missing is found to end too early**, wherever it is cut, and is not
outlined (**`ClassFile.parse_persists`**).
-/

namespace JvmOutline

open Reader

variable {n : Nat} {more : Bytes}

/-! ### Tables -/

theorem Entry.persists_reader : Persists n more reader reader := by
  have hpair (f : UInt16 → UInt16 → Entry) :
      Persists n more (do return f (← u2) (← u2)) (do return f (← u2) (← u2)) :=
    Persists.u2.bind fun a => Persists.u2.bind_pure (f a)
  refine Persists.u1.bind fun tag => ?_
  split
  · exact Persists.u2.bind fun length => (Persists.take length.toNat).bind_pure _
  · exact Persists.u4.bind_pure _
  · exact Persists.u4.bind_pure _
  · exact Persists.u8.bind_pure _
  · exact Persists.u8.bind_pure _
  · exact Persists.u2.bind_pure _
  · exact Persists.u2.bind_pure _
  · exact hpair .fieldRef
  · exact hpair .methodRef
  · exact hpair .interfaceMethodRef
  · exact hpair .nameAndType
  · exact Persists.u1.bind fun kind => Persists.u2.bind_pure _
  · exact Persists.u2.bind_pure _
  · exact hpair .dynamic
  · exact hpair .invokeDynamic
  · exact Persists.u2.bind_pure _
  · exact Persists.u2.bind_pure _
  · exact .fail (.unknownEntryTag tag)

theorem Pool.persists_slotsFrom (k : Nat) (filled : Array Entry) (half : Bool) :
    Persists n more (slotsFrom filled half k) (slotsFrom filled half k) := by
  induction k generalizing filled half with
  | zero => exact .pure _
  | succ k ih =>
    rw [slotsFrom]
    split
    · exact ih _ _
    · exact Entry.persists_reader.bind fun e => ih _ _

theorem Pool.persists_reader : Persists n more reader reader :=
  Persists.u2.bind fun _ => (persists_slotsFrom _ _ _).bind_pure _

theorem RawAttribute.persists_reader : Persists n more reader reader :=
  Persists.u2.bind fun _ => Persists.u4.bind fun length =>
    (Persists.takeOr .shortBody length.toNat).bind_pure _

theorem RawMember.persists_reader : Persists n more reader reader :=
  Persists.u2.bind fun _ => Persists.u2.bind fun _ => Persists.u2.bind fun _ =>
    RawAttribute.persists_reader.counted2.bind_pure _

/-! ### The class file -/

namespace ClassFile

theorem persists_magicReader : Persists n more magicReader magicReader := by
  refine Persists.u4.bind fun found => ?_
  split
  · exact .pure _
  · exact .fail (.wrongMagic found)

theorem persists_reader : Persists n more reader reader :=
  persists_magicReader.bind fun _ => Persists.u2.bind fun _ => Persists.u2.bind fun _ =>
    Pool.persists_reader.bind fun _ => Persists.u2.bind fun _ => Persists.u2.bind fun _ =>
    Persists.u2.bind fun _ => Persists.u2.counted2.bind fun _ =>
    RawMember.persists_reader.counted2.bind fun _ =>
    RawMember.persists_reader.counted2.bind fun _ =>
    RawAttribute.persists_reader.counted2.bind_pure _

theorem parse_of_run {bytes rest : Bytes} {file : ClassFile}
    (h : reader.run bytes = .ok (file, rest)) : parse bytes = .ok file := by
  rw [parse, h]

theorem parse_of_run_error {bytes : Bytes} {e : FormatError} (h : reader.run bytes = .error e) :
    parse bytes = .error e := by
  rw [parse, h]

/-- What follows a class file does not matter, nor does what follows a fault. -/
theorem parse_append {bytes : Bytes} (h : FailsIn (fun e => ¬ e.OutOfInput) (parse bytes))
    (more : Bytes) : parse (bytes ++ more) = parse bytes := by
  have hpersists : PersistsOn more reader reader bytes :=
    persists_reader bytes (Nat.lt_succ_self bytes.length)
  unfold PersistsOn at hpersists
  cases hrun : reader.run bytes with
  | error e =>
    rw [parse_of_run_error hrun] at h ⊢
    rw [hrun] at hpersists
    exact parse_of_run_error (hpersists.resolve_left h)
  | ok found =>
    obtain ⟨file, rest⟩ := found
    rw [hrun] at hpersists
    rw [parse_of_run hrun, parse_of_run hpersists.2]

/-- A class file from which the last bytes that were read are missing ends too early. -/
theorem run_take {bytes rest : Bytes} {file : ClassFile} (h : reader.run bytes = .ok (file, rest))
    {m : Nat} (hm : m + rest.length < bytes.length) :
    ∃ e, FormatError.OutOfInput e ∧ reader.run (bytes.take m) = .error e := by
  have hrest : rest.length < (bytes.drop m).length := by
    rw [List.length_drop]
    omega
  rw [← List.take_append_drop m bytes] at h
  exact persists_reader.runs_out (Nat.lt_succ_self _) h hrest

/-- **Truncation.**  What follows a class file does not matter, nor does what follows a fault.  A
class file takes a number of bytes; wherever it is cut before the last of them, it ends too early,
and it has no outline for that reason. -/
theorem parse_persists (bytes : Bytes) :
    (FailsIn (fun e => ¬ e.OutOfInput) (parse bytes) →
        ∀ more, parse (bytes ++ more) = parse bytes) ∧
      ∀ file, parse bytes = .ok file →
        ∃ n ≤ bytes.length, reader.run bytes = .ok (file, bytes.drop n) ∧
          ∀ m < n, ∃ e, FormatError.OutOfInput e ∧ parse (bytes.take m) = .error e ∧
            (ClassOutline.ofBytes (bytes.take m)).result = .error (.format e) := by
  refine ⟨parse_append, fun file h => ?_⟩
  cases hrun : reader.run bytes with
  | error e =>
    rw [parse_of_run_error hrun] at h
    nomatch h
  | ok found =>
    obtain ⟨found, rest⟩ := found
    rw [parse_of_run hrun] at h
    cases h
    obtain ⟨front, -, hfront⟩ := (reads_reader _ bytes (Nat.lt_succ_self _) file rest).mp hrun
    have hlength : bytes.length = front.length + rest.length := by
      rw [hfront, List.length_append]
    refine ⟨front.length, by omega, by rw [hfront, List.drop_left], fun m hm => ?_⟩
    obtain ⟨e, hout, he⟩ := run_take hrun (by omega : m + rest.length < bytes.length)
    have hparse := parse_of_run_error he
    refine ⟨e, hout, hparse, ?_⟩
    rw [ClassOutline.ofBytes, hparse]
    cases hout <;> rfl

/-- A class file without constants, members and attributes takes 24 bytes. -/
example : ∃ file, reader.run [0xCA, 0xFE, 0xBA, 0xBE, 0, 0, 0, 63, 0, 1, 0, 0, 0, 0, 0, 0, 0, 0,
    0, 0, 0, 0, 0, 0] = .ok (file, []) :=
  ⟨_, rfl⟩

end ClassFile

end JvmOutline
