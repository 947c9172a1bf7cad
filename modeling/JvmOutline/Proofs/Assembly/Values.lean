import JvmOutline.Proofs.Assembly.Annotations
import JvmOutline.Proofs.Assembly.Requests
import JvmOutline.Proofs.Outline.Members

/-!
# Assembled values

A value is written into a pool that was filled before, and the pool is filled further after that.
`ValueDraft.Denotes` says which value of an annotation a draft stands for.

**Writing a value, then reading it** (`ValueDraft.run_reader_written`).  The bytes of a value are
read against the pool that is read from the later one, nothing of what follows them is taken, and
the outline of what is read is the value that the draft stands for.
-/

namespace JvmOutline

namespace ValueDraft

/-! ### What a draft stands for -/

/-- The value that a draft stands for, with one rule for each form: numbers and texts are the same,
an array has the elements that its elements stand for, in their order, and an annotation has the
members that its members stand for, merged.  An index and a lone tag stand for nothing. -/
inductive Denotes : ValueDraft → AnnotValue → Prop where
  | boolean (value : Bool) : Denotes (.boolean value) (.boolean value)
  | byte (value : Int8) : Denotes (.byte value) (.byte value)
  | char (unit : UInt16) : Denotes (.char unit) (.char unit)
  | short (value : Int16) : Denotes (.short value) (.short value)
  | int (value : Int32) : Denotes (.int value) (.int value)
  | long (value : Int64) : Denotes (.long value) (.long value)
  | float (bits : UInt32) : Denotes (.float bits) (.float bits)
  | double (bits : UInt64) : Denotes (.double bits) (.double bits)
  | string (text : String) : Denotes (.string text) (.string text)
  | classLit (descriptor : String) : Denotes (.classLit descriptor) (.type descriptor)
  | enumConst (descriptor constant : String) :
      Denotes (.enumConst descriptor constant) (.enum descriptor constant)
  | annot {descriptor : String} {members : List (String × ValueDraft)}
      {ms : List (String × AnnotValue)} : List.Forall₂ (Named Denotes) members ms →
      Denotes (.annot ⟨descriptor, members⟩) (.annot ⟨descriptor, Members.merged ms⟩)
  | array {vs : List ValueDraft} {ws : List AnnotValue} :
      List.Forall₂ Denotes vs ws → Denotes (.array vs) (.array ws)

mutual

/-- A draft that fits stands for its outline. -/
theorem denotes_outline (v : ValueDraft) (h : v.fits = true) : v.Denotes v.outline := by
  cases v with
  | boolean value => exact .boolean value
  | byte value => exact .byte value
  | char unit => exact .char unit
  | short value => exact .short value
  | int value => exact .int value
  | long value => exact .long value
  | float bits => exact .float bits
  | double bits => exact .double bits
  | string text => exact .string text
  | classLit descriptor => exact .classLit descriptor
  | enumConst descriptor constant => exact .enumConst descriptor constant
  | annot a =>
    obtain ⟨descriptor, members⟩ := a
    obtain ⟨-, h⟩ := Bool.and_eq_true_iff.mp h
    obtain ⟨-, hm⟩ := Bool.and_eq_true_iff.mp h
    obtain ⟨ms, hms, hinsert⟩ := denotes_outlineMembers members hm
    rw [outline, AnnotDraft.outline, hinsert, AnnotOutline.insertAll_ofDescriptor]
    exact .annot hms
  | array vs =>
    obtain ⟨-, hv⟩ := Bool.and_eq_true_iff.mp h
    exact .array (denotes_outlineList vs hv)
  | indexed tag index => nomatch h
  | bare tag => nomatch h

/-- The members that are put in are those that the drafts stand for. -/
theorem denotes_outlineMembers (members : List (String × ValueDraft))
    (h : fitMembers members = true) : ∃ ms, List.Forall₂ (Named Denotes) members ms ∧
      ∀ a, outlineMembers a members = a.insertAll ms := by
  match members, h with
  | [], _ => exact ⟨[], .nil, fun _ => rfl⟩
  | (name, value) :: rest, h =>
    obtain ⟨-, h⟩ := Bool.and_eq_true_iff.mp h
    obtain ⟨hv, hrest⟩ := Bool.and_eq_true_iff.mp h
    obtain ⟨ms, hms, hinsert⟩ := denotes_outlineMembers rest hrest
    exact ⟨(name, value.outline) :: ms, .cons (.intro (denotes_outline value hv)) hms,
      fun a => hinsert (a.insert name value.outline)⟩

theorem denotes_outlineList (vs : List ValueDraft) (h : fitAll vs = true) :
    List.Forall₂ Denotes vs (outlineList vs) := by
  match vs, h with
  | [], _ => exact .nil
  | v :: rest, h =>
    obtain ⟨hv, hrest⟩ := Bool.and_eq_true_iff.mp h
    exact .cons (denotes_outline v hv) (denotes_outlineList rest hrest)

end

/-! ### Writing, then reading -/

/-- The bytes of a value that is written after some constants were asked for. -/
def bytesAfter (v : ValueDraft) (asked : List Pool.Request) : Bytes :=
  (v.write.run (Pool.empty.after asked)).1

/-- The pool after some constants were asked for, the value was written, and more constants were
asked for. -/
def poolAfter (v : ValueDraft) (asked more : List Pool.Request) : Pool :=
  (v.write.run (Pool.empty.after asked)).2.after more

theorem sound_poolAfter {v : ValueDraft} {asked more : List Pool.Request} (hv : v.fits = true)
    (hasked : ∀ r ∈ asked, r.isShort = true) (hmore : ∀ r ∈ more, r.isShort = true) :
    (v.poolAfter asked more).Sound :=
  (yields_write v hv _ (Pool.sound_empty.after hasked)).1.after hmore

theorem spells_bytesAfter {v : ValueDraft} {asked more : List Pool.Request} (hv : v.fits = true)
    (hasked : ∀ r ∈ asked, r.isShort = true) (hmore : ∀ r ∈ more, r.isShort = true)
    (hsize : (v.poolAfter asked more).size ≤ 65534) :
    ElementValue.Spells (v.poolAfter asked more) (v.bytesAfter asked) v.outline := by
  obtain ⟨hsound, -, hspells⟩ := yields_write v hv _ (Pool.sound_empty.after hasked)
  exact hspells _ (hsound.extends_after hmore) hsize

/-- **Writing a value, then reading it.**  The pool is read back from its bytes; the value is read
back against it, up to where its own bytes end, and has the outline that the draft stands for. -/
theorem run_reader_written (v : ValueDraft) (asked more : List Pool.Request) (hv : v.fits = true)
    (hshort : ∀ r ∈ asked ++ more, r.isShort = true)
    (hsize : (v.poolAfter asked more).size ≤ 65534) :
    (∀ rest, Pool.reader.run ((v.poolAfter asked more).layout (fun t => Utf8.encode t.toList) ++
      rest) = .ok (v.poolAfter asked more, rest)) ∧
    ∃ e w,
      (∀ rest budget, (v.bytesAfter asked ++ rest).length < budget →
        (ElementValue.reader (v.poolAfter asked more) budget).run (v.bytesAfter asked ++ rest) =
          .ok (e, rest)) ∧
      e.outline (v.poolAfter asked more) = .ok w ∧ v.Denotes w := by
  obtain ⟨hasked, hmore⟩ := List.forall_mem_append.mp hshort
  obtain ⟨e, he, houtline⟩ := spells_bytesAfter hv hasked hmore hsize
  exact ⟨(sound_poolAfter hv hasked hmore).run_reader_layout hsize, e, v.outline,
    fun rest budget hbudget => (ElementValue.reads_reader budget).run he hbudget, houtline,
    denotes_outline v hv⟩

/-- Numbers that are negative or large, the bits of a number that is none, and an annotation with a
repeated name. -/
def mixed : ValueDraft :=
  .array [.byte (-1), .char 0x8000, .double 0x7FF0000000000001, .annot ⟨"Lp/Mark;",
    [("n", .short (-2)), ("m", .array [.array []]), ("n", .enumConst "Lp/E;" "é")]⟩]

/-- Constants that are asked for before; one of them comes again in the value. -/
def mixedBefore : List Pool.Request := [.integer (-1), .utf8 "n"]

/-- Constants that are asked for later. -/
def mixedLater : List Pool.Request := [.classRef "n", .long 5]

theorem run_reader_written_mixed :
    (mixed.fits = true ∧ (∀ r ∈ mixedBefore ++ mixedLater, r.isShort = true) ∧
      (mixed.poolAfter mixedBefore mixedLater).size ≤ 65534) ∧
    ∃ e w,
      (ElementValue.reader (mixed.poolAfter mixedBefore mixedLater) 64).run
        (mixed.bytesAfter mixedBefore ++ [0x5B]) = .ok (e, [0x5B]) ∧
      e.outline (mixed.poolAfter mixedBefore mixedLater) = .ok w ∧ mixed.Denotes w := by
  have hfits : mixed.fits = true := by decide +kernel
  have hshort : ∀ r ∈ mixedBefore ++ mixedLater, r.isShort = true := by decide +kernel
  have hsize : (mixed.poolAfter mixedBefore mixedLater).size ≤ 65534 := by decide +kernel
  obtain ⟨-, e, w, hrun, houtline, hw⟩ :=
    run_reader_written mixed mixedBefore mixedLater hfits hshort hsize
  exact ⟨⟨hfits, hshort, hsize⟩, e, w, hrun [0x5B] 64 (by decide +kernel), houtline, hw⟩

end ValueDraft

end JvmOutline
