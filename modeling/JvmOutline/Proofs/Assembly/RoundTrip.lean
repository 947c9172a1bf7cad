import JvmOutline.Proofs.Assembly.Outlining

/-!
# Assembling, then outlining

**From draft to outline** (`ClassDraft.result_ofBytes_assemble`).  The bytes that are assembled
from a draft are outlined, and the outline is the one that is read off the draft.

The proof follows the bytes.  They are read back as the class file of the draft, the stream of
that class file says what the draft says, and a stream that says so has the outline of the draft.
-/

namespace JvmOutline

theorem ClassName.qualified_ne_empty {name : String} (h : name ≠ "") : qualified name ≠ "" := by
  intro hq
  have hnil : name.toList.map qualifiedChar = [] := by
    rw [← String.toList_ofList (l := name.toList.map qualifiedChar)]
    exact (congrArg String.toList hq).trans String.toList_empty
  exact h (String.toList_eq_nil_iff.mp (List.map_eq_nil_iff.mp hnil))

theorem Logged.result_check_outlined {α : Type} {x : Except FormatError α} {a : α}
    (h : x = .ok a) : (Logged.check (outlined x)).result = .ok a := by
  rw [h]
  rfl

namespace ClassDraft

variable {d : ClassDraft}

theorem parse_assemble (h : d.Assemblable) : ClassFile.parse d.assemble = .ok d.toClassFile := by
  have hrun := run_reader_assemble h []
  rw [List.append_nil] at hrun
  rw [ClassFile.parse, hrun]

theorem Assemblable.name_ne_empty (h : d.Assemblable) : d.name ≠ "" := by
  have hfits := h.fits
  simp only [ClassDraft.fits, Bool.and_eq_true, decide_eq_true_eq] at hfits
  exact hfits.1.1

/-- **From draft to outline.**  Outlining what is assembled from a draft succeeds, with the outline
of the draft. -/
theorem result_ofBytes_assemble (d : ClassDraft) (h : d.Assemblable) :
    (ClassOutline.ofBytes d.assemble).result = .ok d.outline := by
  obtain ⟨stream, hstream, hsays⟩ := elements_toClassFile h
  refine Logged.result_bind_eq_ok_iff.mpr
    ⟨d.toClassFile, Logged.result_check_outlined (parse_assemble h), ?_⟩
  refine Logged.result_bind_eq_ok_iff.mpr
    ⟨d.name, Logged.result_check_outlined (className_toClassFile h), ?_⟩
  refine Logged.result_bind_eq_ok_iff.mpr ⟨stream, Logged.result_check_outlined hstream, ?_⟩
  refine Logged.result_bind_eq_ok_iff.mpr ⟨(), rfl, ?_⟩
  rw [if_neg (ClassName.qualified_ne_empty h.name_ne_empty)]
  exact Logged.result_bind_eq_ok_iff.mpr ⟨d.outline, result_compose hsays h.fits, rfl⟩

/-- A class with a constant, a static initializer, nested annotations, a record component and a row
for itself in the table of nested classes. -/
def sample : ClassDraft where
  name := "p/Shape"
  flags := defaultFlags
  superName := some defaultSuperName
  interfaces := ["p/Round"]
  fields := [⟨⟨0x0018⟩, "AREA", "D", [.constant (.double 0x7FF8000000000001)]⟩]
  methods := [⟨⟨0x0008⟩, "<clinit>", "()V", []⟩,
    ⟨⟨0x0401⟩, "scale", "(D)V", [.exceptions ["p/Fault"], .methodParameters [(some "by", ⟨0⟩)],
      .visibleAnnots [⟨"Lp/Mark;", [("é", .array [.char 65, .annot ⟨"Lp/At;", []⟩])]⟩]]⟩]
  attributes := [.record [⟨"side", "I", [.signature "I"]⟩],
    .innerClasses [⟨"p/Shape", none, some "Shape", ⟨0x0009⟩⟩]]

theorem result_ofBytes_assemble_sample : sample.Assemblable ∧
    (ClassOutline.ofBytes sample.assemble).result = .ok sample.outline := by
  have h : sample.Assemblable := {
    fits := by decide +kernel
    pool := by decide +kernel
    bodies := ⟨by decide +kernel, by decide +kernel, by decide +kernel⟩ }
  exact ⟨h, result_ofBytes_assemble sample h⟩

end ClassDraft

end JvmOutline
