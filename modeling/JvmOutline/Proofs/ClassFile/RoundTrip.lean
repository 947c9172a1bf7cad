import JvmOutline.Proofs.ClassFile.Layout
import JvmOutline.Proofs.Text.ModifiedUtf8

/-!
# Round trips of class files

Two facts about the reader of class files follow from the format that it reads.

- **Writing, then reading** (`ClassFile.run_times_reader_layout`): a well-formed class file that is
  laid out in front of other bytes is read back, and so are several class files in a row.
- **Reading, then writing** (`ClassFile.eq_layout_of_run_reader`): the bytes that a class file was
  read from are a layout of it, up to the spellings of its texts.
-/

namespace JvmOutline

open Reader

/-! ### Well-formed class files -/

/-- The pool fits its count, its wide entries take two slots, and each of its texts has a form that
fits its length. -/
structure Pool.WellFormed (pool : Pool) : Prop where
  shaped : pool.Shaped
  size : pool.size ≤ 65534
  texts : ∀ text, .utf8 text ∈ pool.entries → (ModifiedUtf8.encode text).length ≤ 65535

/-- The pool is well-formed, and the tables fit their counts. -/
structure ClassFile.WellFormed (file : ClassFile) : Prop where
  pool : file.pool.WellFormed
  tables : file.TablesFit

namespace Pool

variable {pool : Pool} {spell : String → Bytes}

theorem isSpelling_spelling (hd : ∀ text, ModifiedUtf8.decode (spell text) = text)
    {es : List Entry} (hs : ∀ text, .utf8 text ∈ es → (spell text).length ≤ 65535) :
    List.Forall₂ Entry.IsSpelling es (es.map (spelling spell)) := by
  induction es with
  | nil => exact .nil
  | cons e es ih =>
    refine .cons ?_ (ih fun text h => hs text (List.mem_cons_of_mem e h))
    cases e with
    | utf8 text => exact ⟨Nat.lt_succ_of_le (hs text List.mem_cons_self), hd text⟩
    | _ => rfl

theorem layout_of_spelled (hp : pool.Shaped) (hn : pool.size ≤ 65534)
    (hd : ∀ text, ModifiedUtf8.decode (spell text) = text)
    (hs : ∀ text, .utf8 text ∈ pool.entries → (spell text).length ≤ 65535) :
    Layout (pool.layout spell) pool := by
  rw [layout_eq_layoutAs]
  exact layout_layoutAs hp hn
    (isSpelling_spelling hd fun text h => hs text (Array.mem_toList_iff.mp h))

end Pool

namespace ClassFile

/-! ### Writing, then reading -/

/-- Any spelling that decodes to its text will do. -/
theorem run_reader_spelled {file : ClassFile} {spell : String → Bytes} (hp : file.pool.Shaped)
    (hn : file.pool.size ≤ 65534) (hd : ∀ text, ModifiedUtf8.decode (spell text) = text)
    (hs : ∀ text, .utf8 text ∈ file.pool.entries → (spell text).length ≤ 65535)
    (ht : file.TablesFit) (rest : Bytes) :
    reader.run (file.layout spell ++ rest) = .ok (file, rest) :=
  (reads_reader _).run ⟨ht, _, Pool.layout_of_spelled hp hn hd hs, rfl⟩ (Nat.lt_succ_self _)

theorem WellFormed.layout {file : ClassFile} (h : file.WellFormed) :
    Layout (file.layout ModifiedUtf8.encode) file :=
  ⟨h.tables, _, Pool.layout_of_spelled h.pool.shaped h.pool.size ModifiedUtf8.decode_encode
    h.pool.texts, rfl⟩

theorem WellFormed.parse_layout {file : ClassFile} (h : file.WellFormed) :
    parse (file.layout ModifiedUtf8.encode) = .ok file := by
  have hrun : reader.run (file.layout ModifiedUtf8.encode ++ []) = .ok (file, []) :=
    (reads_reader _).run h.layout (Nat.lt_succ_self _)
  rw [List.append_nil] at hrun
  rw [parse, hrun]

theorem each_layout {files : List ClassFile} (h : ∀ file ∈ files, file.WellFormed) :
    Format.Each Layout (files.flatMap (ClassFile.layout ModifiedUtf8.encode)) files := by
  induction files with
  | nil => exact .nil
  | cons file files ih =>
    rw [List.forall_mem_cons] at h
    exact .cons h.1.layout (ih h.2)

/-- **Writing, then reading.**  Class files that are laid out one after the other are read back one
after the other, and what follows them is left. -/
theorem run_times_reader_layout (files : List ClassFile) (h : ∀ file ∈ files, file.WellFormed)
    (rest : Bytes) :
    (∀ file ∈ files, reader.run (file.layout ModifiedUtf8.encode ++ rest) = .ok (file, rest)) ∧
    (times files.length reader).run
      (files.flatMap (ClassFile.layout ModifiedUtf8.encode) ++ rest) = .ok (files, rest) := by
  refine ⟨fun file hf => ?_, ?_⟩
  · exact (reads_reader _).run (h file hf).layout (Nat.lt_succ_self _)
  · exact ((reads_reader _).times files.length).run ⟨rfl, each_layout h⟩ (Nat.lt_succ_self _)

/-- A class file with a text outside ASCII, a wide entry, and the bits of a number that is none. -/
def sample : ClassFile where
  major := 65
  minor := 0
  pool := ⟨#[.utf8 "é", .classRef 1, .long (-2), .unusable, .float 0x7FC00001]⟩
  flags := ⟨0xFFFF⟩
  thisClass := 2
  superClass := 0
  interfaces := [2]
  fields := [⟨⟨1⟩, 1, 1, [⟨1, [3]⟩]⟩]
  methods := []
  attributes := []

theorem sample_wellFormed : sample.WellFormed where
  pool := {
    shaped := Pool.shaped_iff.mpr
      ⟨[.utf8 "é", .classRef 1, .long (-2), .float 0x7FC00001], by decide, rfl⟩
    size := by decide
    texts := by
      intro text h
      simp only [sample, List.mem_toArray, List.mem_cons, List.not_mem_nil, Entry.utf8.injEq,
        reduceCtorEq, or_false] at h
      rw [h]
      decide }
  tables := ⟨by decide, by decide, by decide, by decide⟩

theorem run_times_reader_layout_sample : (∀ file ∈ [sample, sample], file.WellFormed) ∧
    (times 2 reader).run ([sample, sample].flatMap (ClassFile.layout ModifiedUtf8.encode) ++ [7]) =
      .ok ([sample, sample], [7]) := by
  have h : ∀ file ∈ [sample, sample], file.WellFormed := by
    rintro file (_ | ⟨_, _ | ⟨_, ⟨⟩⟩⟩) <;> exact sample_wellFormed
  exact ⟨h, (run_times_reader_layout [sample, sample] h [7]).2⟩

/-! ### Reading, then writing -/

/-- The count that a class file announces for its pool. -/
def announcedCount (input : Bytes) : UInt16 := .ofNat (Bytes.toNat ((input.drop 8).take 2))

/-- The bytes of a class file whose texts are spelled as given, with one spelling for each slot of
its pool. -/
def layoutAs (spellings : List Bytes) (file : ClassFile) : Bytes :=
  file.layoutAround (file.pool.layoutAs spellings)

/-- A class file was read from the front of the input and left the rest; its pool was announced by
a count that is not 0, and no wide entry begins in the last slot that was announced. -/
structure ReadFrom (file : ClassFile) (input rest : Bytes) : Prop where
  run : reader.run input = .ok (file, rest)
  count : 1 ≤ announcedCount input
  last : ∀ e, file.pool.entry? (announcedCount input - 1) = some e → e.isWide = false

/-- The bytes are a layout of the class file, up to the spellings of its texts. -/
def IsSpelledIn (file : ClassFile) (bytes : Bytes) : Prop :=
  ∃ spellings, List.Forall₂ Entry.IsSpelling file.pool.entries.toList spellings ∧
    bytes = file.layoutAs spellings

theorem announcedCount_layoutAround {file : ClassFile} {pool : Pool} {poolBytes : Bytes}
    (h : Pool.Layout poolBytes pool) (rest : Bytes) :
    announcedCount (file.layoutAround poolBytes ++ rest) =
      .ofNat (Bytes.toNat (poolBytes.take 2)) := by
  obtain ⟨count, _, back, -, -, -, rfl⟩ := h
  have hhead : (Bytes.u4 magic ++ (Bytes.u2 file.minor ++ Bytes.u2 file.major)).length = 8 := rfl
  rw [List.take_left' (Bytes.length_u2 count), announcedCount, layoutAround]
  simp only [List.append_assoc]
  rw [← List.append_assoc (Bytes.u2 _), ← List.append_assoc (Bytes.u4 _), List.drop_left' hhead,
    List.take_left' (Bytes.length_u2 count)]

theorem ReadFrom.isSpelledIn {file : ClassFile} {input rest : Bytes}
    (h : file.ReadFrom input rest) : (announcedCount input).toNat = file.pool.size + 1 ∧
      file.pool.Shaped ∧ file.TablesFit ∧
      ∃ consumed, file.IsSpelledIn consumed ∧ input = consumed ++ rest := by
  obtain ⟨_, ⟨ht, poolBytes, hp, rfl⟩, rfl⟩ :=
    (reads_reader _ input (Nat.lt_succ_self _) file rest).mp h.run
  obtain ⟨hcount, hshape, spellings, hs, rfl⟩ := hp.eq_layoutAs
    (announcedCount_layoutAround hp rest) (fun h0 => absurd h.count (by rw [h0]; decide)) h.last
  exact ⟨hcount, hshape, ht, _, ⟨spellings, hs, rfl⟩, rfl⟩

/-- **Reading, then writing.**  The bytes that a class file was read from are a layout of it, in
which only the spellings of the texts are left open; so two inputs from which the same class file
was read differ, as far as they were read, in such spellings only. -/
theorem eq_layout_of_run_reader {file : ClassFile} {input rest : Bytes}
    (h : file.ReadFrom input rest) :
    (announcedCount input).toNat = file.pool.size + 1 ∧ file.pool.Shaped ∧ file.TablesFit ∧
      (∃ consumed, file.IsSpelledIn consumed ∧ input = consumed ++ rest) ∧
      ∀ input' rest', file.ReadFrom input' rest' → ∃ spellings spellings',
        List.Forall₂ Entry.IsSpelling file.pool.entries.toList spellings ∧
        List.Forall₂ Entry.IsSpelling file.pool.entries.toList spellings' ∧
        input = file.layoutAs spellings ++ rest ∧ input' = file.layoutAs spellings' ++ rest' := by
  obtain ⟨hcount, hshape, ht, consumed, hc, rfl⟩ := h.isSpelledIn
  refine ⟨hcount, hshape, ht, ⟨consumed, hc, rfl⟩, fun input' rest' h' => ?_⟩
  obtain ⟨spellings, hs, rfl⟩ := hc
  obtain ⟨-, -, -, _, ⟨spellings', hs', rfl⟩, rfl⟩ := h'.isSpelledIn
  exact ⟨spellings, spellings', hs, hs', rfl, rfl⟩

theorem eq_layout_of_run_reader_sample :
    sample.ReadFrom (sample.layout ModifiedUtf8.encode ++ [7]) [7] ∧
      ∃ consumed, sample.IsSpelledIn consumed ∧
        sample.layout ModifiedUtf8.encode ++ [7] = consumed ++ [7] := by
  have h : sample.ReadFrom (sample.layout ModifiedUtf8.encode ++ [7]) [7] := {
    run := (reads_reader _).run sample_wellFormed.layout (Nat.lt_succ_self _)
    count := by decide
    last := by
      intro e h
      obtain rfl : Entry.float 0x7FC00001 = e := Option.some.inj h
      rfl }
  exact ⟨h, (eq_layout_of_run_reader h).2.2.2.1⟩

end ClassFile

end JvmOutline
