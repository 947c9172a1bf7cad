import JvmOutline.Proofs.Attribute.Decoding
import JvmOutline.Proofs.ClassFile.Truncation

/-!
# The bodies of attributes are framed

**A body that is decoded ends where its contents end** (`Attribute.decode_framed`).  With more bytes
behind it, it is refused for these; and wherever it is cut, inside a nested value, the place of a
type annotation or an attribute in a component, it is found to end too early.

No reader of the contents looks ahead.  But each has a budget that goes by the length of the body,
and a body that is cut is decoded with a smaller one.  So the readers are compared at two budgets:
beyond the length of the input, which they do not outlast, the budget does not matter
(`ElementValue.persists_reader`, `Attribute.stands_readerWithin`).  An attribute in a component is
decoded from its own body, which is the same whatever follows the component.
-/

namespace JvmOutline

open Reader

variable {pool : Pool} {n : Nat} {more : Bytes}

/-! ### Indexes -/

namespace Pool

/-- An index and what is found at it. -/
theorem persists_find {α : Type} (find : UInt16 → Except FormatError α) :
    Persists n more (u2 >>= fun index => check (find index))
      (u2 >>= fun index => check (find index)) :=
  Persists.u2.bind fun _ => .check (.refl _)

theorem persists_textReader : Persists n more pool.textReader pool.textReader := persists_find _

theorem persists_optionalTextReader :
    Persists n more pool.optionalTextReader pool.optionalTextReader := persists_find _

theorem persists_classNameReader : Persists n more pool.classNameReader pool.classNameReader :=
  persists_find _

theorem persists_optionalClassNameReader :
    Persists n more pool.optionalClassNameReader pool.optionalClassNameReader := persists_find _

end Pool

/-! ### Annotations -/

theorem Annot.persists_reader {value value' : Reader ElementValue}
    (h : Persists n more value value') :
    Persists n more (reader pool value) (reader pool value') :=
  Pool.persists_textReader.bind fun _ => (Persists.counted2
    (Pool.persists_textReader.bind fun name => h.bind_pure (Prod.mk name))).bind_pure _

/-- **Element values.**  Beyond the length of the input, the budget does not matter. -/
theorem ElementValue.persists_reader {budget budget' : Nat} (h : budget ≤ budget') :
    Persists budget more (reader pool budget) (reader pool budget') := by
  induction budget generalizing budget' with
  | zero => exact fun _ hn => absurd hn (Nat.not_lt_zero _)
  | succ budget ih =>
    obtain ⟨budget', rfl⟩ := Nat.exists_eq_add_one_of_ne_zero (Nat.ne_zero_of_lt h)
    have hnested := ih (Nat.le_of_succ_le_succ h)
    refine Persists.u1_bind fun tag => ?_
    split
    · exact Pool.persists_textReader.bind fun _ => Pool.persists_textReader.bind_pure _
    · exact Pool.persists_textReader.bind_pure _
    · exact (Annot.persists_reader hnested).bind_pure _
    · exact hnested.counted2.bind_pure _
    -- The nine tags of constants.
    iterate 9
      · exact Persists.u2.bind_pure _
    · exact .fail _

theorem TargetShape.persists_skip (shape : TargetShape) :
    Persists n more shape.skip shape.skip := by
  cases shape with
  | fixed size => exact .skip size
  | table => exact Persists.u2.bind fun rows => .skip (6 * rows.toNat)

theorem TypeAnnot.persists_reader {value value' : Reader ElementValue}
    (h : Persists n more value value') :
    Persists n more (reader pool value) (reader pool value') := by
  refine Persists.u1.bind fun target => ?_
  split
  · exact .fail _
  · next shape _ =>
    exact shape.persists_skip.bind fun _ =>
      (Persists.counted1 (Persists.u1.bind fun kind => Persists.u1.bind_pure (Prod.mk kind))).bind
        fun _ => (Annot.persists_reader h).bind_pure _

/-! ### Parameters, nested classes, record components -/

theorem Parameter.persists_reader : Persists n more (reader pool) (reader pool) :=
  Pool.persists_optionalTextReader.bind fun _ => Persists.u2.bind_pure _

theorem InnerClass.persists_reader : Persists n more (reader pool) (reader pool) :=
  Pool.persists_classNameReader.bind fun _ => Pool.persists_optionalClassNameReader.bind fun _ =>
    Pool.persists_optionalTextReader.bind fun _ => Persists.u2.bind_pure _

/-- The attributes of a component are shorter than the component. -/
theorem Component.persists_reader {decode decode' : RawAttribute → Except FormatError Attribute}
    (h : ∀ stored, stored.body.length + 1 < n → Stands (decode stored) (decode' stored)) :
    Persists n more (reader pool decode) (reader pool decode') := by
  refine Pool.persists_textReader.bind fun _ => Pool.persists_textReader.bind fun _ => ?_
  intro input hn
  refine (RawAttribute.persists_reader.counted2 input hn).bind fun stored rest hrun hrest => ?_
  have hbody {s : RawAttribute} (hs : s ∈ stored) : s.body.length + 1 < n := by
    obtain ⟨front, ⟨-, rfl⟩, rfl⟩ := ((RawAttribute.reads_table n) input hn stored rest).mp hrun
    have hlength := RawAttribute.length_body_of_mem hs
    rw [RawAttribute.layoutAll, List.length_append, List.length_append] at hn
    omega
  exact (Persists.check (Stands.mapM fun s hs => h s (hbody hs))).bind_pure _ rest
    (Nat.lt_of_le_of_lt hrest hn)

/-! ### Attributes -/

namespace Attribute

theorem persists_contentsReader {value value' : Reader ElementValue}
    {decode decode' : RawAttribute → Except FormatError Attribute}
    (hv : Persists n more value value')
    (hd : ∀ stored, stored.body.length + 1 < n → Stands (decode stored) (decode' stored))
    (kind : AttributeKind) :
    Persists n more (contentsReader pool value decode kind)
      (contentsReader pool value' decode' kind) := by
  have hannots : Persists n more (counted2 (Annot.reader pool value))
      (counted2 (Annot.reader pool value')) := (Annot.persists_reader hv).counted2
  have hclasses : Persists n more (counted2 pool.classNameReader)
      (counted2 pool.classNameReader) := Pool.persists_classNameReader.counted2
  cases kind with
  | signature => exact Pool.persists_textReader.map _
  | constantValue => exact Persists.u2.map _
  | exceptions => exact hclasses.map _
  | permittedSubclasses => exact hclasses.map _
  | annots v => exact hannots.map _
  | parameterAnnots v => exact hannots.counted1.map _
  | typeAnnots v => exact (TypeAnnot.persists_reader hv).counted2.map _
  | annotDefault => exact hv.map _
  | methodParameters => exact Parameter.persists_reader.counted1.map _
  | innerClasses => exact InnerClass.persists_reader.counted2.map _
  | record => exact (Component.persists_reader hd).counted2.map _

theorem persists_contentsWithin_of {budget budget' : Nat} (h : budget ≤ budget')
    (hnested : ∀ (name : String) (body : Bytes), body.length + 1 < budget →
      Stands ((readerWithin pool budget name).run body) ((readerWithin pool budget' name).run body))
    (kind : AttributeKind) :
    Persists budget more (contentsWithin pool budget kind) (contentsWithin pool budget' kind) :=
  persists_contentsReader (ElementValue.persists_reader h) (fun stored hs =>
    (Stands.refl _).bind fun name => (hnested name stored.body hs).bind fun _ => .refl _) kind

/-- **Budgets.**  Beyond the length of the body, the budget does not matter. -/
theorem stands_readerWithin {budget budget' : Nat} (h : budget ≤ budget') (name : String)
    {body : Bytes} (hb : body.length + 1 < budget) :
    Stands ((readerWithin pool budget name).run body)
      ((readerWithin pool budget' name).run body) := by
  -- A body in a component is at least two bytes shorter, so the hypothesis covers it.
  induction budget generalizing budget' name body with
  | zero => exact absurd hb (Nat.not_lt_zero _)
  | succ budget ih =>
    obtain ⟨budget', rfl⟩ := Nat.exists_eq_add_one_of_ne_zero (Nat.ne_zero_of_lt h)
    have hle := Nat.le_of_succ_le_succ h
    cases hk : AttributeKind.ofName? name with
    | none =>
      rw [readerWithin, readerWithin, hk]
      exact .refl _
    | some kind =>
      rw [run_readerWithin_succ hk, run_readerWithin_succ hk]
      have hcontents : Persists budget [] (contentsWithin pool budget kind) _ :=
        persists_contentsWithin_of hle (fun name body hb => ih hle name hb) kind
      exact (hcontents.stands (Nat.lt_of_succ_lt_succ hb)).bind fun _ => .refl _

theorem persists_contentsWithin {budget budget' : Nat} (h : budget ≤ budget')
    (kind : AttributeKind) :
    Persists budget more (contentsWithin pool budget kind) (contentsWithin pool budget' kind) :=
  persists_contentsWithin_of h (fun name _ hb => stands_readerWithin h name hb) kind

/-! ### Whole bodies -/

/-- The contents are decoded, and then the body has to be at its end. -/
theorem decode_eq (kind : AttributeKind) (body : Bytes) :
    decode pool kind.name body =
      match (contentsWithin pool (body.length + 1) kind).run body with
      | .ok (a, []) => .ok a
      | .ok (_, _ :: _) => .error (.trailingBytes kind.name)
      | .error e => .error e := by
  have hreader : (reader pool kind.name).run body =
      (readerWithin pool (body.length + 1 + 1) kind.name).run body := by
    simp only [StateT.run, reader]
  rw [decode, hreader, run_readerWithin_succ (AttributeKind.ofName?_name kind)]
  cases (contentsWithin pool (body.length + 1) kind).run body with
  | error e => rfl
  | ok found =>
    obtain ⟨a, rest⟩ := found
    cases rest <;> rfl

theorem decode_nil (kind : AttributeKind) : decode pool kind.name [] = .error .endOfInput := by
  rw [decode_eq]
  cases kind <;> rfl

theorem run_contentsWithin_of_decode {kind : AttributeKind} {body : Bytes} {a : Attribute}
    (h : decode pool kind.name body = .ok a) :
    (contentsWithin pool (body.length + 1) kind).run body = .ok (a, []) := by
  rw [decode_eq] at h
  split at h
  · next hrun =>
    cases h
    exact hrun
  · nomatch h
  · nomatch h

/-- A body that goes on after its contents is refused. -/
theorem decode_append {kind : AttributeKind} {body : Bytes} {a : Attribute}
    (h : decode pool kind.name body = .ok a) (hmore : more ≠ []) :
    decode pool kind.name (body ++ more) = .error (.trailingBytes kind.name) := by
  have hrun := run_contentsWithin_of_decode h
  have hle : body.length + 1 ≤ (body ++ more).length + 1 := by
    rw [List.length_append]
    omega
  have hpersists : PersistsOn more _ (contentsWithin pool ((body ++ more).length + 1) kind) body :=
    persists_contentsWithin hle kind body (Nat.lt_succ_self _)
  unfold PersistsOn at hpersists
  rw [hrun] at hpersists
  obtain ⟨b, rest, rfl⟩ := List.exists_cons_of_ne_nil hmore
  rw [decode_eq, hpersists.2]
  rfl

/-- A body from which the last bytes are missing ends too early. -/
theorem decode_front {kind : AttributeKind} {front back : Bytes} {a : Attribute}
    (h : decode pool kind.name (front ++ back) = .ok a) (hback : back ≠ []) :
    ∃ e, FormatError.OutOfInput e ∧ decode pool kind.name front = .error e := by
  have hle : front.length + 1 ≤ (front ++ back).length + 1 := by
    rw [List.length_append]
    omega
  obtain ⟨e, hout, he⟩ := (persists_contentsWithin hle kind).runs_out (Nat.lt_succ_self _)
    (run_contentsWithin_of_decode h) (List.length_pos_iff.mpr hback)
  refine ⟨e, hout, ?_⟩
  rw [decode_eq, he]

/-- **Framing.**  A body that is decoded is not empty; with more bytes behind it, it is refused for
these, and without its last bytes it ends too early.  So of two bodies that are decoded under one
name, none continues the other. -/
theorem decode_framed (pool : Pool) (kind : AttributeKind) {body : Bytes} {a : Attribute}
    (h : decode pool kind.name body = .ok a) :
    body ≠ [] ∧
      (∀ more, more ≠ [] →
        decode pool kind.name (body ++ more) = .error (.trailingBytes kind.name)) ∧
      (∀ front, front <+: body → front ≠ body →
        ∃ e, FormatError.OutOfInput e ∧ decode pool kind.name front = .error e) ∧
      ∀ other b, decode pool kind.name other = .ok b → body <+: other → body = other := by
  refine ⟨?_, fun more hmore => decode_append h hmore, ?_, ?_⟩
  · rintro rfl
    rw [decode_nil] at h
    nomatch h
  · rintro front ⟨back, rfl⟩ hne
    refine decode_front h fun hnil => hne ?_
    rw [hnil, List.append_nil]
  · rintro _ b hother ⟨back, rfl⟩
    by_contra hne
    have hback : back ≠ [] := fun hnil => hne (by rw [hnil, List.append_nil])
    rw [decode_append h hback] at hother
    nomatch hother

/-- A pool of three texts. -/
def framedPool : Pool := ⟨#[.utf8 "Signature", .utf8 "I", .utf8 "x"]⟩

/-- The body of a record attribute: one component, which has a signature. -/
def framedBody : Bytes := [0, 1, 0, 3, 0, 2, 0, 1, 0, 1, 0, 0, 0, 2, 0, 2]

theorem decode_framed_record :
    decode framedPool "Record" framedBody = .ok (.record [⟨"x", "I", [.signature "I"]⟩]) ∧
      decode framedPool "Record" (framedBody ++ [0]) = .error (.trailingBytes "Record") ∧
      ∃ e, FormatError.OutOfInput e ∧
        decode framedPool "Record" (framedBody.take 15) = .error e := by
  have h : decode framedPool AttributeKind.record.name framedBody =
      .ok (.record [⟨"x", "I", [.signature "I"]⟩]) := by rfl
  obtain ⟨-, hlong, hshort, -⟩ := decode_framed framedPool .record h
  exact ⟨h, hlong [0] (by decide), hshort _ (List.take_prefix 15 _) (by decide)⟩

end Attribute

end JvmOutline
