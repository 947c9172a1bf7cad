import JvmOutline.Proofs.Attribute.Decoding
import JvmOutline.Proofs.Attribute.Size
import JvmOutline.Proofs.ClassFile.Errors
import JvmOutline.Proofs.Reading.Agreement

/-!
# Decoding descends

The readers of element values and of attributes call themselves for what is nested.  A value in a
value begins at a later position, and the body of an attribute in a component is shorter than the
body around it, so **decoding ends: the budget is never spent** (`Attribute.decode_descends`).

`ElementValue.layer` and `Attribute.layer` are one level of these readers, around readers of what is
nested.  A level asks these only about inputs that it reaches (`agree_layer`), and so does each
reader that it is put together from.  From this follow both that the inputs of a level descend
(`ElementValue.run_reader_descends`, `Attribute.run_readerWithin_descends`) and, by induction on the
budget, that a budget beyond the length of the input does not matter (`agree_budgets`).
-/

namespace JvmOutline

open Reader
open Bytes (ClosedUnderDrop Later later_cons closedUnderDrop_suffix closedUnderDrop_shorter)

variable {pool : Pool} {S : Bytes → Prop} {E : FormatError → Prop}

/-- All errors but that of a spent budget satisfy `E`. -/
def FormatError.Admits (E : FormatError → Prop) : Prop := ∀ e, e ≠ .budgetSpent → E e

open FormatError (Admits Lookup)

variable (hS : ClosedUnderDrop S) (hE : Admits E)

/-! ### Indexes -/

namespace Pool

include hE

theorem admits_of_lookup {α : Type} {x : Except FormatError α} (h : FailsIn Lookup x) :
    FailsIn E x :=
  h.mono fun e he => hE e (by cases he <;> nofun)

include hS

/-- An index and what is found at it. -/
theorem agree_find {α : Type} {find : UInt16 → Except FormatError α}
    (h : ∀ index, FailsIn Lookup (find index)) :
    AgreeIn S E (u2 >>= fun index => check (find index))
      (u2 >>= fun index => check (find index)) :=
  (AgreeIn.u2 hS (hE _ nofun)).bind fun index => .check (admits_of_lookup hE (h index))

theorem agree_textReader : AgreeIn S E pool.textReader pool.textReader :=
  agree_find hS hE fun index => failsIn_expect pool index ..

theorem agree_optionalTextReader : AgreeIn S E pool.optionalTextReader pool.optionalTextReader :=
  agree_find hS hE fun index => failsIn_optional index fun i => failsIn_expect pool i ..

theorem agree_classNameReader : AgreeIn S E pool.classNameReader pool.classNameReader :=
  agree_find hS hE (failsIn_className pool)

theorem agree_optionalClassNameReader :
    AgreeIn S E pool.optionalClassNameReader pool.optionalClassNameReader :=
  agree_find hS hE fun index => failsIn_optional index (failsIn_className pool)

end Pool

/-! ### Annotations -/

include hS hE in
theorem Annot.agree_reader {value value' : Reader ElementValue} (h : AgreeIn S E value value') :
    AgreeIn S E (reader pool value) (reader pool value') :=
  (Pool.agree_textReader hS hE).bind fun _ => (AgreeIn.counted2 hS (hE _ nofun)
    ((Pool.agree_textReader hS hE).bind fun name => h.bind_pure (Prod.mk name))).bind_pure _

namespace ElementValue

/-- One level of an element value, with a reader for the values in it. -/
def layer (pool : Pool) (value : Reader ElementValue) : Reader ElementValue := do
  let tag ← Reader.u1
  match tagChar tag with
  | 'e' => return .enumConst (← pool.textReader) (← pool.textReader)
  | 'c' => return .classLit (← pool.textReader)
  | '@' => return .annot (← Annot.reader pool value)
  | '[' => return .array (← Reader.counted2 value)
  | 'B' | 'C' | 'D' | 'F' | 'I' | 'J' | 'S' | 'Z' | 's' => return .const tag (← Reader.u2)
  | _ => Reader.fail (.unknownValueTag tag)

theorem reader_succ (budget : Nat) : reader pool (budget + 1) = layer pool (reader pool budget) :=
  rfl

variable {value value' : Reader ElementValue}

include hE

theorem agree_layer_nil : AgreeAt S E (layer pool value) (layer pool value') [] :=
  ⟨rfl, hE _ nofun⟩

include hS

/-- The values in a value are read behind its tag. -/
theorem agree_layer (h : AgreeIn S E value value') (tag : UInt8) {rest : Bytes} (hrest : S rest) :
    AgreeAt S E (layer pool value) (layer pool value') (tag :: rest) := by
  have htext : AgreeIn S E pool.textReader pool.textReader := Pool.agree_textReader hS hE
  have hconst (f : UInt16 → ElementValue) :
      AgreeIn S E (do return f (← u2)) (do return f (← u2)) :=
    (AgreeIn.u2 hS (hE _ nofun)).bind_pure f
  refine AgreeAt.bind ⟨rfl, hrest⟩ fun a rest' _ hrest' => ?_
  split
  · exact (htext.bind fun _ => htext.bind_pure _) _ hrest'
  · exact htext.bind_pure _ _ hrest'
  · exact (Annot.agree_reader hS hE h).bind_pure _ _ hrest'
  · exact (h.counted2 hS (hE _ nofun)).bind_pure _ _ hrest'
  -- The nine tags of constants.
  iterate 9
    · exact hconst _ _ hrest'
  · exact AgreeIn.fail (hE (.unknownValueTag a) nofun) _ hrest'

/-- A reader of values leaves what is in the set. -/
theorem agree_reader (hspent : E .budgetSpent) (budget : Nat) :
    AgreeIn S E (reader pool budget) (reader pool budget) := by
  induction budget with
  | zero => exact .fail hspent
  | succ budget ih =>
    rw [reader_succ]
    intro input hinput
    cases input with
    | nil => exact agree_layer_nil hE
    | cons tag rest => exact agree_layer hS hE ih tag (hS _ 1 hinput)

omit hS in
/-- **Budgets.**  Beyond the length of the input, the budget does not matter and is not spent. -/
theorem agree_budgets {budget budget' : Nat} (h : budget ≤ budget') :
    AgreeIn (·.length < budget) E (reader pool budget) (reader pool budget') := by
  induction budget generalizing budget' with
  | zero => exact fun _ hn => absurd hn (Nat.not_lt_zero _)
  | succ budget ih =>
    obtain ⟨budget', rfl⟩ := Nat.exists_eq_add_one_of_ne_zero (Nat.ne_zero_of_lt h)
    have hnested := ih (Nat.le_of_succ_le_succ h)
    have hclosed := closedUnderDrop_shorter budget
    rw [reader_succ, reader_succ]
    intro input hinput
    cases input with
    | nil => exact agree_layer_nil hE
    | cons tag rest =>
      have hlayer : AgreeAt (·.length < budget) E (layer pool (reader pool budget))
          (layer pool (reader pool budget')) (tag :: rest) :=
        agree_layer hclosed hE hnested tag (Nat.lt_of_succ_lt_succ hinput)
      exact ⟨hlayer.1, hlayer.2.mono (fun _ => Nat.lt_succ_of_lt) fun _ => id⟩

end ElementValue

/-- **Values descend.**  The values in a value are read at later positions, so a check of that
changes nothing. -/
theorem ElementValue.run_reader_descends (budget : Nat) (input : Bytes) (e : FormatError) :
    (reader pool (budget + 1)).run input =
      (layer pool (only (Later input) e (reader pool budget))).run input := by
  cases input with
  | nil => rfl
  | cons tag rest =>
    have hadmits : Admits fun _ => True := fun _ _ => trivial
    have hclosed := closedUnderDrop_suffix rest
    have hvalue : AgreeIn (· <:+ rest) _ (reader pool budget)
        (only (Later (tag :: rest)) e (reader pool budget)) :=
      (agree_reader hclosed hadmits trivial budget).only (fun _ => later_cons.mpr) e
    exact (agree_layer hclosed hadmits hvalue tag (List.suffix_refl rest)).1.symm

theorem TargetShape.agree_skip (hS : ClosedUnderDrop S) (hE : Admits E) (shape : TargetShape) :
    AgreeIn S E shape.skip shape.skip := by
  have hend : E .endOfInput := hE _ nofun
  cases shape with
  | fixed size => exact .skip hS hend size
  | table => exact (AgreeIn.u2 hS hend).bind fun rows => .skip hS hend (6 * rows.toNat)

include hS hE

theorem TypeAnnot.agree_reader {value value' : Reader ElementValue} (h : AgreeIn S E value value') :
    AgreeIn S E (reader pool value) (reader pool value') := by
  have hend : E .endOfInput := hE _ nofun
  have h1 : AgreeIn S E u1 u1 := .u1 hS hend
  refine h1.bind fun target => ?_
  split
  · exact .fail (hE _ nofun)
  · next shape _ =>
    exact (shape.agree_skip hS hE).bind fun _ =>
      (AgreeIn.counted1 hS hend (h1.bind fun kind => h1.bind_pure (Prod.mk kind))).bind
        fun _ => (Annot.agree_reader hS hE h).bind_pure _

/-! ### Parameters, nested classes, record components -/

theorem Parameter.agree_reader : AgreeIn S E (reader pool) (reader pool) :=
  (Pool.agree_optionalTextReader hS hE).bind fun _ => (AgreeIn.u2 hS (hE _ nofun)).bind_pure _

theorem InnerClass.agree_reader : AgreeIn S E (reader pool) (reader pool) :=
  (Pool.agree_classNameReader hS hE).bind fun _ =>
    (Pool.agree_optionalClassNameReader hS hE).bind fun _ =>
      (Pool.agree_optionalTextReader hS hE).bind fun _ => (AgreeIn.u2 hS (hE _ nofun)).bind_pure _

theorem RawAttribute.agree_reader : AgreeIn S E reader reader :=
  have hend : E .endOfInput := hE _ nofun
  (AgreeIn.u2 hS hend).bind fun _ => (AgreeIn.u4 hS hend).bind fun length =>
    (AgreeIn.takeOr hS (hE .shortBody nofun) length.toNat).bind_pure _

/-- The bodies of the attributes in a component are shorter than an input of the component. -/
theorem Component.agree_reader {decode decode' : RawAttribute → Except FormatError Attribute}
    (h : ∀ input, S input → ∀ stored : RawAttribute, stored.body.length < input.length →
      decode' stored = decode stored ∧ FailsIn E (decode stored)) :
    AgreeIn S E (reader pool decode) (reader pool decode') := by
  have htext : AgreeIn S E pool.textReader pool.textReader := Pool.agree_textReader hS hE
  refine htext.bind fun name => htext.bind fun descriptor => ?_
  intro input hinput
  have htable : AgreeIn S E (counted2 RawAttribute.reader) (counted2 RawAttribute.reader) :=
    (RawAttribute.agree_reader hS hE).counted2 hS (hE _ nofun)
  refine (htable input hinput).bind fun stored rest hrun hrest => ?_
  have hbody {s : RawAttribute} (hs : s ∈ stored) : s.body.length < input.length := by
    obtain ⟨front, ⟨-, rfl⟩, rfl⟩ :=
      ((RawAttribute.reads_table _) input (Nat.lt_succ_self _) stored rest).mp hrun
    have hlength := RawAttribute.length_body_of_mem hs
    rw [RawAttribute.layoutAll, List.length_append, List.length_append]
    omega
  have hall : stored.mapM decode' = stored.mapM decode :=
    mapM_congr fun s hs => (h input hinput s (hbody hs)).1
  rw [hall]
  exact (AgreeIn.check (FailsIn.mapM fun s hs => (h input hinput s (hbody hs)).2)).bind_pure _ _
    hrest

/-! ### Attributes -/

namespace Attribute

theorem agree_contentsReader {value value' : Reader ElementValue}
    {decode decode' : RawAttribute → Except FormatError Attribute} (hv : AgreeIn S E value value')
    (hd : ∀ input, S input → ∀ stored : RawAttribute, stored.body.length < input.length →
      decode' stored = decode stored ∧ FailsIn E (decode stored)) (kind : AttributeKind) :
    AgreeIn S E (contentsReader pool value decode kind)
      (contentsReader pool value' decode' kind) := by
  have hend : E .endOfInput := hE _ nofun
  have hannots : AgreeIn S E (counted2 (Annot.reader pool value))
      (counted2 (Annot.reader pool value')) := (Annot.agree_reader hS hE hv).counted2 hS hend
  have hclasses : AgreeIn S E (counted2 pool.classNameReader) (counted2 pool.classNameReader) :=
    (Pool.agree_classNameReader hS hE).counted2 hS hend
  cases kind with
  | signature => exact (Pool.agree_textReader hS hE).map _
  | constantValue => exact (AgreeIn.u2 hS hend).map _
  | exceptions => exact hclasses.map _
  | permittedSubclasses => exact hclasses.map _
  | annots v => exact hannots.map _
  | parameterAnnots v => exact (hannots.counted1 hS hend).map _
  | typeAnnots v => exact ((TypeAnnot.agree_reader hS hE hv).counted2 hS hend).map _
  | annotDefault => exact hv.map _
  | methodParameters => exact ((Parameter.agree_reader hS hE).counted1 hS hend).map _
  | innerClasses => exact ((InnerClass.agree_reader hS hE).counted2 hS hend).map _
  | record => exact ((Component.agree_reader hS hE hd).counted2 hS hend).map _

/-- One level of an attribute, with a reader for the values in it and one for the attributes in its
components. -/
def layer (pool : Pool) (value : Reader ElementValue) (nested : String → Reader Attribute)
    (name : String) : Reader Attribute :=
  match AttributeKind.ofName? name with
  | none => pure (.other name)
  | some kind => do
    let decode (stored : RawAttribute) : Except FormatError Attribute := do
      let name ← pool.utf8 stored.name
      let (a, _) ← (nested name).run stored.body
      return a
    let a ← contentsReader pool value decode kind
    endOf name
    return a

omit hS hE in
theorem readerWithin_succ (budget : Nat) (name : String) :
    readerWithin pool (budget + 1) name =
      layer pool (ElementValue.reader pool budget) (readerWithin pool budget) name := by
  rw [readerWithin]
  rfl

/-- The attributes in the components of an attribute have shorter bodies. -/
theorem agree_layer {value value' : Reader ElementValue}
    {nested nested' : String → Reader Attribute} (hv : AgreeIn S E value value')
    (hn : ∀ input, S input → ∀ (name : String) (body : Bytes), body.length < input.length →
      (nested' name).run body = (nested name).run body ∧ FailsIn E ((nested name).run body))
    (name : String) :
    AgreeIn S E (layer pool value nested name) (layer pool value' nested' name) := by
  unfold layer
  cases AttributeKind.ofName? name with
  | none => exact .pure _
  | some kind =>
    refine (agree_contentsReader hS hE hv ?_ kind).bind fun a => ?_
    · intro input hinput stored hstored
      have h (name : String) := hn input hinput name stored.body hstored
      simp only [(h _).1, true_and]
      exact (Pool.admits_of_lookup hE (Pool.failsIn_expect pool stored.name ..)).bind
        fun nested _ => (h nested).2.bind_pure _
    · have hend : AgreeIn S E (endOf name) (endOf name) := by
        intro input hinput
        refine ⟨rfl, ?_⟩
        cases input with
        | nil => exact hinput
        | cons b rest => exact hE _ nofun
      exact hend.bind_pure _

omit hS in
/-- **Budgets.**  From two more than the length of the body on, the budget does not matter and is
not spent. -/
theorem agree_budgets {budget budget' : Nat} (h : budget ≤ budget') (name : String) {body : Bytes}
    (hb : body.length + 1 < budget) :
    (readerWithin pool budget' name).run body = (readerWithin pool budget name).run body ∧
      FailsIn E ((readerWithin pool budget name).run body) := by
  -- A body in a component is at least a byte shorter, and the budget one less.
  induction budget generalizing budget' name body with
  | zero => exact absurd hb (Nat.not_lt_zero _)
  | succ budget ih =>
    obtain ⟨budget', rfl⟩ := Nat.exists_eq_add_one_of_ne_zero (Nat.ne_zero_of_lt h)
    have hle := Nat.le_of_succ_le_succ h
    rw [readerWithin_succ, readerWithin_succ]
    have hvalue : AgreeIn (·.length < budget) E (ElementValue.reader pool budget)
        (ElementValue.reader pool budget') := ElementValue.agree_budgets hE hle
    have hlayer : AgreeAt _ E (layer pool _ (readerWithin pool budget) name)
        (layer pool _ (readerWithin pool budget') name) body :=
      agree_layer (closedUnderDrop_shorter budget) hE hvalue
        (fun input hinput name body hbody => ih hle name (Nat.lt_of_le_of_lt hbody hinput)) name
        body (Nat.lt_of_succ_lt_succ hb)
    exact ⟨hlayer.1, hlayer.2.mono (fun _ _ => trivial) fun _ => id⟩

omit hS hE

/-- **Bodies descend.**  The attributes in the components of an attribute are read from shorter
bodies, so a check of that changes nothing. -/
theorem run_readerWithin_descends (budget : Nat) (name : String) (body : Bytes) (e : FormatError) :
    (readerWithin pool (budget + 1) name).run body =
      (layer pool (ElementValue.reader pool budget)
        (fun nested => only (·.length < body.length) e (readerWithin pool budget nested))
        name).run body := by
  have hadmits : Admits fun _ => True := fun _ _ => trivial
  have hclosed := closedUnderDrop_shorter (body.length + 1)
  have hvalue : AgreeIn _ _ (ElementValue.reader pool budget) (ElementValue.reader pool budget) :=
    ElementValue.agree_reader hclosed hadmits trivial budget
  rw [readerWithin_succ]
  refine (agree_layer hclosed hadmits hvalue (fun input hinput nested b hb => ?_) name body
    (Nat.lt_succ_self _)).1.symm
  exact ⟨run_only (Nat.lt_of_lt_of_le hb (Nat.le_of_lt_succ hinput)),
    failsIn_iff.mpr fun _ _ => trivial⟩

theorem run_reader (name : String) (body : Bytes) :
    (reader pool name).run body = (readerWithin pool (body.length + 2) name).run body := by
  simp only [StateT.run, reader]

/-- What is decoded is no larger than its body. -/
theorem nodes_le_of_decode {name : String} {body : Bytes} {a : Attribute}
    (h : decode pool name body = .ok a) : a.nodes ≤ body.length := by
  cases hk : AttributeKind.ofName? name with
  | none =>
    have hrun : (reader pool name).run body = .ok (.other name, body) := by
      rw [run_reader, readerWithin_succ, layer, hk]
      rfl
    rw [decode, hrun] at h
    cases h
    exact Nat.zero_le _
  | some kind =>
    obtain rfl := AttributeKind.name_of_ofName? hk
    unfold decode at h
    split at h
    · next hrun =>
      cases h
      exact (run_reader_iff.mp hrun).1.nodes_le
    · cases h

/-- **Termination.**  In one level of the readers, element values are read at later positions than
the value around them, and attributes from shorter bodies than the attribute around them.  So two
units more than a body has bytes are a budget that is not spent, and with a larger one nothing
changes.  What is decoded has no more nodes than the body has bytes. -/
theorem decode_descends (pool : Pool) (name : String) (body : Bytes) :
    (∀ budget input e, (ElementValue.reader pool (budget + 1)).run input =
        (ElementValue.layer pool
          (only (Later input) e (ElementValue.reader pool budget))).run input) ∧
      (∀ budget name body e, (readerWithin pool (budget + 1) name).run body =
        (layer pool (ElementValue.reader pool budget)
          (fun nested => only (·.length < body.length) e (readerWithin pool budget nested))
          name).run body) ∧
      (∀ budget, body.length + 2 ≤ budget →
        (readerWithin pool budget name).run body = (reader pool name).run body ∧
          (readerWithin pool budget name).run body ≠ .error .budgetSpent) ∧
      ∀ a, decode pool name body = .ok a → a.nodes ≤ body.length := by
  refine ⟨ElementValue.run_reader_descends, run_readerWithin_descends, fun budget hbudget => ?_,
    fun a => nodes_le_of_decode⟩
  have hadmits : Admits (· ≠ .budgetSpent) := fun _ => id
  obtain ⟨hsame, hfails⟩ := agree_budgets hadmits hbudget name (Nat.lt_succ_self (body.length + 1))
  rw [hsame, run_reader]
  exact ⟨rfl, fun he => failsIn_iff.mp hfails _ he rfl⟩

/-- An array in an array. -/
def nestedArrays : Bytes := [0x5B, 0, 1, 0x5B, 0, 1, 0x49, 0, 5]

/-- Arrays that declare more elements than there are bytes. -/
def boastfulArrays : Bytes := [0x5B, 0xFF, 0xFF, 0x5B, 0xFF, 0xFF]

theorem decode_descends_arrays :
    (readerWithin .empty 11 "AnnotationDefault").run nestedArrays =
        (reader .empty "AnnotationDefault").run nestedArrays ∧
      decode .empty "AnnotationDefault" nestedArrays =
        .ok (.annotDefault (.array [.array [.const 0x49 5]])) ∧
      (annotDefault (.array [.array [.const 0x49 5]])).nodes ≤ nestedArrays.length ∧
      (readerWithin .empty 8 "AnnotationDefault").run boastfulArrays ≠ .error .budgetSpent := by
  have hok : decode .empty "AnnotationDefault" nestedArrays =
      .ok (.annotDefault (.array [.array [.const 0x49 5]])) := by rfl
  obtain ⟨-, -, hbudget, hnodes⟩ := decode_descends .empty "AnnotationDefault" nestedArrays
  obtain ⟨-, -, hboastful, -⟩ := decode_descends .empty "AnnotationDefault" boastfulArrays
  exact ⟨(hbudget 11 (by decide)).1, hok, hnodes _ hok, (hboastful 8 (by decide)).2⟩

end Attribute

end JvmOutline
