import Mathlib.Algebra.BigOperators.Group.List.Basic
import Mathlib.Algebra.Ring.Nat
import JvmOutline.Proofs.Attribute.Constants

/-!
# The size of attributes

`Attribute.nodes` counts what is nested in an attribute, at any depth: listed names, annotations and
their members, element values, parameters, steps to parts of types, rows, components and the
attributes of these.

**There is no more in an attribute than its body has bytes** (`Attribute.Layout.nodes_le`), because
each of these things has bytes of its own.  What a count declares does not enter into it.
-/

namespace JvmOutline

/-! ### Counting -/

mutual

/-- The values and members in a value, together with the value and the annotations. -/
def ElementValue.nodes : ElementValue → Nat
  | .const _ _ => 1
  | .enumConst _ _ => 1
  | .classLit _ => 1
  | .annot a => 1 + a.nodes
  | .array values => 1 + ElementValue.nodesList values

/-- The annotation, its members, and what is nested in their values. -/
def Annot.nodes : Annot → Nat
  | ⟨_, members⟩ => 1 + ElementValue.nodesMembers members

/-- The members, and what is nested in their values. -/
def ElementValue.nodesMembers : List (String × ElementValue) → Nat
  | [] => 0
  | (_, value) :: rest => 1 + value.nodes + ElementValue.nodesMembers rest

/-- The elements of an array, and what is nested in them. -/
def ElementValue.nodesList : List ElementValue → Nat
  | [] => 0
  | value :: rest => value.nodes + ElementValue.nodesList rest

end

namespace ElementValue

theorem nodesMembers_eq (members : List (String × ElementValue)) :
    nodesMembers members = (members.map fun m => 1 + m.2.nodes).sum := by
  induction members with
  | nil => rfl
  | cons m members ih => rw [nodesMembers, ih, List.map_cons, List.sum_cons]

theorem nodesList_eq (values : List ElementValue) :
    nodesList values = (values.map nodes).sum := by
  induction values with
  | nil => rfl
  | cons v values ih => rw [nodesList, ih, List.map_cons, List.sum_cons]

end ElementValue

/-- The type annotation, its steps and its annotation. -/
def TypeAnnot.nodes (a : TypeAnnot) : Nat := 1 + a.path.length + a.annot.nodes

mutual

/-- What is nested in an attribute. -/
def Attribute.nodes : Attribute → Nat
  | .signature _ => 0
  | .constantValue _ => 0
  | .exceptions names => names.length
  | .permittedSubclasses names => names.length
  | .annots _ as => (as.map Annot.nodes).sum
  | .parameterAnnots _ lists => (lists.map fun as => 1 + (as.map Annot.nodes).sum).sum
  | .typeAnnots _ as => (as.map TypeAnnot.nodes).sum
  | .annotDefault value => value.nodes
  | .methodParameters parameters => parameters.length
  | .innerClasses rows => rows.length
  | .record components => Component.nodesList components
  | .other _ => 0

/-- The components, their attributes, and what is nested in these. -/
def Component.nodesList : List Component → Nat
  | [] => 0
  | ⟨_, _, attributes⟩ :: rest => 1 + Attribute.nodesList attributes + Component.nodesList rest

/-- The attributes of a component, and what is nested in them. -/
def Attribute.nodesList : List Attribute → Nat
  | [] => 0
  | a :: rest => 1 + a.nodes + Attribute.nodesList rest

end

theorem Attribute.nodesList_eq (as : List Attribute) :
    nodesList as = (as.map fun a => 1 + a.nodes).sum := by
  induction as with
  | nil => rfl
  | cons a as ih => rw [nodesList, ih, List.map_cons, List.sum_cons]

/-- The component, its attributes, and what is nested in these. -/
def Component.nodes (c : Component) : Nat := 1 + (c.attributes.map fun a => 1 + a.nodes).sum

theorem Component.nodesList_eq (cs : List Component) :
    nodesList cs = (cs.map nodes).sum := by
  induction cs with
  | nil => rfl
  | cons c cs ih =>
    obtain ⟨name, descriptor, attributes⟩ := c
    rw [nodesList, ih, List.map_cons, List.sum_cons, nodes, Attribute.nodesList_eq]

/-! ### Every node has bytes of its own -/

namespace Format

variable {α : Type} {L : Format α} {size : α → Nat} {bytes : Bytes} {as : List α}

/-- Items that are no larger than their layouts. -/
theorem Each.sum_le (h : Each L bytes as) (hsize : ∀ a ∈ as, ∀ front, L front a →
    size a ≤ front.length) : (as.map size).sum ≤ bytes.length := by
  induction h with
  | nil => exact Nat.le_refl 0
  | cons hfront _ ih =>
    rw [List.forall_mem_cons] at hsize
    rw [List.map_cons, List.sum_cons, List.length_append]
    exact Nat.add_le_add (hsize.1 _ hfront) (ih hsize.2)

theorem Counted2.sum_le (h : Counted2 L bytes as) (hsize : ∀ a ∈ as, ∀ front, L front a →
    size a ≤ front.length) : 2 + (as.map size).sum ≤ bytes.length := by
  cases h with
  | intro _ h =>
    rw [List.length_append, count2, Bytes.length_u2]
    exact Nat.add_le_add_left (h.sum_le hsize) 2

theorem Counted1.sum_le (h : Counted1 L bytes as) (hsize : ∀ a ∈ as, ∀ front, L front a →
    size a ≤ front.length) : 1 + (as.map size).sum ≤ bytes.length := by
  cases h with
  | intro _ h =>
    rw [List.length_append]
    exact Nat.add_le_add_left (h.sum_le hsize) 1

/-- Items that have at least a byte each. -/
theorem Counted2.length_le (h : Counted2 L bytes as) (hsize : ∀ a front, L front a →
    1 ≤ front.length) : 2 + as.length ≤ bytes.length := by
  have hsum : 2 + (as.map fun _ => 1).sum ≤ bytes.length := h.sum_le fun a _ front => hsize a front
  rwa [List.map_const', List.sum_replicate, Nat.nsmul_eq_mul, Nat.mul_one] at hsum

theorem Counted1.length_le (h : Counted1 L bytes as) (hsize : ∀ a front, L front a →
    1 ≤ front.length) : 1 + as.length ≤ bytes.length := by
  have hsum : 1 + (as.map fun _ => 1).sum ≤ bytes.length := h.sum_le fun a _ front => hsize a front
  rwa [List.map_const', List.sum_replicate, Nat.nsmul_eq_mul, Nat.mul_one] at hsum

end Format

variable {pool : Pool} {bytes : Bytes}

theorem Pool.TextLayout.length_eq {text : String} (h : pool.TextLayout bytes text) :
    bytes.length = 2 := by
  obtain ⟨index, -, rfl⟩ := h
  exact Bytes.length_u2 index

theorem Pool.ClassLayout.length_eq {name : String} (h : pool.ClassLayout bytes name) :
    bytes.length = 2 := by
  obtain ⟨index, -, rfl⟩ := h
  exact Bytes.length_u2 index

/-! ### Annotations -/

theorem Annot.Layout.nodes_le_of {L : Format ElementValue} {a : Annot} (h : Layout pool L bytes a)
    (hvalue : ∀ m ∈ a.members, ∀ front, L front m.2 → m.2.nodes ≤ front.length) :
    a.nodes + 3 ≤ bytes.length := by
  cases h with
  | @intro _ _ _ members htext hmembers =>
    have hmember : ∀ m ∈ members, ∀ front, Format.Pair pool.TextLayout L front m →
        1 + m.2.nodes ≤ front.length := fun m hm front hfront => by
      cases hfront with
      | intro hname hv =>
        have := hvalue _ hm _ hv
        rw [List.length_append, hname.length_eq]
        omega
    have hsum := hmembers.sum_le hmember
    rw [nodes, ElementValue.nodesMembers_eq, List.length_append, htext.length_eq]
    omega

/-- A value has its tag, so there is a byte more. -/
theorem ElementValue.Layout.nodes_le {v : ElementValue} (h : Layout pool bytes v) :
    v.nodes ≤ bytes.length := by
  induction v using induct generalizing bytes with
  | const | enumConst | classLit =>
    cases h
    exact Nat.le_add_left 1 _
  | annot a ih =>
    cases h with
    | annot _ ha =>
      have := ha.nodes_le_of fun m hm _ hv => ih m hm hv
      rw [nodes, List.length_cons]
      omega
  | array values ih =>
    cases h with
    | array _ hvalues =>
      have := hvalues.sum_le fun v hv _ hlayout => ih v hv hlayout
      rw [nodes, nodesList_eq, List.length_cons]
      omega

theorem Annot.Layout.nodes_le {a : Annot} (h : Layout pool (ElementValue.Layout pool) bytes a) :
    a.nodes ≤ bytes.length := by
  have := h.nodes_le_of fun _ _ _ hv => hv.nodes_le
  omega

theorem TypeAnnot.Layout.nodes_le {a : TypeAnnot} (h : Layout pool bytes a) :
    a.nodes ≤ bytes.length := by
  cases h with
  | intro _ hpath ha =>
    have hsteps := hpath.length_le fun step front hstep => by
      rw [show front = [step.1, step.2] from hstep]
      exact Nat.le_add_left 1 1
    have := ha.nodes_le
    rw [nodes, List.length_cons, List.length_append, List.length_append]
    simp only
    omega

/-! ### Parameters, nested classes, record components -/

theorem Parameter.Layout.one_le {p : Parameter} (h : Layout pool bytes p) : 1 ≤ bytes.length := by
  cases h
  rw [List.length_append, Bytes.length_u2]
  omega

theorem InnerClass.Layout.one_le {row : InnerClass} (h : Layout pool bytes row) :
    1 ≤ bytes.length := by
  cases h with
  | intro hinner =>
    rw [List.length_append, hinner.length_eq]
    omega

/-- The attributes of a component have six bytes each besides their bodies. -/
theorem Component.Layout.nodes_le_of {Stored : RawAttribute → Attribute → Prop} {c : Component}
    (h : Layout pool Stored bytes c)
    (hstored : ∀ stored, ∀ a ∈ c.attributes, Stored stored a → a.nodes ≤ stored.body.length) :
    c.nodes ≤ bytes.length := by
  cases h with
  | @intro _ _ back _ _ stored attributes hname hdescriptor htable hall =>
    have hsum : (attributes.map fun a => 1 + a.nodes).sum ≤
        (stored.flatMap RawAttribute.layout).length := by
      clear htable
      induction hall with
      | nil => exact Nat.le_refl 0
      | @cons s a _ _ ha _ ih =>
        have hhead := hstored s a List.mem_cons_self ha
        have htail := ih fun s a ha => hstored s a (List.mem_cons_of_mem _ ha)
        simp only [List.map_cons, List.sum_cons, List.flatMap_cons, List.length_append,
          RawAttribute.layout, Bytes.length_u2, Bytes.length_u4]
        omega
    obtain ⟨-, rfl⟩ := Format.counted2_fits.mp htable
    rw [List.length_append, List.length_append, hname.length_eq, List.length_append]
    show 1 + (attributes.map fun a => 1 + a.nodes).sum ≤ _
    omega

/-! ### Attributes -/

/-- **Size.**  There is no more in an attribute than its body has bytes. -/
theorem Attribute.Layout.nodes_le {kind : AttributeKind} {a : Attribute}
    (h : Layout pool kind bytes a) : a.nodes ≤ bytes.length := by
  induction a using induct generalizing kind bytes with
  | record components ih =>
    cases h with
    | record hcomponents =>
      have := hcomponents.sum_le fun c hc front hlayout =>
        hlayout.nodes_le_of fun stored a ha hstored => by
          cases hstored with
          | known _ hL => exact ih c hc a ha hL
          | other => exact Nat.zero_le _
      rw [nodes, Component.nodesList_eq]
      omega
  | other a hne =>
    cases h with
    | signature | constantValue => exact Nat.zero_le _
    | exceptions h | permittedSubclasses h =>
      have := h.length_le fun _ _ hname => hname.length_eq.symm ▸ Nat.le_add_left 1 1
      exact Nat.le_of_add_left_le this
    | annots h =>
      exact Nat.le_of_add_left_le (h.sum_le fun a _ _ ha => ha.nodes_le)
    | parameterAnnots h =>
      refine Nat.le_of_add_left_le (h.sum_le fun as _ front has => ?_)
      have := has.sum_le fun a _ _ ha => ha.nodes_le
      omega
    | typeAnnots h =>
      exact Nat.le_of_add_left_le (h.sum_le fun a _ _ ha => ha.nodes_le)
    | annotDefault h => exact h.nodes_le
    | methodParameters h =>
      exact Nat.le_of_add_left_le (h.length_le fun _ _ hp => hp.one_le)
    | innerClasses h =>
      exact Nat.le_of_add_left_le (h.length_le fun _ _ hrow => hrow.one_le)
    | record => exact absurd rfl (hne _)

end JvmOutline
