import JvmOutline.Proofs.Source.Path
import Mathlib.Data.List.Basic

/-!
# Directories — where class files are looked up

**A relative name is looked up below the root** (`Directory.components_pathOf`): its last part
becomes the file, the other parts become the directories in front of it.

**Other names need not be** (`Directory.holds_pathOf_iff`): a name that begins with a separator is a
path of its own, whatever the root is (`Directory.pathOf_absolute`), and the empty name puts the
extension on the root itself.

**A class has one file, and a file has one class** (`Directory.pathOf_spelled`): all spellings of a
class name give the same path, and no part of the name gets lost in it.
-/

namespace JvmOutline

open JvmOutline.Path

/-! ### The names of classes -/

namespace ClassName

/-- What stands between the separators of a class name. -/
def IsPart (part : String) : Prop := part ≠ "" ∧ '.' ∉ part.toList ∧ '/' ∉ part.toList

instance : DecidablePred IsPart := fun _ => inferInstanceAs (Decidable (_ ∧ _ ∧ _))

/-- A class name consists of parts, joined by dots and slashes in any mixture. -/
inductive Spells : List String → String → Prop
  | single {part : String} : IsPart part → Spells [part] part
  | joined {part name : String} {parts : List String} (sep : String) :
      sep = "." ∨ sep = "/" → IsPart part → Spells parts name →
        Spells (part :: parts) (part ++ sep ++ name)

theorem Spells.isPart {parts : List String} {name : String} (h : Spells parts name) :
    ∀ part ∈ parts, IsPart part := by
  induction h with
  | single hpart => exact List.forall_mem_singleton.mpr hpart
  | joined _ _ hpart _ ih => exact List.forall_mem_cons.mpr ⟨hpart, ih⟩

theorem Spells.ne_nil {parts : List String} {name : String} (h : Spells parts name) :
    parts ≠ [] := by
  cases h <;> exact List.cons_ne_nil _ _

end ClassName

namespace Directory

open ClassName (IsPart Spells)

variable {d : Directory} {name other : String} {parts others : List String}

/-- The name of a class with slashes for its dots. -/
def slashed (name : String) : List Char := name.toList.map separated

theorem not_mem_slashed (name : String) : '.' ∉ slashed name := by
  intro h
  obtain ⟨c, -, hc⟩ := List.mem_map.mp h
  rw [separated] at hc
  split at hc
  · nomatch hc
  · contradiction

theorem slashed_append (front back : String) :
    slashed (front ++ back) = slashed front ++ slashed back := by
  rw [slashed, String.toList_append, List.map_append]
  rfl

theorem slashed_of_not_mem (h : '.' ∉ name.toList) : slashed name = name.toList := by
  have hkept : ∀ c ∈ name.toList, separated c = id c := fun c hc =>
    if_neg fun (hdot : c = '.') => h (hdot ▸ hc)
  rw [slashed, List.map_congr_left hkept, List.map_id]

theorem toList_pathOf (d : Directory) (name : String) :
    (d.pathOf name).toList = withExtension (join d.root.toList (slashed name)) "class".toList :=
  String.toList_ofList

/-- A name that begins with a separator is looked up without the root. -/
theorem pathOf_absolute (d : Directory) (h : (slashed name).head? = some '/') :
    d.pathOf name = String.ofList (withExtension (slashed name) "class".toList) := by
  refine String.toList_inj.mp ?_
  rw [toList_pathOf, join, if_pos h]
  exact String.toList_ofList.symm

/-! ### Below the root -/

/-- **Relative names.**  The last part of the name becomes the file, and those in front of it become
the directories below the root. -/
theorem components_pathOf (d : Directory) (hne : name ≠ "") (h : (slashed name).head? ≠ some '/') :
    ∃ dirs file, names (slashed name) = dirs ++ [file] ∧
      components (d.pathOf name).toList =
        components d.root.toList ++ (dirs ++ [file ++ ".class".toList]) := by
  have hdot := not_mem_slashed name
  have hnames : names (slashed name) ≠ [] := by
    rw [← components_eq_names hdot h]
    refine components_ne_nil fun hnil => hne ?_
    exact String.toList_eq_nil_iff.mp (List.map_eq_nil_iff.mp hnil)
  obtain ⟨dirs, file, hfile⟩ : ∃ dirs file, names (slashed name) = dirs ++ [file] :=
    ⟨_, _, (List.dropLast_concat_getLast hnames).symm⟩
  have hjoin : components (join d.root.toList (slashed name)) =
      components d.root.toList ++ dirs ++ [file] := by
    rw [components_join _ hdot h, hfile, List.append_assoc]
  have hplain : '.' ∉ file ∧ IsName file :=
    isName_of_mem_names hdot (hfile ▸ List.mem_append_right dirs List.mem_cons_self)
  refine ⟨dirs, file, hfile, ?_⟩
  rw [toList_pathOf]
  rcases components_withExtension (join d.root.toList (slashed name)) "class".toList (by decide)
    with ⟨front, last, hlast, -, hextended⟩ | ⟨-, hnone⟩
  · obtain ⟨rfl, rfl⟩ := List.append_singleton_inj.mp (hlast.symm.trans hjoin)
    rw [hextended, stem_of_not_mem hplain.1, List.append_assoc]
    rfl
  · exact absurd hplain.2 (hnone _ _ hjoin)

/-- A path lies below another one: behind the components of that one it has further ones, and the
last of them is a name. -/
def IsBelow (root path : List Char) : Prop :=
  ∃ dirs file, components path = components root ++ (dirs ++ [file]) ∧ IsName file

/-- A path lies below the root of the directory, and its last component ends as the name of a class
file does. -/
def Holds (d : Directory) (path : String) : Prop :=
  ∃ dirs file, components path.toList = components d.root.toList ++ (dirs ++ [file]) ∧
    ".class".toList <:+ file

theorem isName_of_suffix {file : List Char} (h : ".class".toList <:+ file) : IsName file := by
  intro hmem
  have hshort : ∀ s ∈ [['/'], ['.'], ['.', '.']], s.length ≤ 2 := by decide
  exact absurd (h.length_le.trans (hshort file hmem)) (by decide)

/-- The extension makes a path that of a class file if it lies below the root. -/
theorem holds_withExtension_iff (d : Directory) (path : List Char) :
    d.Holds (String.ofList (withExtension path "class".toList)) ↔ IsBelow d.root.toList path := by
  rw [Holds, String.toList_ofList]
  rcases components_withExtension path "class".toList (by decide) with
    ⟨dirs, file, hpath, hname, hextended⟩ | ⟨hsame, hnone⟩
  · constructor
    · rintro ⟨dirs', file', h, -⟩
      rw [hextended, ← List.append_assoc] at h
      obtain ⟨rfl, -⟩ := List.append_singleton_inj.mp h
      exact ⟨dirs', file, by rw [hpath, List.append_assoc], hname⟩
    · rintro ⟨dirs', file', h, -⟩
      rw [hpath, ← List.append_assoc] at h
      obtain ⟨rfl, -⟩ := List.append_singleton_inj.mp h
      exact ⟨dirs', stem file ++ ".class".toList, hextended.trans (List.append_assoc ..),
        List.suffix_append (stem file) _⟩
  · constructor
    · rintro ⟨dirs, file, h, hsuffix⟩
      rw [hsame, ← List.append_assoc] at h
      exact absurd (isName_of_suffix hsuffix) (hnone _ _ h)
    · rintro ⟨dirs, file, h, hname⟩
      rw [← List.append_assoc] at h
      exact absurd hname (hnone _ _ h)

/-- **What lies below the root.**  A path that is looked up is that of a class file below the root
if the name is relative and not empty, or if it is an absolute path that lies below the root. -/
theorem holds_pathOf_iff (d : Directory) (name : String) :
    d.Holds (d.pathOf name) ↔
      (name ≠ "" ∧ (slashed name).head? ≠ some '/') ∨
        ((slashed name).head? = some '/' ∧ IsBelow d.root.toList (slashed name)) := by
  by_cases habs : (slashed name).head? = some '/'
  · rw [pathOf_absolute d habs, holds_withExtension_iff]
    simp [habs]
  · by_cases hempty : name = ""
    · subst hempty
      have hroot : components (join d.root.toList (slashed "")) = components d.root.toList := by
        rw [components_join _ (not_mem_slashed "") habs]
        exact List.append_nil _
      rw [pathOf, holds_withExtension_iff]
      refine iff_of_false ?_ (by simp [habs])
      rintro ⟨dirs, file, h, -⟩
      exact List.append_ne_nil_of_right_ne_nil dirs (List.cons_ne_nil file [])
        (List.self_eq_append_right.mp (hroot.symm.trans h))
    · obtain ⟨dirs, file, -, hpath⟩ := components_pathOf d hempty habs
      exact iff_of_true ⟨dirs, _, hpath, List.suffix_append file _⟩ (.inl ⟨hempty, habs⟩)

/-- An absolute name leaves the directory, and the empty name ends up beside it. -/
theorem not_holds_absolute :
    pathOf ⟨"classes"⟩ "/etc/passwd" = "/etc/passwd.class" ∧
      ¬ Holds ⟨"classes"⟩ "/etc/passwd.class" ∧
      pathOf ⟨"classes"⟩ "" = "classes.class" ∧ ¬ Holds ⟨"classes"⟩ "classes.class" := by
  refine ⟨by decide, ?_, by decide, ?_⟩
  · rintro ⟨dirs, file, h, -⟩
    have hroot : "classes".toList = ['/'] := (List.cons.inj h).1.symm
    exact absurd hroot (by decide)
  · rintro ⟨dirs, file, h, -⟩
    have hroot : "classes".toList = "classes.class".toList := (List.cons.inj h).1.symm
    exact absurd hroot (by decide)

/-! ### One file for each class -/

theorem segments_slashed (h : Spells parts name) :
    segments (slashed name) = parts.map String.toList := by
  induction h with
  | single hpart => rw [slashed_of_not_mem hpart.2.1, segments_of_not_mem hpart.2.2]; rfl
  | joined sep hsep hpart _ ih =>
    have hslash : slashed sep = ['/'] := by rcases hsep with rfl | rfl <;> decide
    rw [slashed_append, slashed_append, hslash, List.append_assoc, List.singleton_append,
      segments_append_slash, slashed_of_not_mem hpart.2.1, segments_of_not_mem hpart.2.2, ih]
    rfl

/-- The parts of a class name name the directories and the file. -/
theorem names_slashed (h : Spells parts name) : names (slashed name) = parts.map String.toList := by
  rw [names, segments_slashed h, List.filter_eq_self]
  intro s hs
  obtain ⟨part, hpart, rfl⟩ := List.mem_map.mp hs
  obtain ⟨hne, hdot, -⟩ := h.isPart part hpart
  rw [isBlank_of_not_mem (mt String.toList_eq_nil_iff.mp hne) hdot]
  rfl

/-- The name of a class is a relative path. -/
theorem relative_of_spells (h : Spells parts name) :
    name ≠ "" ∧ (slashed name).head? ≠ some '/' := by
  have hno : [] ∉ segments (slashed name) := by
    rw [segments_slashed h]
    intro hmem
    obtain ⟨part, hpart, hnil⟩ := List.mem_map.mp hmem
    exact (h.isPart part hpart).1 (String.toList_eq_nil_iff.mp hnil)
  constructor
  · rintro rfl
    exact hno List.mem_cons_self
  · intro heq
    obtain ⟨rest, hrest⟩ := List.head?_eq_some_iff.mp heq
    rw [hrest, ← List.nil_append ('/' :: rest), segments_append_slash] at hno
    exact hno List.mem_cons_self

/-- The path of a class is made of the root, the parts of its name and the extension. -/
theorem pathOf_eq (d : Directory) (hroot : d.root ≠ "") (hend : d.root.toList.getLast? ≠ some '/')
    (h : Spells parts name) :
    d.pathOf name = d.root ++ "/" ++ "/".intercalate parts ++ ".class" := by
  have hjoin : join d.root.toList (slashed name) = d.root.toList ++ '/' :: slashed name := by
    rw [join, if_neg (relative_of_spells h).2,
      if_neg (not_or.mpr ⟨mt String.toList_eq_nil_iff.mp hroot, hend⟩)]
  obtain ⟨front, last, rfl⟩ : ∃ front last, parts = front ++ [last] :=
    ⟨_, _, (List.dropLast_concat_getLast h.ne_nil).symm⟩
  have hsegments : segments (d.root.toList ++ '/' :: slashed name) =
      (segments d.root.toList ++ front.map String.toList) ++ [last.toList] := by
    rw [segments_append_slash, segments_slashed h, List.map_append, List.append_assoc]
    rfl
  obtain ⟨hne, hdot, -⟩ := h.isPart last (List.mem_append_right front List.mem_cons_self)
  have hname : slashed name = ['/'].intercalate ((front ++ [last]).map String.toList) := by
    rw [← segments_slashed h, intercalate_segments]
  refine String.toList_inj.mp ?_
  rw [toList_pathOf, hjoin,
    withExtension_of_plain hsegments (mt String.toList_eq_nil_iff.mp hne) hdot, hname]
  simp only [String.toList_append, String.toList_intercalate, List.append_assoc]
  rfl

/-- Different classes have different files. -/
theorem eq_of_components_pathOf (d : Directory) (h : Spells parts name) (h' : Spells others other)
    (heq : components (d.pathOf name).toList = components (d.pathOf other).toList) :
    parts = others := by
  obtain ⟨dirs, file, hnames, hpath⟩ :=
    components_pathOf d (relative_of_spells h).1 (relative_of_spells h).2
  obtain ⟨dirs', file', hnames', hpath'⟩ :=
    components_pathOf d (relative_of_spells h').1 (relative_of_spells h').2
  rw [hpath, hpath'] at heq
  obtain ⟨rfl, hfile⟩ := List.append_singleton_inj.mp (List.append_cancel_left heq)
  obtain rfl := List.append_cancel_right hfile
  rw [names_slashed h, ← hnames', names_slashed h'] at hnames
  exact List.map_injective_iff.mpr (fun _ _ => String.toList_inj.mp) hnames

/-- **One file for each class.**  The path of a class is the root, its parts and the extension, so
all spellings of a class have one path; different classes have paths that differ as texts and in
their components. -/
theorem pathOf_spelled (d : Directory) (hroot : d.root ≠ "")
    (hend : d.root.toList.getLast? ≠ some '/') (h : Spells parts name) (h' : Spells others other) :
    d.pathOf name = d.root ++ "/" ++ "/".intercalate parts ++ ".class" ∧
      (d.pathOf name = d.pathOf other ↔ parts = others) ∧
      (components (d.pathOf name).toList = components (d.pathOf other).toList ↔
        parts = others) := by
  have hpath := pathOf_eq d hroot hend h
  have hsame (heq : parts = others) : d.pathOf name = d.pathOf other := by
    rw [hpath, heq, ← pathOf_eq d hroot hend h']
  exact ⟨hpath, ⟨fun heq => eq_of_components_pathOf d h h' (by rw [heq]), hsame⟩,
    ⟨eq_of_components_pathOf d h h', fun heq => by rw [hsame heq]⟩⟩

theorem pathOf_spelled_object :
    pathOf ⟨"classes"⟩ "java.lang/Object" =
        "classes" ++ "/" ++ "/".intercalate ["java", "lang", "Object"] ++ ".class" ∧
      (pathOf ⟨"classes"⟩ "java.lang/Object" = pathOf ⟨"classes"⟩ "java/lang.Object$1" ↔
        ["java", "lang", "Object"] = ["java", "lang", "Object$1"]) ∧
      (components (pathOf ⟨"classes"⟩ "java.lang/Object").toList =
          components (pathOf ⟨"classes"⟩ "java/lang.Object$1").toList ↔
        ["java", "lang", "Object"] = ["java", "lang", "Object$1"]) :=
  pathOf_spelled ⟨"classes"⟩ (by decide) (by decide)
    (.joined "." (.inl rfl) (by decide) (.joined "/" (.inr rfl) (by decide) (.single (by decide))))
    (.joined "/" (.inr rfl) (by decide) (.joined "." (.inl rfl) (by decide) (.single (by decide))))

end Directory

end JvmOutline
