import JvmOutline.Source.Directory
import Mathlib.Data.List.Induction
import Mathlib.Data.List.TakeWhile

/-!
# Paths and their components

A path is read as a list of components: the root directory if it begins with a slash, a leading dot,
and its segments without the blank ones (`Path.components`).

**Joining appends components** (`Path.components_join`), unless the second path is absolute.
**Setting the extension changes the last component only** (`Path.components_withExtension`), and
only if that is a name (`Path.IsName`).
-/

namespace JvmOutline.Path

/-! ### Segments -/

theorem segments_eq_splitOn (path : List Char) : segments path = path.splitOn '/' := by
  induction path with
  | nil => rfl
  | cons c cs ih =>
    obtain ⟨s, rest, hs⟩ := List.exists_cons_of_ne_nil (List.splitOn_ne_nil '/' cs)
    rw [segments, ih, hs, List.splitOn_cons_eq_if_modifyHead, hs]
    by_cases hc : c = '/' <;> simp [hc]

theorem segments_ne_nil (path : List Char) : segments path ≠ [] := by
  rw [segments_eq_splitOn]
  exact List.splitOn_ne_nil '/' path

theorem segments_append_slash (front back : List Char) :
    segments (front ++ '/' :: back) = segments front ++ segments back := by
  simp only [segments_eq_splitOn, List.splitOn_append_cons_self]

theorem segments_intercalate {ss : List (List Char)} (h : ∀ s ∈ ss, '/' ∉ s) (hne : ss ≠ []) :
    segments (['/'].intercalate ss) = ss := by
  rw [segments_eq_splitOn, List.splitOn_intercalate '/' h hne]

theorem segments_of_not_mem {path : List Char} (h : '/' ∉ path) : segments path = [path] := by
  rw [segments_eq_splitOn, List.splitOn_eq_singleton h]

theorem intercalate_segments (path : List Char) : ['/'].intercalate (segments path) = path := by
  rw [segments_eq_splitOn, List.intercalate_splitOn]

/-- The characters of a segment are those of the path, without the slashes. -/
theorem mem_of_mem_segments {path s : List Char} (h : s ∈ segments path) {c : Char} (hc : c ∈ s) :
    c ∈ path ∧ c ≠ '/' := by
  induction path generalizing s with
  | nil =>
    rw [List.mem_singleton.mp h] at hc
    exact absurd hc List.not_mem_nil
  | cons d ds ih =>
    obtain ⟨first, rest, hsegments⟩ := List.exists_cons_of_ne_nil (segments_ne_nil ds)
    have hrest {t : List Char} (ht : t ∈ first :: rest) (hct : c ∈ t) : c ∈ d :: ds ∧ c ≠ '/' := by
      obtain ⟨hmem, hslash⟩ := ih (hsegments ▸ ht) hct
      exact ⟨List.mem_cons_of_mem d hmem, hslash⟩
    rw [segments, hsegments] at h
    simp only at h
    split at h
    · rcases List.mem_cons.mp h with rfl | h
      · exact absurd hc List.not_mem_nil
      · exact hrest h hc
    · next hd =>
      rcases List.mem_cons.mp h with rfl | h
      · rcases List.mem_cons.mp hc with rfl | hc
        · exact ⟨List.mem_cons_self, hd⟩
        · exact hrest List.mem_cons_self hc
      · exact hrest (List.mem_cons_of_mem _ h) hc

/-- A path that does not begin with a slash begins with a segment that is not empty. -/
theorem segments_cons {c : Char} (hc : c ≠ '/') (cs : List Char) :
    ∃ s rest, segments (c :: cs) = (c :: s) :: rest := by
  obtain ⟨s, rest, hs⟩ := List.exists_cons_of_ne_nil (segments_ne_nil cs)
  exact ⟨s, rest, by rw [segments, hs]; exact if_neg hc⟩

theorem ne_nil_of_isBlank {s : List Char} (h : isBlank s = false) : s ≠ [] := by
  rintro rfl
  nomatch h

theorem isBlank_of_not_mem {s : List Char} (hne : s ≠ []) (hdot : '.' ∉ s) :
    isBlank s = false := by
  have hsingle : s ≠ ['.'] := fun heq => hdot (heq ▸ List.mem_cons_self)
  simp [isBlank, hne, hsingle]

/-! ### Components -/

/-- The segments that are not blank. -/
def names (path : List Char) : List (List Char) := (segments path).filter fun s => !isBlank s

/-- The components that segments stand for.  At the front an empty segment is the root directory,
and a dot stays; behind it blank segments are left out. -/
def ofSegments : List (List Char) → List (List Char)
  | [] => []
  | first :: rest => (if first = [] then ['/'] else first) :: rest.filter fun s => !isBlank s

/-- The components of a path; the empty path has none. -/
def components (path : List Char) : List (List Char) :=
  if path = [] then [] else ofSegments (segments path)

theorem ofSegments_append {front : List (List Char)} (h : front ≠ []) (back : List (List Char)) :
    ofSegments (front ++ back) = ofSegments front ++ back.filter fun s => !isBlank s := by
  cases front with
  | nil => exact absurd rfl h
  | cons first rest =>
    rw [List.cons_append, ofSegments, ofSegments, List.filter_append, List.cons_append]

/-- The last segment that is not blank, with those in front of it and the blank ones behind it. -/
structure EndsIn (ss front : List (List Char)) (file : List Char) (blanks : List (List Char)) :
    Prop where
  eq : ss = front ++ file :: blanks
  notBlank : isBlank file = false
  blank : ∀ s ∈ blanks, isBlank s = true

theorem EndsIn.mem {ss front blanks : List (List Char)} {file : List Char}
    (h : EndsIn ss front file blanks) : file ∈ ss :=
  h.eq ▸ List.mem_append_right front List.mem_cons_self

/-- There is a last segment that is not blank, or there are blank segments only. -/
theorem exists_endsIn (ss : List (List Char)) :
    (∃ front file blanks, EndsIn ss front file blanks) ∨ ∀ s ∈ ss, isBlank s = true := by
  induction ss using List.reverseRecOn with
  | nil => exact .inr nofun
  | append_singleton ss s ih =>
    cases hs : isBlank s with
    | false => exact .inl ⟨ss, s, [], rfl, hs, nofun⟩
    | true =>
      rcases ih with ⟨front, file, blanks, rfl, hfile, hblanks⟩ | hall
      · refine .inl ⟨front, file, blanks ++ [s], by simp, hfile, ?_⟩
        exact List.forall_mem_append.mpr ⟨hblanks, List.forall_mem_singleton.mpr hs⟩
      · exact .inr (List.forall_mem_append.mpr ⟨hall, List.forall_mem_singleton.mpr hs⟩)

theorem filter_eq_nil_of_blank {blanks : List (List Char)} (h : ∀ s ∈ blanks, isBlank s = true) :
    blanks.filter (fun s => !isBlank s) = [] :=
  List.filter_eq_nil_iff.mpr fun s hs => by rw [h s hs]; decide

/-- Behind the last segment that is not blank there are no components. -/
theorem EndsIn.ofSegments_eq {ss front blanks : List (List Char)} {file : List Char}
    (h : EndsIn ss front file blanks) : ofSegments ss = ofSegments front ++ [file] := by
  obtain ⟨rfl, hfile, hblanks⟩ := h
  cases front with
  | nil =>
    show (if file = [] then ['/'] else file) :: blanks.filter _ = [file]
    rw [if_neg (ne_nil_of_isBlank hfile), filter_eq_nil_of_blank hblanks]
  | cons first rest =>
    rw [ofSegments_append (List.cons_ne_nil first rest), List.filter_cons, hfile,
      filter_eq_nil_of_blank hblanks]
    rfl

theorem EndsIn.components_eq {path file : List Char} {front blanks : List (List Char)}
    (h : EndsIn (segments path) front file blanks) :
    components path = ofSegments front ++ [file] := by
  have hpath : path ≠ [] := by
    rintro rfl
    exact ne_nil_of_isBlank h.notBlank (List.mem_singleton.mp h.mem)
  rw [components, if_neg hpath, h.ofSegments_eq]

theorem components_append_slash (front back : List Char) :
    components (front ++ '/' :: back) = ofSegments (segments front) ++ names back := by
  rw [components, if_neg (List.append_ne_nil_of_right_ne_nil _ (List.cons_ne_nil _ _)),
    segments_append_slash, ofSegments_append (segments_ne_nil front)]
  rfl

/-! ### Joining -/

/-- A relative path without dots has the components that it names. -/
theorem components_eq_names {path : List Char} (hdot : '.' ∉ path)
    (hslash : path.head? ≠ some '/') : components path = names path := by
  cases path with
  | nil => rfl
  | cons c cs =>
    obtain ⟨s, rest, hs⟩ := segments_cons (fun hc => hslash (congrArg some hc)) cs
    have hblank : isBlank (c :: s) = false := by
      have hmem : c :: s ∈ segments (c :: cs) := hs ▸ List.mem_cons_self
      exact isBlank_of_not_mem (List.cons_ne_nil c s) fun hc => hdot (mem_of_mem_segments hmem hc).1
    rw [components, if_neg (List.cons_ne_nil c cs), names, hs, ofSegments,
      if_neg (List.cons_ne_nil c s), List.filter_cons, hblank]
    rfl

/-- **Joining.**  A relative path without dots names its components below those of the base. -/
theorem components_join (base : List Char) {path : List Char} (hdot : '.' ∉ path)
    (hslash : path.head? ≠ some '/') :
    components (join base path) = components base ++ names path := by
  rw [join, if_neg hslash]
  split
  · next h =>
    rcases h with rfl | h
    · exact components_eq_names hdot hslash
    · obtain ⟨front, rfl⟩ := List.getLast?_eq_some_iff.mp h
      rw [List.append_assoc, List.singleton_append, components_append_slash,
        components_append_slash, show names [] = [] from rfl, List.append_nil]
  · next h =>
    rw [components_append_slash, components, if_neg fun hb => h (.inl hb)]

theorem components_ne_nil {path : List Char} (h : path ≠ []) : components path ≠ [] := by
  obtain ⟨first, rest, hs⟩ := List.exists_cons_of_ne_nil (segments_ne_nil path)
  rw [components, if_neg h, hs]
  exact List.cons_ne_nil _ _

/-! ### Setting the extension -/

/-- A component that is the name of a file or directory. -/
def IsName (component : List Char) : Prop := component ∉ [['/'], ['.'], ['.', '.']]

instance : DecidablePred IsName := fun _ => inferInstanceAs (Decidable (_ ∉ _))

theorem stem_subset (name : List Char) : stem name ⊆ name := by
  fun_cases stem name with
  | case1 => exact List.Subset.refl name
  | case2 => exact List.Subset.refl name
  | case3 dot before _ hrest =>
    have hsuffix : dot :: before <:+ name.reverse := hrest ▸ List.dropWhile_suffix _
    intro c hc
    exact List.mem_reverse.mp (hsuffix.mem (List.mem_cons_of_mem dot (List.mem_reverse.mp hc)))

theorem stem_ne_nil {name : List Char} (h : name ≠ []) : stem name ≠ [] := by
  fun_cases stem name with
  | case1 => exact h
  | case2 => exact h
  | case3 dot before hne => exact fun hnil => hne (List.reverse_eq_nil_iff.mp hnil)

theorem stem_of_not_mem {name : List Char} (h : '.' ∉ name) : stem name = name := by
  have hnil : name.reverse.dropWhile (· ≠ '.') = [] :=
    List.dropWhile_eq_nil_iff.mpr fun c hc =>
      decide_eq_true fun hdot => h (hdot ▸ List.mem_reverse.mp hc)
  rw [stem, hnil]

theorem intercalate_append_singleton (front : List (List Char)) (s t : List Char) :
    ['/'].intercalate (front ++ [s]) ++ t = ['/'].intercalate (front ++ [s ++ t]) := by
  induction front with
  | nil => simp
  | cons first rest ih =>
    obtain ⟨next, more, hmore⟩ : ∃ next more, rest ++ [s] = next :: more :=
      List.exists_cons_of_ne_nil (by simp)
    obtain ⟨next', more', hmore'⟩ : ∃ next more, rest ++ [s ++ t] = next :: more :=
      List.exists_cons_of_ne_nil (by simp)
    rw [hmore, hmore'] at ih
    rw [List.cons_append, List.cons_append, hmore, hmore', List.intercalate_cons_cons,
      List.intercalate_cons_cons, List.append_assoc, ih]

variable {path file ext : List Char} {front blanks : List (List Char)}

theorem EndsIn.dropWhile_reverse (h : EndsIn (segments path) front file blanks) :
    (segments path).reverse.dropWhile isBlank = file :: front.reverse := by
  rw [h.eq, List.reverse_append, List.reverse_cons, List.append_assoc,
    List.dropWhile_append_of_pos fun s hs => h.blank s (List.mem_reverse.mp hs),
    List.singleton_append, List.dropWhile_cons_of_neg (by rw [h.notBlank]; decide)]

/-- The extension is set on the last segment that is not blank, and those behind it are cut off. -/
theorem EndsIn.withExtension_eq (h : EndsIn (segments path) front file blanks)
    (hup : file ≠ ['.', '.']) :
    withExtension path ext = ['/'].intercalate (front ++ [stem file ++ '.' :: ext]) := by
  rw [withExtension, h.dropWhile_reverse]
  simp only
  rw [if_neg hup, List.reverse_cons, List.reverse_reverse, intercalate_append_singleton]

/-- A last segment without dots is kept, and so is everything in front of it. -/
theorem withExtension_of_plain (h : segments path = front ++ [file]) (hne : file ≠ [])
    (hdot : '.' ∉ file) : withExtension path ext = path ++ '.' :: ext := by
  have hends : EndsIn (segments path) front file [] := ⟨h, isBlank_of_not_mem hne hdot, nofun⟩
  have hup : file ≠ ['.', '.'] := fun heq => hdot (heq ▸ List.mem_cons_self)
  rw [hends.withExtension_eq hup, stem_of_not_mem hdot, ← intercalate_append_singleton, ← h,
    intercalate_segments]

/-- Segments that are all blank stand for the root directory, for the directory itself, or for
nothing. -/
theorem not_isName_of_blank {ss dirs : List (List Char)} (h : ∀ s ∈ ss, isBlank s = true)
    (hcomponents : ofSegments ss = dirs ++ [file]) : ¬ IsName file := by
  cases ss with
  | nil =>
    exact absurd hcomponents.symm (List.append_ne_nil_of_right_ne_nil _ (List.cons_ne_nil _ _))
  | cons first rest =>
    obtain ⟨hfirst, hrest⟩ := List.forall_mem_cons.mp h
    rw [ofSegments, filter_eq_nil_of_blank hrest, ← List.nil_append [_]] at hcomponents
    obtain ⟨-, rfl⟩ := List.append_singleton_inj.mp hcomponents
    rw [IsName, not_not]
    split
    · decide
    · next hne =>
      have hdot : first = ['.'] := by simpa [isBlank, hne] using hfirst
      rw [hdot]
      decide

/-- A segment that is not blank is a name, unless it is the parent directory. -/
theorem isName_of_segment (hslash : '/' ∉ file) (hfile : isBlank file = false)
    (hup : file ≠ ['.', '.']) : IsName file := by
  intro hmem
  rcases List.mem_cons.mp hmem with rfl | hmem
  · exact hslash List.mem_cons_self
  · rcases List.mem_cons.mp hmem with rfl | hmem
    · nomatch hfile
    · exact hup (List.mem_singleton.mp hmem)

/-- What a path without dots names are names. -/
theorem isName_of_mem_names (hdot : '.' ∉ path) (h : file ∈ names path) :
    '.' ∉ file ∧ IsName file := by
  obtain ⟨hmem, hfile⟩ := List.mem_filter.mp h
  have hplain : '.' ∉ file := fun hc => hdot (mem_of_mem_segments hmem hc).1
  refine ⟨hplain, isName_of_segment (fun hc => (mem_of_mem_segments hmem hc).2 rfl) ?_ ?_⟩
  · simpa using hfile
  · rintro rfl
    exact hplain List.mem_cons_self

theorem isBlank_stem_append (hfile : isBlank file = false) :
    isBlank (stem file ++ '.' :: ext) = false := by
  obtain ⟨c, cs, hstem⟩ := List.exists_cons_of_ne_nil (stem_ne_nil (ne_nil_of_isBlank hfile))
  simp [isBlank, hstem]

/-- The extended path has the same segments up to the file, and ends with it. -/
theorem EndsIn.withExtension (h : EndsIn (segments path) front file blanks)
    (hup : file ≠ ['.', '.']) (hext : '/' ∉ ext) :
    EndsIn (segments (Path.withExtension path ext)) front (stem file ++ '.' :: ext) [] := by
  have hslash {s : List Char} (hs : s ∈ front ++ file :: blanks) : '/' ∉ s := fun hc =>
    (mem_of_mem_segments (h.eq ▸ hs) hc).2 rfl
  have hstem : '/' ∉ stem file := fun hc =>
    hslash (List.mem_append_right _ List.mem_cons_self) (stem_subset file hc)
  refine ⟨?_, isBlank_stem_append h.notBlank, nofun⟩
  rw [h.withExtension_eq hup]
  refine segments_intercalate (List.forall_mem_append.mpr
    ⟨fun s hs => hslash (List.mem_append_left _ hs), List.forall_mem_singleton.mpr ?_⟩) (by simp)
  simpa using ⟨hstem, hext⟩

/-- **Setting the extension.**  If the last component of a path is a name, this component gets the
extension, and otherwise the path stays as it is. -/
theorem components_withExtension (path ext : List Char) (hext : '/' ∉ ext) :
    (∃ dirs file, components path = dirs ++ [file] ∧ IsName file ∧
      components (withExtension path ext) = dirs ++ [stem file ++ '.' :: ext]) ∨
    withExtension path ext = path ∧
      ∀ dirs file, components path = dirs ++ [file] → ¬ IsName file := by
  rcases exists_endsIn (segments path) with ⟨front, file, blanks, h⟩ | hall
  · by_cases hup : file = ['.', '.']
    · right
      refine ⟨?_, fun dirs last hlast => ?_⟩
      · rw [withExtension, h.dropWhile_reverse]
        exact if_pos hup
      · obtain ⟨-, rfl⟩ := List.append_singleton_inj.mp (h.components_eq.symm.trans hlast)
        rw [hup]
        decide
    · left
      have hslash : '/' ∉ file := fun hc => (mem_of_mem_segments h.mem hc).2 rfl
      exact ⟨ofSegments front, file, h.components_eq, isName_of_segment hslash h.notBlank hup,
        (h.withExtension hup hext).components_eq⟩
  · right
    have hnil : (segments path).reverse.dropWhile isBlank = [] :=
      List.dropWhile_eq_nil_iff.mpr fun s hmem => hall s (List.mem_reverse.mp hmem)
    refine ⟨by rw [withExtension, hnil], fun dirs file h => ?_⟩
    rw [components] at h
    split at h
    · exact absurd h.symm (List.append_ne_nil_of_right_ne_nil _ (List.cons_ne_nil _ _))
    · exact not_isName_of_blank hall h

end JvmOutline.Path
