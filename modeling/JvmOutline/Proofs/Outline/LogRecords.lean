import JvmOutline.Proofs.Outline.Erasure

/-!
# The record of what is left out

A declaration leaves out attributes that it has no use for, and a class leaves out its static
initializers.  Each of these is reported once, in the place where it is met: first those of the
class itself, in the order of the stream, then those of its methods, of its fields and of its record
components, declaration by declaration (`ClassOutline.omissions`).

`Logged.Reports` says what a computation reports: all of some records if it returns a value, and the
first so many of them if it fails.  A step reports what its item says, so a run reports what its
items say one after the other (`Logged.reports_foldlM`, `Logged.reports_mapM`).

**The log of an outline** (`ClassOutline.records_all_omissions`) opens with its begin, closes with
its end, and holds in between what is left out and nothing else.
-/

namespace JvmOutline

variable {pool : Pool}

/-! ### Records -/

/-- A record of a log: a level and a text. -/
structure LogRecord where
  level : LogLevel
  text : String
  deriving DecidableEq

/-- The record of an event. -/
def LogEvent.record (e : LogEvent) : LogRecord := ⟨e.level, e.message⟩

namespace Logged

variable {α β : Type} {rs ss : List LogRecord}

/-- The records of what a computation reports. -/
def records (x : Logged α) : List LogRecord := x.log.map LogEvent.record

/-- A computation reports records: all of them if it returns a value, and the first so many of them
if it fails. -/
structure Reports (x : Logged α) (rs : List LogRecord) : Prop where
  initial : x.records <+: rs
  complete : ∀ a, x.result = .ok a → x.records = rs

namespace Reports

theorem pure (a : α) : (Pure.pure a : Logged α).Reports [] :=
  ⟨List.prefix_rfl, fun _ _ => rfl⟩

theorem check (x : Except OutlineError α) : (Logged.check x).Reports [] :=
  ⟨List.prefix_rfl, fun _ _ => rfl⟩

theorem report (e : LogEvent) : (Logged.report e).Reports [e.record] :=
  ⟨List.prefix_rfl, fun _ _ => rfl⟩

variable {x : Logged α} {f : α → Logged β}

theorem bind (hx : x.Reports rs) (hf : ∀ a, (f a).Reports ss) : (x >>= f).Reports (rs ++ ss) := by
  obtain ⟨log, e | a⟩ := x
  · exact ⟨hx.initial.trans (List.prefix_append rs ss), nofun⟩
  · have hall : log.map LogEvent.record = rs := hx.complete a rfl
    have happend : (Logged.mk log (.ok a) >>= f).records = rs ++ (f a).records := by
      rw [← hall]
      exact List.map_append
    refine ⟨?_, fun b hb => ?_⟩
    · rw [happend]
      exact (List.prefix_append_right_inj rs).mpr (hf a).initial
    · rw [happend, (hf a).complete b hb]

/-- A first part that reports nothing. -/
theorem after_check {x : Except OutlineError α} (hf : ∀ a, (f a).Reports rs) :
    (Logged.check x >>= f).Reports rs := (check x).bind hf

/-- A second part that reports nothing. -/
theorem bind_silent (hx : x.Reports rs) (hf : ∀ a, (f a).Reports []) : (x >>= f).Reports rs := by
  rw [← List.append_nil rs]
  exact hx.bind hf

end Reports

/-- Steps over a list report what each item says. -/
theorem reports_foldlM {f : β → α → Logged β} {rs : α → List LogRecord}
    (h : ∀ b a, (f b a).Reports (rs a)) (as : List α) (b : β) :
    (as.foldlM f b).Reports (as.flatMap rs) := by
  induction as generalizing b with
  | nil => exact .pure b
  | cons a as ih =>
    rw [List.foldlM_cons, List.flatMap_cons]
    exact (h b a).bind ih

theorem reports_mapM {f : α → Logged β} {rs : α → List LogRecord}
    (h : ∀ a, (f a).Reports (rs a)) (as : List α) : (as.mapM f).Reports (as.flatMap rs) := by
  induction as with
  | nil => exact .pure []
  | cons a as ih =>
    rw [List.mapM_cons, List.flatMap_cons]
    exact (h a).bind fun _ => ih.bind_silent fun _ => .pure _

end Logged

/-! ### What is left out -/

/-- The record of an attribute that the declaration in `scope` has no use for. -/
def Attribute.omissions (kinds : List AttributeKind) (scope : Scope) (a : Attribute) :
    List LogRecord :=
  if a.isUsed kinds then [] else [⟨.trace, scope.text ++ ": ignoring " ++ a.name⟩]

theorem Logged.Reports.ignored {α : Type} {kinds : List AttributeKind} {scope : Scope}
    {a : Attribute} (h : a.isUsed kinds = false) (p : α) :
    (do Logged.report (.ignored scope a.name); return p : Logged α).Reports
      (a.omissions kinds scope) := by
  rw [Attribute.omissions, h]
  exact (Logged.Reports.report _).bind_silent fun _ => .pure p

/-- What a field or method in `scope` leaves out of an element. -/
def MemberElement.omissions (kinds : List AttributeKind) (scope : Scope) :
    MemberElement → List LogRecord
  | .flags _ => []
  | .attr a => a.omissions kinds scope

/-- What a field leaves out. -/
def Member.fieldOmissions (f : Member) : List LogRecord :=
  f.elements.flatMap (MemberElement.omissions AttributeKind.ofField (.field f.name))

/-- What a method leaves out. -/
def Member.methodOmissions (m : Member) : List LogRecord :=
  m.elements.flatMap (MemberElement.omissions AttributeKind.ofMethod (.method m.name m.descriptor))

/-- What a record component leaves out. -/
def Component.omissions (c : Component) : List LogRecord :=
  c.attributes.flatMap (Attribute.omissions AttributeKind.ofComponent (.component c.name))

/-- What the class in `scope` itself leaves out of an element. -/
def Element.omissions (scope : Scope) : Element → List LogRecord
  | .method m =>
    if m.name = "<clinit>" then [⟨.trace, scope.text ++ ": skipping static initializer"⟩] else []
  | .attr a => a.omissions AttributeKind.ofClass scope
  | _ => []

/-- What an element leaves out that is a method; a static initializer is left out as a whole. -/
def Element.methodOmissions : Element → List LogRecord
  | .method m => if m.name = "<clinit>" then [] else m.methodOmissions
  | _ => []

/-- What an element leaves out that is a field. -/
def Element.fieldOmissions : Element → List LogRecord
  | .field f => f.fieldOmissions
  | _ => []

/-- What an element leaves out that lists record components. -/
def Element.componentOmissions : Element → List LogRecord
  | .attr (.record cs) => cs.flatMap Component.omissions
  | _ => []

/-- What the outline of a class leaves out: what the class itself leaves out, then what its methods,
its fields and its record components do. -/
def ClassOutline.omissions (name : String) (stream : List Element) : List LogRecord :=
  stream.flatMap (Element.omissions (.class name)) ++ (stream.flatMap Element.methodOmissions ++
    (stream.flatMap Element.fieldOmissions ++ stream.flatMap Element.componentOmissions))

namespace Element

variable (stream : List Element)

theorem flatMap_methodOmissions : (stream.filterMap method?).flatMap Member.methodOmissions =
    stream.flatMap methodOmissions := by
  rw [flatMap_filterMap]
  refine congrArg (stream.flatMap ·) (funext fun e => ?_)
  cases e with
  | method m =>
    rw [methodOmissions]
    split
    · next hname => rw [method?_of_initializer hname, Option.elim_none]
    · next hname => rw [method?_of_ne hname, Option.elim_some]
  | _ => rfl

theorem flatMap_fieldOmissions : (stream.filterMap field?).flatMap Member.fieldOmissions =
    stream.flatMap fieldOmissions := by
  rw [flatMap_filterMap]
  exact congrArg (stream.flatMap ·) (funext fun e => by cases e <;> rfl)

theorem flatMap_componentOmissions : (stream.flatMap components).flatMap Component.omissions =
    stream.flatMap componentOmissions := by
  rw [List.flatMap_assoc]
  refine congrArg (stream.flatMap ·) (funext fun e => ?_)
  cases e with
  | attr a => cases a <;> rfl
  | _ => rfl

end Element

/-! ### The level of the records -/

/-- What is left out is reported as a trace. -/
theorem Attribute.level_of_mem_omissions {kinds : List AttributeKind} {scope : Scope}
    {a : Attribute} {r : LogRecord} (h : r ∈ a.omissions kinds scope) : r.level = .trace := by
  rw [omissions] at h
  split at h
  · nomatch h
  · rw [List.mem_singleton.mp h]

theorem MemberElement.level_of_mem_omissions {kinds : List AttributeKind} {scope : Scope}
    {e : MemberElement} {r : LogRecord} (h : r ∈ e.omissions kinds scope) : r.level = .trace := by
  cases e with
  | flags _ => nomatch h
  | attr a => exact a.level_of_mem_omissions h

theorem Element.level_of_mem_omissions {scope : Scope} {e : Element} {r : LogRecord}
    (h : r ∈ e.omissions scope) : r.level = .trace := by
  cases e with
  | method m =>
    rw [omissions] at h
    split at h
    · rw [List.mem_singleton.mp h]
    · nomatch h
  | attr a => exact a.level_of_mem_omissions h
  | _ => nomatch h

theorem Member.level_of_mem_omissions {kinds : List AttributeKind} {scope : Scope} {m : Member}
    {r : LogRecord} (h : r ∈ m.elements.flatMap (MemberElement.omissions kinds scope)) :
    r.level = .trace := by
  obtain ⟨e, -, h⟩ := List.mem_flatMap.mp h
  exact e.level_of_mem_omissions h

theorem Component.level_of_mem_omissions {c : Component} {r : LogRecord}
    (h : r ∈ c.omissions) : r.level = .trace := by
  obtain ⟨a, -, h⟩ := List.mem_flatMap.mp h
  exact a.level_of_mem_omissions h

theorem ClassOutline.level_of_mem_omissions {name : String} {stream : List Element} {r : LogRecord}
    (h : r ∈ omissions name stream) : r.level = .trace := by
  rw [omissions, ← Element.flatMap_methodOmissions, ← Element.flatMap_fieldOmissions,
    ← Element.flatMap_componentOmissions] at h
  simp only [List.mem_append, List.mem_flatMap] at h
  rcases h with ⟨e, -, h⟩ | ⟨m, -, h⟩ | ⟨f, -, h⟩ | ⟨c, -, h⟩
  · exact e.level_of_mem_omissions h
  · exact m.level_of_mem_omissions h
  · exact f.level_of_mem_omissions h
  · exact c.level_of_mem_omissions h

/-! ### What is not left out -/

section

variable {kinds : List AttributeKind} {scope : Scope}

theorem Attribute.omissions_of_isUsed {a : Attribute} (h : a.isUsed kinds = true) :
    a.omissions kinds scope = [] :=
  if_pos h

theorem MemberElement.omissions_of_isUsed {e : MemberElement} (h : e.isUsed kinds = true) :
    e.omissions kinds scope = [] := by
  cases e with
  | flags _ => rfl
  | attr a => exact a.omissions_of_isUsed h

theorem Member.omissions_erased (kinds : List AttributeKind) (scope : Scope) (m : Member) :
    (m.erased kinds).elements.flatMap (MemberElement.omissions kinds scope) = [] :=
  List.flatMap_eq_nil_iff.mpr fun _ he =>
    MemberElement.omissions_of_isUsed (List.mem_filter.mp he).2

theorem Component.omissions_erased (c : Component) : c.erased.omissions = [] :=
  List.flatMap_eq_nil_iff.mpr fun _ ha => Attribute.omissions_of_isUsed (List.mem_filter.mp ha).2

theorem Element.omissions_of_erase? {e e' : Element} (h : e.erase? = some e') :
    e'.omissions scope = [] := by
  cases e with
  | method m =>
    rw [erase?] at h
    split at h
    · cases h
    · next hname =>
      cases h
      exact if_neg hname
  | attr a =>
    cases a with
    | annots v _ => cases v <;> cases h <;> rfl
    | signature _ | permittedSubclasses _ | record _ | innerClasses _ =>
      cases h
      rfl
    | _ => cases h
  | _ =>
    cases h
    rfl

end

/-- What is left when all that is left out is erased has nothing more to leave out. -/
theorem ClassOutline.omissions_erased (name : String) (stream : List Element) :
    omissions name (stream.filterMap Element.erase?) = [] := by
  rw [omissions, ← Element.flatMap_methodOmissions, ← Element.flatMap_fieldOmissions,
    ← Element.flatMap_componentOmissions, Element.methods_erased, Element.fields_erased,
    Element.components_erased]
  simp only [List.append_eq_nil_iff, List.flatMap_eq_nil_iff, List.forall_mem_map,
    List.mem_filterMap]
  refine ⟨?_, fun m _ => m.omissions_erased _ _, fun f _ => f.omissions_erased _ _,
    fun c _ => c.omissions_erased⟩
  rintro e' ⟨e, -, he⟩
  exact Element.omissions_of_erase? he

/-! ### What is reported -/

theorem FieldParts.reports_accept (field : String) (p : FieldParts) (e : MemberElement) :
    (accept pool field p e).Reports (e.omissions AttributeKind.ofField (.field field)) := by
  cases e with
  | flags _ => exact .check _
  | attr a =>
    cases a with
    | annots v _ => cases v <;> exact .check _
    | signature _ | constantValue _ => exact .check _
    | _ => exact .ignored rfl p

theorem FieldOutline.reports_ofMember (f : Member) :
    (ofMember pool f).Reports f.fieldOmissions :=
  (Logged.reports_foldlM (FieldParts.reports_accept f.name) _ _).bind_silent fun _ =>
    .after_check fun _ => .pure _

theorem MethodParts.reports_accept (scope : Scope) (p : MethodParts) (e : MemberElement) :
    (accept pool scope p e).Reports (e.omissions AttributeKind.ofMethod scope) := by
  cases e with
  | flags _ => exact .check _
  | attr a =>
    cases a with
    | annots v _ | parameterAnnots v _ => cases v <;> exact .check _
    | signature _ | annotDefault _ => exact .check _
    | exceptions _ | methodParameters _ => exact .pure _
    | _ => exact .ignored rfl p

theorem MethodOutline.reports_ofMember (m : Member) :
    (ofMember pool m).Reports m.methodOmissions :=
  (Logged.reports_foldlM (MethodParts.reports_accept _) _ _).bind_silent fun _ =>
    .after_check fun _ => .pure _

theorem ComponentParts.reports_accept (scope : Scope) (p : ComponentParts) (a : Attribute) :
    (accept pool scope p a).Reports (a.omissions AttributeKind.ofComponent scope) := by
  cases a with
  | annots v _ | typeAnnots v _ => cases v <;> exact .check _
  | signature _ => exact .check _
  | _ => exact .ignored rfl p

theorem ComponentOutline.reports_ofComponent (c : Component) :
    (ofComponent pool c).Reports c.omissions :=
  (Logged.reports_foldlM (ComponentParts.reports_accept _) _ _).bind_silent fun _ => .pure _

theorem HeaderParts.reports_accept (scope : Scope) (p : HeaderParts) (e : Element) :
    (accept scope p e).Reports (e.omissions scope) := by
  cases e with
  | flags _ | superclass _ | interfaces _ => exact .check _
  | field _ => exact .pure p
  | method m =>
    rw [accept, staticInitializer, Element.omissions]
    split
    · exact (Logged.Reports.report _).bind_silent fun _ => .pure p
    · exact .pure p
  | attr a =>
    cases a with
    | annots v _ => cases v <;> exact .check _
    | signature _ => exact .check _
    | permittedSubclasses _ | record _ | innerClasses _ => exact .pure p
    | _ => exact .ignored rfl p

namespace ClassOutline

theorem reports_compose (name : String) (pool : Pool) (stream : List Element) :
    (compose name pool stream).Reports (omissions name stream) := by
  rw [omissions, ← Element.flatMap_methodOmissions, ← Element.flatMap_fieldOmissions,
    ← Element.flatMap_componentOmissions]
  refine (Logged.reports_foldlM (HeaderParts.reports_accept _) _ _).bind fun header => ?_
  refine .after_check fun flags => ?_
  refine (Logged.reports_mapM MethodOutline.reports_ofMember _).bind fun methods => ?_
  refine (Logged.reports_mapM FieldOutline.reports_ofMember _).bind fun fields => ?_
  refine .after_check fun visible => .after_check fun invisible => ?_
  exact (Logged.reports_mapM ComponentOutline.reports_ofComponent _).bind_silent fun _ => .pure _

/-- The begin of an outline is reported, then what is left out, and then the end; if there is no
outline, the log stops before the end. -/
theorem records_ofElements (name : String) (pool : Pool) (stream : List Element) :
    (∀ c, (ofElements name pool stream).result = .ok c →
      (ofElements name pool stream).records = (LogEvent.begun name).record ::
        (omissions name stream ++ [(LogEvent.done name c.methodCount c.fieldCount).record])) ∧
    (∀ e, (ofElements name pool stream).result = .error e → ∃ rs, rs <+: omissions name stream ∧
      (ofElements name pool stream).records = (LogEvent.begun name).record :: rs) := by
  by_cases hname : name = ""
  · have hfail : ofElements name pool stream =
        ⟨[.begun name], .error (.missing .className .classFile)⟩ := by
      rw [ofElements, if_pos hname]
      rfl
    rw [hfail]
    refine ⟨?_, fun _ _ => ⟨[], List.nil_prefix, rfl⟩⟩
    rintro _ ⟨⟩
  · rw [ofElements, if_neg hname]
    have hcompose := reports_compose name pool stream
    generalize compose name pool stream = composed at hcompose ⊢
    obtain ⟨log, e | c⟩ := composed
    · refine ⟨?_, fun _ _ => ⟨_, hcompose.initial, rfl⟩⟩
      rintro _ ⟨⟩
    · have hlog : log.map LogEvent.record = omissions name stream := hcompose.complete c rfl
      constructor
      · rintro _ ⟨⟩
        change _ :: List.map _ (log ++ [.done name c.methodCount c.fieldCount]) = _
        rw [List.map_append, hlog, List.map_singleton]
      · rintro _ ⟨⟩

/-- **Nothing is left out without a record.**  When the outline of a class is produced, the log is
its begin, then what is left out, and then its end with the numbers of methods and fields; and what
is not left out decides the outline, with nothing more to report.  When no outline is produced, the
log is the begin and the first so many of the records of what is left out, and no end. -/
theorem records_all_omissions (name : String) (pool : Pool) (stream : List Element) :
    (∀ c, (ofElements name pool stream).result = .ok c →
      (ofElements name pool stream).records = ⟨.debug, "Decompiling " ++ name⟩ ::
        (omissions name stream ++ [⟨.debug, "Decompiled " ++ name ++ " (" ++
          toString (c.methods.getD []).length ++ " methods, " ++
            toString (c.fields.getD []).length ++ " fields)"⟩])) ∧
    (∀ e, (ofElements name pool stream).result = .error e →
      (∃ rs, rs <+: omissions name stream ∧
        (ofElements name pool stream).records = ⟨.debug, "Decompiling " ++ name⟩ :: rs) ∧
      ∀ text, ⟨.debug, "Decompiled " ++ text⟩ ∉ (ofElements name pool stream).records) ∧
    (∀ r ∈ omissions name stream, r.level = .trace) ∧
    (ofElements name pool (stream.filterMap Element.erase?)).result =
      (ofElements name pool stream).result ∧
    omissions name (stream.filterMap Element.erase?) = [] := by
  obtain ⟨hok, herror⟩ := records_ofElements name pool stream
  refine ⟨hok, fun e he => ?_, fun _ => level_of_mem_omissions, result_ofElements_erased, ?_⟩
  · obtain ⟨rs, hrs, hrecords⟩ := herror e he
    refine ⟨⟨rs, hrs, hrecords⟩, fun text hmem => ?_⟩
    rw [hrecords, List.mem_cons] at hmem
    rcases hmem with hbegun | hmem
    · have htext : "Decompiled " ++ text = "Decompiling " ++ name := congrArg LogRecord.text hbegun
      have := congrArg String.toList htext
      simp at this
    · nomatch level_of_mem_omissions (hrs.subset hmem)
  · exact omissions_erased name stream

end ClassOutline

/-- A stream in which the class, its method, its field and its record component have attributes that
they have no use for, around a static initializer. -/
def Element.untidyStream : List Element :=
  [.attr (.other "SourceFile"), .flags ⟨0x0021⟩,
    .field ⟨"side", "I", [.flags ⟨0x0012⟩, .attr (.exceptions []), .attr (.other "Synthetic")]⟩,
    .method ⟨"<clinit>", "()V", [.flags ⟨0x0008⟩, .attr (.other "Code")]⟩,
    .method ⟨"area", "()I", [.flags ⟨0x0001⟩, .attr (.other "Code"), .attr (.constantValue 3)]⟩,
    .attr (.constantValue 3), .attr (.record [⟨"side", "I", [.innerClasses []]⟩])]

/-- A stream with two signatures after a static initializer. -/
def Element.doubledStream : List Element :=
  [.method ⟨"<clinit>", "()V", []⟩, .attr (.signature "A"), .attr (.signature "B"),
    .attr (.other "SourceFile")]

namespace ClassOutline

theorem records_all_omissions_untidy :
    (∃ c, (ofElements "Square" .empty Element.untidyStream).result = .ok c ∧
      (ofElements "Square" .empty Element.untidyStream).records =
        [⟨.debug, "Decompiling Square"⟩, ⟨.trace, "class Square: ignoring SourceFile"⟩,
          ⟨.trace, "class Square: skipping static initializer"⟩,
          ⟨.trace, "class Square: ignoring ConstantValue"⟩,
          ⟨.trace, "method area()I: ignoring Code"⟩,
          ⟨.trace, "method area()I: ignoring ConstantValue"⟩,
          ⟨.trace, "field side: ignoring Exceptions"⟩, ⟨.trace, "field side: ignoring Synthetic"⟩,
          ⟨.trace, "record component side: ignoring InnerClasses"⟩,
          ⟨.debug, "Decompiled Square (1 methods, 1 fields)"⟩]) ∧
    (∃ e rs, (ofElements "Square" .empty Element.doubledStream).result = .error e ∧
      rs <+: omissions "Square" Element.doubledStream ∧
        (ofElements "Square" .empty Element.doubledStream).records =
          ⟨.debug, "Decompiling Square"⟩ :: rs) ∧
    ⟨.debug, "Decompiled Square (0 methods, 0 fields)"⟩ ∉
      (ofElements "Square" .empty Element.doubledStream).records := by
  obtain ⟨hok, -⟩ := records_all_omissions "Square" .empty Element.untidyStream
  obtain ⟨-, herror, -⟩ := records_all_omissions "Square" .empty Element.doubledStream
  have hcount : (fun c : ClassOutline => (c.methodCount, c.fieldCount)) <$>
      (ofElements "Square" .empty Element.untidyStream).result = .ok (1, 1) := by decide +kernel
  obtain ⟨c, hc, hcount⟩ := map_eq_ok_iff.mp hcount
  obtain ⟨hmethods, hfields⟩ := Prod.mk.inj hcount
  have hfail : verdict (ofElements "Square" .empty Element.doubledStream).result =
      .error (.repeated (.attr .signature) (.class "Square")) := by decide +kernel
  have hfail := verdict_eq_error_iff.mp hfail
  obtain ⟨⟨rs, hrs, hrecords⟩, hno⟩ := herror _ hfail
  refine ⟨⟨c, hc, ?_⟩, ⟨_, rs, hfail, hrs, hrecords⟩, hno "Square (0 methods, 0 fields)"⟩
  rw [hok c hc, ← methodCount, ← fieldCount, hmethods, hfields]
  decide +kernel

end ClassOutline

end JvmOutline
