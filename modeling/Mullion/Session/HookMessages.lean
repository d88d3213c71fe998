import Mullion.Session.HookProtocol

/-!
# What is kept of hook messages

A hook message goes through the validator of its kind, which takes over some properties and leaves
out the rest. What is asked is that it loses nothing which has the interface of its kind, that what
it accepts has that interface, and that it throws nothing. Messages are compared up to the order of
their keys (`Same`).

A validator is a list of fields, and `Field.Exact` is what is asked of one of them: a property is
taken over exactly if it is what its field says. Each kind of field has its lemma (`exact_required`,
`exact_optional`, `exact_diffFiles` and so on). From these the whole object follows once for all
kinds: `readFields_keeps` and `readFields_sound`, then `validate_keeps` and `validate_sound`, with
the browser actions as the one kind that is built in another way. `parse_exact` is the result for
lines. `received_exact` carries it to a connection, where the lines come cut into chunks: each line
that is handled adds its message, by induction over the lines (`foldl_written`).
-/

namespace Mullion
namespace HookProtocol

open Fields (get set)
open ControlSocket (Value)

/-! ## Equal messages -/

/-- Equal, but for the order of the keys of objects. -/
inductive Same : Value → Value → Prop
  | refl (value : Value) : Same value value
  | array {xs ys : List Value} (hlength : xs.length = ys.length)
      (h : ∀ (i : Nat) (x y : Value), xs[i]? = some x → ys[i]? = some y → Same x y) :
      Same (.array xs) (.array ys)
  | object {fs gs : Object} (hkeys : ∀ key, (get fs key).isSome = (get gs key).isSome)
      (h : ∀ (key : String) (x y : Value), get fs key = some x → get gs key = some y → Same x y) :
      Same (.object fs) (.object gs)

/-- Both absent, or both there and equal. -/
def SameField : Option Value → Option Value → Prop
  | none, none => True
  | some x, some y => Same x y
  | _, _ => False

theorem SameField.refl (value : Option Value) : SameField value value := by
  cases value with
  | none => trivial
  | some value => exact Same.refl value

/-- The message was parsed, and no field was lost. -/
def Keeps (payload : Object) (result : Option (Except String Object)) : Prop :=
  ∃ message, result = some (.ok message) ∧ Same (.object message) (.object payload)

/-! ## Objects -/

theorem get_object_none {entries : List (String × Option Value)} {key : String}
    (h : key ∉ entries.map Prod.fst) : get (object entries) key = none := by
  refine Fields.get_eq_none_iff.2 fun hmem => h ?_
  obtain ⟨e, he, rfl⟩ := List.mem_map.1 hmem
  obtain ⟨entry, hentry, hsome⟩ := List.mem_filterMap.1 he
  obtain ⟨value, -, rfl⟩ := Option.map_eq_some_iff.1 hsome
  exact List.mem_map_of_mem (f := Prod.fst) hentry

theorem get_object {entries : List (String × Option Value)} (hnodup : (entries.map Prod.fst).Nodup)
    {e : String × Option Value} (he : e ∈ entries) : get (object entries) e.1 = e.2 := by
  induction entries with
  | nil => cases he
  | cons e' entries ih =>
    obtain ⟨hnotMem, hnodup⟩ := List.nodup_cons.1 hnodup
    have hcons : object (e' :: entries) =
        object [e'] ++ object entries := by
      rw [object, object, object, ← List.filterMap_append]
      rfl
    rw [hcons, Fields.get_append]
    rcases List.mem_cons.1 he with rfl | he
    · rw [get_object_none hnotMem, Option.none_or]
      obtain ⟨key, value⟩ := e
      cases value with
      | none => rfl
      | some value => simp [object, Fields.get]
    · have hne : e'.1 ≠ e.1 := fun heq => hnotMem (heq ▸ List.mem_map_of_mem (f := Prod.fst) he)
      rw [ih hnodup he, get_object_none (by simpa using hne.symm), Option.or_none]

/-- An object with the fields of the other one. -/
theorem same_object {entries : List (String × Option Value)} {fields : Object}
    (hnodup : (entries.map Prod.fst).Nodup)
    (hkeys : ∀ e ∈ fields, e.1 ∈ entries.map Prod.fst)
    (hvalues : ∀ e ∈ entries, SameField e.2 (get fields e.1)) :
    Same (.object (object entries)) (.object fields) := by
  have hfield : ∀ key, SameField (get (object entries) key) (get fields key) := by
    intro key
    by_cases hkey : key ∈ entries.map Prod.fst
    · obtain ⟨e, he, rfl⟩ := List.mem_map.1 hkey
      rw [get_object hnodup he]
      exact hvalues e he
    · rw [get_object_none hkey]
      have hnone : get fields key = none := by
        refine Fields.get_eq_none_iff.2 fun hmem => hkey ?_
        obtain ⟨e, he, rfl⟩ := List.mem_map.1 hmem
        exact hkeys e he
      rw [hnone]
      trivial
  refine .object (fun key => ?_) fun key x y hx hy => ?_
  · have := hfield key
    revert this
    cases get (object entries) key <;> cases get fields key <;> simp [SameField]
  · have := hfield key
    rw [hx, hy] at this
    exact this

/-- Entries that are what the properties say, one by one. -/
abbrev Admitted : List Property → List (String × Option Value) → Prop :=
  List.Forall₂ fun p e => e.1 = p.name ∧ p.admits e.2 = true

theorem Admitted.names {ps : List Property} {entries : List (String × Option Value)}
    (h : Admitted ps entries) : entries.map Prod.fst = ps.map Property.name := by
  induction h with
  | nil => rfl
  | cons h _ ih => rw [List.map_cons, List.map_cons, h.1, ih]

theorem Admitted.exists {ps : List Property} {entries : List (String × Option Value)}
    (h : Admitted ps entries) {p : Property} (hp : p ∈ ps) :
    ∃ e ∈ entries, e.1 = p.name ∧ p.admits e.2 = true := by
  induction h with
  | nil => cases hp
  | cons h _ ih =>
    rcases List.mem_cons.1 hp with rfl | hp
    · exact ⟨_, List.mem_cons_self, h⟩
    · obtain ⟨e, he, hadmits⟩ := ih hp
      exact ⟨e, List.mem_cons_of_mem _ he, hadmits⟩

theorem conforms_iff {ps : List Property} {fields : Object} : conforms ps fields = true ↔
    (∀ p ∈ ps, p.admits (get fields p.name) = true) ∧
      ∀ e ∈ fields, e.1 ∈ ps.map Property.name := by
  rw [conforms, Bool.and_eq_true, List.all_eq_true, List.all_eq_true]
  simp only [decide_eq_true_eq]

theorem conforms_object {ps : List Property} {entries : List (String × Option Value)}
    (h : Admitted ps entries) (hnodup : (ps.map Property.name).Nodup) :
    conforms ps (object entries) = true := by
  rw [← h.names] at hnodup
  refine conforms_iff.2 ⟨fun p hp => ?_, fun e he => ?_⟩
  · obtain ⟨e, he, hname, hadmits⟩ := h.exists hp
    rw [← hname, get_object hnodup he]
    exact hadmits
  · rw [← h.names]
    obtain ⟨entry, hentry, hsome⟩ := List.mem_filterMap.1 he
    obtain ⟨value, -, rfl⟩ := Option.map_eq_some_iff.1 hsome
    exact List.mem_map_of_mem (f := Prod.fst) hentry

/-! ## Exact fields -/

/-- A field is taken over exactly where it is what the property says. -/
structure Field.Exact (p : Property) (field : Field) : Prop where
  name : field.name = p.name
  returns : ∀ value, field.read value ≠ none
  keeps : ∀ value, p.admits value = true →
    ∃ value', field.read value = some (.ok value') ∧ SameField value' value
  sound : ∀ value value', field.read value = some (.ok value') → p.admits value' = true

section Exact

variable {holds : Value → Bool} {name error : String}

theorem filter_eq_self {value : Option Value} (h : value.all holds = true) :
    value.filter holds = value := by
  cases value with
  | none => rfl
  | some value => exact if_pos h

theorem all_filter (value : Option Value) : (value.filter holds).all holds = true := by
  cases value with
  | none => rfl
  | some value =>
    rw [Option.filter_some]
    split
    · next h => exact h
    · rfl

theorem exact_required : (required holds name error).Exact (req name holds) where
  name := rfl
  returns _ := Option.some_ne_none _
  keeps value h := ⟨value, congrArg some (if_pos h), .refl value⟩
  sound value value' h := by
    have hread := Option.some.inj h
    split at hread
    · next hholds =>
      cases hread
      exact hholds
    · cases hread

theorem exact_optional : (optional holds name error).Exact (opt name holds) where
  name := rfl
  returns _ := Option.some_ne_none _
  keeps value h := ⟨value, congrArg some (if_pos h), .refl value⟩
  sound value value' h := by
    have hread := Option.some.inj h
    split at hread
    · next hholds =>
      cases hread
      exact hholds
    · cases hread

theorem exact_lenient : (lenient holds name).Exact (opt name holds) where
  name := rfl
  returns _ := Option.some_ne_none _
  keeps value h := by
    refine ⟨value.filter holds, rfl, ?_⟩
    rw [filter_eq_self (show value.all holds = true from h)]
    exact .refl value
  sound value value' h := by
    cases h
    exact all_filter value

theorem exact_tasks (kind : HookMessageKind) : (validateBackgroundTasksField kind).Exact
    (opt "backgroundTasks" (isArrayOf isPlainObject)) where
  name := rfl
  returns value := by
    cases value with
    | none => exact Option.some_ne_none _
    | some value => cases value <;> exact Option.some_ne_none _
  keeps value h := by
    cases value with
    | none => exact ⟨none, rfl, trivial⟩
    | some value =>
      cases value with
      | array tasks =>
        have hall : tasks.filter isPlainObject = tasks :=
          List.filter_eq_self.2 (List.all_eq_true.1 h)
        refine ⟨some (.array (tasks.filter isPlainObject)), rfl, ?_⟩
        rw [hall]
        exact .refl _
      | _ => cases h
  sound value value' h := by
    cases value with
    | none =>
      cases h
      rfl
    | some value =>
      cases value with
      | array tasks =>
        cases h
        exact List.all_eq_true.2 fun task hmem => (List.mem_filter.1 hmem).2
      | _ => cases h

theorem isString_of_isNonempty {value : Option Value} (h : value.all isNonempty = true) :
    value.all isString = true := by
  cases value with
  | none => rfl
  | some value =>
    cases value with
    | string text => rfl
    | _ => cases h

theorem exact_cwdTranscriptPath : cwdTranscriptPath.Exact (opt "transcriptPath" isNonempty) where
  name := rfl
  returns _ := Option.some_ne_none _
  keeps value h := by
    have hall : value.all isNonempty = true := h
    refine ⟨value.filter isNonempty, congrArg some (if_pos (isString_of_isNonempty hall)), ?_⟩
    rw [filter_eq_self hall]
    exact .refl value
  sound value value' h := by
    have hread := Option.some.inj h
    split at hread
    · cases hread
      exact all_filter value
    · cases hread

theorem exact_todoPriority :
    todoPriority.Exact (req "priority" (isLiteral ["high", "medium", "low"])) where
  name := rfl
  returns _ := Option.some_ne_none _
  keeps value h := by
    cases value with
    | none => cases h
    | some value =>
      cases value with
      | string text =>
        refine ⟨some (.string text), congrArg some ((if_pos rfl).trans ?_), .refl _⟩
        have hall : (some (Value.string text)).all (isLiteral ["high", "medium", "low"]) = true := h
        rw [filter_eq_self hall]
        rfl
      | _ => cases h
  sound value value' h := by
    have hread := Option.some.inj h
    split at hread
    · cases hread
      have hall := @all_filter (isLiteral ["high", "medium", "low"]) value
      revert hall
      generalize value.filter (isLiteral ["high", "medium", "low"]) = kept
      cases kept with
      | none => exact fun _ => rfl
      | some kept => exact id
    · cases hread

theorem exists_of_isObject {ps : List Property} {value : Value}
    (h : isObject ps value = true) :
    ∃ fields, value = .object fields ∧ conforms ps fields = true := by
  cases value with
  | object fields => exact ⟨fields, rfl, h⟩
  | _ => cases h

theorem property_ne_none {value : Value} (h : isReference value = true) (key : String) :
    ∃ field, property key value = some field := by
  cases value with
  | object fields => exact ⟨_, rfl⟩
  | array items => exact ⟨_, rfl⟩
  | _ => cases h

theorem exact_questionTool : questionTool.Exact
    (opt "tool" (isObject [req "messageID" isString, req "callID" isString])) where
  name := rfl
  returns value := by
    cases value with
    | none => exact Option.some_ne_none _
    | some tool =>
      simp only [questionTool]
      split
      · next href =>
        obtain ⟨messageID, hmessage⟩ := property_ne_none href "messageID"
        obtain ⟨callID, hcall⟩ := property_ne_none href "callID"
        rw [hmessage, hcall]
        exact Option.some_ne_none _
      · exact Option.some_ne_none _
  keeps value h := by
    cases value with
    | none => exact ⟨none, rfl, trivial⟩
    | some tool =>
      obtain ⟨fields, rfl, hconforms⟩ := exists_of_isObject h
      obtain ⟨hadmits, hkeys⟩ := conforms_iff.1 hconforms
      rw [List.forall_mem_cons, List.forall_mem_singleton] at hadmits
      obtain ⟨hmessage, hcall⟩ := hadmits
      have hnodup : ["messageID", "callID"].Nodup := by decide
      refine ⟨_, congrArg some (if_pos ?_), same_object hnodup hkeys ?_⟩
      · exact Bool.and_eq_true_iff.2 ⟨hmessage, hcall⟩
      · rw [List.forall_mem_cons, List.forall_mem_singleton]
        exact ⟨.refl _, .refl _⟩
  sound value value' h := by
    cases value with
    | none =>
      cases h
      rfl
    | some tool =>
      simp only [questionTool] at h
      split at h
      · next href =>
        obtain ⟨messageID, hmessage⟩ := property_ne_none href "messageID"
        obtain ⟨callID, hcall⟩ := property_ne_none href "callID"
        rw [hmessage, hcall] at h
        have hread := Option.some.inj h
        split at hread
        · next hboth =>
          cases hread
          obtain ⟨hmessage', hcall'⟩ := Bool.and_eq_true_iff.1 hboth
          exact conforms_object (.cons ⟨rfl, hmessage'⟩ (.cons ⟨rfl, hcall'⟩ .nil)) (by decide)
        · cases hread
      · cases h

/-! ### The files of a diff -/

theorem diffFile_ne_none (entry : Value) : diffFile entry ≠ none := by
  unfold diffFile
  split
  · next href =>
    obtain ⟨file, hfile⟩ := property_ne_none href "file"
    obtain ⟨additions, hadditions⟩ := property_ne_none href "additions"
    obtain ⟨deletions, hdeletions⟩ := property_ne_none href "deletions"
    obtain ⟨patch, hpatch⟩ := property_ne_none href "patch"
    simp only [hfile, hadditions, hdeletions, hpatch, Option.bind_eq_bind, Option.bind_some]
    split <;> exact Option.some_ne_none _
  · exact Option.some_ne_none _

theorem or_filter_eq {value default : Option Value} (h : value.any holds = true) :
    (value.filter holds).or default = value := by
  cases value with
  | none => cases h
  | some value =>
    rw [filter_eq_self (show (some value).all holds = true from h)]
    rfl

theorem any_or_filter {value : Option Value} {default : Value} (h : holds default = true) :
    ((value.filter holds).or (some default)).any holds = true := by
  have hall := @all_filter holds value
  revert hall
  generalize value.filter holds = kept
  cases kept with
  | none => exact fun _ => h
  | some kept => exact id

theorem diffFile_keeps {entry : Value} (h : isObject diffEntry entry = true) :
    ∃ entry', diffFile entry = some (some entry') ∧ Same entry' entry := by
  obtain ⟨fields, rfl, hconforms⟩ := exists_of_isObject h
  obtain ⟨hadmits, hkeys⟩ := conforms_iff.1 hconforms
  simp only [diffEntry, List.forall_mem_cons] at hadmits
  obtain ⟨hfile, hadditions, hdeletions, hpatch, -⟩ := hadmits
  have hnodup : ["file", "additions", "deletions", "patch"].Nodup := by decide
  refine ⟨_, if_pos hfile, same_object hnodup hkeys ?_⟩
  simp only [List.forall_mem_cons]
  refine ⟨.refl _, ?_, ?_, ?_, fun _ => by simp⟩
  · rw [or_filter_eq (show (get fields "additions").any isNumber = true from hadditions)]
    exact .refl _
  · rw [or_filter_eq (show (get fields "deletions").any isNumber = true from hdeletions)]
    exact .refl _
  · rw [filter_eq_self (show (get fields "patch").all isNonempty = true from hpatch)]
    exact .refl _

theorem diffFile_sound {entry entry' : Value} (h : diffFile entry = some (some entry')) :
    isObject diffEntry entry' = true := by
  unfold diffFile at h
  split at h
  · next href =>
    obtain ⟨file, hfile⟩ := property_ne_none href "file"
    obtain ⟨additions, hadditions⟩ := property_ne_none href "additions"
    obtain ⟨deletions, hdeletions⟩ := property_ne_none href "deletions"
    obtain ⟨patch, hpatch⟩ := property_ne_none href "patch"
    simp only [hfile, hadditions, hdeletions, hpatch, Option.bind_eq_bind, Option.bind_some] at h
    split at h
    · next hnonempty =>
      cases h
      exact conforms_object (.cons ⟨rfl, hnonempty⟩ (.cons ⟨rfl, any_or_filter rfl⟩
        (.cons ⟨rfl, any_or_filter rfl⟩ (.cons ⟨rfl, all_filter patch⟩ .nil)))) (by decide)
    · cases h
  · cases h

theorem mapM_ne_none (files : List Value) : files.mapM diffFile ≠ none := by
  induction files with
  | nil => exact Option.some_ne_none _
  | cons file files ih =>
    obtain ⟨entry, hentry⟩ := Option.ne_none_iff_exists'.1 (diffFile_ne_none file)
    obtain ⟨entries, hentries⟩ := Option.ne_none_iff_exists'.1 ih
    rw [List.mapM_cons, hentry, hentries]
    exact Option.some_ne_none _

theorem mapM_keeps {files : List Value} (h : ∀ file ∈ files, isObject diffEntry file = true) :
    ∃ entries : List Value, files.mapM diffFile = some (entries.map some) ∧
      List.Forall₂ Same entries files := by
  induction files with
  | nil => exact ⟨[], rfl, .nil⟩
  | cons file files ih =>
    obtain ⟨hfile, hfiles⟩ := List.forall_mem_cons.1 h
    obtain ⟨entry, hentry, hsame⟩ := diffFile_keeps hfile
    obtain ⟨entries, hentries, hall⟩ := ih hfiles
    refine ⟨entry :: entries, ?_, .cons hsame hall⟩
    rw [List.mapM_cons, hentry, hentries]
    rfl

theorem mapM_sound {files : List Value} {entries : List (Option Value)}
    (h : files.mapM diffFile = some entries) {entry : Value} (hentry : some entry ∈ entries) :
    isObject diffEntry entry = true := by
  induction files generalizing entries with
  | nil =>
    cases h
    cases hentry
  | cons file files ih =>
    obtain ⟨first, hfirst⟩ := Option.ne_none_iff_exists'.1 (diffFile_ne_none file)
    obtain ⟨rest, hrest⟩ := Option.ne_none_iff_exists'.1 (mapM_ne_none files)
    rw [List.mapM_cons, hfirst, hrest] at h
    cases h
    rcases List.mem_cons.1 hentry with heq | hmem
    · rw [← heq] at hfirst
      exact diffFile_sound hfirst
    · exact ih hrest hmem

theorem same_array {xs ys : List Value} (h : List.Forall₂ Same xs ys) :
    Same (.array xs) (.array ys) := by
  refine .array h.length_eq fun i x y hx hy => ?_
  obtain ⟨hi, rfl⟩ := List.getElem?_eq_some_iff.1 hx
  obtain ⟨hi', rfl⟩ := List.getElem?_eq_some_iff.1 hy
  exact (List.forall₂_iff_get.1 h).2 i hi hi'

theorem exact_diffFiles : diffFiles.Exact (req "files" fun files =>
    isArrayOf (isObject diffEntry) files && isNonemptyArray files) where
  name := rfl
  returns value := by
    cases value with
    | none => exact Option.some_ne_none _
    | some value =>
      cases value with
      | array files =>
        simp only [diffFiles]
        split
        · exact Option.some_ne_none _
        · rw [Ne, Option.map_eq_none_iff]
          exact mapM_ne_none files
      | _ => exact Option.some_ne_none _
  keeps value h := by
    cases value with
    | none => cases h
    | some value =>
      obtain ⟨hall, hnonempty⟩ := Bool.and_eq_true_iff.1 (show (_ && _) = true from h)
      cases value with
      | array files =>
        obtain ⟨entries, hentries, hsame⟩ := mapM_keeps (List.all_eq_true.1 hall)
        have hne : files ≠ [] := by
          rintro rfl
          cases hnonempty
        have hne' : entries ≠ [] := by
          rintro rfl
          cases hsame
          exact hne rfl
        refine ⟨some (.array entries), ?_, same_array hsame⟩
        have hkept : (entries.map some).filterMap id = entries := by
          rw [List.filterMap_map]
          exact List.filterMap_some
        simp only [diffFiles, hne, if_false, hentries, Option.map_some, hkept, hne']
      | _ => cases hall
  sound value value' h := by
    cases value with
    | none => cases h
    | some value =>
      cases value with
      | array files =>
        simp only [diffFiles] at h
        split at h
        · cases h
        · obtain ⟨entries, hentries, hread⟩ := Option.map_eq_some_iff.1 h
          split at hread
          · cases hread
          · next hne =>
            cases hread
            refine Bool.and_eq_true_iff.2 ⟨List.all_eq_true.2 fun entry hmem => ?_, ?_⟩
            · obtain ⟨entry', hentry', heq⟩ := List.mem_filterMap.1 hmem
              exact mapM_sound hentries (by rw [← show entry' = some entry from heq]; exact hentry')
            · rw [isNonemptyArray, Bool.not_eq_true', List.isEmpty_eq_false_iff]
              exact hne
      | _ => cases h

end Exact

/-! ## Every kind -/

section Kinds

variable {payload : Object} {ps : List Property} {fields : List Field}

theorem readFields_ne_none (h : List.Forall₂ Field.Exact ps fields) :
    readFields payload fields ≠ none := by
  induction h with
  | nil => exact Option.some_ne_none _
  | @cons p field ps fields hfield _ ih =>
    rw [readFields]
    split
    · next hnone => exact absurd hnone (hfield.returns _)
    · exact Option.some_ne_none _
    · rw [Ne, Option.map_eq_none_iff]
      exact ih

theorem readFields_keeps (h : List.Forall₂ Field.Exact ps fields)
    (hadmits : ∀ p ∈ ps, p.admits (get payload p.name) = true) :
    ∃ entries, readFields payload fields = some (.ok entries) ∧
      entries.map Prod.fst = ps.map Property.name ∧
      ∀ e ∈ entries, SameField e.2 (get payload e.1) := by
  induction h with
  | nil => exact ⟨[], rfl, rfl, fun e he => by cases he⟩
  | @cons p field ps fields hfield _ ih =>
    obtain ⟨hp, hps⟩ := List.forall_mem_cons.1 hadmits
    obtain ⟨value, hread, hsame⟩ := hfield.keeps _ hp
    obtain ⟨entries, hentries, hnames, hall⟩ := ih hps
    refine ⟨(field.name, value) :: entries, ?_, ?_, ?_⟩
    · rw [readFields, hfield.name, hread, hentries]
      rfl
    · rw [List.map_cons, List.map_cons, hnames, hfield.name]
    · rw [List.forall_mem_cons, hfield.name]
      exact ⟨hsame, hall⟩

theorem readFields_sound (h : List.Forall₂ Field.Exact ps fields)
    {entries : List (String × Option Value)}
    (hentries : readFields payload fields = some (.ok entries)) : Admitted ps entries := by
  induction h generalizing entries with
  | nil =>
    cases hentries
    exact .nil
  | @cons p field ps fields hfield _ ih =>
    rw [readFields] at hentries
    split at hentries
    · cases hentries
    · cases hentries
    · next value hread =>
      obtain ⟨result, hresult, heq⟩ := Option.map_eq_some_iff.1 hentries
      cases result with
      | error error => cases heq
      | ok rest =>
        cases heq
        exact .cons ⟨hfield.name, hfield.sound _ _ hread⟩ (ih hresult)

/-- The validators of all kinds but one rebuild the message from exact fields. -/
theorem validate_eq {kind : HookMessageKind} (h : kind ≠ .browserAction) :
    ∃ fields, validate kind = rebuild kind fields ∧
      List.Forall₂ Field.Exact (properties kind) fields := by
  cases kind with
  | notification => exact ⟨_, rfl, .cons exact_required (.cons exact_required .nil)⟩
  | progress =>
    exact ⟨_, rfl, .cons exact_required (.cons exact_optional (.cons (exact_tasks _)
      (.cons exact_optional (.cons exact_optional .nil))))⟩
  | fileChange =>
    exact ⟨_, rfl, .cons exact_required (.cons exact_required (.cons exact_lenient
      (.cons exact_lenient .nil)))⟩
  | reviewGate =>
    exact ⟨_, rfl, .cons exact_required (.cons exact_required (.cons exact_lenient .nil))⟩
  | promoteRequest => exact ⟨_, rfl, .cons exact_required (.cons exact_lenient .nil)⟩
  | sessionStart => exact ⟨_, rfl, .cons exact_optional (.cons exact_optional .nil)⟩
  | permissionRequest => exact ⟨_, rfl, .cons exact_required (.cons exact_required .nil)⟩
  | toolDone => exact ⟨_, rfl, .cons exact_required .nil⟩
  | stopFailure =>
    exact ⟨_, rfl, .cons exact_required (.cons exact_lenient (.cons exact_lenient .nil))⟩
  | toolFailure =>
    exact ⟨_, rfl, .cons exact_required (.cons exact_required (.cons exact_optional
      (.cons exact_lenient (.cons exact_lenient .nil))))⟩
  | sessionEnd => exact ⟨_, rfl, .cons exact_required (.cons exact_optional .nil)⟩
  | planReady =>
    exact ⟨_, rfl, .cons exact_required (.cons exact_optional (.cons exact_optional .nil))⟩
  | gitBranch => exact ⟨_, rfl, .cons exact_required (.cons exact_lenient .nil)⟩
  | cwdChanged => exact ⟨_, rfl, .cons exact_required (.cons exact_cwdTranscriptPath .nil)⟩
  | agentSession => exact ⟨_, rfl, .cons exact_required .nil⟩
  | turnStart => exact ⟨_, rfl, .cons exact_optional .nil⟩
  | compact => exact ⟨_, rfl, .cons exact_required (.cons exact_optional .nil)⟩
  | subagent =>
    exact ⟨_, rfl, .cons exact_required (.cons exact_lenient (.cons exact_lenient
      (.cons exact_optional (.cons (exact_tasks _) .nil))))⟩
  | elicitation => exact ⟨_, rfl, .cons exact_required (.cons exact_optional .nil)⟩
  | question =>
    exact ⟨_, rfl, .cons exact_required (.cons exact_optional (.cons exact_optional
      (.cons exact_questionTool .nil)))⟩
  | todo =>
    exact ⟨_, rfl, .cons exact_required (.cons exact_required (.cons exact_todoPriority .nil))⟩
  | sessionDiff => exact ⟨_, rfl, .cons exact_diffFiles .nil⟩
  | browserAction => exact absurd rfl h
  | notificationResolved => exact ⟨_, rfl, .nil⟩
  | permissionResolved => exact ⟨_, rfl, .nil⟩
  | planResolved => exact ⟨_, rfl, .nil⟩
  | githubToken => exact ⟨_, rfl, .nil⟩

theorem names_nodup (kind : HookMessageKind) : ((interface kind).map Property.name).Nodup := by
  cases kind <;> decide

/-- The kind of a message with an interface. -/
theorem kind_of_hasInterface {kind : HookMessageKind} (h : hasInterface kind payload = true) :
    get payload "kind" = some (.string kind.text) := by
  have hadmits := List.all_eq_true.1 (Bool.and_eq_true_iff.1 h).1 _ List.mem_cons_self
  have hkind : (get payload "kind").any (isLiteral [kind.text]) = true := hadmits
  cases hvalue : get payload "kind" with
  | none =>
    rw [hvalue] at hkind
    cases hkind
  | some value =>
    rw [hvalue] at hkind
    cases value with
    | string text => rw [List.mem_singleton.1 (of_decide_eq_true hkind)]
    | _ => cases hkind

theorem hasInterface_of_conforms {kind : HookMessageKind}
    (h : conforms (interface kind) payload = true) : hasInterface kind payload = true := by
  obtain ⟨hadmits, hkeys⟩ := Bool.and_eq_true_iff.1 h
  exact Bool.and_eq_true_iff.2 ⟨hadmits, Bool.or_eq_true_iff.2 (.inr hkeys)⟩

theorem conforms_of_hasInterface {kind : HookMessageKind} (hkind : kind ≠ .browserAction)
    (h : hasInterface kind payload = true) : conforms (interface kind) payload = true := by
  obtain ⟨hadmits, hkeys⟩ := Bool.and_eq_true_iff.1 h
  rcases Bool.or_eq_true_iff.1 hkeys with heq | hkeys
  · exact absurd (of_decide_eq_true heq) hkind
  · exact Bool.and_eq_true_iff.2 ⟨hadmits, hkeys⟩

/-- A message that is rebuilt from exact fields has lost nothing. -/
theorem rebuild_keeps {kind : HookMessageKind}
    (hfields : List.Forall₂ Field.Exact (properties kind) fields)
    (h : conforms (interface kind) payload = true) :
    Keeps payload (rebuild kind fields payload) := by
  obtain ⟨hadmits, hkeys⟩ := conforms_iff.1 h
  obtain ⟨entries, hentries, hnames, hsame⟩ :=
    readFields_keeps hfields (List.forall_mem_cons.1 hadmits).2
  have hall : (("kind", some (Value.string kind.text)) :: entries).map Prod.fst =
      (interface kind).map Property.name := by
    rw [List.map_cons, hnames]
    rfl
  refine ⟨message kind entries, ?_, same_object ?_ ?_ ?_⟩
  · rw [rebuild, hentries]
    rfl
  · rw [hall]
    exact names_nodup kind
  · rw [hall]
    exact hkeys
  · rw [List.forall_mem_cons, kind_of_hasInterface (hasInterface_of_conforms h)]
    exact ⟨.refl _, hsame⟩

theorem rebuild_sound {kind : HookMessageKind} {result : Object}
    (hfields : List.Forall₂ Field.Exact (properties kind) fields)
    (h : rebuild kind fields payload = some (.ok result)) :
    conforms (interface kind) result = true := by
  obtain ⟨read, hread, heq⟩ := Option.map_eq_some_iff.1 h
  cases read with
  | error error => cases heq
  | ok entries =>
    cases heq
    refine conforms_object (.cons ⟨rfl, ?_⟩ (readFields_sound hfields hread)) (names_nodup kind)
    exact decide_eq_true (List.mem_singleton_self kind.text)

/-! ### Browser actions -/

theorem get_spread (object payload : Object) (key : String) :
    get (spread object payload) key = (get payload key).or (get object key) := by
  induction payload generalizing object with
  | nil => rfl
  | cons e payload ih =>
    obtain ⟨k, v⟩ := e
    rw [spread, List.foldl_cons, ← spread, ih, Fields.get_set, Fields.get]
    by_cases hkey : key = k
    · subst hkey
      rw [if_pos rfl, if_pos rfl, Option.or_assoc]
      rfl
    · rw [if_neg hkey, if_neg (Ne.symm hkey), Option.or_none]

/-- A browser action is taken over with all its fields. -/
theorem get_browserAction {value : Value} (hkind : get payload "kind" = some value) (key : String) :
    get (spread (message .browserAction []) payload) key = get payload key := by
  rw [get_spread]
  by_cases hkey : key = "kind"
  · rw [hkey, hkind]
    rfl
  · have hnone : get (message .browserAction []) key = none :=
      get_object_none (by simpa using hkey)
    rw [hnone, Option.or_none]

theorem validateBrowserAction_ne_none (payload : Object) :
    validateBrowserAction payload ≠ none := by
  unfold validateBrowserAction
  split
  · split <;> exact Option.some_ne_none _
  · exact Option.some_ne_none _

theorem validateBrowserAction_keeps (h : hasInterface .browserAction payload = true) :
    Keeps payload (validateBrowserAction payload) := by
  have haction : (get payload "action").any (isLiteral knownBrowserActions) = true :=
    List.all_eq_true.1 (Bool.and_eq_true_iff.1 h).1 _
      (List.mem_cons_of_mem _ List.mem_cons_self)
  have hget := get_browserAction (kind_of_hasInterface h)
  refine ⟨spread (message .browserAction []) payload, ?_, .object (fun key => by rw [hget])
    fun key x y hx hy => ?_⟩
  · unfold validateBrowserAction
    split
    · next action heq =>
      rw [heq] at haction
      rw [if_pos (of_decide_eq_true haction)]
    · next hne =>
      cases hvalue : get payload "action" with
      | none =>
        rw [hvalue] at haction
        cases haction
      | some value =>
        rw [hvalue] at haction
        cases value with
        | string text => exact absurd hvalue (hne text)
        | _ => cases haction
  · rw [hget, hy] at hx
    cases hx
    exact .refl _

theorem validateBrowserAction_sound {result : Object}
    (hkind : get payload "kind" = some (.string "browser_action"))
    (h : validateBrowserAction payload = some (.ok result)) :
    hasInterface .browserAction result = true := by
  unfold validateBrowserAction at h
  split at h
  · next action haction =>
    split at h
    · next hknown =>
      cases h
      refine Bool.and_eq_true_iff.2 ⟨?_, rfl⟩
      have hget := get_browserAction hkind
      simp only [interface, properties, List.all_cons, List.all_nil, Bool.and_true,
        Bool.and_eq_true]
      constructor
      · rw [show (req "kind" _).name = "kind" from rfl, hget, hkind]
        rfl
      · rw [show (req "action" _).name = "action" from rfl, hget, haction]
        exact decide_eq_true hknown
    · cases h
  · cases h

/-! ### The switch -/

theorem validate_ne_none (kind : HookMessageKind) (payload : Object) :
    validate kind payload ≠ none := by
  by_cases hkind : kind = .browserAction
  · subst hkind
    exact validateBrowserAction_ne_none payload
  · obtain ⟨fields, heq, hfields⟩ := validate_eq hkind
    rw [heq, rebuild, Ne, Option.map_eq_none_iff]
    exact readFields_ne_none hfields

theorem validate_keeps {kind : HookMessageKind} (h : hasInterface kind payload = true) :
    Keeps payload (validate kind payload) := by
  by_cases hkind : kind = .browserAction
  · subst hkind
    exact validateBrowserAction_keeps h
  · obtain ⟨fields, heq, hfields⟩ := validate_eq hkind
    rw [heq]
    exact rebuild_keeps hfields (conforms_of_hasInterface hkind h)

theorem validate_sound {kind : HookMessageKind} {result : Object}
    (hkind : get payload "kind" = some (.string kind.text))
    (h : validate kind payload = some (.ok result)) : hasInterface kind result = true := by
  by_cases hbrowser : kind = .browserAction
  · subst hbrowser
    exact validateBrowserAction_sound hkind h
  · obtain ⟨fields, heq, hfields⟩ := validate_eq hbrowser
    rw [heq] at h
    exact hasInterface_of_conforms (rebuild_sound hfields h)

end Kinds

/-! ## Lines -/

/-- A kind that is not known. -/
def Unknown (payload : Object) : Prop :=
  ∃ kind, get payload "kind" = some (.string kind) ∧ kind ≠ "" ∧ HookMessageKind.ofText kind = none

variable (parse : List Char → Option Value)

/-- What `parseHookMessage` promises of a line. -/
structure Promise (line : List Char) : Prop where
  /-- nothing is thrown -/
  returns : parseHookMessage parse line ≠ none
  keeps : ∀ kind payload, parse line = some (.object payload) → hasInterface kind payload = true →
    Keeps payload (parseHookMessage parse line)
  unknown : ∀ payload, parse line = some (.object payload) → Unknown payload →
    parseHookMessage parse line = some (.ok payload)
  sound : ∀ message, parseHookMessage parse line = some (.ok message) →
    (∃ kind, hasInterface kind message = true) ∨ Unknown message
  /-- what is accepted is accepted again -/
  again : ∀ message, parseHookMessage parse line = some (.ok message) →
    ∀ line', parse line' = some (.object message) → Keeps message (parseHookMessage parse line')

variable {parse} {line : List Char}

theorem ofText_eq_some {text : String} {kind : HookMessageKind}
    (h : HookMessageKind.ofText text = some kind) : kind.text = text := by
  rw [HookMessageKind.ofText] at h
  simpa using List.find?_some h

theorem text_ne_empty (kind : HookMessageKind) : kind.text ≠ "" := by
  cases kind <;> decide

theorem parse_of_hasInterface {payload : Object} {kind : HookMessageKind}
    (hline : parse line = some (.object payload)) (h : hasInterface kind payload = true) :
    parseHookMessage parse line = validate kind payload := by
  rw [parseHookMessage, hline]
  simp only [kind_of_hasInterface h, text_ne_empty kind, if_false,
    HookMessageKind.ofText_text kind]

theorem parse_of_unknown {payload : Object} (hline : parse line = some (.object payload))
    (h : Unknown payload) : parseHookMessage parse line = some (.ok payload) := by
  obtain ⟨kind, hkind, hne, hnone⟩ := h
  rw [parseHookMessage, hline]
  simp only [hkind, hne, if_false, hnone]

theorem parse_sound {message : Object}
    (h : parseHookMessage parse line = some (.ok message)) :
    (∃ kind, hasInterface kind message = true) ∨ Unknown message := by
  unfold parseHookMessage at h
  split at h
  · cases h
  · next payload hline =>
    split at h
    · next text htext =>
      split at h
      · cases h
      · next hne =>
        split at h
        · next kind hkind =>
          rw [← ofText_eq_some hkind] at htext
          exact .inl ⟨kind, validate_sound htext h⟩
        · next hnone =>
          cases h
          exact .inr ⟨text, htext, hne, hnone⟩
    · cases h
  · cases h

theorem Keeps.of_unknown {message : Object} (hline : parse line = some (.object message))
    (h : Unknown message) : Keeps message (parseHookMessage parse line) :=
  ⟨message, parse_of_unknown hline h, .refl _⟩

theorem Keeps.of_hasInterface {message : Object} {kind : HookMessageKind}
    (hline : parse line = some (.object message)) (h : hasInterface kind message = true) :
    Keeps message (parseHookMessage parse line) := by
  rw [parse_of_hasInterface hline h]
  exact validate_keeps h

/-- **No field is lost.** A line whose message has the interface of its kind, or a kind that is not
known, is parsed as that message; what is accepted has its interface and is accepted again; and
nothing is thrown. -/
theorem parse_exact (parse : List Char → Option Value) (line : List Char) : Promise parse line where
  returns := by
    unfold parseHookMessage
    split
    · exact Option.some_ne_none _
    · split
      · split
        · exact Option.some_ne_none _
        · split
          · exact validate_ne_none _ _
          · exact Option.some_ne_none _
      · exact Option.some_ne_none _
    · exact Option.some_ne_none _
  keeps _ _ hline h := .of_hasInterface hline h
  unknown _ hline h := parse_of_unknown hline h
  sound _ h := parse_sound h
  again message h line' hline' := by
    rcases parse_sound h with ⟨kind, hkind⟩ | hunknown
    · exact .of_hasInterface hline' hkind
    · exact .of_unknown hline' hunknown

/-! ## A connection -/

/-- A line that a hook writes: `JSON.parse` reads it as a message that has its interface. -/
structure Written (parse : List Char → Option Value) where
  line : List Char
  payload : Object
  unbroken : '\n' ∉ line
  visible : HookInput.isBlank line = false
  parsed : parse line = some (.object payload)
  accepted : (∃ kind, hasInterface kind payload = true) ∨ Unknown payload

/-- The lines of a hook connection are read by `parseHookMessage`, which throws nothing. -/
def reader (handshake : List Char → Option String) (parse : List Char → Option Value) :
    HookInput.Reader Object where
  handshake := handshake
  parse line := (parseHookMessage parse line).getD (.error "")

/-- The event of a line is its message. -/
def Received (sessionId : String) (w : Written parse) (event : HookInput.Event Object) : Prop :=
  ∃ message, event = .received sessionId message ∧ Same (.object message) (.object w.payload)

theorem Written.keeps (w : Written parse) :
    Keeps w.payload (parseHookMessage parse w.line) := by
  rcases w.accepted with ⟨kind, hkind⟩ | hunknown
  · exact .of_hasInterface w.parsed hkind
  · exact .of_unknown w.parsed hunknown

variable {handshake : List Char → Option String} {sessionId : String}

/-- One line of a connection behind its handshake. -/
theorem handle_written {o : HookInput.Outcome Object} (hopen : o.destroyed = false)
    (hsession : o.sessionId = some sessionId) (w : Written parse) :
    ∃ event, Received sessionId w event ∧
      (HookInput.handle (reader handshake parse) o w.line).events = o.events ++ [event] ∧
      (HookInput.handle (reader handshake parse) o w.line).destroyed = false ∧
      (HookInput.handle (reader handshake parse) o w.line).sessionId = some sessionId := by
  obtain ⟨message, hmessage, hsame⟩ := w.keeps
  have hread : (reader handshake parse).parse w.line = .ok message := by
    show (parseHookMessage parse w.line).getD (.error "") = .ok message
    rw [hmessage]
    rfl
  have hline : HookInput.handle (reader handshake parse) o w.line =
      { o with lines := o.lines + 1, events := o.events ++ [.received sessionId message] } := by
    rw [HookInput.handle_of_open _ hopen, HookInput.Outcome.line]
    simp only [w.visible, Bool.false_eq_true, if_false, hsession, hread]
  rw [hline]
  exact ⟨_, ⟨message, rfl, hsame⟩, rfl, hopen, hsession⟩

theorem foldl_written {o : HookInput.Outcome Object} (hopen : o.destroyed = false)
    (hsession : o.sessionId = some sessionId) (ws : List (Written parse)) :
    ∃ events, List.Forall₂ (Received sessionId) ws events ∧
      ((ws.map Written.line).foldl (HookInput.handle (reader handshake parse)) o).events =
        o.events ++ events := by
  induction ws generalizing o with
  | nil => exact ⟨[], .nil, (List.append_nil _).symm⟩
  | cons w ws ih =>
    obtain ⟨event, hevent, hevents, hopen', hsession'⟩ := handle_written hopen hsession w
    obtain ⟨events, hall, heq⟩ := ih hopen' hsession'
    refine ⟨event :: events, .cons hevent hall, ?_⟩
    rw [List.map_cons, List.foldl_cons, heq, hevents, List.append_assoc]
    rfl

/-- **Messages on a connection.** Behind its handshake, every message that a hook writes is received
once, in order and with all its fields, however the bytes are cut into good chunks. -/
theorem received_exact (handshake : List Char → Option String) (parse : List Char → Option Value)
    (first : List Char) (sessionId : String) (ws : List (Written parse))
    (chunks : List (List UInt8)) (hunbroken : '\n' ∉ first)
    (hvisible : HookInput.isBlank first = false) (hfirst : handshake first = some sessionId)
    (hcut : HookInput.Cut (first :: ws.map Written.line) chunks)
    (hgood : HookInput.Good (first :: ws.map Written.line) chunks) :
    List.Forall₂ (Received sessionId) ws
      (HookInput.outcome (reader handshake parse) chunks).events := by
  have hlines : ∀ line ∈ first :: ws.map Written.line, '\n' ∉ line := by
    rw [List.forall_mem_cons]
    refine ⟨hunbroken, fun line hmem => ?_⟩
    obtain ⟨w, -, rfl⟩ := List.mem_map.1 hmem
    exact w.unbroken
  have hopened : HookInput.handle (reader handshake parse) .initial first =
      ⟨some sessionId, 1, [], false⟩ := by
    rw [HookInput.handle_of_open _ rfl, HookInput.Outcome.line]
    simp only [hvisible, Bool.false_eq_true, if_false, HookInput.Outcome.initial, reader, hfirst]
  rw [HookInput.outcome_of_good _ hlines hcut hgood, HookInput.read, List.foldl_cons, hopened]
  obtain ⟨events, hall, heq⟩ :=
    @foldl_written parse handshake sessionId ⟨some sessionId, 1, [], false⟩ rfl rfl ws
  rw [heq]
  exact hall

/-! ### Two messages -/

/-- `{"token":"t1"}` -/
def handshakeText : List Char := "\x7b\"token\":\"t1\"\x7d".toList

/-- `{"kind":"tool_done","tool":"Bash"}` -/
def toolDoneText : List Char := "\x7b\"kind\":\"tool_done\",\"tool\":\"Bash\"\x7d".toList

/-- `{"kind":"file_change","path":"a.ts","action":"modify"}` -/
def fileChangeText : List Char :=
  "\x7b\"kind\":\"file_change\",\"path\":\"a.ts\",\"action\":\"modify\"\x7d".toList

/-- The session of the token. -/
def oneToken (line : List Char) : Option String := if line = handshakeText then some "s1" else none

/-- `JSON.parse`, of the two messages. -/
def parseTwo (line : List Char) : Option Value :=
  if line = toolDoneText then
    some (.object [("kind", .string "tool_done"), ("tool", .string "Bash")])
  else if line = fileChangeText then
    some (.object
      [("kind", .string "file_change"), ("path", .string "a.ts"), ("action", .string "modify")])
  else none

def toolDone : Written parseTwo where
  line := toolDoneText
  payload := [("kind", .string "tool_done"), ("tool", .string "Bash")]
  unbroken := by decide +kernel
  visible := by decide +kernel
  parsed := if_pos rfl
  accepted := .inl ⟨.toolDone, by decide +kernel⟩

def fileChange : Written parseTwo where
  line := fileChangeText
  payload := [("kind", .string "file_change"), ("path", .string "a.ts"),
    ("action", .string "modify")]
  unbroken := by decide +kernel
  visible := by decide +kernel
  parsed := (if_neg (by decide +kernel)).trans (if_pos rfl)
  accepted := .inl ⟨.fileChange, by decide +kernel⟩

/-- What the hook sends. -/
def sent : List UInt8 :=
  Utf8.encode (HookInput.textOf [handshakeText, toolDoneText, fileChangeText])

/-- The second message comes in two chunks, the first of which has the end of the handshake. -/
theorem received_tool_done :
    List.Forall₂ (Received "s1") [toolDone, fileChange]
      (HookInput.outcome (reader oneToken parseTwo)
        [sent.take 9, (sent.drop 9).take 60, sent.drop 69]).events := by
  have hcut : HookInput.Cut [handshakeText, toolDoneText, fileChangeText]
      [sent.take 9, (sent.drop 9).take 60, sent.drop 69] := by
    decide +kernel
  have hascii : ∀ line ∈ [handshakeText, toolDoneText, fileChangeText], ∀ c ∈ line,
      c.toNat ≤ 0x7f := HookInput.ascii_of_all (by decide +kernel)
  exact received_exact oneToken parseTwo handshakeText "s1" [toolDone, fileChange] _
    (by decide +kernel) (by decide +kernel) rfl hcut
    (HookInput.good_of_ascii hascii (by decide +kernel) hcut)

end HookProtocol
end Mullion
